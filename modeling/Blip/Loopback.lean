import Blip.Dispatch

/-!
# A pair of loopback WebSockets

`LoopbackProvider::connect` joins two `LoopbackWebSocket`s, each an actor with its own mailbox.
A socket that is not yet ready to use puts `_send`, `_simulateReceived` and `_close` back on its
mailbox half a second later. A message sent after the socket has become ready can then reach the
peer before one sent earlier: the peer's delegate receives them out of order.
-/

set_option autoImplicit false

namespace Blip.Loopback
open Blip.Dispatch

inductive Side where
  | a
  | b
  deriving DecidableEq, Repr

def Side.other : Side → Side
  | .a => .b
  | .b => .a

inductive Call where
  | connectToPeer (peer : Side)
  | send (msg : List UInt8)
  | simulateReceived (msg : List UInt8)
  | ack (msgSize : Nat)
  | close
  | simulateClosed
  deriving DecidableEq, Repr

def kSendBufferSize : Nat := 32 * 1024

def kRescheduleLatency : Nat := 500000000

structure Config where
  latency : Nat

/-- A `LoopbackWebSocket`: its mailbox, `_readyToUse`, `_peer`, whether it is open and has a
delegate, and `_bufferedBytes`; then what its user passed to `send()` and what its delegate was
given: the messages, whether the close, and how many `onWebSocketWriteable` calls. -/
structure Socket where
  mailbox : Mailbox Call
  readyToUse : Bool
  peer : Option Side
  isOpen : Bool
  hasDelegate : Bool
  bufferedBytes : Nat
  sent : List (List UInt8)
  delivered : List (List UInt8)
  closeNotified : Bool
  writeables : Nat

def Socket.new : Socket := ⟨.empty, false, none, false, false, 0, [], [], false, 0⟩

structure Pair where
  a : Socket
  b : Socket
  now : Nat

def Pair.get (w : Pair) : Side → Socket
  | .a => w.a
  | .b => w.b

def Pair.set (w : Pair) : Side → Socket → Pair
  | .a, x => { w with a := x }
  | .b, x => { w with b := x }

def Pair.modify (w : Pair) (s : Side) (f : Socket → Socket) : Pair := w.set s (f (w.get s))

def Pair.enqueue (w : Pair) (s : Side) (c : Call) : Pair :=
  w.modify s fun x => { x with mailbox := x.mailbox.enqueue c }

def Pair.enqueueAfter (w : Pair) (s : Side) (delay : Nat) (c : Call) : Pair :=
  w.modify s fun x => { x with mailbox := x.mailbox.enqueueAfter w.now delay c }

/-- Modelled from the spec: `MockWebSocket::simulateReceived` (`MockProvider.hh` is not in
src/) runs `_simulateReceived` on the socket's actor after the given latency. -/
def Pair.simulateReceived (cfg : Config) (w : Pair) (s : Side) (msg : List UInt8) : Pair :=
  w.enqueueAfter s cfg.latency (.simulateReceived msg)

/-- Modelled from the spec: `MockWebSocket::simulateClosed` runs `_simulateClosed` on the
socket's actor after the given latency. -/
def Pair.simulateClosed (cfg : Config) (w : Pair) (s : Side) : Pair :=
  w.enqueueAfter s cfg.latency .simulateClosed

/-- Modelled from the spec: `MockWebSocket::_simulateClosed`. An open socket closes and tells
its delegate, then runs `_closed`, which for a loopback socket drops its peer. -/
def Pair._simulateClosed (w : Pair) (s : Side) : Pair :=
  let x := w.get s
  if x.isOpen then w.set s { x with isOpen := false, closeNotified := true, peer := none } else w

/-- `LoopbackWebSocket::_connectToPeer`. `_simulateHTTPResponse` and `_simulateConnected` open
the socket. -/
def Pair._connectToPeer (w : Pair) (s peer : Side) : Pair :=
  let x := w.get s
  if x.hasDelegate = false then
    -- Reschedule because we can't continue without a delegate
    w.enqueueAfter s kRescheduleLatency (.connectToPeer peer)
  else
    let x := if x.peer ≠ some peer then { x with peer := some peer, isOpen := true } else x
    w.set s { x with readyToUse := true }

/-- `LoopbackWebSocket::_send`. -/
def Pair._send (cfg : Config) (w : Pair) (s : Side) (msg : List UInt8) : Pair :=
  let x := w.get s
  if x.readyToUse = false then
    -- Reschedule, we are not ready yet!
    w.enqueueAfter s kRescheduleLatency (.send msg)
  else
    match x.peer with
    | some p => w.simulateReceived cfg p msg
    | none => w

/-- `LoopbackWebSocket::_simulateReceived`. `MockWebSocket::_simulateReceived` hands the message
to the delegate (modelled from the spec). `_peer->ack` is called with no check: through a null
`_peer` the step fails. -/
def Pair._simulateReceived (w : Pair) (s : Side) (msg : List UInt8) : Option Pair :=
  let x := w.get s
  if x.readyToUse = false then
    -- Reschedule, we are not ready yet!
    some (w.enqueueAfter s kRescheduleLatency (.simulateReceived msg))
  else
    let w := w.set s { x with delivered := x.delivered ++ [msg] }
    match x.peer with
    | some p => some (w.enqueue p (.ack msg.length))
    | none => none

/-- `LoopbackWebSocket::_ack`, in `size_t` arithmetic. -/
def Pair._ack (w : Pair) (s : Side) (msgSize : Nat) : Pair :=
  let x := w.get s
  if x.isOpen = false then w
  else
    let newValue := (x.bufferedBytes + 2 ^ 64 - msgSize % 2 ^ 64) % 2 ^ 64
    w.set s { x with
      bufferedBytes := newValue
      writeables := if newValue ≤ kSendBufferSize ∧ kSendBufferSize < (newValue + msgSize) % 2 ^ 64
        then x.writeables + 1 else x.writeables }

/-- `LoopbackWebSocket::_close`, then `MockWebSocket::_close`, which closes the socket itself
(modelled from the spec). After `assert(_peer)` it calls `_peer->simulateClosed`: with no peer
the step fails. -/
def Pair._close (cfg : Config) (w : Pair) (s : Side) : Option Pair :=
  let x := w.get s
  if x.readyToUse = false then
    -- Reschedule, we are not ready yet!
    some (w.enqueueAfter s kRescheduleLatency .close)
  else
    match x.peer with
    | some p => some ((w.simulateClosed cfg p)._simulateClosed s)
    | none => none

/-- The method a mailbox event runs; `none` when it calls through a null `_peer`. -/
def Pair.handle (cfg : Config) (w : Pair) (s : Side) : Call → Option Pair
  | .connectToPeer p => some (w._connectToPeer s p)
  | .send msg => some (w._send cfg s msg)
  | .simulateReceived msg => w._simulateReceived s msg
  | .ack n => some (w._ack s n)
  | .close => w._close cfg s
  | .simulateClosed => some (w._simulateClosed s)

def Pair.run (cfg : Config) (w : Pair) (s : Side) : Option Pair :=
  match (w.get s).mailbox.queue with
  | [] => some w
  | c :: rest => (w.modify s fun x => { x with mailbox := { x.mailbox with queue := rest } }).handle
      cfg s c

/-- `LoopbackWebSocket::send`, from any thread: it counts the bytes into `_bufferedBytes`, and
`MockWebSocket::send` enqueues `_send` (modelled from the spec). -/
def Pair.send (w : Pair) (s : Side) (msg : List UInt8) : Pair :=
  let w := w.modify s fun x =>
    { x with
      bufferedBytes := (x.bufferedBytes + msg.length) % 2 ^ 64
      sent := x.sent ++ [msg] }
  w.enqueue s (.send msg)

/-- `LoopbackProvider::connect`: each socket's `connectToPeer` enqueues `_connectToPeer`. -/
def Pair.connect (w : Pair) : Pair := (w.enqueue .a (.connectToPeer .b)).enqueue .b (.connectToPeer .a)

def Pair.setDelegate (w : Pair) (s : Side) : Pair := w.modify s fun x => { x with hasDelegate := true }

/-- Modelled from the spec: `MockWebSocket::close` enqueues `_close`. -/
def Pair.close (w : Pair) (s : Side) : Pair := w.enqueue s .close

/-- The runs of a pair: the clock moves on, timers fire once due, either actor runs its next
event, and the users send, connect, give delegates and close, in any interleaving. -/
inductive Reach (cfg : Config) : Pair → Prop where
  | start (now : Nat) : Reach cfg ⟨.new, .new, now⟩
  | tick {w : Pair} (t : Nat) : Reach cfg w → w.now ≤ t → Reach cfg { w with now := t }
  | fire {w : Pair} (s : Side) (i : Nat) : Reach cfg w → (w.get s).mailbox.Due w.now i →
      Reach cfg (w.modify s fun x => { x with mailbox := x.mailbox.fire i })
  | run {w w' : Pair} (s : Side) : Reach cfg w → w.run cfg s = some w' → Reach cfg w'
  | send {w : Pair} (s : Side) (msg : List UInt8) : Reach cfg w → Reach cfg (w.send s msg)
  | connect {w : Pair} : Reach cfg w → Reach cfg w.connect
  | setDelegate {w : Pair} (s : Side) : Reach cfg w → Reach cfg (w.setDelegate s)
  | close {w : Pair} (s : Side) : Reach cfg w → Reach cfg (w.close s)

@[simp] theorem get_set_self (w : Pair) (s : Side) (x : Socket) : (w.set s x).get s = x := by
  cases s <;> rfl

@[simp] theorem set_now (w : Pair) (s : Side) (x : Socket) : (w.set s x).now = w.now := by
  cases s <;> rfl

@[simp] theorem Side.other_other (s : Side) : s.other.other = s := by cases s <;> rfl

theorem Side.eq_or_eq_other (t s : Side) : s = t ∨ s = t.other := by cases t <;> cases s <;> decide

@[simp] theorem get_set_other (w : Pair) (s : Side) (x : Socket) :
    (w.set s x).get s.other = w.get s.other := by
  cases s <;> rfl

@[simp] theorem get_other_set (w : Pair) (s : Side) (x : Socket) : (w.set s.other x).get s = w.get s := by
  cases s <;> rfl

theorem reach_arrives {cfg : Config} {w : Pair} (s : Side) (q : List Call) (delay : Nat)
    (c : Call) (h : Reach cfg w)
    (hm : (w.get s).mailbox = (⟨q, []⟩ : Mailbox Call).enqueueAfter w.now delay c) :
    ∃ t, Reach cfg { w.modify s fun x => { x with mailbox := ⟨q ++ [c], []⟩ } with now := t } := by
  unfold Mailbox.enqueueAfter at hm
  split at hm
  · have h₁ : Reach cfg { w with now := w.now + delay } := .tick _ h (Nat.le_add_right _ _)
    have hdue : ({ w with now := w.now + delay }.get s).mailbox.Due (w.now + delay) 0 := by
      cases s <;> exact ⟨⟨w.now + delay, c⟩, by simp_all [Pair.get], le_refl _⟩
    refine ⟨w.now + delay, ?_⟩
    have h₂ := Reach.fire s 0 h₁ hdue
    cases s <;> simp_all [Pair.modify, Pair.get, Pair.set, Mailbox.fire]
  · refine ⟨w.now, ?_⟩
    cases s <;> simp only [Pair.modify, Pair.get, Pair.set, Mailbox.enqueue] at hm ⊢ <;>
      rw [← hm] <;> exact h

/-- Whatever the latency and the two messages, there is a run in which `A` sends `m₁` and then
`m₂`, and `B`'s delegate receives `m₂` first: `A` runs `_send m₁` before `_connectToPeer`, so
it is put back for half a second, and `m₂`, sent once `A` is ready, overtakes it. -/
theorem loopback_reorders (cfg : Config) (m₁ m₂ : List UInt8) :
    ∃ w, Reach cfg w ∧ (w.get .a).sent = [m₁, m₂] ∧ (w.get .b).delivered = [m₂, m₁] := by
  -- both sockets have delegates; `A` sends `m₁` before the provider connects them and runs
  -- `_send m₁` while not ready, so it is put back for half a second; both sides connect
  have h₀ : Reach cfg ⟨⟨⟨[], [⟨0 + kRescheduleLatency, .send m₁⟩]⟩, true, some .b, true, true,
      (0 + m₁.length) % 2 ^ 64, [m₁], [], false, 0⟩,
      ⟨⟨[], []⟩, true, some .a, true, true, 0, [], [], false, 0⟩, 0⟩ :=
    .run .b (.run .a (.run .a (.connect (.send .a m₁ (.setDelegate .b (.setDelegate .a (.start 0))))) rfl) rfl)
      rfl
  -- `A` sends `m₂`, which goes to `B` at once
  have h₁ : Reach cfg ⟨⟨⟨[], [⟨0 + kRescheduleLatency, .send m₁⟩]⟩, true, some .b, true, true,
      ((0 + m₁.length) % 2 ^ 64 + m₂.length) % 2 ^ 64, [m₁, m₂], [], false, 0⟩,
      ⟨(⟨[], []⟩ : Mailbox Call).enqueueAfter 0 cfg.latency (.simulateReceived m₂), true, some .a,
        true, true, 0, [], [], false, 0⟩, 0⟩ :=
    .run .a (.send .a m₂ h₀) rfl
  obtain ⟨t₁, h₂⟩ := reach_arrives .b [] cfg.latency (.simulateReceived m₂) h₁ rfl
  -- the half second passes and `_send m₁` is queued again; `B` hands `m₂` to its delegate
  have h₃ : Reach cfg ⟨⟨⟨[.send m₁, .ack m₂.length], []⟩, true, some .b, true, true,
      ((0 + m₁.length) % 2 ^ 64 + m₂.length) % 2 ^ 64, [m₁, m₂], [], false, 0⟩,
      ⟨⟨[], []⟩, true, some .a, true, true, 0, [], [m₂], false, 0⟩,
      max t₁ kRescheduleLatency⟩ :=
    .run .b (.fire .a 0 (.tick _ h₂ (le_max_left _ _))
      ⟨_, rfl, show 0 + kRescheduleLatency ≤ max t₁ kRescheduleLatency by omega⟩) rfl
  -- `A` runs `_send m₁`, which reaches `B` after `m₂`
  obtain ⟨t₂, h₄⟩ := reach_arrives .b [] cfg.latency (.simulateReceived m₁) (.run .a h₃ rfl) rfl
  exact ⟨_, .run .b h₄ rfl, rfl, rfl⟩

theorem loopback_reorders_ex :
    ∃ w, Reach ⟨0⟩ w ∧ (w.get .a).sent = [[1], [2]] ∧ (w.get .b).delivered = [[2], [1]] :=
  loopback_reorders ⟨0⟩ [1] [2]

end Blip.Loopback
