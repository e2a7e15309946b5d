import Blip.SendBufferRuns

/-!
# Closing one socket closes both

`_close` puts `_simulateClosed` on the peer's mailbox after the latency and closes the socket; a
socket not yet ready puts `_close` back, as it does `_send`. With no message in flight, a close
on one socket reaches both delegates. A message in flight to a closed socket reaches
`_peer->ack` through a null `_peer`.
-/

set_option autoImplicit false

namespace Blip.LoopbackClose
open Blip.Dispatch Blip.Loopback Blip.LoopbackRuns Blip.LoopbackDelivery Blip.SendBufferRuns

section Handlers
variable {cfg : Config} {w : Pair} {s : Side} {rest : List Call}

theorem handle_close_closed (cfg : Config) (rest : List Call) (hr : (w.get s).readyToUse = true)
    (hp : (w.get s).peer = none) : (pop w s rest).handle cfg s .close = none := by
  simp only [Pair.handle, Pair._close, get_pop, hr, hp, Bool.true_eq_false, if_false]

end Handlers

section Effect
variable {c : Call} {x x' : Socket} {mb mb' : Mailbox Call} {rest : List Call}

end Effect

section Run
variable {cfg : Config} {w : Pair} {s : Side} {c : Call} {rest : List Call}

end Run

/-- The close of socket `x`, with peer `y`, under way: `y` has no `_close` and `x` no
`_simulateClosed`; `x` has its one `_close` still to run, or has closed and has none; and `y`
has closed, has a `_simulateClosed` to run, or will be told by `x`'s `_close`. -/
structure Shut (x y : Socket) : Prop where
  calm : Call.close ∉ bag y.mailbox
  unechoed : Call.simulateClosed ∉ bag x.mailbox
  closing : x.closeNotified = false ∧ (bag x.mailbox).count .close = 1 ∨
    x.closeNotified = true ∧ Call.close ∉ bag x.mailbox
  told : y.closeNotified = true ∨ Call.simulateClosed ∈ bag y.mailbox ∨ x.closeNotified = false

section Shut
variable {c : Call} {x x' y y' : Socket} {mb' : Mailbox Call}

theorem Shut.congr (h : Shut x y) (hx : bag x'.mailbox = bag x.mailbox) (hy : bag y'.mailbox = bag y.mailbox)
    (hxc : x'.closeNotified = x.closeNotified) (hyc : y'.closeNotified = y.closeNotified) : Shut x' y' := by
  obtain ⟨h₁, h₂, h₃, h₄⟩ := h
  exact ⟨by rw [hy]; exact h₁, by rw [hx]; exact h₂, by rw [hx, hxc]; exact h₃, by rw [hy, hxc, hyc]; exact h₄⟩

theorem Shut.closed (h : Shut x y) (hx : bag x.mailbox = 0) (hy : bag y.mailbox = 0) :
    x.closeNotified = true ∧ y.closeNotified = true := by
  obtain ⟨-, -, h₁, h₂⟩ := h
  rw [hx] at h₁
  rw [hy] at h₂
  have hxc : x.closeNotified = true := h₁.elim (fun h => absurd h.2 (by simp)) And.left
  refine ⟨hxc, ?_⟩
  rcases h₂ with h₂ | h₂ | h₂
  · exact h₂
  · exact absurd h₂ (Multiset.not_mem_zero _)
  · exact absurd (hxc.symm.trans h₂) Bool.noConfusion

end Shut

section Closing
variable {cfg : Config}

end Closing

/-- Whether the event at the head of socket `s`'s queue calls through `_peer` after `_closed` has
set it to null: `_simulateReceived` (`_peer->ack`) or `_close` (`assert(_peer)`) on a ready
socket with no peer. -/
def usesNullPeer (w : Pair) (s : Side) : Bool :=
  match (w.get s).mailbox.queue with
  | .simulateReceived _ :: _ | .close :: _ => (w.get s).readyToUse && (w.get s).peer.isNone
  | _ => false

theorem run_eq_none_iff {cfg : Config} (w : Pair) (s : Side) : w.run cfg s = none ↔ usesNullPeer w s = true := by
  cases hq : (w.get s).mailbox.queue with
  | nil => simp only [Pair.run, usesNullPeer, hq, reduceCtorEq, Bool.false_eq_true]
  | cons c rest =>
    rw [run_pop hq]
    cases c <;> simp only [usesNullPeer, hq, Pair.handle, Pair._simulateReceived, Pair._close, get_pop,
      reduceCtorEq, Bool.false_eq_true] <;>
      cases (w.get s).readyToUse <;> cases (w.get s).peer <;> simp

theorem usesNullPeer_closed {cfg : Config} {w : Pair} (h : Reach cfg w) {s : Side}
    (hn : usesNullPeer w s = true) : (w.get s).closeNotified = true := by
  obtain ⟨hr, hp⟩ : (w.get s).readyToUse = true ∧ (w.get s).peer = none := by
    unfold usesNullPeer at hn
    split at hn
    case h_3 => cases hn
    all_goals simpa [Option.isNone_iff_eq_none] using hn
  exact ((reach_inv h s).ready hr).resolve_left (by rw [hp]; exact Option.noConfusion)

/-- A socket calls through a null `_peer` only once it has been told of a close, and at every
latency it does: a message in flight to a socket whose user closes it reaches the head of its
queue after `_closed` has set `_peer` to null; its `_simulateReceived` calls `_peer->ack`, and
the step fails. -/
theorem loopback_null_peer (cfg : Config) :
    (∀ w s, Reach cfg w → usesNullPeer w s = true → (w.get s).closeNotified = true) ∧
      ∃ w, Reach cfg w ∧ (w.get .b).mailbox.queue = [.simulateReceived [1]] ∧
        usesNullPeer w .b = true ∧ w.run cfg .b = none := by
  refine ⟨fun w s h hn => usesNullPeer_closed h hn, ?_⟩
  -- both sockets get delegates and connect; `A` sends `[1]`, the user of `B` closes it, and `A`
  -- runs its `_send`
  have h₁ : Reach cfg _ := .run .a (.close .b (.send .a [1] (.run .b (.run .a (.connect
    (.setDelegate .b (.setDelegate .a (.start 0)))) rfl) rfl))) rfl
  -- the message reaches the queue of `B` behind `_close`, which `B` then runs
  obtain ⟨t, h₂⟩ := reach_arrives .b [.close] cfg.latency (.simulateReceived [1]) h₁ rfl
  exact ⟨_, Reach.run .b h₂ rfl, rfl, rfl, rfl⟩

theorem loopback_null_peer_ex :
    ∃ w, Reach ⟨1000⟩ w ∧ (w.get .b).mailbox.queue = [.simulateReceived [1]] ∧
      (w.get .b).closeNotified = true ∧ usesNullPeer w .b = true ∧ w.run ⟨1000⟩ .b = none := by
  obtain ⟨hsafe, w, h, hq, hn, hrun⟩ := loopback_null_peer ⟨1000⟩
  exact ⟨w, h, hq, hsafe w .b h hn, hn, hrun⟩

end Blip.LoopbackClose
