import Mathlib.Data.Multiset.Basic
import Mathlib.Tactic.Abel
import Blip.Loopback

/-!
# Nothing lost, nothing invented

Over every run of a loopback pair, what one socket's user sent is, as a multiset, what the
peer's delegate was given, what is still on its way, and what `_send` dropped after a close.
The pair is a reliable channel, but not an ordered one.
-/

set_option autoImplicit false

namespace Blip.LoopbackRuns
open Blip.Dispatch Blip.Loopback

section Bag
variable {β : Type}

def bag (mb : Mailbox β) : Multiset β := mb.pending

theorem bag_enqueue (mb : Mailbox β) (b : β) : bag (mb.enqueue b) = b ::ₘ bag mb :=
  Multiset.coe_eq_coe.2 ((enqueue_pending_perm mb b).trans (List.perm_append_singleton b _))

theorem bag_enqueueAfter (mb : Mailbox β) (now delay : Nat) (b : β) :
    bag (mb.enqueueAfter now delay b) = b ::ₘ bag mb :=
  Multiset.coe_eq_coe.2 ((enqueueAfter_pending_perm mb now delay b).trans (List.perm_append_singleton b _))

theorem bag_fire {mb : Mailbox β} {now i : Nat} (h : mb.Due now i) : bag (mb.fire i) = bag mb :=
  let ⟨_, ht, _⟩ := h
  Multiset.coe_eq_coe.2 (fire_pending_perm ht)

theorem bag_pop {mb : Mailbox β} {b : β} {rest : List β} (h : mb.queue = b :: rest) :
    bag mb = b ::ₘ bag { mb with queue := rest } := by
  simp only [bag, Mailbox.pending, h, List.cons_append, Multiset.cons_coe]

end Bag

def sendNote : Call → Option (List UInt8)
  | .send msg => some msg
  | _ => none

def receiveNote : Call → Option (List UInt8)
  | .simulateReceived msg => some msg
  | _ => none

def outgoing (x : Socket) : Multiset (List UInt8) := (bag x.mailbox).filterMap sendNote

def incoming (x : Socket) : Multiset (List UInt8) := (bag x.mailbox).filterMap receiveNote

/-- What holds of socket `x`, whose peer is the socket `y` on side `o`. It only ever talks to
`o`; once ready it has its peer, unless it has closed; and what its user sent is what `y`'s
delegate has been given, what is in flight between them, and what it dropped, which is nothing
while it has not closed. -/
structure Flow (o : Side) (x y : Socket) : Prop where
  peer : x.peer = none ∨ x.peer = some o
  connects : ∀ p, Call.connectToPeer p ∈ bag x.mailbox → p = o
  ready : x.readyToUse = true → x.peer = some o ∨ x.closeNotified = true
  conserved : ∃ dropped : Multiset (List UInt8),
    (x.sent : Multiset (List UInt8)) = y.delivered + outgoing x + incoming y + dropped ∧
      (x.closeNotified = false → dropped = 0)

section Flow
variable {o : Side} {x y x' y' : Socket}

theorem Flow.congr (h : Flow o x y) (hp : x'.peer = x.peer) (hr : x'.readyToUse = x.readyToUse)
    (hc : x'.closeNotified = x.closeNotified) (hs : x'.sent = x.sent)
    (hb : ∀ p, Call.connectToPeer p ∈ bag x'.mailbox → Call.connectToPeer p ∈ bag x.mailbox)
    (ho : outgoing x' = outgoing x) (hd : y'.delivered = y.delivered) (hi : incoming y' = incoming y) :
    Flow o x' y' := by
  obtain ⟨h₁, h₂, h₃, d, hd', hz⟩ := h
  refine ⟨hp ▸ h₁, fun p hm => h₂ p (hb p hm), fun hr' => hp ▸ hc ▸ h₃ (hr ▸ hr'), d, ?_, hc ▸ hz⟩
  rw [hs, hd, ho, hi]
  exact hd'

theorem Flow.close (h : Flow o x y) :
    Flow o { x with isOpen := false, closeNotified := true, peer := none } y :=
  let ⟨_, h₂, _, d, hd, _⟩ := h
  ⟨.inl rfl, h₂, fun _ => .inr rfl, d, hd, fun h => by cases h⟩

theorem Flow.send (h : Flow o x y) (msg : List UInt8) (n : Nat) {mb : Mailbox Call}
    (hb : bag mb = .send msg ::ₘ bag x.mailbox) :
    Flow o { x with bufferedBytes := n, sent := x.sent ++ [msg], mailbox := mb } y := by
  obtain ⟨h₁, h₂, h₃, d, hd, hz⟩ := h
  refine ⟨h₁, fun p hm => h₂ p ?_, h₃, d, ?_, hz⟩
  · rw [hb] at hm
    exact (Multiset.mem_cons.1 hm).resolve_left Call.noConfusion
  · rw [← Multiset.coe_add, hd]
    simp only [outgoing, hb, Multiset.filterMap_cons_some _ _ _ (rfl : sendNote (.send msg) = some msg),
      Multiset.coe_singleton]
    rw [← Multiset.singleton_add]
    abel

theorem Flow.transit (h : Flow o x y) {msg : List UInt8} {mx my : Mailbox Call}
    (hx : bag x.mailbox = .send msg ::ₘ bag mx) (hy : bag my = .simulateReceived msg ::ₘ bag y.mailbox) :
    Flow o { x with mailbox := mx } { y with mailbox := my } := by
  obtain ⟨h₁, h₂, h₃, d, hd, hz⟩ := h
  refine ⟨h₁, fun p hm => h₂ p (hx ▸ Multiset.mem_cons_of_mem hm), h₃, d, ?_, hz⟩
  rw [hd]
  simp only [outgoing, incoming, hx, hy,
    Multiset.filterMap_cons_some _ _ _ (rfl : sendNote (.send msg) = some msg),
    Multiset.filterMap_cons_some _ _ _ (rfl : receiveNote (.simulateReceived msg) = some msg)]
  simp only [← Multiset.singleton_add]
  abel

theorem Flow.drop (h : Flow o x y) {msg : List UInt8} {mx : Mailbox Call}
    (hx : bag x.mailbox = .send msg ::ₘ bag mx) (hc : x.closeNotified = true) :
    Flow o { x with mailbox := mx } y := by
  obtain ⟨h₁, h₂, h₃, d, hd, -⟩ := h
  refine ⟨h₁, fun p hm => h₂ p (hx ▸ Multiset.mem_cons_of_mem hm), h₃, msg ::ₘ d, ?_,
    fun h => absurd (hc.symm.trans h) Bool.noConfusion⟩
  rw [hd]
  simp only [outgoing, hx, Multiset.filterMap_cons_some _ _ _ (rfl : sendNote (.send msg) = some msg)]
  simp only [← Multiset.singleton_add]
  abel

theorem Flow.deliver (h : Flow o x y) {msg : List UInt8} {my : Mailbox Call}
    (hy : bag y.mailbox = .simulateReceived msg ::ₘ bag my) :
    Flow o x { y with delivered := y.delivered ++ [msg], mailbox := my } := by
  obtain ⟨h₁, h₂, h₃, d, hd, hz⟩ := h
  refine ⟨h₁, h₂, h₃, d, ?_, hz⟩
  rw [hd, ← Multiset.coe_add]
  simp only [incoming, hy,
    Multiset.filterMap_cons_some _ _ _ (rfl : receiveNote (.simulateReceived msg) = some msg),
    Multiset.coe_singleton]
  simp only [← Multiset.singleton_add]
  abel

theorem Flow.connect (h : Flow o x y) (hp : x'.peer = some o) (hc : x'.closeNotified = x.closeNotified)
    (hs : x'.sent = x.sent)
    (hb : ∀ p, Call.connectToPeer p ∈ bag x'.mailbox → Call.connectToPeer p ∈ bag x.mailbox)
    (ho : outgoing x' = outgoing x) : Flow o x' y := by
  obtain ⟨-, h₂, -, d, hd, hz⟩ := h
  refine ⟨.inr hp, fun p hm => h₂ p (hb p hm), fun _ => .inl hp, d, ?_, hc ▸ hz⟩
  rw [hs, ho]
  exact hd

section Events
variable {mb : Mailbox Call} {c : Call}

theorem Flow.rebag_sender (h : Flow o x y) (hb : bag mb = bag x.mailbox) : Flow o { x with mailbox := mb } y :=
  h.congr rfl rfl rfl rfl (fun _ hm => hb ▸ hm) (by simp only [outgoing, hb]) rfl rfl

theorem Flow.rebag_receiver (h : Flow o x y) (hb : bag y'.mailbox = bag y.mailbox)
    (hd : y'.delivered = y.delivered) : Flow o x y' :=
  h.congr rfl rfl rfl rfl (fun _ => id) rfl hd (by simp only [incoming, hb])

theorem Flow.push_sender (h : Flow o x y) (hb : bag mb = c ::ₘ bag x.mailbox) (hs : sendNote c = none)
    (hc : ∀ p, c = .connectToPeer p → p = o) : Flow o { x with mailbox := mb } y := by
  obtain ⟨h₁, h₂, h₃, hf⟩ := h
  refine ⟨h₁, fun p hm => ?_, h₃, ?_⟩
  · rcases Multiset.mem_cons.1 (hb ▸ hm) with he | he
    · exact hc p he.symm
    · exact h₂ p he
  · simpa only [outgoing, hb, Multiset.filterMap_cons_none _ _ hs] using hf

theorem Flow.push_receiver (h : Flow o x y) (hb : bag y'.mailbox = c ::ₘ bag y.mailbox)
    (hr : receiveNote c = none) (hd : y'.delivered = y.delivered) : Flow o x y' :=
  h.congr rfl rfl rfl rfl (fun _ => id) rfl hd (by simp only [incoming, hb, Multiset.filterMap_cons_none _ _ hr])

theorem Flow.pop_sender (h : Flow o x y) (hb : bag x.mailbox = c ::ₘ bag mb) (hs : sendNote c = none) :
    Flow o { x with mailbox := mb } y :=
  h.congr rfl rfl rfl rfl (fun _ hm => hb ▸ Multiset.mem_cons_of_mem hm)
    (by simp only [outgoing, hb, Multiset.filterMap_cons_none _ _ hs]) rfl rfl

theorem Flow.pop_receiver (h : Flow o x y) (hb : bag y.mailbox = c ::ₘ bag y'.mailbox)
    (hr : receiveNote c = none) (hd : y'.delivered = y.delivered) : Flow o x y' :=
  h.congr rfl rfl rfl rfl (fun _ => id) rfl hd (by simp only [incoming, hb, Multiset.filterMap_cons_none _ _ hr])

end Events

end Flow

def Inv (w : Pair) : Prop := ∀ s, Flow s.other (w.get s) (w.get s.other)

theorem inv_of_flows {w : Pair} (t : Side) (h₁ : Flow t.other (w.get t) (w.get t.other))
    (h₂ : Flow t (w.get t.other) (w.get t)) : Inv w := fun s => by
  rcases Side.eq_or_eq_other t s with rfl | rfl
  · exact h₁
  · rwa [Side.other_other]

theorem Inv.flow_other {w : Pair} (hi : Inv w) (t : Side) : Flow t (w.get t.other) (w.get t) := by
  simpa using hi t.other

theorem flow_new (o : Side) : Flow o Socket.new Socket.new := by
  have hb : bag Socket.new.mailbox = 0 := rfl
  refine ⟨.inl rfl, fun p hm => absurd (hb ▸ hm) (Multiset.not_mem_zero _), fun h => Bool.noConfusion h, 0,
    ?_, fun _ => rfl⟩
  simp only [outgoing, incoming, hb, Multiset.filterMap_zero, add_zero]
  rfl

section Step
variable {w : Pair} {t : Side}

theorem inv_start (now : Nat) : Inv ⟨.new, .new, now⟩ := fun s => by cases s <;> exact flow_new _

theorem inv_tick (n : Nat) (hi : Inv w) : Inv { w with now := n } := fun s => by cases s <;> exact hi _

theorem inv_fire {i : Nat} (hdue : (w.get t).mailbox.Due w.now i) (hi : Inv w) :
    Inv (w.modify t fun x => { x with mailbox := x.mailbox.fire i }) := by
  apply inv_of_flows t <;> simp only [Pair.modify, get_set_self, get_set_other]
  · exact (hi t).rebag_sender (bag_fire hdue)
  · exact (hi.flow_other t).rebag_receiver (bag_fire hdue) rfl

theorem inv_push (t : Side) {c : Call} (f : Mailbox Call → Mailbox Call) (hf : ∀ mb, bag (f mb) = c ::ₘ bag mb)
    (hs : sendNote c = none) (hr : receiveNote c = none) (hc : ∀ p, c = .connectToPeer p → p = t.other)
    (hi : Inv w) : Inv (w.modify t fun x => { x with mailbox := f x.mailbox }) := by
  apply inv_of_flows t <;> simp only [Pair.modify, get_set_self, get_set_other]
  · exact (hi t).push_sender (hf _) hs hc
  · exact (hi.flow_other t).push_receiver (hf _) hr rfl

theorem inv_set_same (hi : Inv w) {x' : Socket} (hm : x'.mailbox = (w.get t).mailbox)
    (hp : x'.peer = (w.get t).peer) (hr : x'.readyToUse = (w.get t).readyToUse)
    (hc : x'.closeNotified = (w.get t).closeNotified) (hs : x'.sent = (w.get t).sent)
    (hd : x'.delivered = (w.get t).delivered) : Inv (w.set t x') := by
  apply inv_of_flows t <;> simp only [get_set_self, get_set_other]
  · exact (hi t).congr hp hr hc hs (fun _ h => hm ▸ h) (by simp only [outgoing, hm]) rfl rfl
  · exact (hi.flow_other t).rebag_receiver (by rw [hm]) hd

theorem inv_send (msg : List UInt8) (hi : Inv w) : Inv (w.send t msg) := by
  apply inv_of_flows t <;> simp only [Pair.send, Pair.enqueue, Pair.modify, get_set_self, get_set_other]
  · exact (hi t).send msg _ (bag_enqueue _ _)
  · exact (hi.flow_other t).push_receiver (bag_enqueue _ (Call.send msg)) rfl rfl

theorem inv_connect (hi : Inv w) : Inv w.connect :=
  inv_push .b (fun mb => mb.enqueue (.connectToPeer .a)) (fun mb => bag_enqueue mb _) rfl rfl
    (fun _ h => by cases h; rfl)
    (inv_push .a (fun mb => mb.enqueue (.connectToPeer .b)) (fun mb => bag_enqueue mb _) rfl rfl
      (fun _ h => by cases h; rfl) hi)

theorem inv_setDelegate (hi : Inv w) : Inv (w.setDelegate t) := inv_set_same hi rfl rfl rfl rfl rfl rfl

theorem inv_close (hi : Inv w) : Inv (w.close t) :=
  inv_push t (fun mb => mb.enqueue .close) (fun mb => bag_enqueue mb _) rfl rfl (fun _ h => Call.noConfusion h) hi

end Step

def pop (w : Pair) (t : Side) (rest : List Call) : Pair :=
  w.modify t fun x => { x with mailbox := { x.mailbox with queue := rest } }

section Events
variable {cfg : Config} {w : Pair} {t : Side} {rest : List Call}

@[simp] theorem get_pop :
    (pop w t rest).get t = { w.get t with mailbox := { (w.get t).mailbox with queue := rest } } :=
  get_set_self _ _ _

@[simp] theorem get_other_pop : (pop w t rest).get t.other = w.get t.other := get_set_other _ _ _

@[simp] theorem pop_now : (pop w t rest).now = w.now := set_now _ _ _

theorem pop_set (x : Socket) : (pop w t rest).set t x = w.set t x := by cases t <;> rfl

theorem inv_pop {c : Call} (hq : (w.get t).mailbox.queue = c :: rest) (hs : sendNote c = none)
    (hr : receiveNote c = none) (hi : Inv w) : Inv (pop w t rest) := by
  apply inv_of_flows t <;> simp only [get_pop, get_other_pop]
  · exact (hi t).pop_sender (bag_pop hq) hs
  · exact (hi.flow_other t).pop_receiver (bag_pop hq) hr rfl

theorem inv_reschedule {c : Call} (hq : (w.get t).mailbox.queue = c :: rest) (d : Nat) (hi : Inv w) :
    Inv ((pop w t rest).enqueueAfter t d c) := by
  have hb : bag ({ (w.get t).mailbox with queue := rest }.enqueueAfter w.now d c) = bag (w.get t).mailbox := by
    rw [bag_enqueueAfter, ← bag_pop hq]
  apply inv_of_flows t <;>
    simp only [Pair.enqueueAfter, Pair.modify, get_set_self, get_set_other, get_pop, get_other_pop, pop_now]
  · exact (hi t).rebag_sender hb
  · exact (hi.flow_other t).rebag_receiver hb rfl

theorem inv_connectToPeer {p : Side} (hp : p = t.other) (hi : Inv w) : Inv (w._connectToPeer t p) := by
  subst hp
  simp only [Pair._connectToPeer]
  split
  · exact inv_push t (fun mb => mb.enqueueAfter w.now kRescheduleLatency _) (fun mb => bag_enqueueAfter mb _ _ _)
      rfl rfl (fun _ h => by cases h; rfl) hi
  · apply inv_of_flows t <;> simp only [get_set_self, get_set_other]
    · split
      · exact (hi t).connect rfl rfl rfl (fun _ => id) rfl
      · next h => exact (hi t).connect (not_not.1 h) rfl rfl (fun _ => id) rfl
    · split <;> exact (hi.flow_other t).rebag_receiver rfl rfl

theorem inv_ack (n : Nat) (hi : Inv w) : Inv (w._ack t n) := by
  simp only [Pair._ack]
  split
  · exact hi
  · exact inv_set_same hi rfl rfl rfl rfl rfl rfl

theorem inv_simulateClosed (hi : Inv w) : Inv (w._simulateClosed t) := by
  simp only [Pair._simulateClosed]
  split
  · apply inv_of_flows t <;> simp only [get_set_self, get_set_other]
    · exact (hi t).close
    · exact (hi.flow_other t).rebag_receiver rfl rfl
  · exact hi

theorem inv_closeEvent {w' : Pair} (hi : Inv w) (h : w._close cfg t = some w') : Inv w' := by
  simp only [Pair._close] at h
  split at h
  · obtain rfl := Option.some.inj h
    exact inv_push t (fun mb => mb.enqueueAfter w.now kRescheduleLatency _) (fun mb => bag_enqueueAfter mb _ _ _)
      rfl rfl (fun _ h => Call.noConfusion h) hi
  · split at h
    · next p _ =>
      obtain rfl := Option.some.inj h
      exact inv_simulateClosed (inv_push p (fun mb => mb.enqueueAfter w.now cfg.latency _)
        (fun mb => bag_enqueueAfter mb _ _ _) rfl rfl (fun _ h => Call.noConfusion h) hi)
    · cases h

theorem inv_send_event {msg : List UInt8} (hq : (w.get t).mailbox.queue = .send msg :: rest) (hi : Inv w) :
    Inv ((pop w t rest)._send cfg t msg) := by
  have hb := bag_pop hq
  simp only [Pair._send]
  split
  · exact inv_reschedule hq kRescheduleLatency hi
  · next hr =>
    split
    · next p hp =>
      simp only [get_pop] at hp
      rcases (hi t).peer with h | h <;> rw [h] at hp <;> cases hp
      apply inv_of_flows t <;> simp only [Pair.simulateReceived, Pair.enqueueAfter, Pair.modify, get_set_self,
        get_other_set, get_pop, get_other_pop, pop_now]
      · exact (hi t).transit hb (bag_enqueueAfter _ _ _ _)
      · exact ((hi.flow_other t).push_sender (bag_enqueueAfter _ _ _ (Call.simulateReceived msg)) rfl
          (fun _ h => Call.noConfusion h)).pop_receiver hb rfl rfl
    · next hp =>
      simp only [get_pop] at hr hp
      have hc : (w.get t).closeNotified = true :=
        ((hi t).ready (by simpa using hr)).resolve_left (by rw [hp]; exact Option.noConfusion)
      apply inv_of_flows t <;> simp only [get_pop, get_other_pop]
      · exact (hi t).drop hb hc
      · exact (hi.flow_other t).pop_receiver hb rfl rfl

theorem inv_deliver {msg : List UInt8} (hq : (w.get t).mailbox.queue = .simulateReceived msg :: rest)
    (hi : Inv w) :
    Inv (w.set t
      { w.get t with
        mailbox := { (w.get t).mailbox with queue := rest }
        delivered := (w.get t).delivered ++ [msg] }) := by
  have hb := bag_pop hq
  apply inv_of_flows t <;> simp only [get_set_self, get_set_other]
  · exact (hi t).congr rfl rfl rfl rfl (fun _ hm => hb ▸ Multiset.mem_cons_of_mem hm)
      (by simp only [outgoing, hb, Multiset.filterMap_cons_none _ _ (rfl : sendNote (.simulateReceived msg) = none)])
      rfl rfl
  · exact (hi.flow_other t).deliver hb

theorem inv_receive_event {msg : List UInt8} {w' : Pair}
    (hq : (w.get t).mailbox.queue = .simulateReceived msg :: rest) (hi : Inv w)
    (h : (pop w t rest)._simulateReceived t msg = some w') : Inv w' := by
  simp only [Pair._simulateReceived] at h
  split at h
  · obtain rfl := Option.some.inj h
    exact inv_reschedule hq kRescheduleLatency hi
  · simp only [pop_set, get_pop] at h
    split at h
    · next p hp =>
      obtain rfl := Option.some.inj h
      rcases (hi t).peer with h | h <;> rw [h] at hp <;> cases hp
      exact inv_push t.other (fun mb => mb.enqueue _) (fun mb => bag_enqueue mb _) rfl rfl
        (fun _ h => Call.noConfusion h) (inv_deliver hq hi)
    · cases h

theorem inv_run (cfg : Config) (t : Side) {w' : Pair} (hi : Inv w) (h : w.run cfg t = some w') : Inv w' := by
  unfold Pair.run at h
  split at h
  · obtain rfl := Option.some.inj h
    exact hi
  · next c rest hq =>
    change (pop w t rest).handle cfg t c = some w' at h
    cases c with
    | connectToPeer p =>
      obtain rfl := Option.some.inj h
      exact inv_connectToPeer ((hi t).connects p (bag_pop hq ▸ Multiset.mem_cons_self _ _)) (inv_pop hq rfl rfl hi)
    | send msg =>
      obtain rfl := Option.some.inj h
      exact inv_send_event hq hi
    | simulateReceived msg => exact inv_receive_event hq hi h
    | ack n =>
      obtain rfl := Option.some.inj h
      exact inv_ack n (inv_pop hq rfl rfl hi)
    | close => exact inv_closeEvent (inv_pop hq rfl rfl hi) h
    | simulateClosed =>
      obtain rfl := Option.some.inj h
      exact inv_simulateClosed (inv_pop hq rfl rfl hi)

end Events

theorem reach_inv {cfg : Config} {w : Pair} (h : Reach cfg w) : Inv w := by
  induction h with
  | start now => exact inv_start now
  | tick n _ _ ih => exact inv_tick n ih
  | fire s i _ hdue ih => exact inv_fire hdue ih
  | run s _ hr ih => exact inv_run cfg s ih hr
  | send s msg _ ih => exact inv_send msg ih
  | connect _ ih => exact inv_connect ih
  | setDelegate s _ ih => exact inv_setDelegate ih
  | close s _ ih => exact inv_close ih

/-- Over every run of a loopback pair, socket `s`'s `_peer` is null or the other socket, and
what `s`'s user sent is, as a multiset, what the peer's delegate has been given, what is in
flight between them, and what `_send` dropped after `s` had closed, which is nothing while `s`
has not closed. So the peer's delegate is given no message `s` did not send, and none more often
than it was sent. -/
theorem loopback_conserves {cfg : Config} {w : Pair} (h : Reach cfg w) (s : Side) :
    ((w.get s).peer = none ∨ (w.get s).peer = some s.other) ∧
    ((w.get s.other).delivered : Multiset (List UInt8)) ≤ (w.get s).sent ∧
    ∃ dropped : Multiset (List UInt8),
      ((w.get s).sent : Multiset (List UInt8)) =
        (w.get s.other).delivered + outgoing (w.get s) + incoming (w.get s.other) + dropped ∧
      ((w.get s).closeNotified = false → dropped = 0) := by
  obtain ⟨hp, -, -, d, hd, hz⟩ := reach_inv h s
  refine ⟨hp, ?_, d, hd, hz⟩
  rw [hd, add_assoc, add_assoc]
  exact Multiset.le_add_right _ _

theorem loopback_conserves_ex :
    ∃ w, Reach ⟨0⟩ w ∧ (w.get .a).sent = [[7]] ∧ (w.get .b).delivered = [[7]] ∧
      (((w.get .a).peer = none ∨ (w.get .a).peer = some Side.a.other) ∧
      ((w.get Side.a.other).delivered : Multiset (List UInt8)) ≤ (w.get .a).sent ∧
      ∃ dropped : Multiset (List UInt8),
        ((w.get .a).sent : Multiset (List UInt8)) =
          (w.get Side.a.other).delivered + outgoing (w.get .a) + incoming (w.get Side.a.other) + dropped ∧
        ((w.get .a).closeNotified = false → dropped = 0)) := by
  have h : Reach ⟨0⟩ _ := .run .b (.run .a (.send .a [7]
    (.run .b (.run .a (.connect (.setDelegate .b (.setDelegate .a (.start 0)))) rfl) rfl)) rfl) rfl
  exact ⟨_, h, rfl, rfl, loopback_conserves h .a⟩

end Blip.LoopbackRuns
