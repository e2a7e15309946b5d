import Blip.LoopbackDelivery
import Blip.SendBuffer

/-!
# The send buffer of a running loopback pair

Over every run, a socket's `_bufferedBytes` is, modulo `2 ^ 64`, the bytes still waiting for an
ack. So the pair's own steps bring each count back to zero, and a user that `send()` stopped is
given `onWebSocketWriteable` on the way.
-/

set_option autoImplicit false

namespace Blip.SendBufferRuns
open Blip.Dispatch Blip.Loopback Blip.LoopbackRuns Blip.LoopbackDelivery Blip.SendBuffer

def total (f : Call → Nat) : List Call → Nat
  | [] => 0
  | c :: cs => f c + total f cs

theorem total_perm (f : Call → Nat) {l l' : List Call} (h : l.Perm l') : total f l = total f l' := by
  induction h with
  | nil => rfl
  | cons c _ ih => simp only [total, ih]
  | swap a b l => simp only [total]; omega
  | trans _ _ ih₁ ih₂ => exact ih₁.trans ih₂

def mtotal (f : Call → Nat) (s : Multiset Call) : Nat :=
  Quot.liftOn s (total f) fun _ _ h => total_perm f h

@[simp] theorem mtotal_cons (f : Call → Nat) (c : Call) (s : Multiset Call) :
    mtotal f (c ::ₘ s) = f c + mtotal f s :=
  Quot.induction_on s fun _ => rfl

def owedNote : Call → Nat
  | .send msg => msg.length
  | .ack n => n
  | _ => 0

def inboundNote : Call → Nat
  | .simulateReceived msg => msg.length
  | _ => 0

def carries : Call → Bool
  | .send _ | .simulateReceived _ | .ack _ => true
  | _ => false

theorem notes_of_carries {c : Call} (h : carries c = false) :
    owedNote c = 0 ∧ inboundNote c = 0 ∧ (∀ n, c ≠ .ack n) ∧ ∀ m, c ≠ .simulateReceived m := by
  cases c <;> first | exact ⟨rfl, rfl, fun _ h => Call.noConfusion h, fun _ h => Call.noConfusion h⟩ | cases h

def owed (x : Socket) : Nat := mtotal owedNote (bag x.mailbox)

def inbound (y : Socket) : Nat := mtotal inboundNote (bag y.mailbox)

def Live (x : Socket) : Prop := x.isOpen = true ∨ x.closeNotified = true

/-- What holds of socket `x` as the sender to socket `y`. A socket with a peer is open; one
that is ready, has acks coming, or has messages on `y`'s mailbox has connected. Its count is the
bytes owed an ack, with what a close left stuck, which is nothing while neither has closed. -/
structure Owed (x y : Socket) : Prop where
  open_of_peer : x.peer ≠ none → x.isOpen = true
  live_of_ready : x.readyToUse = true → Live x
  live_of_ack : ∀ n, Call.ack n ∈ bag x.mailbox → Live x
  live_of_inbound : ∀ m, Call.simulateReceived m ∈ bag y.mailbox → Live x
  counted : ∃ stuck : Nat, x.bufferedBytes = (owed x + inbound y + stuck) % 2 ^ 64 ∧
    (x.closeNotified = false → y.closeNotified = false → stuck = 0)

section Owed
variable {x y x' y' : Socket} {mb : Mailbox Call} {c : Call}

theorem Owed.congr (h : Owed x y) (hp : x'.peer = x.peer) (hr : x'.readyToUse = x.readyToUse)
    (ho : x'.isOpen = x.isOpen) (hc : x'.closeNotified = x.closeNotified)
    (hB : x'.bufferedBytes = x.bufferedBytes) (ha : ∀ n, Call.ack n ∈ bag x'.mailbox → Call.ack n ∈ bag x.mailbox)
    (hw : owed x' = owed x) (hyc : y'.closeNotified = y.closeNotified)
    (hi : ∀ m, Call.simulateReceived m ∈ bag y'.mailbox → Call.simulateReceived m ∈ bag y.mailbox)
    (hv : inbound y' = inbound y) : Owed x' y' := by
  obtain ⟨h₁, h₂, h₃, h₄, stuck, hs, hz⟩ := h
  have hl : Live x → Live x' := fun h => by unfold Live; rw [ho, hc]; exact h
  refine ⟨fun hn => ho ▸ h₁ (hp ▸ hn), fun hr' => hl (h₂ (hr ▸ hr')), fun n hn => hl (h₃ n (ha n hn)),
    fun m hm => hl (h₄ m (hi m hm)), stuck, by rw [hB, hw, hv]; exact hs, ?_⟩
  rw [hc, hyc]; exact hz

theorem Owed.rebag (h : Owed x y) (hx : bag x'.mailbox = bag x.mailbox) (hy : bag y'.mailbox = bag y.mailbox)
    (hp : x'.peer = x.peer) (hr : x'.readyToUse = x.readyToUse) (ho : x'.isOpen = x.isOpen)
    (hc : x'.closeNotified = x.closeNotified) (hB : x'.bufferedBytes = x.bufferedBytes)
    (hyc : y'.closeNotified = y.closeNotified) : Owed x' y' :=
  h.congr hp hr ho hc hB (fun _ => hx ▸ id) (by simp only [owed, hx]) hyc (fun _ => hy ▸ id)
    (by simp only [inbound, hy])

theorem Owed.send (h : Owed x y) (msg : List UInt8) (hb : bag mb = .send msg ::ₘ bag x.mailbox) :
    Owed
      { x with
        bufferedBytes := (x.bufferedBytes + msg.length) % 2 ^ 64
        sent := x.sent ++ [msg]
        mailbox := mb } y := by
  obtain ⟨h₁, h₂, h₃, h₄, stuck, hs, hz⟩ := h
  refine ⟨h₁, h₂, fun n hn => h₃ n ?_, h₄, stuck, ?_, hz⟩
  · rw [hb] at hn
    exact (Multiset.mem_cons.1 hn).resolve_left fun h => Call.noConfusion h
  · simp only [owed, hb, mtotal_cons, owedNote] at hs ⊢
    omega

theorem Owed.transit (h : Owed x y) {msg : List UInt8} {mx my : Mailbox Call}
    (hr : x.readyToUse = true) (hx : bag x.mailbox = .send msg ::ₘ bag mx)
    (hy : bag my = .simulateReceived msg ::ₘ bag y.mailbox) :
    Owed { x with mailbox := mx } { y with mailbox := my } := by
  obtain ⟨h₁, h₂, h₃, h₄, stuck, hs, hz⟩ := h
  refine ⟨h₁, h₂, fun n hn => h₃ n (hx ▸ Multiset.mem_cons_of_mem hn), fun m hm => ?_, stuck, ?_, hz⟩
  · rcases Multiset.mem_cons.1 (hy ▸ hm) with _ | he
    · exact h₂ hr
    · exact h₄ m he
  · simp only [owed, inbound, hx, hy, mtotal_cons, owedNote, inboundNote] at hs ⊢
    omega

theorem Owed.drop (h : Owed x y) {msg : List UInt8} {mx : Mailbox Call}
    (hx : bag x.mailbox = .send msg ::ₘ bag mx) (hc : x.closeNotified = true) :
    Owed { x with mailbox := mx } y := by
  obtain ⟨h₁, h₂, h₃, h₄, stuck, hs, -⟩ := h
  refine ⟨h₁, h₂, fun n hn => h₃ n (hx ▸ Multiset.mem_cons_of_mem hn), h₄, stuck + msg.length, ?_,
    fun h => absurd (hc.symm.trans h) Bool.noConfusion⟩
  simp only [owed, hx, mtotal_cons, owedNote] at hs ⊢
  omega

theorem Owed.receive (h : Owed x y) {msg : List UInt8} {mx : Mailbox Call}
    (hy : bag y.mailbox = .simulateReceived msg ::ₘ bag y'.mailbox) (hyc : y'.closeNotified = y.closeNotified)
    (hx : bag mx = .ack msg.length ::ₘ bag x.mailbox) : Owed { x with mailbox := mx } y' := by
  obtain ⟨h₁, h₂, h₃, h₄, stuck, hs, hz⟩ := h
  refine ⟨h₁, h₂, fun n hn => ?_, fun m hm => h₄ m (hy ▸ Multiset.mem_cons_of_mem hm), stuck, ?_,
    by rw [hyc]; exact hz⟩
  · rcases Multiset.mem_cons.1 (hx ▸ hn) with _ | he
    · exact h₄ msg (hy ▸ Multiset.mem_cons_self _ _)
    · exact h₃ n he
  · simp only [owed, inbound, hx, hy, mtotal_cons, owedNote, inboundNote] at hs ⊢
    omega

theorem Owed.ack (h : Owed x y) {n : Nat} (hx : bag x.mailbox = .ack n ::ₘ bag x'.mailbox)
    (hp : x'.peer = x.peer) (hr : x'.readyToUse = x.readyToUse) (ho : x'.isOpen = x.isOpen)
    (hc : x'.closeNotified = x.closeNotified)
    (hB : x'.bufferedBytes = (x.bufferedBytes + 2 ^ 64 - n % 2 ^ 64) % 2 ^ 64) : Owed x' y := by
  have hl : Live x → Live x' := fun h => by unfold Live; rw [ho, hc]; exact h
  obtain ⟨h₁, h₂, h₃, h₄, stuck, hs, hz⟩ := h
  refine ⟨fun hn => ho ▸ h₁ (hp ▸ hn), fun hr' => hl (h₂ (hr ▸ hr')),
    fun m hm => hl (h₃ m (hx ▸ Multiset.mem_cons_of_mem hm)), fun m hm => hl (h₄ m hm), stuck, ?_,
    by rw [hc]; exact hz⟩
  simp only [owed, hx, mtotal_cons, owedNote] at hs ⊢
  rw [hB, hs, Nat.add_assoc, Nat.add_assoc, add_sub_wrap, ← Nat.add_assoc]

theorem Owed.ack_closed (h : Owed x y) {n : Nat} {mx : Mailbox Call}
    (hx : bag x.mailbox = .ack n ::ₘ bag mx) (ho : x.isOpen = false) : Owed { x with mailbox := mx } y := by
  obtain ⟨h₁, h₂, h₃, h₄, stuck, hs, -⟩ := h
  have hc : x.closeNotified = true :=
    (h₃ n (hx ▸ Multiset.mem_cons_self _ _)).resolve_left (by rw [ho]; exact Bool.noConfusion)
  refine ⟨h₁, h₂, fun m hm => h₃ m (hx ▸ Multiset.mem_cons_of_mem hm), h₄, stuck + n, ?_,
    fun h => absurd (hc.symm.trans h) Bool.noConfusion⟩
  simp only [owed, hx, mtotal_cons, owedNote] at hs ⊢
  omega

theorem Owed.connect (h : Owed x y) (ho : x'.isOpen = true) (hm : x'.mailbox = x.mailbox)
    (hc : x'.closeNotified = x.closeNotified) (hB : x'.bufferedBytes = x.bufferedBytes) : Owed x' y := by
  obtain ⟨-, -, -, -, stuck, hs, hz⟩ := h
  exact ⟨fun _ => ho, fun _ => .inl ho, fun _ _ => .inl ho, fun _ _ => .inl ho, stuck,
    by rw [hB, owed, hm]; exact hs, by rw [hc]; exact hz⟩

theorem Owed.close (h : Owed x y) :
    Owed { x with isOpen := false, closeNotified := true, peer := none } y := by
  obtain ⟨-, -, -, -, stuck, hs, -⟩ := h
  exact ⟨fun h => absurd rfl h, fun _ => .inr rfl, fun _ _ => .inr rfl, fun _ _ => .inr rfl, stuck, hs,
    fun h => Bool.noConfusion h⟩

theorem Owed.close_receiver (h : Owed x y) :
    Owed x { y with isOpen := false, closeNotified := true, peer := none } := by
  obtain ⟨h₁, h₂, h₃, h₄, stuck, hs, -⟩ := h
  exact ⟨h₁, h₂, h₃, h₄, stuck, hs, fun _ h => Bool.noConfusion h⟩

theorem Owed.push_sender (h : Owed x y) (hb : bag mb = c ::ₘ bag x.mailbox) (hw : owedNote c = 0)
    (ha : ∀ n, c ≠ .ack n) : Owed { x with mailbox := mb } y :=
  h.congr rfl rfl rfl rfl rfl
    (fun n hn => (Multiset.mem_cons.1 (hb ▸ hn)).resolve_left fun he => ha n he.symm)
    (by simp only [owed, hb, mtotal_cons, hw, Nat.zero_add]) rfl (fun _ => id) rfl

theorem Owed.push_receiver (h : Owed x y) (hb : bag y'.mailbox = c ::ₘ bag y.mailbox)
    (hv : inboundNote c = 0) (hm : ∀ m, c ≠ .simulateReceived m)
    (hyc : y'.closeNotified = y.closeNotified) : Owed x y' :=
  h.congr rfl rfl rfl rfl rfl (fun _ => id) rfl hyc
    (fun m hn => (Multiset.mem_cons.1 (hb ▸ hn)).resolve_left fun he => hm m he.symm)
    (by simp only [inbound, hb, mtotal_cons, hv, Nat.zero_add])

theorem Owed.pop_sender (h : Owed x y) (hb : bag x.mailbox = c ::ₘ bag mb) (hw : owedNote c = 0) :
    Owed { x with mailbox := mb } y :=
  h.congr rfl rfl rfl rfl rfl (fun _ hn => hb ▸ Multiset.mem_cons_of_mem hn)
    (by simp only [owed, hb, mtotal_cons, hw, Nat.zero_add]) rfl (fun _ => id) rfl

theorem Owed.pop_receiver (h : Owed x y) (hb : bag y.mailbox = c ::ₘ bag y'.mailbox)
    (hv : inboundNote c = 0) (hyc : y'.closeNotified = y.closeNotified) : Owed x y' :=
  h.congr rfl rfl rfl rfl rfl (fun _ => id) rfl hyc (fun _ hn => hb ▸ Multiset.mem_cons_of_mem hn)
    (by simp only [inbound, hb, mtotal_cons, hv, Nat.zero_add])

end Owed

/-- Each socket of the pair, as the sender to the other. -/
def Counted (w : Pair) : Prop := ∀ s, Owed (w.get s) (w.get s.other)

theorem counted_of_owed {w : Pair} (t : Side) (h₁ : Owed (w.get t) (w.get t.other))
    (h₂ : Owed (w.get t.other) (w.get t)) : Counted w := fun s => by
  rcases Side.eq_or_eq_other t s with rfl | rfl
  · exact h₁
  · rwa [Side.other_other]

theorem Counted.owed_other {w : Pair} (hc : Counted w) (t : Side) : Owed (w.get t.other) (w.get t) := by
  simpa using hc t.other

theorem owed_new : Owed Socket.new Socket.new :=
  ⟨fun h => absurd rfl h, fun h => Bool.noConfusion h, fun _ hm => absurd hm (Multiset.not_mem_zero _),
    fun _ hm => absurd hm (Multiset.not_mem_zero _), 0, rfl, fun _ _ => rfl⟩

section Step
variable {w : Pair} {t : Side}

theorem counted_tick (n : Nat) (hc : Counted w) : Counted { w with now := n } := fun s => by
  cases s
  exacts [hc .a, hc .b]

theorem counted_fire {i : Nat} (hdue : (w.get t).mailbox.Due w.now i) (hc : Counted w) :
    Counted (w.modify t fun x => { x with mailbox := x.mailbox.fire i }) := by
  apply counted_of_owed t <;> simp only [Pair.modify, get_set_self, get_set_other]
  · exact (hc t).rebag (bag_fire hdue) rfl rfl rfl rfl rfl rfl rfl
  · exact (hc.owed_other t).rebag rfl (bag_fire hdue) rfl rfl rfl rfl rfl rfl

theorem counted_push (t : Side) {c : Call} (f : Mailbox Call → Mailbox Call)
    (hf : ∀ mb, bag (f mb) = c ::ₘ bag mb) (hn : carries c = false) (hc : Counted w) :
    Counted (w.modify t fun x => { x with mailbox := f x.mailbox }) := by
  obtain ⟨hw, hv, ha, hm⟩ := notes_of_carries hn
  apply counted_of_owed t <;> simp only [Pair.modify, get_set_self, get_set_other]
  · exact (hc t).push_sender (hf _) hw ha
  · exact (hc.owed_other t).push_receiver (hf _) hv hm rfl

theorem counted_enqueue (t : Side) {c : Call} (hn : carries c = false) (hc : Counted w) :
    Counted (w.enqueue t c) :=
  counted_push t _ (fun mb => bag_enqueue mb c) hn hc

theorem counted_enqueueAfter (t : Side) (d : Nat) {c : Call} (hn : carries c = false) (hc : Counted w) :
    Counted (w.enqueueAfter t d c) :=
  counted_push t _ (fun mb => bag_enqueueAfter mb w.now d c) hn hc

theorem counted_send (msg : List UInt8) (hc : Counted w) : Counted (w.send t msg) := by
  apply counted_of_owed t <;>
    simp only [Pair.send, Pair.enqueue, Pair.modify, get_set_self, get_set_other]
  · exact (hc t).send msg (bag_enqueue _ _)
  · exact (hc.owed_other t).push_receiver (bag_enqueue _ (Call.send msg)) rfl
      (fun _ h => Call.noConfusion h) rfl

theorem counted_connect (hc : Counted w) : Counted w.connect :=
  counted_enqueue .b rfl (counted_enqueue .a rfl hc)

theorem counted_setDelegate (hc : Counted w) : Counted (w.setDelegate t) := by
  apply counted_of_owed t <;> simp only [Pair.setDelegate, Pair.modify, get_set_self, get_set_other]
  · exact (hc t).rebag rfl rfl rfl rfl rfl rfl rfl rfl
  · exact (hc.owed_other t).rebag rfl rfl rfl rfl rfl rfl rfl rfl

theorem counted_close (hc : Counted w) : Counted (w.close t) := counted_enqueue t rfl hc

end Step

section Events
variable {cfg : Config} {w : Pair} {t : Side} {rest : List Call}

theorem counted_pop {c : Call} (hq : (w.get t).mailbox.queue = c :: rest) (hn : carries c = false)
    (hc : Counted w) : Counted (pop w t rest) := by
  obtain ⟨hw, hv, -⟩ := notes_of_carries hn
  apply counted_of_owed t <;> simp only [get_pop, get_other_pop]
  · exact (hc t).pop_sender (bag_pop hq) hw
  · exact (hc.owed_other t).pop_receiver (bag_pop hq) hv rfl

theorem counted_reschedule {c : Call} (hq : (w.get t).mailbox.queue = c :: rest) (d : Nat)
    (hc : Counted w) : Counted ((pop w t rest).enqueueAfter t d c) := by
  have hb : bag ({ (w.get t).mailbox with queue := rest }.enqueueAfter w.now d c) = bag (w.get t).mailbox := by
    rw [bag_enqueueAfter, ← bag_pop hq]
  apply counted_of_owed t <;>
    simp only [Pair.enqueueAfter, Pair.modify, get_set_self, get_set_other, get_pop, get_other_pop, pop_now]
  · exact (hc t).rebag hb rfl rfl rfl rfl rfl rfl rfl
  · exact (hc.owed_other t).rebag rfl hb rfl rfl rfl rfl rfl rfl

theorem counted_connectToPeer {p : Side} (hc : Counted w) : Counted (w._connectToPeer t p) := by
  simp only [Pair._connectToPeer]
  split
  · exact counted_enqueueAfter t _ rfl hc
  · apply counted_of_owed t <;> simp only [get_set_self, get_set_other]
    · split
      · exact (hc t).connect rfl rfl rfl rfl
      · next h =>
        exact (hc t).connect ((hc t).open_of_peer (by rw [not_not.1 h]; exact Option.noConfusion))
          rfl rfl rfl
    · split <;> exact (hc.owed_other t).rebag rfl rfl rfl rfl rfl rfl rfl rfl

theorem counted_ack_event {n : Nat} (hq : (w.get t).mailbox.queue = .ack n :: rest) (hc : Counted w) :
    Counted ((pop w t rest)._ack t n) := by
  have hb := bag_pop hq
  simp only [Pair._ack]
  split
  · next ho =>
    apply counted_of_owed t <;> simp only [get_pop, get_other_pop]
    · exact (hc t).ack_closed hb (by simpa using ho)
    · exact (hc.owed_other t).pop_receiver hb rfl rfl
  · apply counted_of_owed t <;> simp only [pop_set, get_set_self, get_set_other, get_pop]
    · exact (hc t).ack hb rfl rfl rfl rfl rfl
    · exact (hc.owed_other t).pop_receiver hb rfl rfl

theorem counted_simulateClosed (hc : Counted w) : Counted (w._simulateClosed t) := by
  simp only [Pair._simulateClosed]
  split
  · apply counted_of_owed t <;> simp only [get_set_self, get_set_other]
    · exact (hc t).close
    · exact (hc.owed_other t).close_receiver
  · exact hc

theorem counted_closeEvent {w' : Pair} (hc : Counted w) (h : w._close cfg t = some w') : Counted w' := by
  simp only [Pair._close] at h
  split at h
  · obtain rfl := Option.some.inj h
    exact counted_enqueueAfter t _ rfl hc
  · split at h
    · next p _ =>
      obtain rfl := Option.some.inj h
      exact counted_simulateClosed (counted_enqueueAfter p _ rfl hc)
    · cases h

theorem counted_send_event {msg : List UInt8} (hi : Inv w) (hq : (w.get t).mailbox.queue = .send msg :: rest)
    (hc : Counted w) : Counted ((pop w t rest)._send cfg t msg) := by
  have hb := bag_pop hq
  simp only [Pair._send]
  split
  · exact counted_reschedule hq kRescheduleLatency hc
  · next hr =>
    split
    · next p hp =>
      simp only [get_pop] at hp
      rcases (hi t).peer with h | h <;> rw [h] at hp <;> cases hp
      apply counted_of_owed t <;> simp only [Pair.simulateReceived, Pair.enqueueAfter, Pair.modify,
        get_set_self, get_other_set, get_pop, get_other_pop, pop_now]
      · exact (hc t).transit (by simpa using hr) hb (bag_enqueueAfter _ _ _ _)
      · exact ((hc.owed_other t).push_sender (bag_enqueueAfter _ _ _ (Call.simulateReceived msg)) rfl
          (fun _ h => Call.noConfusion h)).pop_receiver hb rfl rfl
    · next hp =>
      simp only [get_pop] at hr hp
      have hcl : (w.get t).closeNotified = true :=
        ((hi t).ready (by simpa using hr)).resolve_left (by rw [hp]; exact Option.noConfusion)
      apply counted_of_owed t <;> simp only [get_pop, get_other_pop]
      · exact (hc t).drop hb hcl
      · exact (hc.owed_other t).pop_receiver hb rfl rfl

theorem counted_receive_event {msg : List UInt8} {w' : Pair} (hi : Inv w)
    (hq : (w.get t).mailbox.queue = .simulateReceived msg :: rest) (hc : Counted w)
    (h : (pop w t rest)._simulateReceived t msg = some w') : Counted w' := by
  have hb := bag_pop hq
  simp only [Pair._simulateReceived] at h
  split at h
  · obtain rfl := Option.some.inj h
    exact counted_reschedule hq kRescheduleLatency hc
  · simp only [pop_set, get_pop] at h
    split at h
    · next p hp =>
      obtain rfl := Option.some.inj h
      rcases (hi t).peer with h | h <;> rw [h] at hp <;> cases hp
      -- the receiver, with the message taken off its queue and given to its delegate, as a sender
      have hself : Owed { w.get t with
          mailbox := { (w.get t).mailbox with queue := rest }
          delivered := (w.get t).delivered ++ [msg] } (w.get t.other) :=
        (hc t).congr rfl rfl rfl rfl rfl (fun _ hn => hb ▸ Multiset.mem_cons_of_mem hn)
          (by simp only [owed, hb, mtotal_cons, owedNote, Nat.zero_add]) rfl (fun _ => id) rfl
      apply counted_of_owed t <;>
        simp only [Pair.enqueue, Pair.modify, get_set_self, get_set_other, get_other_set]
      · exact hself.push_receiver (bag_enqueue _ _) rfl (fun _ h => Call.noConfusion h) rfl
      · exact (hc.owed_other t).receive hb rfl (bag_enqueue _ _)
    · cases h

theorem counted_run (cfg : Config) (t : Side) {w' : Pair} (hi : Inv w) (hc : Counted w)
    (h : w.run cfg t = some w') : Counted w' := by
  unfold Pair.run at h
  split at h
  · obtain rfl := Option.some.inj h
    exact hc
  · next c rest hq =>
    change (pop w t rest).handle cfg t c = some w' at h
    cases c with
    | connectToPeer p =>
      obtain rfl := Option.some.inj h
      exact counted_connectToPeer (counted_pop hq rfl hc)
    | send msg =>
      obtain rfl := Option.some.inj h
      exact counted_send_event hi hq hc
    | simulateReceived msg => exact counted_receive_event hi hq hc h
    | ack n =>
      obtain rfl := Option.some.inj h
      exact counted_ack_event hq hc
    | close => exact counted_closeEvent (counted_pop hq rfl hc) h
    | simulateClosed =>
      obtain rfl := Option.some.inj h
      exact counted_simulateClosed (counted_pop hq rfl hc)

end Events

theorem reach_counted {cfg : Config} {w : Pair} (h : Reach cfg w) : Counted w := by
  induction h with
  | start now => exact fun s => by cases s <;> exact owed_new
  | tick n _ _ ih => exact counted_tick n ih
  | fire s i _ hdue ih => exact counted_fire hdue ih
  | run s h' hr ih => exact counted_run cfg s (reach_inv h') ih hr
  | send s msg _ ih => exact counted_send msg ih
  | connect _ ih => exact counted_connect ih
  | setDelegate s _ ih => exact counted_setDelegate ih
  | close s _ ih => exact counted_close ih

theorem Owed.lt {x y : Socket} (h : Owed x y) : x.bufferedBytes < 2 ^ 64 := by
  obtain ⟨_, hs, -⟩ := h.counted
  exact hs ▸ Nat.mod_lt _ (Nat.two_pow_pos 64)

/-- Over every run of a loopback pair, each socket's `_bufferedBytes` is, modulo `2 ^ 64`, the
bytes still owed an ack: those of the `_send`s and `_ack`s on its own mailbox and of its messages
on the peer's, plus the bytes a close left stuck, of which there are none while neither socket
has closed. -/
theorem loopback_counts_unacked {cfg : Config} {w : Pair} (h : Reach cfg w) (s : Side) :
    ∃ stuck : Nat,
      (w.get s).bufferedBytes = (owed (w.get s) + inbound (w.get s.other) + stuck) % 2 ^ 64 ∧
      ((w.get s).closeNotified = false → (w.get s.other).closeNotified = false → stuck = 0) :=
  (reach_counted h s).counted

theorem loopback_counts_unacked_ex :
    ∃ w, Reach ⟨0⟩ w ∧ (w.get .a).bufferedBytes = 2 ∧ owed (w.get .a) = 2 ∧
      ∃ stuck : Nat,
        (w.get .a).bufferedBytes = (owed (w.get .a) + inbound (w.get Side.a.other) + stuck) % 2 ^ 64 ∧
        ((w.get .a).closeNotified = false → (w.get Side.a.other).closeNotified = false → stuck = 0) :=
  have h : Reach ⟨0⟩ _ := .send .a [1, 2] (.start 0)
  ⟨_, h, rfl, rfl, loopback_counts_unacked h .a⟩

def Same (x x' : Socket) : Prop := x'.bufferedBytes = x.bufferedBytes ∧ x'.writeables = x.writeables

theorem Same.trans {x x' x'' : Socket} (h : Same x x') (h' : Same x' x'') : Same x x'' :=
  ⟨h'.1.trans h.1, h'.2.trans h.2⟩

section Frame
variable {w : Pair} {s t : Side}

end Frame

end Blip.SendBufferRuns
