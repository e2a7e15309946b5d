import Mathlib.Logic.Relation
import Blip.LoopbackDelivery

/-!
# In order once connected

With latency zero, from a reachable state in which both sockets are ready and no message waits
on a timer, every run keeps each direction in order: the peer's delegate is given a sublist of
what was on its way, followed by what was sent since.
-/

set_option autoImplicit false

namespace Blip.LoopbackOrder
open Blip.Dispatch Blip.Loopback Blip.LoopbackRuns Blip.LoopbackDelivery

/-- One step of a run of the pair: any of the steps `Reach` takes after its start. -/
inductive Step (cfg : Config) : Pair → Pair → Prop where
  | tick {w : Pair} (t : Nat) : w.now ≤ t → Step cfg w { w with now := t }
  | fire {w : Pair} (s : Side) (i : Nat) : (w.get s).mailbox.Due w.now i →
      Step cfg w (w.modify s fun x => { x with mailbox := x.mailbox.fire i })
  | run {w w' : Pair} (s : Side) : w.run cfg s = some w' → Step cfg w w'
  | send {w : Pair} (s : Side) (msg : List UInt8) : Step cfg w (w.send s msg)
  | connect {w : Pair} : Step cfg w w.connect
  | setDelegate {w : Pair} (s : Side) : Step cfg w (w.setDelegate s)
  | close {w : Pair} (s : Side) : Step cfg w (w.close s)

theorem Step.reach {cfg : Config} {w w' : Pair} (hs : Step cfg w w') (h : Reach cfg w) :
    Reach cfg w' := by
  cases hs with
  | tick t ht => exact .tick t h ht
  | fire s i hdue => exact .fire s i h hdue
  | run s hr => exact .run s h hr
  | send s msg => exact .send s msg h
  | connect => exact .connect h
  | setDelegate s => exact .setDelegate s h
  | close s => exact .close s h

def talks : Call → Bool
  | .send _ | .simulateReceived _ => true
  | _ => false

theorem notes_of_talks {c : Call} (h : talks c = false) : sendNote c = none ∧ receiveNote c = none := by
  cases c <;> first | exact ⟨rfl, rfl⟩ | cases h

def sendQueue (x : Socket) : List (List UInt8) := x.mailbox.queue.filterMap sendNote

def receiveQueue (x : Socket) : List (List UInt8) := x.mailbox.queue.filterMap receiveNote

/-- The messages on their way from socket `s` to its peer, in the order the peer's delegate
would be given them: those queued on the peer, then those queued on `s`. -/
def lane (w : Pair) (s : Side) : List (List UInt8) :=
  receiveQueue (w.get s.other) ++ sendQueue (w.get s)

def Untimed (x : Socket) : Prop := ∀ t ∈ x.mailbox.timers, talks t.block = false

structure Connected (w : Pair) : Prop where
  ready : ∀ s, (w.get s).readyToUse = true
  untimed : ∀ s, Untimed (w.get s)

structure Keeps (mb mb' : Mailbox Call) : Prop where
  sends : (mb'.queue.filterMap sendNote).Sublist (mb.queue.filterMap sendNote)
  receives : (mb'.queue.filterMap receiveNote).Sublist (mb.queue.filterMap receiveNote)
  timers : (∀ t ∈ mb.timers, talks t.block = false) → ∀ t ∈ mb'.timers, talks t.block = false

section Keeps
variable {mb mb' mb'' : Mailbox Call} {c : Call}

theorem Keeps.refl (mb : Mailbox Call) : Keeps mb mb := ⟨.refl _, .refl _, id⟩

theorem Keeps.trans (h : Keeps mb mb') (h' : Keeps mb' mb'') : Keeps mb mb'' :=
  ⟨h'.sends.trans h.sends, h'.receives.trans h.receives, h'.timers ∘ h.timers⟩

theorem keeps_pop {rest : List Call} (hq : mb.queue = c :: rest) : Keeps mb { mb with queue := rest } :=
  ⟨by rw [hq]; exact (List.sublist_cons_self c rest).filterMap _,
    by rw [hq]; exact (List.sublist_cons_self c rest).filterMap _, id⟩

theorem filterMap_concat_none {f : Call → Option (List UInt8)} (l : List Call) (h : f c = none) :
    (l ++ [c]).filterMap f = l.filterMap f := by
  rw [List.filterMap_append, List.filterMap_cons_none h, List.filterMap_nil, List.append_nil]

theorem keeps_enqueue (hc : talks c = false) : Keeps mb (mb.enqueue c) :=
  ⟨by rw [enqueue_queue, filterMap_concat_none _ (notes_of_talks hc).1],
    by rw [enqueue_queue, filterMap_concat_none _ (notes_of_talks hc).2], id⟩

theorem keeps_enqueueAfter (now d : Nat) (hc : talks c = false) : Keeps mb (mb.enqueueAfter now d c) := by
  unfold Mailbox.enqueueAfter
  split
  · refine ⟨.refl _, .refl _, fun h t ht => ?_⟩
    rcases List.mem_append.1 ht with ht | ht
    · exact h t ht
    · rw [List.mem_singleton.1 ht]; exact hc
  · exact keeps_enqueue hc

theorem keeps_fire (i : Nat) (hu : ∀ t ∈ mb.timers, talks t.block = false) : Keeps mb (mb.fire i) := by
  unfold Mailbox.fire
  split
  · next t ht =>
    have hc := hu t (List.get?_mem ht)
    exact ⟨by rw [filterMap_concat_none _ (notes_of_talks hc).1],
      by rw [filterMap_concat_none _ (notes_of_talks hc).2],
      fun _ t' ht' => hu t' (List.mem_of_mem_eraseIdx ht')⟩
  · exact .refl _

end Keeps

structure Stays (x x' : Socket) : Prop where
  ready : x.readyToUse = true → x'.readyToUse = true
  untimed : Untimed x → Untimed x'

theorem Stays.of_eq {x x' : Socket} (hr : x'.readyToUse = x.readyToUse)
    (ht : x'.mailbox.timers = x.mailbox.timers) : Stays x x' :=
  ⟨fun h => hr.trans h, fun h t hm => h t (ht ▸ hm)⟩

theorem Connected.of_stays {w w' : Pair} (hC : Connected w) (h : ∀ v, Stays (w.get v) (w'.get v)) :
    Connected w' :=
  ⟨fun v => (h v).ready (hC.ready v), fun v => (h v).untimed (hC.untimed v)⟩

structure Calm (x x' : Socket) : Prop where
  sent : x'.sent = x.sent
  delivered : x'.delivered = x.delivered
  mailbox : Keeps x.mailbox x'.mailbox
  ready : x.readyToUse = true → x'.readyToUse = true

theorem Calm.stays {x x' : Socket} (h : Calm x x') : Stays x x' := ⟨h.ready, h.mailbox.timers⟩

/-- Each socket of `w'` is calm after its state in `w`. -/
def Steady (w w' : Pair) : Prop := ∀ v, Calm (w.get v) (w'.get v)

section Steady
variable {w w₁ w' : Pair} {u : Side} {x : Socket} {c : Call}

theorem Calm.refl (x : Socket) : Calm x x := ⟨rfl, rfl, .refl _, id⟩

theorem calm_of_mailbox {x' : Socket} (hm : x'.mailbox = x.mailbox) (hs : x'.sent = x.sent)
    (hd : x'.delivered = x.delivered) (hr : x.readyToUse = true → x'.readyToUse = true) : Calm x x' :=
  ⟨hs, hd, hm ▸ .refl _, hr⟩

theorem Steady.refl (w : Pair) : Steady w w := fun _ => .refl _

theorem Steady.trans (h : Steady w w₁) (h' : Steady w₁ w') : Steady w w' := fun v =>
  let ⟨hs, hd, hm, hr⟩ := h v
  let ⟨hs', hd', hm', hr'⟩ := h' v
  ⟨hs'.trans hs, hd'.trans hd, hm.trans hm', hr' ∘ hr⟩

theorem steady_set (h : Calm (w.get u) x) : Steady w (w.set u x) := fun v => by
  rcases Side.eq_or_eq_other u v with rfl | rfl
  · rwa [get_set_self]
  · rw [get_set_other]; exact .refl _

theorem steady_mailbox (f : Mailbox Call → Mailbox Call) (hf : Keeps (w.get u).mailbox (f (w.get u).mailbox)) :
    Steady w (w.modify u fun x => { x with mailbox := f x.mailbox }) :=
  steady_set ⟨rfl, rfl, hf, id⟩

theorem steady_enqueue (hc : talks c = false) : Steady w (w.enqueue u c) :=
  steady_mailbox (fun mb => mb.enqueue c) (keeps_enqueue hc)

theorem steady_enqueueAfter (d : Nat) (hc : talks c = false) : Steady w (w.enqueueAfter u d c) :=
  steady_mailbox (fun mb => mb.enqueueAfter w.now d c) (keeps_enqueueAfter _ _ hc)

theorem steady_pop {rest : List Call} (hq : (w.get u).mailbox.queue = c :: rest) : Steady w (pop w u rest) :=
  steady_mailbox (fun mb => { mb with queue := rest }) (keeps_pop hq)

theorem steady_connectToPeer (u p : Side) : Steady w (w._connectToPeer u p) := by
  simp only [Pair._connectToPeer]
  split
  · exact steady_enqueueAfter _ (by rfl)
  · exact steady_set (by split <;> exact calm_of_mailbox rfl rfl rfl fun _ => rfl)

theorem steady_ack (u : Side) (n : Nat) : Steady w (w._ack u n) := by
  simp only [Pair._ack]
  split
  · exact .refl w
  · exact steady_set (calm_of_mailbox rfl rfl rfl id)

theorem steady_simulateClosed (u : Side) : Steady w (w._simulateClosed u) := by
  simp only [Pair._simulateClosed]
  split
  · exact steady_set (calm_of_mailbox rfl rfl rfl id)
  · exact .refl w

theorem steady_closeEvent (cfg : Config) (u : Side) {w' : Pair} (h : w._close cfg u = some w') : Steady w w' := by
  simp only [Pair._close] at h
  split at h
  · obtain rfl := Option.some.inj h
    exact steady_enqueueAfter _ (by rfl)
  · split at h
    · obtain rfl := Option.some.inj h
      exact (steady_enqueueAfter _ (by rfl)).trans (steady_simulateClosed u)
    · cases h

end Steady

inductive Moves (w w' : Pair) (s : Side) : Prop where
  | send (msg : List UInt8) : (w'.get s).sent = (w.get s).sent ++ [msg] →
      (w'.get s.other).delivered = (w.get s.other).delivered → lane w' s = lane w s ++ [msg] →
      Moves w w' s
  | deliver (msg : List UInt8) : (w'.get s).sent = (w.get s).sent →
      (w'.get s.other).delivered = (w.get s.other).delivered ++ [msg] →
      (msg :: lane w' s).Sublist (lane w s) → Moves w w' s
  | keep : (w'.get s).sent = (w.get s).sent →
      (w'.get s.other).delivered = (w.get s.other).delivered → (lane w' s).Sublist (lane w s) →
      Moves w w' s

section Moves
variable {cfg : Config} {w w' : Pair} {u : Side} {rest : List Call} {msg : List UInt8}

theorem Steady.moves (h : Steady w w') (s : Side) : Moves w w' s :=
  .keep (h s).sent (h s.other).delivered ((h s.other).mailbox.receives.append (h s).mailbox.sends)

theorem Steady.connected (h : Steady w w') (hC : Connected w) : Connected w' :=
  hC.of_stays fun v => (h v).stays

theorem Steady.step (h : Steady w w') (hC : Connected w) : (∀ s, Moves w w' s) ∧ Connected w' :=
  ⟨h.moves, h.connected hC⟩

theorem enqueueAfter_zero (mb : Mailbox Call) (now : Nat) (c : Call) : mb.enqueueAfter now 0 c = mb.enqueue c :=
  if_neg (Nat.lt_irrefl 0)

theorem run_send (h0 : cfg.latency = 0) (hR : Reach cfg w) (hq : (w.get u).mailbox.queue = .send msg :: rest)
    (hr : (w.get u).readyToUse = true) (hrun : w.run cfg u = some w') :
    w'.get u = { w.get u with mailbox := { (w.get u).mailbox with queue := rest } } ∧
      (w'.get u.other = { w.get u.other with mailbox := (w.get u.other).mailbox.enqueue (.simulateReceived msg) } ∨
        w'.get u.other = w.get u.other) := by
  rw [run_pop hq] at hrun
  rcases (reach_inv hR u).peer with hp | hp
  · rw [handle_send_closed cfg rest msg hr hp] at hrun
    obtain rfl := Option.some.inj hrun
    rw [get_pop, get_other_pop]
    exact ⟨rfl, .inr rfl⟩
  · obtain ⟨w₁, he, h₁, h₂⟩ := handle_send_ready cfg rest msg hr hp
    rw [he] at hrun
    obtain rfl := Option.some.inj hrun
    rw [h₁, h₂, h0, enqueueAfter_zero]
    exact ⟨rfl, .inl rfl⟩

theorem run_receive (hR : Reach cfg w) (hq : (w.get u).mailbox.queue = .simulateReceived msg :: rest)
    (hr : (w.get u).readyToUse = true) (hrun : w.run cfg u = some w') :
    w'.get u = { w.get u with
      mailbox := { (w.get u).mailbox with queue := rest }
      delivered := (w.get u).delivered ++ [msg] } ∧
      w'.get u.other = { w.get u.other with mailbox := (w.get u.other).mailbox.enqueue (.ack msg.length) } := by
  rw [run_pop hq] at hrun
  rcases (reach_inv hR u).peer with hp | hp
  · rw [handle_receive_closed cfg rest msg hr hp] at hrun
    cases hrun
  · obtain ⟨w₁, he, h₁, h₂⟩ := handle_receive_ready cfg rest msg hr hp
    rw [he] at hrun
    obtain rfl := Option.some.inj hrun
    exact ⟨h₁, h₂⟩

theorem run_send_moves (h0 : cfg.latency = 0) (hR : Reach cfg w) (hC : Connected w)
    (hq : (w.get u).mailbox.queue = .send msg :: rest) (hrun : w.run cfg u = some w') :
    (∀ s, Moves w w' s) ∧ Connected w' := by
  obtain ⟨h₁, h₂⟩ := run_send h0 hR hq (hC.ready u) hrun
  have hcu : Calm (w.get u) (w'.get u) := by rw [h₁]; exact ⟨rfl, rfl, keeps_pop hq, id⟩
  rcases h₂ with h₂ | h₂
  · have hsq : sendQueue (w.get u) = msg :: sendQueue (w'.get u) := by
      rw [h₁, sendQueue, sendQueue, hq, List.filterMap_cons_some (rfl : sendNote (.send msg) = some msg)]
    have hrq : receiveQueue (w'.get u) = receiveQueue (w.get u) := by
      rw [h₁, receiveQueue, receiveQueue, hq, List.filterMap_cons_none (rfl : receiveNote (.send msg) = none)]
    have hro : receiveQueue (w'.get u.other) = receiveQueue (w.get u.other) ++ [msg] := by
      rw [h₂, receiveQueue, receiveQueue, enqueue_queue, List.filterMap_append]; rfl
    have hso : sendQueue (w'.get u.other) = sendQueue (w.get u.other) := by
      rw [h₂, sendQueue, sendQueue, enqueue_queue, filterMap_concat_none _ rfl]
    refine ⟨fun s => ?_, hC.of_stays fun v => ?_⟩
    · rcases Side.eq_or_eq_other u s with rfl | rfl
      · refine .keep hcu.sent (by rw [h₂]) ?_
        rw [lane, lane, hro, hsq, List.append_assoc, List.singleton_append]
      · refine .keep (by rw [h₂]) (by rw [Side.other_other]; exact hcu.delivered) ?_
        rw [lane, lane, Side.other_other, hrq, hso]
    · rcases Side.eq_or_eq_other u v with rfl | rfl
      · exact hcu.stays
      · rw [h₂]; exact .of_eq rfl rfl
  · refine Steady.step (fun v => ?_) hC
    rcases Side.eq_or_eq_other u v with rfl | rfl
    · exact hcu
    · rw [h₂]; exact .refl _

theorem run_receive_moves (hR : Reach cfg w) (hC : Connected w)
    (hq : (w.get u).mailbox.queue = .simulateReceived msg :: rest) (hrun : w.run cfg u = some w') :
    (∀ s, Moves w w' s) ∧ Connected w' := by
  obtain ⟨h₁, h₂⟩ := run_receive hR hq (hC.ready u) hrun
  have ho : Calm (w.get u.other) (w'.get u.other) := by
    rw [h₂]; exact ⟨rfl, rfl, keeps_enqueue (by rfl), id⟩
  have hsq : sendQueue (w'.get u) = sendQueue (w.get u) := by
    rw [h₁, sendQueue, sendQueue, hq, List.filterMap_cons_none (rfl : sendNote (.simulateReceived msg) = none)]
  have hrq : receiveQueue (w.get u) = msg :: receiveQueue (w'.get u) := by
    rw [h₁, receiveQueue, receiveQueue, hq,
      List.filterMap_cons_some (rfl : receiveNote (.simulateReceived msg) = some msg)]
  refine ⟨fun s => ?_, hC.of_stays fun v => ?_⟩
  · rcases Side.eq_or_eq_other u s with rfl | rfl
    · refine .keep (by rw [h₁]) ho.delivered ?_
      rw [lane, lane, hsq]
      exact ho.mailbox.receives.append (.refl _)
    · refine .deliver msg ho.sent (by rw [Side.other_other, h₁]) ?_
      rw [lane, lane, Side.other_other, hrq, List.cons_append]
      exact ((List.Sublist.refl _).append ho.mailbox.sends).cons₂ msg
  · rcases Side.eq_or_eq_other u v with rfl | rfl
    · rw [h₁]; exact .of_eq rfl rfl
    · exact ho.stays

theorem run_moves (h0 : cfg.latency = 0) (hR : Reach cfg w) (hC : Connected w) (u : Side)
    (hrun : w.run cfg u = some w') : (∀ s, Moves w w' s) ∧ Connected w' := by
  cases hq : (w.get u).mailbox.queue with
  | nil =>
    have he : w.run cfg u = some w := by unfold Pair.run; rw [hq]
    rw [he] at hrun
    obtain rfl := Option.some.inj hrun
    exact (Steady.refl w).step hC
  | cons c rest =>
    have hh := (run_pop hq).symm.trans hrun
    cases c with
    | send msg => exact run_send_moves h0 hR hC hq hrun
    | simulateReceived msg => exact run_receive_moves hR hC hq hrun
    | connectToPeer p =>
      obtain rfl := Option.some.inj hh
      exact ((steady_pop hq).trans (steady_connectToPeer u p)).step hC
    | ack n =>
      obtain rfl := Option.some.inj hh
      exact ((steady_pop hq).trans (steady_ack u n)).step hC
    | close => exact ((steady_pop hq).trans (steady_closeEvent cfg u hh)).step hC
    | simulateClosed =>
      obtain rfl := Option.some.inj hh
      exact ((steady_pop hq).trans (steady_simulateClosed u)).step hC

theorem send_moves (hC : Connected w) (u : Side) (msg : List UInt8) :
    (∀ s, Moves w (w.send u msg) s) ∧ Connected (w.send u msg) := by
  have h₁ : (w.send u msg).get u = { w.get u with
      bufferedBytes := ((w.get u).bufferedBytes + msg.length) % 2 ^ 64
      sent := (w.get u).sent ++ [msg]
      mailbox := (w.get u).mailbox.enqueue (.send msg) } := by
    simp only [Pair.send, Pair.enqueue, Pair.modify, get_set_self]
  have h₂ : (w.send u msg).get u.other = w.get u.other := by
    simp only [Pair.send, Pair.enqueue, Pair.modify, get_set_other]
  have hsq : sendQueue ((w.send u msg).get u) = sendQueue (w.get u) ++ [msg] := by
    rw [h₁, sendQueue, sendQueue, enqueue_queue, List.filterMap_append]; rfl
  have hrq : receiveQueue ((w.send u msg).get u) = receiveQueue (w.get u) := by
    rw [h₁, receiveQueue, receiveQueue, enqueue_queue, filterMap_concat_none _ rfl]
  refine ⟨fun s => ?_, hC.of_stays fun v => ?_⟩
  · rcases Side.eq_or_eq_other u s with rfl | rfl
    · exact .send msg (by rw [h₁]) (by rw [h₂]) (by rw [lane, lane, h₂, hsq, List.append_assoc])
    · refine .keep (by rw [h₂]) (by rw [Side.other_other, h₁]) ?_
      rw [lane, lane, Side.other_other, hrq, h₂]
  · rcases Side.eq_or_eq_other u v with rfl | rfl
    · rw [h₁]; exact .of_eq rfl rfl
    · rw [h₂]; exact .of_eq rfl rfl

theorem step_moves (h0 : cfg.latency = 0) (hR : Reach cfg w) (hC : Connected w) (hs : Step cfg w w') :
    (∀ s, Moves w w' s) ∧ Connected w' := by
  cases hs with
  | tick t _ => exact Steady.step (fun v => by rw [get_now]; exact .refl _) hC
  | fire u i _ => exact (steady_mailbox (fun mb => mb.fire i) (keeps_fire i (hC.untimed u))).step hC
  | run u hrun => exact run_moves h0 hR hC u hrun
  | send u msg => exact send_moves hC u msg
  | connect => exact ((steady_enqueue (by rfl)).trans (steady_enqueue (by rfl))).step hC
  | setDelegate u =>
    have h : Steady w (w.setDelegate u) := steady_set (calm_of_mailbox rfl rfl rfl id)
    exact h.step hC
  | close u => exact (steady_enqueue (by rfl)).step hC

end Moves

def InOrder (w₀ w : Pair) (s : Side) : Prop :=
  ∃ D S, (w.get s.other).delivered = (w₀.get s.other).delivered ++ D ∧
    (w.get s).sent = (w₀.get s).sent ++ S ∧ (D ++ lane w s).Sublist (lane w₀ s ++ S)

theorem inOrder_refl (w₀ : Pair) (s : Side) : InOrder w₀ w₀ s :=
  ⟨[], [], (List.append_nil _).symm, (List.append_nil _).symm, by simp⟩

theorem InOrder.moves {w₀ w w' : Pair} {s : Side} (h : InOrder w₀ w s) (hm : Moves w w' s) :
    InOrder w₀ w' s := by
  obtain ⟨D, S, hD, hS, hsub⟩ := h
  cases hm with
  | send msg hs hd hl =>
    refine ⟨D, S ++ [msg], hd.trans hD, by rw [hs, hS, List.append_assoc], ?_⟩
    rw [hl, ← List.append_assoc, ← List.append_assoc]
    exact hsub.append (.refl _)
  | deliver msg hs hd hl =>
    refine ⟨D ++ [msg], S, by rw [hd, hD, List.append_assoc], hs.trans hS, ?_⟩
    rw [List.append_assoc, List.singleton_append]
    exact (hl.append_left D).trans hsub
  | keep hs hd hl => exact ⟨D, S, hd.trans hD, hs.trans hS, (hl.append_left D).trans hsub⟩

/-- With the provider's default latency of zero, take a reachable state `w₀` of a loopback pair in
which both sockets are ready to use and no message waits on a timer. Over every run from `w₀`,
with the users' calls, the timers and the two actors' events in any order, what socket `s`'s
peer's delegate is given from then on is a sublist of the messages on their way from `s` at `w₀`,
in their order, followed by those `s`'s user has sent since: no message overtakes another, and
none is given twice. -/
theorem loopback_keeps_order {cfg : Config} (h0 : cfg.latency = 0) {w₀ w : Pair}
    (h : Reach cfg w₀) (hc : Connected w₀) (hs : Relation.ReflTransGen (Step cfg) w₀ w) (s : Side) :
    ∃ D S, (w.get s.other).delivered = (w₀.get s.other).delivered ++ D ∧
      (w.get s).sent = (w₀.get s).sent ++ S ∧ D.Sublist (lane w₀ s ++ S) := by
  have key : Reach cfg w ∧ Connected w ∧ ∀ s, InOrder w₀ w s := by
    induction hs with
    | refl => exact ⟨h, hc, inOrder_refl w₀⟩
    | tail _ hst ih =>
      obtain ⟨hR, hC, hO⟩ := ih
      obtain ⟨hm, hC'⟩ := step_moves h0 hR hC hst
      exact ⟨hst.reach hR, hC', fun s => (hO s).moves (hm s)⟩
  obtain ⟨D, S, hD, hS, hsub⟩ := key.2.2 s
  exact ⟨D, S, hD, hS, (List.sublist_append_left D _).trans hsub⟩

theorem loopback_keeps_order_ex :
    ∃ w₀ w : Pair, Reach ⟨0⟩ w₀ ∧ Connected w₀ ∧ Relation.ReflTransGen (Step ⟨0⟩) w₀ w ∧
      (w.get .b).delivered = [[1], [2]] ∧
      ∃ D S, (w.get Side.a.other).delivered = (w₀.get Side.a.other).delivered ++ D ∧
        (w.get .a).sent = (w₀.get .a).sent ++ S ∧ D.Sublist (lane w₀ .a ++ S) := by
  -- both sockets get their delegates and run their `_connectToPeer`
  let w₀ : Pair := ⟨⟨⟨[], []⟩, true, some .b, true, true, 0, [], [], false, 0⟩,
    ⟨⟨[], []⟩, true, some .a, true, true, 0, [], [], false, 0⟩, 0⟩
  have h₀ : Reach ⟨0⟩ w₀ :=
    .run .b (.run .a (.connect (.setDelegate .b (.setDelegate .a (.start 0)))) rfl) rfl
  have hc : Connected w₀ :=
    ⟨fun s => by cases s <;> rfl, fun s t ht => by cases s <;> exact absurd ht (List.not_mem_nil t)⟩
  -- `A` sends two messages, runs both `_send`s, and `B` runs both `_simulateReceived`s
  have hs : Relation.ReflTransGen (Step ⟨0⟩) w₀ _ :=
    .tail (.tail (.tail (.tail (.tail (.single (.send .a [1])) (.send .a [2])) (.run .a rfl)) (.run .a rfl))
      (.run .b rfl)) (.run .b rfl)
  exact ⟨w₀, _, h₀, hc, hs, by decide, loopback_keeps_order rfl h₀ hc hs .a⟩

end Blip.LoopbackOrder
