import Blip.LoopbackOrder

/-!
# The latency of a loopback pair

`_send` hands a message to the peer's `_simulateReceived` on a timer due the latency later. Over
any run that ends before the latency has passed, what a delegate is given was already on its way
into its socket at the start; the measure is `early`.
-/

set_option autoImplicit false

namespace Blip.LoopbackLatency
open Blip.Dispatch Blip.Loopback Blip.LoopbackRuns Blip.LoopbackDelivery Blip.LoopbackOrder

/-- The messages on mailbox `mb` that its socket's delegate can be given before time `D`: those
of the `_simulateReceived` events queued, or waiting on a timer due before `D`. -/
def early (D : Nat) (mb : Mailbox Call) : Multiset (List UInt8) :=
  ((mb.queue ++ (mb.timers.filter fun t => t.due < D).map Timer.block).filterMap receiveNote : List _)

section Early
variable {D : Nat} {mb : Mailbox Call} {c : Call}

theorem early_le_incoming (x : Socket) : early D x.mailbox ≤ incoming x := by
  simp only [early, incoming, bag, Mailbox.pending, Multiset.filterMap_coe, Multiset.coe_le]
  exact ((((List.filter_sublist _).map _).append_left _).filterMap _).subperm

theorem early_pop {rest : List Call} (hq : mb.queue = c :: rest) :
    early D mb = ((receiveNote c).toList : Multiset _) + early D { mb with queue := rest } := by
  simp only [early, hq, List.cons_append, List.filterMap_cons, Multiset.coe_add]
  cases receiveNote c <;> rfl

theorem early_enqueue_add (c : Call) : early D (mb.enqueue c) = ((receiveNote c).toList : Multiset _) + early D mb := by
  simp only [early, enqueue_queue, enqueue_timers, List.append_assoc, List.singleton_append, Multiset.coe_add,
    Multiset.coe_eq_coe]
  refine (((List.perm_middle).filterMap receiveNote).trans ?_)
  cases h : receiveNote c <;> simp [h]

theorem early_enqueue (hc : receiveNote c = none) : early D (mb.enqueue c) = early D mb := by
  rw [early_enqueue_add, hc, Option.toList_none, Multiset.coe_nil, zero_add]

theorem early_enqueueAfter (now d : Nat) (hc : receiveNote c = none) :
    early D (mb.enqueueAfter now d c) = early D mb := by
  unfold Mailbox.enqueueAfter
  split
  · simp only [early, List.filter_append, List.map_append, List.filterMap_append, List.filter_cons,
      List.filter_nil]
    split <;> simp [hc]
  · exact early_enqueue hc

theorem early_enqueueAfter_late {now d : Nat} (hd : 0 < d) (hD : D ≤ now + d) :
    early D (mb.enqueueAfter now d c) = early D mb := by
  rw [enqueueAfter_of_pos _ _ _ hd]
  simp [early, List.filter_append, Nat.not_lt.2 hD]

theorem early_enqueueAfter_le (now d : Nat) : early D (mb.enqueueAfter now d c) ≤ early D (mb.enqueue c) := by
  unfold Mailbox.enqueueAfter
  split
  · simp only [early, enqueue_queue, enqueue_timers, List.filter_append, List.filter_cons, List.filter_nil,
      List.map_append, List.append_assoc, List.singleton_append, ← Multiset.filterMap_coe]
    apply Multiset.filterMap_le_filterMap
    rw [Multiset.coe_le]
    split <;> simp only [List.map_cons, List.map_nil, List.append_nil]
    · exact ((List.perm_append_singleton c _).append_left mb.queue).subperm
    · exact ((List.sublist_cons_self c _).append_left mb.queue).subperm
  · exact le_rfl

theorem early_fire {now i : Nat} (h : mb.Due now i) (hn : now < D) : early D (mb.fire i) = early D mb := by
  obtain ⟨t, ht, hdue⟩ := h
  have hp := ((perm_cons_eraseIdx ht).filter fun t => decide (t.due < D)).map Timer.block
  rw [List.filter_cons, if_pos (by simpa using hdue.trans_lt hn), List.map_cons] at hp
  rw [fire_eq ht]
  simp only [early, Multiset.coe_eq_coe, List.append_assoc, List.singleton_append]
  exact ((hp.append_left mb.queue).symm).filterMap _

end Early

def Gets (D : Nat) (x x' : Socket) : Prop :=
  ∃ Δ : List (List UInt8), x'.delivered = x.delivered ++ Δ ∧ (Δ : Multiset _) + early D x'.mailbox ≤ early D x.mailbox

section Gets
variable {D : Nat} {x x₁ x₂ : Socket}

theorem Gets.refl (x : Socket) : Gets D x x := ⟨[], (List.append_nil _).symm, by simp⟩

theorem Gets.trans (h₁ : Gets D x x₁) (h₂ : Gets D x₁ x₂) : Gets D x x₂ := by
  obtain ⟨Δ₁, hd₁, hl₁⟩ := h₁
  obtain ⟨Δ₂, hd₂, hl₂⟩ := h₂
  refine ⟨Δ₁ ++ Δ₂, by rw [hd₂, hd₁, List.append_assoc], ?_⟩
  calc ((Δ₁ ++ Δ₂ : List _) : Multiset _) + early D x₂.mailbox
      = (Δ₁ : Multiset _) + ((Δ₂ : Multiset _) + early D x₂.mailbox) := by rw [← Multiset.coe_add, add_assoc]
    _ ≤ (Δ₁ : Multiset _) + early D x₁.mailbox := add_le_add_left hl₂ _
    _ ≤ early D x.mailbox := hl₁

theorem Gets.quiet (hd : x₁.delivered = x.delivered) (hm : early D x₁.mailbox ≤ early D x.mailbox) :
    Gets D x x₁ :=
  ⟨[], by rw [hd, List.append_nil], by simpa using hm⟩

end Gets

/-- From `w` to `w'`, each socket gave its delegate only messages that could run before `D`. -/
def Within (D : Nat) (w w' : Pair) : Prop := ∀ y, Gets D (w.get y) (w'.get y)

section Within
variable {D : Nat} {w w₁ w₂ : Pair}

theorem Within.refl (w : Pair) : Within D w w := fun _ => .refl _

theorem Within.trans (h₁ : Within D w w₁) (h₂ : Within D w₁ w₂) : Within D w w₂ := fun y => (h₁ y).trans (h₂ y)

theorem within_modify {s : Side} {f : Socket → Socket} (h : Gets D (w.get s) (f (w.get s))) :
    Within D w (w.modify s f) := fun y => by
  rcases Side.eq_or_eq_other s y with hy | hy <;> rw [hy]
  · rw [get_modify_self]; exact h
  · rw [get_modify_other]; exact .refl _

theorem within_set {s : Side} {x : Socket} (h : Gets D (w.get s) x) : Within D w (w.set s x) :=
  @within_modify D w s (fun _ => x) h

theorem within_enqueue {s : Side} {c : Call} (hc : receiveNote c = none) : Within D w (w.enqueue s c) :=
  within_modify (.quiet rfl (early_enqueue hc).le)

theorem within_enqueueAfter {s : Side} {d : Nat} {c : Call} (hc : receiveNote c = none) :
    Within D w (w.enqueueAfter s d c) :=
  within_modify (.quiet rfl (early_enqueueAfter _ _ hc).le)

theorem within_enqueueAfter_late {s : Side} {d : Nat} {c : Call} (hd : 0 < d) (hD : D ≤ w.now + d) :
    Within D w (w.enqueueAfter s d c) :=
  within_modify (.quiet rfl (early_enqueueAfter_late hd hD).le)

theorem within_simulateClosed (s : Side) : Within D w (w._simulateClosed s) := by
  unfold Pair._simulateClosed
  dsimp only
  split
  · exact within_set (.quiet rfl le_rfl)
  · exact .refl _

end Within

section Events
variable {cfg : Config} {D : Nat} {w : Pair} {s : Side} {rest : List Call}

theorem within_handle {c : Call} {w' : Pair} (hc : receiveNote c = none) (hlat : 0 < cfg.latency)
    (hD : D ≤ w.now + cfg.latency) (h : w.handle cfg s c = some w') : Within D w w' := by
  cases c with
  | connectToPeer p =>
    obtain rfl := Option.some.inj h
    dsimp only [Pair._connectToPeer]
    split
    · exact within_enqueueAfter (by rfl)
    · exact within_set (.quiet (by split <;> rfl) (by split <;> exact le_rfl))
  | send msg =>
    obtain rfl := Option.some.inj h
    dsimp only [Pair._send]
    split
    · exact within_enqueueAfter (by rfl)
    · split
      · exact within_enqueueAfter_late hlat hD
      · exact .refl _
  | simulateReceived msg => cases hc
  | ack n =>
    obtain rfl := Option.some.inj h
    dsimp only [Pair._ack]
    split
    · exact .refl _
    · exact within_set (.quiet rfl le_rfl)
  | close =>
    dsimp only [Pair.handle, Pair._close] at h
    split at h
    · obtain rfl := Option.some.inj h
      exact within_enqueueAfter (by rfl)
    · split at h
      · obtain rfl := Option.some.inj h
        exact (within_enqueueAfter (by rfl)).trans (within_simulateClosed s)
      · cases h
  | simulateClosed =>
    obtain rfl := Option.some.inj h
    exact within_simulateClosed s

theorem modify_modify (w : Pair) (s : Side) (f g : Socket → Socket) :
    (w.modify s g).modify s f = w.modify s (f ∘ g) := by
  cases s <;> rfl

theorem within_receive {msg : List UInt8} {w' : Pair} (hq : (w.get s).mailbox.queue = .simulateReceived msg :: rest)
    (h : (pop w s rest).handle cfg s (.simulateReceived msg) = some w') : Within D w w' := by
  have hpop : early D (w.get s).mailbox = _ := early_pop hq
  simp only [receiveNote, Option.toList_some, Multiset.coe_singleton] at hpop
  dsimp only [Pair.handle, Pair._simulateReceived] at h
  split at h
  · obtain rfl := Option.some.inj h
    unfold Pair.enqueueAfter pop
    rw [modify_modify]
    refine within_modify (.quiet rfl ((early_enqueueAfter_le _ _).trans ?_))
    rw [early_enqueue_add, hpop]
    rfl
  · simp only [pop_set, get_pop] at h
    split at h
    · obtain rfl := Option.some.inj h
      refine (within_set ⟨[msg], rfl, ?_⟩).trans (within_enqueue (by rfl))
      rw [hpop]; rfl
    · cases h

theorem within_run (cfg : Config) (s : Side) {w' : Pair} (hlat : 0 < cfg.latency) (hD : D ≤ w.now + cfg.latency)
    (h : w.run cfg s = some w') : Within D w w' := by
  cases hq : (w.get s).mailbox.queue with
  | nil =>
    have he : w.run cfg s = some w := by unfold Pair.run; rw [hq]
    rw [he] at h
    obtain rfl := Option.some.inj h
    exact .refl _
  | cons c rest =>
    rw [run_pop hq] at h
    cases hc : receiveNote c with
    | none =>
      have hpop : early D (w.get s).mailbox = _ := early_pop hq
      rw [hc, Option.toList_none, Multiset.coe_nil, zero_add] at hpop
      refine (within_modify (.quiet rfl ?_)).trans (within_handle hc hlat (by rw [modify_now]; exact hD) h)
      exact hpop.symm.le
    | some msg =>
      cases c <;> cases hc
      exact within_receive hq h

end Events

section Runs
variable {cfg : Config} {T : Nat} {w₀ w w' : Pair}

theorem handle_now (cfg : Config) (w : Pair) (s : Side) (c : Call) (h : w.handle cfg s c = some w') :
    w'.now = w.now := by
  cases c <;> dsimp only [Pair.handle, Pair._connectToPeer, Pair._send, Pair._simulateReceived,
    Pair._ack, Pair._close, Pair._simulateClosed, Pair.simulateReceived, Pair.simulateClosed,
    Pair.enqueue, Pair.enqueueAfter] at h <;> repeat' split at h
  all_goals (cases h; try simp only [modify_now, set_now])

theorem run_now (cfg : Config) (w : Pair) (s : Side) (h : w.run cfg s = some w') : w'.now = w.now := by
  unfold Pair.run at h
  split at h
  · obtain rfl := Option.some.inj h
    rfl
  · rw [handle_now cfg _ s _ h, modify_now]

theorem step_now_le (hs : Step cfg w w') : w.now ≤ w'.now := by
  cases hs with
  | tick t ht => exact ht
  | run s hr => rw [run_now cfg w s hr]
  | fire | send | connect | setDelegate | close =>
    simp only [Pair.send, Pair.connect, Pair.setDelegate, Pair.close, Pair.enqueue, modify_now,
      le_refl]

theorem steps_now_le (hs : Relation.ReflTransGen (Step cfg) w₀ w) : w₀.now ≤ w.now := by
  induction hs with
  | refl => exact le_rfl
  | tail _ h ih => exact ih.trans (step_now_le h)

theorem within_step (hs : Step cfg w w') (hT : T ≤ w.now) (hD : w'.now < T + cfg.latency) :
    Within (T + cfg.latency) w w' := by
  have hle := step_now_le hs
  cases hs with
  | tick t _ => exact fun y => by rw [get_now]; exact .refl _
  | fire s i hdue => exact within_modify (.quiet rfl (early_fire hdue (by omega)).le)
  | run s hr => exact within_run cfg s (by omega) (by omega) hr
  | send s msg => exact (within_modify (.quiet rfl le_rfl)).trans (within_enqueue (by rfl))
  | connect => exact (within_enqueue (by rfl)).trans (within_enqueue (by rfl))
  | setDelegate s => exact within_modify (.quiet rfl le_rfl)
  | close s => exact within_enqueue (by rfl)

theorem within_steps (hs : Relation.ReflTransGen (Step cfg) w₀ w)
    (hD : w.now < w₀.now + cfg.latency) : Within (w₀.now + cfg.latency) w₀ w := by
  induction hs with
  | refl => exact .refl _
  | tail hs₁ h ih =>
    exact (ih ((step_now_le h).trans_lt hD)).trans (within_step h (steps_now_le hs₁) hD)

/-- **The latency.** Over any run of the pair, from any state, that ends before the latency has
passed, the messages a delegate is given were already on their way into its socket at the start:
they are among that socket's `_simulateReceived` events then. A message the user sends during
the run, or whose `_send` runs during it, is not given before the latency has passed. -/
theorem loopback_latency (hs : Relation.ReflTransGen (Step cfg) w₀ w)
    (hD : w.now < w₀.now + cfg.latency) (s : Side) :
    ∃ A : List (List UInt8), (w.get s).delivered = (w₀.get s).delivered ++ A ∧
      (A : Multiset (List UInt8)) ≤ incoming (w₀.get s) := by
  obtain ⟨A, hA, hle⟩ := within_steps hs hD s
  exact ⟨A, hA, (Multiset.le_add_right _ _).trans (hle.trans (early_le_incoming _))⟩

theorem loopback_latency_ex :
    ∃ w₀ w : Pair, Relation.ReflTransGen (Step ⟨1000⟩) w₀ w ∧ w.now < w₀.now + 1000 ∧
      incoming (w₀.get .b) = 0 ∧ (w.get .a).sent = [[1]] ∧
      ∃ A : List (List UInt8), (w.get .b).delivered = (w₀.get .b).delivered ++ A ∧
        (A : Multiset (List UInt8)) ≤ incoming (w₀.get .b) := by
  -- both sockets get their delegates and run their `_connectToPeer`
  let w₀ : Pair := ⟨⟨⟨[], []⟩, true, some .b, true, true, 0, [], [], false, 0⟩,
    ⟨⟨[], []⟩, true, some .a, true, true, 0, [], [], false, 0⟩, 0⟩
  -- `A` sends a message and runs its `_send`; the clock moves on to just before the latency
  have hs : Relation.ReflTransGen (Step ⟨1000⟩) w₀ _ :=
    .tail (.tail (.single (.send .a [1])) (.run .a rfl)) (.tick 999 (by decide))
  exact ⟨w₀, _, hs, by decide, by decide, by decide, loopback_latency hs (by decide) .b⟩

end Runs

end Blip.LoopbackLatency
