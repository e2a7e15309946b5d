import Blip.Dispatch

/-!
# The batcher

`push` schedules a processor call when none is scheduled, at once or after the latency, and
`pop` takes the whole queue. Over every interleaving of pushes, timers and processor runs, the
batches popped and the items queued are the items pushed, in order.
-/

set_option autoImplicit false

namespace Blip.Batching
open Blip.Dispatch

structure Config where
  latency : Nat
  capacity : Nat

/-- `Batcher`: `_items` (null until the first push after a pop), `_scheduled` and `_popTime`. -/
structure Batcher (α : Type) where
  items : Option (List α)
  scheduled : Bool
  popTime : Nat

inductive Schedule where
  | now
  | after
  deriving DecidableEq, Repr

variable {α : Type}

def Batcher.new : Batcher α := ⟨none, false, 0⟩

def Batcher.timeSincePop (b : Batcher α) (now : Nat) : Nat := now - b.popTime

/-- `Batcher::push` at time `now`: the new state, and the processor call it schedules. -/
def Batcher.push (cfg : Config) (b : Batcher α) (now : Nat) (item : α) :
    Batcher α × Option Schedule :=
  let items := b.items.getD [] ++ [item]
  if 0 < cfg.latency ∧ 0 < cfg.capacity ∧
      (items.length = cfg.capacity ∨ (b.scheduled = false ∧ cfg.latency < b.timeSincePop now)) then
    -- I'm full, or it's the first push in a while -- schedule a pop NOW
    ({ b with items := some items, scheduled := true }, some .now)
  else if b.scheduled = false then
    -- Schedule a pop as soon as an item is added
    ({ b with items := some items, scheduled := true }, some .after)
  else ({ b with items := some items }, none)

/-- `Batcher::pop` at time `now`: the new state, and the items it returns. -/
def Batcher.pop (b : Batcher α) (now : Nat) : Batcher α × Option (List α) :=
  ({ b with items := none, scheduled := false, popTime := now }, b.items)

structure World (α : Type) where
  batcher : Batcher α
  mailbox : Mailbox Unit
  now : Nat

def World.push (cfg : Config) (w : World α) (item : α) : World α :=
  let r := w.batcher.push cfg w.now item
  ⟨r.1, match r.2 with
    | none => w.mailbox
    | some .now => w.mailbox.enqueue ()
    | some .after => w.mailbox.enqueueAfter w.now cfg.latency (), w.now⟩

def World.run (w : World α) : World α :=
  ⟨(w.batcher.pop w.now).1, { w.mailbox with queue := w.mailbox.queue.tail }, w.now⟩

/-- The runs from a new batcher: the items pushed, oldest first, and the batches popped. -/
inductive Reach (cfg : Config) : World α → List α → List (List α) → Prop where
  | start (now : Nat) : Reach cfg ⟨.new, .empty, now⟩ [] []
  | tick {w : World α} {pushed : List α} {popped : List (List α)} (t : Nat) :
      Reach cfg w pushed popped → w.now ≤ t → Reach cfg { w with now := t } pushed popped
  | push {w : World α} {pushed : List α} {popped : List (List α)} (item : α) :
      Reach cfg w pushed popped → Reach cfg (w.push cfg item) (pushed ++ [item]) popped
  | fire {w : World α} {pushed : List α} {popped : List (List α)} (i : Nat) :
      Reach cfg w pushed popped → w.mailbox.Due w.now i →
      Reach cfg { w with mailbox := w.mailbox.fire i } pushed popped
  | run {w : World α} {pushed : List α} {popped : List (List α)} :
      Reach cfg w pushed popped → w.mailbox.queue ≠ [] →
      Reach cfg w.run pushed (popped ++ (w.batcher.pop w.now).2.toList)

structure Inv (w : World α) (pushed : List α) (popped : List (List α)) : Prop where
  order : popped.flatten ++ w.batcher.items.getD [] = pushed
  items : ∀ l, w.batcher.items = some l → l ≠ []
  popped : ∀ l ∈ popped, l ≠ []
  scheduled : w.batcher.items.isSome → w.batcher.scheduled = true
  pending : w.batcher.scheduled = true → w.mailbox.pending ≠ []

theorem push_cases (cfg : Config) (b : Batcher α) (now : Nat) (item : α) :
    b.push cfg now item =
        ({ b with items := some (b.items.getD [] ++ [item]), scheduled := true }, some .now) ∨
      b.push cfg now item =
        ({ b with items := some (b.items.getD [] ++ [item]), scheduled := true }, some .after) ∨
      (b.scheduled = true ∧
        b.push cfg now item = ({ b with items := some (b.items.getD [] ++ [item]) }, none)) := by
  simp only [Batcher.push]
  split_ifs with h₁ h₂
  · exact .inl rfl
  · exact .inr (.inl rfl)
  · exact .inr (.inr ⟨by simpa using h₂, rfl⟩)

theorem push_spec (cfg : Config) (w : World α) (item : α) (hi : w.batcher.scheduled = true →
    w.mailbox.pending ≠ []) :
    (w.push cfg item).batcher.items = some (w.batcher.items.getD [] ++ [item]) ∧
      (w.push cfg item).batcher.scheduled = true ∧ (w.push cfg item).mailbox.pending ≠ [] := by
  rcases push_cases cfg w.batcher w.now item with h | h | ⟨hs, h⟩ <;>
    simp only [World.push, h, true_and]
  · exact enqueue_pending_ne_nil _ _
  · exact enqueueAfter_pending_ne_nil _ _ _ _
  · exact ⟨hs, hi hs⟩

theorem inv_push (cfg : Config) {w : World α} {pushed : List α} {popped : List (List α)}
    (item : α) (hi : Inv w pushed popped) : Inv (w.push cfg item) (pushed ++ [item]) popped := by
  obtain ⟨hitems, hsched, hpend⟩ := push_spec cfg w item hi.pending
  refine ⟨?_, ?_, hi.popped, fun _ => hsched, fun _ => hpend⟩
  · rw [hitems, Option.getD_some, ← List.append_assoc, hi.order]
  · rw [hitems]; rintro l ⟨⟩; simp

theorem inv_fire {w : World α} {pushed : List α} {popped : List (List α)} (i : Nat)
    (hi : Inv w pushed popped) : Inv { w with mailbox := w.mailbox.fire i } pushed popped :=
  ⟨hi.order, hi.items, hi.popped, hi.scheduled, fun h hnil => hi.pending h
    (List.eq_nil_of_length_eq_zero (by rw [← fire_pending_length w.mailbox i, hnil]; rfl))⟩

theorem inv_run {w : World α} {pushed : List α} {popped : List (List α)}
    (hi : Inv w pushed popped) :
    Inv w.run pushed (popped ++ (w.batcher.pop w.now).2.toList) := by
  refine ⟨?_, fun _ h => (nomatch h), fun l hl => ?_, fun h => (nomatch h), fun h => (nomatch h)⟩
  · simp only [World.run, Batcher.pop, Option.getD_none, List.append_nil, List.flatten_append]
    rw [← hi.order]
    cases w.batcher.items <;> simp
  · rcases List.mem_append.mp hl with hl | hl
    · exact hi.popped l hl
    · simp only [Batcher.pop, Option.mem_toList, Option.mem_def] at hl
      exact hi.items l hl

theorem reach_inv {cfg : Config} {w : World α} {pushed : List α} {popped : List (List α)}
    (h : Reach cfg w pushed popped) : Inv w pushed popped := by
  induction h with
  | start now => exact ⟨rfl, fun _ h => (nomatch h), fun _ h => (nomatch h), fun h => (nomatch h),
      fun h => (nomatch h)⟩
  | tick _ _ _ ih => exact ⟨ih.order, ih.items, ih.popped, ih.scheduled, ih.pending⟩
  | push item _ ih => exact inv_push cfg item ih
  | fire i _ _ ih => exact inv_fire i ih
  | run _ _ ih => exact inv_run ih

/-- Over any interleaving of pushes, timers and processor runs: the non-null batches popped,
then the items still queued, are the items pushed, in push order, each once; every batch popped
is non-empty; and while the queue is non-empty, `_scheduled` is set and a processor call, queued
or waiting for its time, has not yet run. -/
theorem reach_batches {cfg : Config} {w : World α} {pushed : List α} {popped : List (List α)}
    (h : Reach cfg w pushed popped) :
    popped.flatten ++ w.batcher.items.getD [] = pushed ∧ (∀ l ∈ popped, l ≠ []) ∧
      (w.batcher.items.getD [] ≠ [] → w.batcher.scheduled = true ∧ w.mailbox.pending ≠ []) := by
  have hi := reach_inv h
  refine ⟨hi.order, hi.popped, fun hne => ?_⟩
  have hsome : w.batcher.items.isSome := by
    cases hb : w.batcher.items
    · simp [hb] at hne
    · rfl
  exact ⟨hi.scheduled hsome, hi.pending (hi.scheduled hsome)⟩

theorem reach_batches_ex :
    ∃ (w : World Char) (pushed : List Char) (popped : List (List Char)),
      Reach ⟨1000, 2⟩ w pushed popped ∧ pushed = ['a', 'b'] ∧
      popped.flatten ++ w.batcher.items.getD [] = pushed ∧ (∀ l ∈ popped, l ≠ []) ∧
      (w.batcher.items.getD [] ≠ [] → w.batcher.scheduled = true ∧ w.mailbox.pending ≠ []) :=
  ⟨_, _, _, .push 'b' (.push 'a' (.start 0)), rfl,
    reach_batches (.push 'b' (.push 'a' (.start 0)))⟩

/-- The actor's own steps from a state, with no push: time passing, timers firing and processor
calls running, with the batches their pops return. -/
inductive Drain : World α → List (List α) → World α → Prop where
  | refl (w : World α) : Drain w [] w
  | tick {w w' : World α} {ps : List (List α)} (t : Nat) :
      w.now ≤ t → Drain { w with now := t } ps w' → Drain w ps w'
  | fire {w w' : World α} {ps : List (List α)} (i : Nat) :
      w.mailbox.Due w.now i → Drain { w with mailbox := w.mailbox.fire i } ps w' → Drain w ps w'
  | run {w w' : World α} {ps : List (List α)} :
      w.mailbox.queue ≠ [] → Drain w.run ps w' → Drain w ((w.batcher.pop w.now).2.toList ++ ps) w'

theorem Drain.reach {cfg : Config} {w w' : World α} {ps : List (List α)} (hd : Drain w ps w') :
    ∀ {pushed : List α} {popped : List (List α)}, Reach cfg w pushed popped →
      Reach cfg w' pushed (popped ++ ps) := by
  induction hd with
  | refl => intro _ _ h; rwa [List.append_nil]
  | tick t ht _ ih => exact fun h => ih (.tick t h ht)
  | fire i hdue _ ih => exact fun h => ih (.fire i h hdue)
  | run hq _ ih => exact fun h => by rw [← List.append_assoc]; exact ih (.run h hq)

/-- The processor call a non-empty queue waits for does come: by the actor's own steps, the clock
reaches its time, its timer fires and the actor runs it, and its pop returns the whole queue. -/
theorem reach_drain {cfg : Config} {w : World α} {pushed : List α} {popped : List (List α)}
    (h : Reach cfg w pushed popped) {l : List α} (hl : w.batcher.items = some l) :
    ∃ w', Drain w [l] w' ∧ Reach cfg w' pushed (popped ++ [l]) ∧ w'.batcher.items = none := by
  have hi := reach_inv h
  have hpend := hi.pending (hi.scheduled (by simp [hl]))
  -- a state with the same batcher and a queued call pops `l` next
  have hrun : ∀ w₁ : World α, w₁.batcher = w.batcher → w₁.mailbox.queue ≠ [] → Drain w₁ [l] w₁.run :=
    fun w₁ hb hq => by simpa [Batcher.pop, hb, hl] using Drain.run hq (.refl w₁.run)
  suffices hd : ∃ w', Drain w [l] w' ∧ w'.batcher.items = none from
    let ⟨w', hd, hn⟩ := hd; ⟨w', hd, hd.reach h, hn⟩
  by_cases hq : w.mailbox.queue = []
  · obtain ⟨t, ts, hts⟩ : ∃ t ts, w.mailbox.timers = t :: ts := by
      cases hts : w.mailbox.timers with
      | nil => simp [Mailbox.pending, hq, hts] at hpend
      | cons t ts => exact ⟨t, ts, rfl⟩
    have hdue : w.mailbox.Due (max w.now t.due) 0 := ⟨t, by simp [hts], le_max_right _ _⟩
    obtain ⟨b, hb⟩ := fire_queue hdue
    exact ⟨_, .tick _ (le_max_left _ _) (.fire 0 hdue (hrun _ rfl (by simp [hb]))), rfl⟩
  · exact ⟨_, hrun w rfl hq, rfl⟩

theorem reach_drain_ex :
    ∃ (w : World Char) (l : List Char), Reach ⟨1000, 2⟩ w ['a'] [] ∧ w.batcher.items = some l ∧
      ∃ w', Drain w [l] w' ∧ Reach ⟨1000, 2⟩ w' ['a'] ([] ++ [l]) ∧ w'.batcher.items = none :=
  ⟨_, ['a'], .push 'a' (.start 0), rfl, reach_drain (.push 'a' (.start 0)) rfl⟩

end Blip.Batching
