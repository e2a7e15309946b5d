import Blip.Batching
import Blip.MailboxRuns

/-!
# The batcher on its actor's mailbox

On a `GCDMailbox` the processor's block starts, pops while it runs and later returns or throws
into `afterEvent`, with other calls landing in between. Every such run is, step for step, a run
of the batching model, so its results hold of the batcher on its mailbox.
-/

set_option autoImplicit false

namespace Blip.BatcherMailbox
open Blip.Dispatch

variable {α : Type}

def putFront {β : Type} (x : List β) (mb : Mailbox β) : Mailbox β := ⟨x ++ mb.queue, mb.timers⟩

section PutFront
variable {β : Type} (x : List β) (mb : Mailbox β)

theorem putFront_enqueue (b : β) : (putFront x mb).enqueue b = putFront x (mb.enqueue b) := by
  simp only [putFront, Mailbox.enqueue, List.append_assoc]

theorem putFront_enqueueAfter (now delay : Nat) (b : β) :
    (putFront x mb).enqueueAfter now delay b = putFront x (mb.enqueueAfter now delay b) := by
  unfold Mailbox.enqueueAfter
  split
  · rfl
  · exact putFront_enqueue x mb b

theorem putFront_fire {i : Nat} {t : Timer β} (h : mb.timers.get? i = some t) :
    (putFront x mb).fire i = putFront x (mb.fire i) := by
  rw [fire_eq (show (putFront x mb).timers.get? i = some t from h), fire_eq h]
  simp only [putFront, List.append_assoc]

end PutFront

/-- The batcher, its actor's mailbox of processor calls, and whether the processor call the
mailbox is running has popped yet. -/
structure ActorWorld (α : Type) where
  batcher : Batching.Batcher α
  gcd : MailboxRuns.GCDMailbox Unit
  popped : Bool

namespace ActorWorld

def init : ActorWorld α := ⟨.new, .init, false⟩

/-- `Batcher::push` from any thread, with the call it makes on the actor's mailbox. -/
def push (cfg : Batching.Config) (c : ActorWorld α) (item : α) : ActorWorld α :=
  let r := c.batcher.push cfg c.gcd.now item
  ⟨r.1, match r.2 with
    | none => c.gcd
    | some .now => c.gcd.enqueue ()
    | some .after => c.gcd.enqueueAfter cfg.latency (), c.popped⟩

/-- The running processor call calls `Batcher::pop`: the new state, and the items it returns. -/
def pop (c : ActorWorld α) : ActorWorld α × Option (List α) :=
  (⟨(c.batcher.pop c.gcd.now).1, c.gcd, true⟩, (c.batcher.pop c.gcd.now).2)

def unpopped (c : ActorWorld α) : List Unit :=
  if c.gcd.running.isSome && !c.popped then [()] else []

/-- The batching model's view: a processor call that has started and not popped is still at the
head of the queue. -/
def abstract (c : ActorWorld α) : Batching.World α :=
  ⟨c.batcher, putFront c.unpopped c.gcd.mailbox, c.gcd.now⟩

end ActorWorld

open ActorWorld

inductive Reach (cfg : Batching.Config) : ActorWorld α → List α → List (List α) → Prop where
  | start : Reach cfg init [] []
  | push {c : ActorWorld α} {pushed : List α} {popped : List (List α)} (item : α) :
      Reach cfg c pushed popped → Reach cfg (c.push cfg item) (pushed ++ [item]) popped
  | tick {c : ActorWorld α} {pushed : List α} {popped : List (List α)} (dt : Nat) :
      Reach cfg c pushed popped → Reach cfg { c with gcd := c.gcd.tick dt } pushed popped
  | fire {c : ActorWorld α} {pushed : List α} {popped : List (List α)}
      {g' : MailboxRuns.GCDMailbox Unit} (i : Nat) :
      Reach cfg c pushed popped → c.gcd.fire i = some g' →
      Reach cfg { c with gcd := g' } pushed popped
  | run {c : ActorWorld α} {pushed : List α} {popped : List (List α)}
      {g' : MailboxRuns.GCDMailbox Unit} :
      Reach cfg c pushed popped → c.gcd.run = some g' →
      Reach cfg { c with gcd := g', popped := false } pushed popped
  | pop {c : ActorWorld α} {pushed : List α} {popped : List (List α)} :
      Reach cfg c pushed popped → c.gcd.running = some () → c.popped = false →
      Reach cfg c.pop.1 pushed (popped ++ c.pop.2.toList)
  | finish {c : ActorWorld α} {pushed : List α} {popped : List (List α)}
      {g' : MailboxRuns.GCDMailbox Unit} (o : MailboxRuns.Outcome) :
      Reach cfg c pushed popped → c.popped = true → c.gcd.finish o = some g' →
      Reach cfg { c with gcd := g' } pushed popped

section Refinement

variable {cfg : Batching.Config} {c : ActorWorld α} {pushed : List α} {popped : List (List α)}

theorem reach_gcd (h : Reach cfg c pushed popped) : MailboxRuns.Reach c.gcd := by
  induction h with
  | start => exact .init
  | @push c _ _ item _ ih =>
    show MailboxRuns.Reach (match (c.batcher.push cfg c.gcd.now item).2 with
      | none => c.gcd
      | some .now => c.gcd.enqueue ()
      | some .after => c.gcd.enqueueAfter cfg.latency ())
    split
    · exact ih
    · exact .enqueue () ih
    · exact .enqueueAfter _ () ih
  | tick dt _ ih => exact .tick dt ih
  | fire i _ hf ih => exact .fire i ih hf
  | run _ hr ih => exact .run ih hr
  | pop _ _ _ ih => exact ih
  | finish o _ _ hf ih => exact .finish o ih hf

theorem abstract_push (cfg : Batching.Config) (c : ActorWorld α) (item : α) :
    (c.push cfg item).abstract = c.abstract.push cfg item := by
  simp only [abstract, push, Batching.World.push]
  rcases (c.batcher.push cfg c.gcd.now item).2 with _ | _ | _
  · rfl
  · exact congrArg (fun mb => (⟨_, mb, c.gcd.now⟩ : Batching.World α))
      (putFront_enqueue c.unpopped c.gcd.mailbox ()).symm
  · exact congrArg (fun mb => (⟨_, mb, c.gcd.now⟩ : Batching.World α))
      (putFront_enqueueAfter c.unpopped c.gcd.mailbox _ _ ()).symm

theorem reach_abstract (h : Reach cfg c pushed popped) :
    Batching.Reach cfg c.abstract pushed popped := by
  induction h with
  | start => exact .start 0
  | push item _ ih => rw [abstract_push]; exact .push item ih
  | tick dt _ ih => exact .tick _ ih (Nat.le_add_right _ dt)
  | @fire c _ _ g' i _ hf ih =>
    obtain ⟨t, ht, hdue, rfl⟩ := MailboxRuns.GCDMailbox.fire_cases hf
    have := Batching.Reach.fire i ih ⟨t, ht, hdue⟩
    rwa [show c.abstract.mailbox.fire i = putFront c.unpopped (c.gcd.mailbox.fire i) from
      putFront_fire _ _ ht] at this
  | @run c _ _ g' _ hr ih =>
    obtain ⟨⟨⟩, rest, hnone, hq, rfl⟩ := MailboxRuns.GCDMailbox.run_cases hr
    -- the call the queue starts stays, not yet popped, at the head of the model's queue
    convert ih using 1
    simp only [abstract, unpopped, putFront, hnone, hq, Option.isSome_some, Option.isSome_none,
      Bool.not_false, Bool.and_true, Bool.false_and, if_true, Bool.false_eq_true, if_false,
      List.nil_append, List.singleton_append]
  | @pop c _ _ _ hr hp ih =>
    have hq : c.abstract.mailbox.queue ≠ [] := by
      simp [abstract, unpopped, putFront, hr, hp]
    convert Batching.Reach.run ih hq using 1
    simp only [abstract, unpopped, putFront, pop, Batching.World.run, hr, hp, Option.isSome_some,
      Bool.not_true, Bool.and_false, Bool.not_false, Bool.and_true, if_true, Bool.false_eq_true,
      if_false, List.nil_append, List.singleton_append, List.tail_cons]
  | @finish c _ _ g' o _ hp hf ih =>
    obtain ⟨b, hb, rfl⟩ := MailboxRuns.GCDMailbox.finish_cases hf
    convert ih using 1
    simp only [abstract, unpopped, hb, hp, Option.isSome_some, Option.isSome_none, Bool.not_true,
      Bool.and_false, Bool.false_and]

end Refinement

/-- Over every run of the batcher on its actor's `GCDMailbox` (pushes from any thread, timers,
and processor calls that start, pop at any moment while they run, and return or throw after
their pop): the non-null batches popped, then the items still queued, are the items pushed, in
push order, each once; every batch popped is non-empty; while the queue is non-empty,
`_scheduled` is set and a processor call that has not popped is running, queued or waiting for
its time; and the mailbox's `_eventCount` counts the processor calls not yet finished. -/
theorem actor_batches {cfg : Batching.Config} {c : ActorWorld α} {pushed : List α}
    {popped : List (List α)} (h : Reach cfg c pushed popped) :
    popped.flatten ++ c.batcher.items.getD [] = pushed ∧ (∀ l ∈ popped, l ≠ []) ∧
    (c.batcher.items.getD [] ≠ [] → c.batcher.scheduled = true ∧
      ((c.gcd.running.isSome ∧ c.popped = false) ∨ c.gcd.mailbox.pending ≠ [])) ∧
    c.gcd.eventCount =
      ((c.gcd.mailbox.pending.length + c.gcd.running.toList.length : Nat) : Int) := by
  have hi := Batching.reach_inv (reach_abstract h)
  refine ⟨hi.order, hi.popped, fun hne => ?_, (MailboxRuns.reach_inv (reach_gcd h)).count⟩
  have hsome : c.batcher.items.isSome := by
    cases hb : c.batcher.items
    · simp [hb] at hne
    · rfl
  have hsched := hi.scheduled hsome
  refine ⟨hsched, ?_⟩
  have hpend := hi.pending hsched
  simp only [abstract, putFront, Mailbox.pending, unpopped] at hpend
  by_cases hu : c.gcd.running.isSome ∧ c.popped = false
  · exact .inl hu
  · refine .inr ?_
    rw [if_neg (by simpa using hu), List.nil_append] at hpend
    exact hpend

theorem actor_batches_ex :
    ∃ (c : ActorWorld Char) (popped : List (List Char)),
      Reach ⟨5, 0⟩ c ['a', 'b'] popped ∧ popped = [['a', 'b']] ∧
      popped.flatten ++ c.batcher.items.getD [] = ['a', 'b'] ∧ (∀ l ∈ popped, l ≠ []) ∧
      (c.batcher.items.getD [] ≠ [] → c.batcher.scheduled = true ∧
        ((c.gcd.running.isSome ∧ c.popped = false) ∨ c.gcd.mailbox.pending ≠ [])) ∧
      c.gcd.eventCount =
        ((c.gcd.mailbox.pending.length + c.gcd.running.toList.length : Nat) : Int) := by
  have h₁ := Reach.fire 0 (Reach.tick 5 (Reach.push 'a' (Reach.start : Reach ⟨5, 0⟩ _ [] [])))
    rfl
  have h₂ := Reach.pop (Reach.push 'b' (Reach.run h₁ rfl)) rfl rfl
  have h := Reach.finish .returned h₂ rfl rfl
  exact ⟨_, _, h, rfl, actor_batches h⟩

end Blip.BatcherMailbox
