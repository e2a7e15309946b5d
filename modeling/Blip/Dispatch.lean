import Mathlib.Data.List.Basic
import Mathlib.Algebra.Group.Nat.Basic

/-!
# Serial mailboxes

`GCDMailbox` runs an actor's events on a serial dispatch queue. `enqueue` appends a block with
`dispatch_async`; `enqueueAfter` hands the block to `dispatch_after` when its delay is positive,
so that it joins the queue once its time has come, and appends it at once otherwise. The queue
runs its blocks one at a time, first in, first out. Times and delays are in nanoseconds.
-/

set_option autoImplicit false

namespace Blip.Dispatch

structure Timer (β : Type) where
  due : Nat
  block : β
  deriving DecidableEq, Repr

/-- A `GCDMailbox`: the blocks on its serial queue, in order, and those waiting for their time. -/
structure Mailbox (β : Type) where
  queue : List β
  timers : List (Timer β)
  deriving DecidableEq, Repr

variable {β : Type}

def Mailbox.empty : Mailbox β := ⟨[], []⟩

/-- `GCDMailbox::enqueue`. -/
def Mailbox.enqueue (mb : Mailbox β) (b : β) : Mailbox β := { mb with queue := mb.queue ++ [b] }

/-- `GCDMailbox::enqueueAfter`, called at time `now`. -/
def Mailbox.enqueueAfter (mb : Mailbox β) (now delay : Nat) (b : β) : Mailbox β :=
  if 0 < delay then { mb with timers := mb.timers ++ [⟨now + delay, b⟩] } else mb.enqueue b

/-- Timer `i` puts its block at the end of the queue. -/
def Mailbox.fire (mb : Mailbox β) (i : Nat) : Mailbox β :=
  match mb.timers.get? i with
  | some t => ⟨mb.queue ++ [t.block], mb.timers.eraseIdx i⟩
  | none => mb

def Mailbox.Due (mb : Mailbox β) (now i : Nat) : Prop :=
  ∃ t, mb.timers.get? i = some t ∧ t.due ≤ now

def Mailbox.pending (mb : Mailbox β) : List β := mb.queue ++ mb.timers.map Timer.block

@[simp] theorem enqueue_queue (mb : Mailbox β) (b : β) : (mb.enqueue b).queue = mb.queue ++ [b] :=
  rfl

@[simp] theorem enqueue_timers (mb : Mailbox β) (b : β) : (mb.enqueue b).timers = mb.timers := rfl

theorem enqueue_pending_ne_nil (mb : Mailbox β) (b : β) : (mb.enqueue b).pending ≠ [] := by
  simp [Mailbox.pending]

theorem enqueueAfter_pending_ne_nil (mb : Mailbox β) (now delay : Nat) (b : β) :
    (mb.enqueueAfter now delay b).pending ≠ [] := by
  unfold Mailbox.enqueueAfter
  split
  · simp [Mailbox.pending]
  · exact enqueue_pending_ne_nil mb b

theorem fire_pending_length (mb : Mailbox β) (i : Nat) :
    (mb.fire i).pending.length = mb.pending.length := by
  unfold Mailbox.fire
  split
  · next t ht =>
    have hi : i < mb.timers.length := (List.get?_eq_some.mp ht).1
    simp [Mailbox.pending, List.length_eraseIdx, hi]
    omega
  · rfl

theorem perm_cons_eraseIdx {α : Type} : ∀ {l : List α} {i : Nat} {a : α},
    l.get? i = some a → l.Perm (a :: l.eraseIdx i)
  | [], _, _, h => by cases h
  | x :: l, 0, a, h => by cases h; exact .refl _
  | x :: l, i + 1, a, h => ((perm_cons_eraseIdx (l := l) h).cons x).trans (.swap a x _)

theorem fire_pending_perm {mb : Mailbox β} {i : Nat} {t : Timer β}
    (h : mb.timers.get? i = some t) : (mb.fire i).pending.Perm mb.pending := by
  unfold Mailbox.fire Mailbox.pending
  rw [h, List.append_assoc]
  exact .append_left mb.queue ((perm_cons_eraseIdx h).map Timer.block).symm

theorem enqueueAfter_of_pos (mb : Mailbox β) (now : Nat) {delay : Nat} (b : β) (h : 0 < delay) :
    mb.enqueueAfter now delay b = { mb with timers := mb.timers ++ [⟨now + delay, b⟩] } :=
  if_pos h

theorem fire_eq {mb : Mailbox β} {i : Nat} {t : Timer β} (h : mb.timers.get? i = some t) :
    mb.fire i = ⟨mb.queue ++ [t.block], mb.timers.eraseIdx i⟩ := by
  unfold Mailbox.fire; rw [h]

theorem enqueue_pending_perm (mb : Mailbox β) (b : β) :
    (mb.enqueue b).pending.Perm (mb.pending ++ [b]) := by
  simp only [Mailbox.pending, enqueue_queue, enqueue_timers, List.append_assoc]
  exact .append_left mb.queue List.perm_append_comm

theorem enqueueAfter_pending_perm (mb : Mailbox β) (now delay : Nat) (b : β) :
    (mb.enqueueAfter now delay b).pending.Perm (mb.pending ++ [b]) := by
  unfold Mailbox.enqueueAfter
  split
  · simp only [Mailbox.pending, List.map_append, List.map_cons, List.map_nil, List.append_assoc,
      List.Perm.refl]
  · exact enqueue_pending_perm mb b

theorem fire_queue {mb : Mailbox β} {now i : Nat} (h : mb.Due now i) :
    ∃ b, (mb.fire i).queue = mb.queue ++ [b] := by
  obtain ⟨t, ht, -⟩ := h
  exact ⟨t.block, by unfold Mailbox.fire; rw [ht]⟩

end Blip.Dispatch
