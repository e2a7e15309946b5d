import Blip.Dispatch

/-!
# Runs of a GCD mailbox

`GCDMailbox::enqueue` and `enqueueAfter` count the event in `_eventCount` and hand the wrapped
block to the serial queue, at once or after the delay. The block runs inside `safelyCall`, which
catches a `std::exception`, and then `afterEvent` uncounts it. The queue's own work (take the next
block, fire a timer, let time pass) is libdispatch's, taken from the specification (section 4.3).
-/

set_option autoImplicit false

namespace Blip.MailboxRuns

open Blip.Dispatch

inductive Event (β : Type) where
  | call (b : β) (now delay : Nat)
  | fire (t : Timer β) (now : Nat)
  | run (b : β) (now : Nat)
  | caught (b : β)
  | done (b : β)
  deriving DecidableEq, Repr

/-- How the running block ends. -/
inductive Outcome where
  | returned
  | threwStd
  | threwOther
  deriving DecidableEq, Repr

def Outcome.caught : Outcome → Bool
  | .threwStd => true
  | _ => false

/-- A `GCDMailbox`: its queue and timers, the block the queue is running, `_eventCount`, the
clock in nanoseconds, and what the run has shown. -/
structure GCDMailbox (β : Type) where
  mailbox : Mailbox β
  running : Option β
  eventCount : Int
  now : Nat
  trace : List (Event β)
  deriving DecidableEq, Repr

variable {β : Type}

namespace GCDMailbox

def init : GCDMailbox β := ⟨Mailbox.empty, none, 0, 0, []⟩

/-- `GCDMailbox::enqueue`: `++_eventCount`, `retain(_actor)`, `dispatch_async`. -/
def enqueue (g : GCDMailbox β) (b : β) : GCDMailbox β :=
  { g with
    mailbox := g.mailbox.enqueue b
    eventCount := g.eventCount + 1
    trace := g.trace ++ [.call b g.now 0] }

/-- `GCDMailbox::enqueueAfter`: as `enqueue`, but through `dispatch_after` when the delay, in
nanoseconds, is positive. -/
def enqueueAfter (g : GCDMailbox β) (delay : Nat) (b : β) : GCDMailbox β :=
  { g with
    mailbox := g.mailbox.enqueueAfter g.now delay b
    eventCount := g.eventCount + 1
    trace := g.trace ++ [.call b g.now delay] }

def tick (g : GCDMailbox β) (dt : Nat) : GCDMailbox β := { g with now := g.now + dt }

def fire (g : GCDMailbox β) (i : Nat) : Option (GCDMailbox β) :=
  match g.mailbox.timers.get? i with
  | some t =>
    if t.due ≤ g.now then
      some { g with mailbox := g.mailbox.fire i, trace := g.trace ++ [.fire t g.now] }
    else none
  | none => none

/-- The idle queue starts the block at its head: the wrapped block up to `safelyCall(block)`. -/
def run (g : GCDMailbox β) : Option (GCDMailbox β) :=
  match g.running, g.mailbox.queue with
  | none, b :: rest =>
    some { g with
      mailbox := { g.mailbox with queue := rest }
      running := some b
      trace := g.trace ++ [.run b g.now] }
  | _, _ => none

/-- The running block returns, or throws a `std::exception` that `safelyCall` passes to
`caughtException`; then `afterEvent`: `--_eventCount`, `release(_actor)`. Any other exception
leaves `safelyCall` and the wrapped block before `afterEvent`, and the step fails. -/
def finish (g : GCDMailbox β) (o : Outcome) : Option (GCDMailbox β) :=
  match g.running with
  | some b =>
    match o with
    | .threwOther => none
    | _ =>
      some { g with
        running := none
        eventCount := g.eventCount - 1
        trace := g.trace ++ (if o.caught then [.caught b] else []) ++ [.done b] }
  | none => none

theorem enqueueAfter_zero (g : GCDMailbox β) (b : β) : g.enqueueAfter 0 b = g.enqueue b := rfl

theorem fire_cases {g g' : GCDMailbox β} {i : Nat} (h : g.fire i = some g') :
    ∃ t, g.mailbox.timers.get? i = some t ∧ t.due ≤ g.now ∧
      g' = { g with mailbox := g.mailbox.fire i, trace := g.trace ++ [.fire t g.now] } := by
  unfold fire at h
  split at h
  · next t ht =>
    split at h
    · exact ⟨t, ht, ‹_›, (Option.some.inj h).symm⟩
    · cases h
  · cases h

theorem run_cases {g g' : GCDMailbox β} (h : g.run = some g') :
    ∃ b rest, g.running = none ∧ g.mailbox.queue = b :: rest ∧
      g' = { g with
        mailbox := { g.mailbox with queue := rest }
        running := some b
        trace := g.trace ++ [.run b g.now] } := by
  unfold run at h
  split at h
  · next b rest hr hq => exact ⟨b, rest, hr, hq, (Option.some.inj h).symm⟩
  · cases h

theorem finish_cases {g g' : GCDMailbox β} {o : Outcome} (h : g.finish o = some g') :
    ∃ b, g.running = some b ∧
      g' = { g with
        running := none
        eventCount := g.eventCount - 1
        trace := g.trace ++ (if o.caught then [.caught b] else []) ++ [.done b] } := by
  unfold finish at h
  split at h
  · next b hb =>
    split at h
    · cases h
    · exact ⟨b, hb, (Option.some.inj h).symm⟩
  · cases h

theorem finish_uncaught (g : GCDMailbox β) : g.finish .threwOther = none := by
  unfold finish; split <;> rfl

theorem fire_of_due {g : GCDMailbox β} {i : Nat} {t : Timer β}
    (ht : g.mailbox.timers.get? i = some t) (hdue : t.due ≤ g.now) :
    g.fire i =
      some { g with mailbox := g.mailbox.fire i, trace := g.trace ++ [.fire t g.now] } := by
  unfold fire; rw [ht]; exact if_pos hdue

theorem run_of_head {g : GCDMailbox β} {b : β} {rest : List β} (hr : g.running = none)
    (hq : g.mailbox.queue = b :: rest) :
    g.run = some { g with
      mailbox := { g.mailbox with queue := rest }
      running := some b
      trace := g.trace ++ [.run b g.now] } := by
  unfold run; rw [hr, hq]

theorem finish_of_running {g : GCDMailbox β} {b : β} (hr : g.running = some b) {o : Outcome}
    (ho : o ≠ .threwOther) :
    g.finish o = some { g with
      running := none
      eventCount := g.eventCount - 1
      trace := g.trace ++ (if o.caught then [.caught b] else []) ++ [.done b] } := by
  cases o
  case threwOther => exact absurd rfl ho
  all_goals simp only [finish, hr]

end GCDMailbox

open GCDMailbox

/-- The runs of a mailbox: calls from any thread, the running block's own included, and the
queue's steps, in any order. -/
inductive Reach : GCDMailbox β → Prop
  | init : Reach init
  | enqueue {g : GCDMailbox β} (b : β) : Reach g → Reach (g.enqueue b)
  | enqueueAfter {g : GCDMailbox β} (delay : Nat) (b : β) :
      Reach g → Reach (g.enqueueAfter delay b)
  | tick {g : GCDMailbox β} (dt : Nat) : Reach g → Reach (g.tick dt)
  | fire {g g' : GCDMailbox β} (i : Nat) : Reach g → g.fire i = some g' → Reach g'
  | run {g g' : GCDMailbox β} : Reach g → g.run = some g' → Reach g'
  | finish {g g' : GCDMailbox β} (o : Outcome) : Reach g → g.finish o = some g' → Reach g'

def Event.callNote : Event β → Option β
  | .call b _ _ => some b
  | _ => none

def Event.joinNote : Event β → Option (β × Nat)
  | .call b now 0 => some (b, now)
  | .fire t _ => some (t.block, t.due)
  | _ => none

def Event.timerNote : Event β → Option (Timer β)
  | .call b now (delay + 1) => some ⟨now + (delay + 1), b⟩
  | _ => none

def Event.firedNote : Event β → Option (Timer β)
  | .fire t _ => some t
  | _ => none

def Event.runNote : Event β → Option (β × Nat)
  | .run b now => some (b, now)
  | _ => none

def Event.doneNote : Event β → Option β
  | .done b => some b
  | _ => none

def callsOf (l : List (Event β)) : List β := l.filterMap Event.callNote

def joinsOf (l : List (Event β)) : List (β × Nat) := l.filterMap Event.joinNote

def timersOf (l : List (Event β)) : List (Timer β) := l.filterMap Event.timerNote

def firedOf (l : List (Event β)) : List (Timer β) := l.filterMap Event.firedNote

def runsOf (l : List (Event β)) : List (β × Nat) := l.filterMap Event.runNote

def doneOf (l : List (Event β)) : List β := l.filterMap Event.doneNote

theorem filterMap_note {α γ : Type} {f : α → Option γ} (l : List α) {e : α} {x : γ}
    (h : f e = some x) : (l ++ [e]).filterMap f = l.filterMap f ++ [x] := by
  rw [List.filterMap_append, List.filterMap_cons_some h]; rfl

theorem filterMap_skip {α γ : Type} {f : α → Option γ} (l : List α) {e : α}
    (h : f e = none) : (l ++ [e]).filterMap f = l.filterMap f := by
  rw [List.filterMap_append, List.filterMap_cons_none h, List.filterMap_nil, List.append_nil]

theorem notes_enqueue (l : List (Event β)) (b : β) (now : Nat) :
    callsOf (l ++ [.call b now 0]) = callsOf l ++ [b] ∧
    joinsOf (l ++ [.call b now 0]) = joinsOf l ++ [(b, now)] ∧
    timersOf (l ++ [.call b now 0]) = timersOf l ∧ firedOf (l ++ [.call b now 0]) = firedOf l ∧
    runsOf (l ++ [.call b now 0]) = runsOf l ∧ doneOf (l ++ [.call b now 0]) = doneOf l :=
  ⟨filterMap_note l rfl, filterMap_note l rfl, filterMap_skip l rfl, filterMap_skip l rfl,
    filterMap_skip l rfl, filterMap_skip l rfl⟩

theorem notes_timer (l : List (Event β)) (b : β) (now d : Nat) :
    callsOf (l ++ [.call b now (d + 1)]) = callsOf l ++ [b] ∧
    joinsOf (l ++ [.call b now (d + 1)]) = joinsOf l ∧
    timersOf (l ++ [.call b now (d + 1)]) = timersOf l ++ [⟨now + (d + 1), b⟩] ∧
    firedOf (l ++ [.call b now (d + 1)]) = firedOf l ∧
    runsOf (l ++ [.call b now (d + 1)]) = runsOf l ∧
    doneOf (l ++ [.call b now (d + 1)]) = doneOf l :=
  ⟨filterMap_note l rfl, filterMap_skip l rfl, filterMap_note l rfl, filterMap_skip l rfl,
    filterMap_skip l rfl, filterMap_skip l rfl⟩

theorem notes_fire (l : List (Event β)) (t : Timer β) (now : Nat) :
    callsOf (l ++ [.fire t now]) = callsOf l ∧
    joinsOf (l ++ [.fire t now]) = joinsOf l ++ [(t.block, t.due)] ∧
    timersOf (l ++ [.fire t now]) = timersOf l ∧
    firedOf (l ++ [.fire t now]) = firedOf l ++ [t] ∧
    runsOf (l ++ [.fire t now]) = runsOf l ∧ doneOf (l ++ [.fire t now]) = doneOf l :=
  ⟨filterMap_skip l rfl, filterMap_note l rfl, filterMap_skip l rfl, filterMap_note l rfl,
    filterMap_skip l rfl, filterMap_skip l rfl⟩

theorem notes_run (l : List (Event β)) (b : β) (now : Nat) :
    callsOf (l ++ [.run b now]) = callsOf l ∧ joinsOf (l ++ [.run b now]) = joinsOf l ∧
    timersOf (l ++ [.run b now]) = timersOf l ∧ firedOf (l ++ [.run b now]) = firedOf l ∧
    runsOf (l ++ [.run b now]) = runsOf l ++ [(b, now)] ∧
    doneOf (l ++ [.run b now]) = doneOf l :=
  ⟨filterMap_skip l rfl, filterMap_skip l rfl, filterMap_skip l rfl, filterMap_skip l rfl,
    filterMap_note l rfl, filterMap_skip l rfl⟩

theorem filterMap_caught {γ : Type} {f : Event β → Option γ} (h : ∀ b, f (.caught b) = none)
    (l : List (Event β)) (b : β) (caught : Bool) :
    (l ++ if caught then [Event.caught b] else []).filterMap f = l.filterMap f := by
  cases caught
  · rw [if_neg Bool.false_ne_true, List.append_nil]
  · exact filterMap_skip l (h b)

theorem notes_finish (l : List (Event β)) (b : β) (caught : Bool) :
    let l' := l ++ (if caught then [.caught b] else []) ++ [.done b]
    callsOf l' = callsOf l ∧ joinsOf l' = joinsOf l ∧ timersOf l' = timersOf l ∧
    firedOf l' = firedOf l ∧ runsOf l' = runsOf l ∧ doneOf l' = doneOf l ++ [b] :=
  ⟨(filterMap_skip _ rfl).trans (filterMap_caught (fun _ => rfl) l b caught),
    (filterMap_skip _ rfl).trans (filterMap_caught (fun _ => rfl) l b caught),
    (filterMap_skip _ rfl).trans (filterMap_caught (fun _ => rfl) l b caught),
    (filterMap_skip _ rfl).trans (filterMap_caught (fun _ => rfl) l b caught),
    (filterMap_skip _ rfl).trans (filterMap_caught (fun _ => rfl) l b caught),
    (filterMap_note _ (rfl : Event.doneNote (.done b) = some b)).trans
      (congrArg (· ++ [b]) (filterMap_caught (fun _ => rfl) l b caught))⟩

/-- What holds of every reachable mailbox. -/
structure Inv (g : GCDMailbox β) : Prop where
  count : g.eventCount = ((g.mailbox.pending.length + g.running.toList.length : Nat) : Int)
  kept : (callsOf g.trace).Perm (doneOf g.trace ++ g.running.toList ++ g.mailbox.pending)
  serial : doneOf g.trace ++ g.running.toList = (runsOf g.trace).map Prod.fst
  fifo : (joinsOf g.trace).map Prod.fst = (runsOf g.trace).map Prod.fst ++ g.mailbox.queue
  onTime : ∀ (i : Nat) (r : β × Nat), (runsOf g.trace)[i]? = some r →
    ∃ j, (joinsOf g.trace)[i]? = some j ∧ j.2 ≤ r.2
  joined : ∀ j ∈ joinsOf g.trace, j.2 ≤ g.now
  timers : (timersOf g.trace).Perm (firedOf g.trace ++ g.mailbox.timers)

theorem getElem?_append_of_eq_some {α : Type} {l₁ l₂ : List α} {i : Nat} {a : α}
    (h : l₁[i]? = some a) : (l₁ ++ l₂)[i]? = some a := by
  rw [List.getElem?_append_left (List.getElem?_eq_some_iff.mp h).1, h]

theorem getElem?_concat_eq_some {α : Type} {l : List α} {x a : α} {i : Nat}
    (h : (l ++ [x])[i]? = some a) : l[i]? = some a ∨ (i = l.length ∧ a = x) := by
  rcases Nat.lt_or_ge i l.length with hi | hi
  · exact .inl (by rwa [List.getElem?_append_left hi] at h)
  · rw [List.getElem?_append_right hi] at h
    obtain ⟨hlt, ha⟩ := List.getElem?_eq_some_iff.mp h
    simp only [List.length_singleton] at hlt
    exact .inr ⟨by omega, by simpa [show i - l.length = 0 by omega] using ha.symm⟩

section Steps

variable {g g' : GCDMailbox β}

theorem onTime_join {runs joins : List (β × Nat)} (extra : List (β × Nat))
    (h : ∀ (i : Nat) (r : β × Nat), runs[i]? = some r →
      ∃ j, joins[i]? = some j ∧ j.2 ≤ r.2) :
    ∀ (i : Nat) (r : β × Nat), runs[i]? = some r →
      ∃ j, (joins ++ extra)[i]? = some j ∧ j.2 ≤ r.2 :=
  fun i r hr => by
  obtain ⟨j, hj, hle⟩ := h i r hr
  exact ⟨j, getElem?_append_of_eq_some hj, hle⟩

theorem kept_call {calls done left : List β} {run : List β} {pending' : List β} (b : β)
    (hk : calls.Perm (done ++ run ++ left)) (hp : pending'.Perm (left ++ [b])) :
    (calls ++ [b]).Perm (done ++ run ++ pending') := by
  refine (hk.append_right [b]).trans ?_
  rw [List.append_assoc (done ++ run)]
  exact .append_left _ hp.symm

theorem inv_init : Inv (init : GCDMailbox β) :=
  ⟨rfl, .nil, rfl, rfl, fun _ _ h => (by cases h), fun _ h => (by cases h), .nil⟩

theorem inv_enqueue (b : β) (hi : Inv g) : Inv (g.enqueue b) := by
  obtain ⟨n₁, n₂, n₃, n₄, n₅, n₆⟩ := notes_enqueue g.trace b g.now
  have hp := enqueue_pending_perm g.mailbox b
  refine ⟨?_, ?_, ?_, ?_, ?_, ?_, ?_⟩
  · simp only [enqueue, hp.length_eq, List.length_append, List.length_singleton, hi.count]
    omega
  · rw [enqueue, n₁, n₆]; exact kept_call b hi.kept hp
  · rw [enqueue, n₆, n₅]; exact hi.serial
  · rw [enqueue, n₂, n₅, List.map_append, hi.fifo, enqueue_queue, List.append_assoc]; rfl
  · rw [enqueue, n₂, n₅]; exact onTime_join _ hi.onTime
  · rw [enqueue, n₂]
    intro j hj
    rcases List.mem_append.mp hj with hj | hj
    · exact hi.joined j hj
    · rw [List.mem_singleton.mp hj]
  · rw [enqueue, n₃, n₄, enqueue_timers]; exact hi.timers

theorem inv_enqueueTimer (d : Nat) (b : β) (hi : Inv g) : Inv (g.enqueueAfter (d + 1) b) := by
  obtain ⟨n₁, n₂, n₃, n₄, n₅, n₆⟩ := notes_timer g.trace b g.now d
  have hp := enqueueAfter_pending_perm g.mailbox g.now (d + 1) b
  have hm := enqueueAfter_of_pos g.mailbox g.now b (Nat.succ_pos d)
  refine ⟨?_, ?_, ?_, ?_, ?_, ?_, ?_⟩
  · simp only [enqueueAfter, hp.length_eq, List.length_append, List.length_singleton, hi.count]
    omega
  · rw [enqueueAfter, n₁, n₆]; exact kept_call b hi.kept hp
  · rw [enqueueAfter, n₆, n₅]; exact hi.serial
  · rw [enqueueAfter, n₂, n₅, hm]; exact hi.fifo
  · rw [enqueueAfter, n₂, n₅]; exact hi.onTime
  · rw [enqueueAfter, n₂]; exact hi.joined
  · rw [enqueueAfter, n₃, n₄, hm, ← List.append_assoc]; exact hi.timers.append_right _

theorem inv_enqueueAfter (delay : Nat) (b : β) (hi : Inv g) : Inv (g.enqueueAfter delay b) := by
  cases delay with
  | zero => exact inv_enqueue b hi
  | succ d => exact inv_enqueueTimer d b hi

theorem inv_tick (dt : Nat) (hi : Inv g) : Inv (g.tick dt) :=
  ⟨hi.count, hi.kept, hi.serial, hi.fifo, hi.onTime,
    fun j hj => Nat.le_add_right_of_le (hi.joined j hj), hi.timers⟩

theorem inv_fire {i : Nat} (hi : Inv g) (h : g.fire i = some g') : Inv g' := by
  obtain ⟨t, ht, hdue, rfl⟩ := fire_cases h
  obtain ⟨n₁, n₂, n₃, n₄, n₅, n₆⟩ := notes_fire g.trace t g.now
  have hp := fire_pending_perm ht
  have hf := fire_eq ht
  refine ⟨?_, ?_, ?_, ?_, ?_, ?_, ?_⟩
  · rw [hp.length_eq]; exact hi.count
  · rw [n₁, n₆]; exact hi.kept.trans (.append_left _ hp.symm)
  · rw [n₆, n₅]; exact hi.serial
  · rw [n₂, n₅, List.map_append, hi.fifo, hf, List.append_assoc]; rfl
  · rw [n₂, n₅]; exact onTime_join _ hi.onTime
  · rw [n₂]
    intro j hj
    rcases List.mem_append.mp hj with hj | hj
    · exact hi.joined j hj
    · rw [List.mem_singleton.mp hj]; exact hdue
  · rw [n₃, n₄, hf, List.append_assoc]
    exact hi.timers.trans (.append_left _ (perm_cons_eraseIdx ht))

theorem inv_run (hi : Inv g) (h : g.run = some g') : Inv g' := by
  obtain ⟨b, rest, hr, hq, rfl⟩ := run_cases h
  obtain ⟨n₁, n₂, n₃, n₄, n₅, n₆⟩ := notes_run g.trace b g.now
  have hcount := hi.count
  have hkept := hi.kept
  have hserial := hi.serial
  have hfifo := hi.fifo
  simp only [hr, hq, Mailbox.pending, Option.toList_none, List.append_nil, List.length_append,
    List.length_cons, List.length_nil] at hcount hkept hserial hfifo
  refine ⟨?_, ?_, ?_, ?_, fun i r hir => ?_, ?_, ?_⟩
  · simp only [Mailbox.pending, List.length_append, Option.toList_some, List.length_singleton,
      hcount]
    omega
  · rw [n₁, n₆]; simpa [Mailbox.pending] using hkept
  · rw [n₆, n₅, List.map_append, ← hserial]; rfl
  · rw [n₂, n₅, List.map_append, hfifo, List.append_assoc]; rfl
  · rw [n₅] at hir
    rw [n₂]
    rcases getElem?_concat_eq_some hir with hir | ⟨rfl, rfl⟩
    · exact hi.onTime i r hir
    · have hlen : (runsOf g.trace).length < (joinsOf g.trace).length := by
        have := congrArg List.length hfifo
        simp only [List.length_map, List.length_append, List.length_cons] at this
        omega
      have hj := List.getElem?_eq_getElem hlen
      exact ⟨_, hj, hi.joined _ (List.getElem?_mem hj)⟩
  · rw [n₂]; exact hi.joined
  · rw [n₃, n₄]; exact hi.timers

theorem inv_finish {o : Outcome} (hi : Inv g) (h : g.finish o = some g') : Inv g' := by
  obtain ⟨b, hb, rfl⟩ := finish_cases h
  obtain ⟨n₁, n₂, n₃, n₄, n₅, n₆⟩ := notes_finish g.trace b o.caught
  have hcount := hi.count
  have hkept := hi.kept
  have hserial := hi.serial
  rw [hb, Option.toList_some] at hcount hkept hserial
  refine ⟨?_, ?_, ?_, ?_, ?_, ?_, ?_⟩
  · simp only [Option.toList_none, List.length_nil, Nat.add_zero, hcount, List.length_singleton]
    omega
  · rw [n₁, n₆, Option.toList_none, List.append_nil]; exact hkept
  · rw [n₆, n₅, Option.toList_none, List.append_nil]; exact hserial
  · rw [n₂, n₅]; exact hi.fifo
  · rw [n₂, n₅]; exact hi.onTime
  · rw [n₂]; exact hi.joined
  · rw [n₃, n₄]; exact hi.timers

theorem reach_inv {g : GCDMailbox β} (h : Reach g) : Inv g := by
  induction h with
  | init => exact inv_init
  | enqueue b _ ih => exact inv_enqueue b ih
  | enqueueAfter delay b _ ih => exact inv_enqueueAfter delay b ih
  | tick dt _ ih => exact inv_tick dt ih
  | fire i _ h ih => exact inv_fire ih h
  | run _ h ih => exact inv_run ih h
  | finish o _ h ih => exact inv_finish ih h

theorem Inv.run_after_call {g : GCDMailbox β} (hi : Inv g) {r : β × Nat}
    (hr : r ∈ runsOf g.trace) :
    ∃ now delay, Event.call r.1 now delay ∈ g.trace ∧ now + delay ≤ r.2 := by
  obtain ⟨i, hri⟩ := List.mem_iff_getElem?.mp hr
  obtain ⟨j, hj, hle⟩ := hi.onTime i r hri
  -- the `i`-th join is the block that started `i`-th
  have hfst : j.1 = r.1 := by
    have h := congrArg (·[i]?) hi.fifo
    simp only [List.getElem?_map, hj, Option.map_some'] at h
    rw [getElem?_append_of_eq_some (by rw [List.getElem?_map, hri]; rfl)] at h
    exact Option.some.inj h
  obtain ⟨e, he, hje⟩ := List.mem_filterMap.mp (List.getElem?_mem hj)
  cases e with
  | call b now delay =>
    cases delay with
    | zero =>
      cases hje
      exact ⟨now, 0, hfst ▸ he, hle⟩
    | succ d => cases hje
  | fire t _ =>
    cases hje
    have htimer : t ∈ timersOf g.trace :=
      hi.timers.symm.subset (List.mem_append_left _ (List.mem_filterMap.mpr ⟨_, he, rfl⟩))
    obtain ⟨e', he', hte⟩ := List.mem_filterMap.mp htimer
    cases e' with
    | call b now delay =>
      cases delay with
      | zero => cases hte
      | succ d =>
        cases hte
        exact ⟨now, d + 1, hfst ▸ he', hle⟩
    | _ => cases hte
  | _ => cases hje

/-- Over every run of a mailbox: `_eventCount` is the number of blocks handed over and not yet
finished, so the actor stays retained while one is queued, waiting for its time or running;
every block handed over is finished, running, queued or waiting, once; blocks run one at a
time, each finished before the next starts; they start in the order they joined the queue; and
none starts before the time of a call that handed it over plus that call's delay. -/
theorem mailbox_runs {g : GCDMailbox β} (h : Reach g) :
    g.eventCount = ((g.mailbox.pending.length + g.running.toList.length : Nat) : Int) ∧
    (callsOf g.trace).Perm (doneOf g.trace ++ g.running.toList ++ g.mailbox.pending) ∧
    doneOf g.trace ++ g.running.toList = (runsOf g.trace).map Prod.fst ∧
    (joinsOf g.trace).map Prod.fst = (runsOf g.trace).map Prod.fst ++ g.mailbox.queue ∧
    ∀ r ∈ runsOf g.trace,
      ∃ now delay, Event.call r.1 now delay ∈ g.trace ∧ now + delay ≤ r.2 := by
  have hi := reach_inv h
  exact ⟨hi.count, hi.kept, hi.serial, hi.fifo, fun r hr => hi.run_after_call hr⟩

theorem mailbox_runs_ex :
    ∃ g : GCDMailbox Nat, Reach g ∧ g.running = some 9 ∧
      g.eventCount = ((g.mailbox.pending.length + g.running.toList.length : Nat) : Int) ∧
      (callsOf g.trace).Perm (doneOf g.trace ++ g.running.toList ++ g.mailbox.pending) ∧
      doneOf g.trace ++ g.running.toList = (runsOf g.trace).map Prod.fst ∧
      (joinsOf g.trace).map Prod.fst = (runsOf g.trace).map Prod.fst ++ g.mailbox.queue ∧
      ∀ r ∈ runsOf g.trace,
        ∃ now delay, Event.call r.1 now delay ∈ g.trace ∧ now + delay ≤ r.2 := by
  have h₁ := Reach.enqueue 8 (Reach.enqueueAfter 5 7 (Reach.init : Reach (init : GCDMailbox Nat)))
  have h₂ := Reach.finish .threwStd (Reach.enqueue 9 (Reach.run h₁ rfl)) rfl
  have h := Reach.run (Reach.fire 0 (Reach.tick 5 h₂) rfl) rfl
  exact ⟨_, h, rfl, mailbox_runs h⟩

end Steps

/-- The queue's own steps, with no call coming in, each block ending as `throws` says. -/
inductive Drain (throws : β → Outcome) : GCDMailbox β → GCDMailbox β → Prop
  | refl (g : GCDMailbox β) : Drain throws g g
  | tick {g g' : GCDMailbox β} (dt : Nat) : Drain throws (g.tick dt) g' → Drain throws g g'
  | fire {g g₁ g' : GCDMailbox β} (i : Nat) :
      g.fire i = some g₁ → Drain throws g₁ g' → Drain throws g g'
  | run {g g₁ g' : GCDMailbox β} :
      g.run = some g₁ → Drain throws g₁ g' → Drain throws g g'
  | finish {g g₁ g' : GCDMailbox β} (b : β) :
      g.running = some b → g.finish (throws b) = some g₁ →
      Drain throws g₁ g' → Drain throws g g'

section Drain

variable {throws : β → Outcome} {g g' : GCDMailbox β}

theorem Drain.reach (hd : Drain throws g g') (h : Reach g) : Reach g' := by
  induction hd with
  | refl => exact h
  | tick dt _ ih => exact ih (.tick dt h)
  | fire i hf _ ih => exact ih (.fire i h hf)
  | run hr _ ih => exact ih (.run h hr)
  | finish b _ hf _ ih => exact ih (.finish _ h hf)

theorem Drain.calls (hd : Drain throws g g') : callsOf g'.trace = callsOf g.trace := by
  induction hd with
  | refl => rfl
  | tick _ _ ih => exact ih
  | fire i hf _ ih =>
    obtain ⟨t, -, -, rfl⟩ := fire_cases hf
    exact ih.trans (notes_fire _ t _).1
  | run hr _ ih =>
    obtain ⟨b, _, -, -, rfl⟩ := run_cases hr
    exact ih.trans (notes_run _ b _).1
  | finish b _ hf _ ih =>
    obtain ⟨b', -, rfl⟩ := finish_cases hf
    exact ih.trans (notes_finish _ b' _).1

theorem Drain.keeps_uncaught (hd : Drain throws g g') {b : β} (hb : throws b = .threwOther)
    (hm : b ∈ g.running.toList ++ g.mailbox.pending) : b ∈ g'.running.toList ++ g'.mailbox.pending := by
  induction hd with
  | refl => exact hm
  | tick _ _ ih => exact ih hm
  | fire i hf _ ih =>
    obtain ⟨t, ht, -, rfl⟩ := fire_cases hf
    exact ih (by simpa only [List.mem_append, (fire_pending_perm ht).mem_iff] using hm)
  | run hr _ ih =>
    obtain ⟨b', rest, hn, hq, rfl⟩ := run_cases hr
    exact ih (by simpa [Mailbox.pending, hn, hq, or_assoc] using hm)
  | finish b' hr hf _ ih =>
    have hne : b' ≠ b := by
      rintro rfl
      rw [hb, finish_uncaught] at hf
      cases hf
    obtain ⟨b'', -, rfl⟩ := finish_cases hf
    rw [hr, Option.toList_some, List.singleton_append, List.mem_cons, or_iff_right hne.symm] at hm
    exact ih (List.mem_append_right _ hm)

def work (g : GCDMailbox β) : Nat :=
  g.running.toList.length + 2 * g.mailbox.queue.length + 3 * g.mailbox.timers.length

section Caught
variable (hstd : ∀ b, throws b ≠ .threwOther)
include hstd

theorem drain_step (g : GCDMailbox β) :
    (g.running = none ∧ g.mailbox.queue = [] ∧ g.mailbox.timers = []) ∨
    ∃ g₁, (∀ g', Drain throws g₁ g' → Drain throws g g') ∧ work g₁ < work g := by
  match hr : g.running, hq : g.mailbox.queue, ht : g.mailbox.timers with
  | none, [], [] => exact .inl ⟨rfl, rfl, rfl⟩
  | some b, _, _ =>
    refine .inr ⟨_, fun _ => .finish b hr (finish_of_running hr (hstd b)), ?_⟩
    simp only [work, hr, Option.toList_some, Option.toList_none, List.length_singleton,
      List.length_nil]
    omega
  | none, b :: rest, _ =>
    refine .inr ⟨_, fun _ => .run (run_of_head hr hq), ?_⟩
    simp only [work, hr, hq, Option.toList_some, Option.toList_none, List.length_singleton,
      List.length_nil, List.length_cons]
    omega
  | none, [], t :: ts =>
    have hget : g.mailbox.timers.get? 0 = some t := by rw [ht]; rfl
    have hdue : t.due ≤ (g.tick (t.due - g.now)).now :=
      show t.due ≤ g.now + (t.due - g.now) by omega
    refine .inr ⟨_, fun _ hd => .tick _ (.fire 0 (fire_of_due hget hdue) hd), ?_⟩
    simp only [work, tick, fire_eq hget, hr, hq, ht, Option.toList_none, List.length_nil,
      List.length_cons, List.eraseIdx_cons_zero, List.nil_append, List.length_singleton]
    omega

theorem drain_exists (g : GCDMailbox β) :
    ∃ g', Drain throws g g' ∧ g'.running = none ∧ g'.mailbox.queue = [] ∧ g'.mailbox.timers = [] := by
  rcases drain_step hstd g with h | ⟨g₁, hext, hlt⟩
  · exact ⟨g, .refl g, h⟩
  · obtain ⟨g', hd, h'⟩ := drain_exists g₁
    exact ⟨g', hext g' hd, h'⟩
termination_by work g

end Caught

/-- From every reachable state, each block ending as `throws` says: if every throw is a
`std::exception`, the queue's own steps reach a state with nothing queued, waiting or running,
`_eventCount` back to zero and every block ever handed over finished; a block that throws
anything else is never finished, and `_eventCount` stays above zero over every run of the
queue's steps. -/
theorem mailbox_drains (h : Reach g) (throws : β → Outcome) :
    ((∀ b, throws b ≠ .threwOther) →
      ∃ g', Drain throws g g' ∧ g'.running = none ∧ g'.mailbox.pending = [] ∧
        g'.eventCount = 0 ∧ callsOf g'.trace = callsOf g.trace ∧
        (callsOf g'.trace).Perm (doneOf g'.trace)) ∧
    ∀ b ∈ g.running.toList ++ g.mailbox.pending, throws b = .threwOther →
      ∀ g', Drain throws g g' → b ∈ g'.running.toList ++ g'.mailbox.pending ∧ 0 < g'.eventCount := by
  refine ⟨fun hstd => ?_, fun b hm hb g' hd => ?_⟩
  · obtain ⟨g', hd, hr, hq, ht⟩ := drain_exists hstd g
    have hi := reach_inv (hd.reach h)
    have hp : g'.mailbox.pending = [] := by simp [Mailbox.pending, hq, ht]
    have hk := hi.kept
    rw [hr, hp, Option.toList_none, List.append_nil, List.append_nil] at hk
    refine ⟨g', hd, hr, hp, ?_, hd.calls, hk⟩
    rw [hi.count, hp, hr]; rfl
  · have hm' := hd.keeps_uncaught hb hm
    refine ⟨hm', ?_⟩
    rw [(reach_inv (hd.reach h)).count]
    have := List.length_pos_of_mem hm'
    rw [List.length_append] at this
    omega

theorem mailbox_drains_ex :
    (∃ g' : GCDMailbox Nat, Drain (fun _ => .threwStd) ((init.enqueueAfter 5 7).enqueue 8) g' ∧
      g'.running = none ∧ g'.mailbox.pending = [] ∧ g'.eventCount = 0 ∧
      callsOf g'.trace = callsOf ((init.enqueueAfter 5 7).enqueue 8).trace ∧
      (callsOf g'.trace).Perm (doneOf g'.trace)) ∧
    ∀ g' : GCDMailbox Nat,
      Drain (fun b => if b = 8 then .threwOther else .returned) ((init.enqueueAfter 5 7).enqueue 8) g' →
        8 ∈ g'.running.toList ++ g'.mailbox.pending ∧ 0 < g'.eventCount :=
  ⟨(mailbox_drains (.enqueue 8 (.enqueueAfter 5 7 .init)) _).1 fun _ => by decide,
    (mailbox_drains (.enqueue 8 (.enqueueAfter 5 7 .init)) _).2 8 (by decide) rfl⟩

end Drain

end Blip.MailboxRuns
