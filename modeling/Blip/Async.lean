import Mathlib.Data.List.Basic
import Mathlib.Algebra.Group.Nat.Basic

/-!
# Async functions and their providers

The async macros cut a body at each `asyncCall` into segments of a lambda. `next` runs the
lambda: left waiting, `_wait` registers the provider as the observer of the awaited one; with a
value, `_gotResult` makes it ready and wakes its observer. What one thread does, with the
synchronous wake-ups that follow, is one step.
-/

set_option autoImplicit false

namespace Blip.Async

/-- An async function's body as the macros cut it. Segment `i` runs with the results `vars` of
the `i` calls before it; while `i < awaits` it ends with an `asyncCall` on the provider
`call vars`, and the last segment returns `ret vars`. -/
structure Body (V : Type) where
  awaits : Nat
  call : List V → Nat
  ret : List V → V

/-- An `AsyncProvider<T>` with its `AsyncState`. `vars` are the variables the lambda keeps
between calls, and `body` is `none` for a provider made by `create()`. -/
structure Provider (V : Type) where
  ready : Bool
  result : V
  observer : Option Nat
  waitingOn : Option Nat
  continueAt : Nat
  vars : List V
  actor : Option Nat
  body : Option (Body V)

inductive Outcome (V : Type) where
  | waiting (q : Nat)
  | done (v : V)

inductive Event where
  | segment (f j : Nat)
  | observe (p f : Nat) (actor : Option Nat)
  | ready (p : Nat)
  | wake (p f : Nat)
  | resume (f : Nat) (actor : Option Nat)
  deriving DecidableEq, Repr

/-- The providers, how many there are, the `wakeAsyncProvider` calls not yet run by their actors
(actor, provider), the provider whose `next()` the current thread is about to call with the
actor current there, and the trace. -/
structure Runtime (V : Type) where
  provs : Nat → Provider V
  count : Nat
  pending : List (Nat × Nat)
  thread : Option (Nat × Option Nat)
  trace : List Event

variable {V : Type}

def Provider.new [Inhabited V] (body : Option (Body V)) : Provider V :=
  ⟨false, default, none, none, 0, [], none, body⟩

def Body.go (b : Body V) (provs : Nat → Provider V) : Nat → List V → List Nat × List V × Outcome V
  | 0, vars => ([vars.length], vars, .done (b.ret vars))
  | n + 1, vars =>
    if (provs (b.call vars)).ready then
      let r := b.go provs n (vars ++ [(provs (b.call vars)).result])
      (vars.length :: r.1, r.2)
    else ([vars.length], vars, .waiting (b.call vars))

def Body.Fed (b : Body V) (provs : Nat → Provider V) (vars : List V) : Prop :=
  ∀ i < vars.length, (provs (b.call (vars.take i))).ready = true ∧
    vars[i]? = some (provs (b.call (vars.take i))).result

section Lambda
variable (b : Body V) (provs : Nat → Provider V)

theorem fed_nil : b.Fed provs [] := fun _ h => absurd h (Nat.not_lt_zero _)

theorem fed_snoc {vars : List V} (hF : b.Fed provs vars)
    (hr : (provs (b.call vars)).ready = true) :
    b.Fed provs (vars ++ [(provs (b.call vars)).result]) := by
  intro i hi
  rw [List.length_append, List.length_singleton] at hi
  rcases Nat.lt_succ_iff_lt_or_eq.mp hi with hi | rfl
  · rw [List.take_append_of_le_length hi.le, List.getElem?_append_left hi]
    exact hF i hi
  · simp [hr]

theorem fed_stable {provs' : Nat → Provider V} {vars : List V} (hF : b.Fed provs vars)
    (hs : ∀ p, (provs p).ready = true →
      (provs' p).ready = true ∧ (provs' p).result = (provs p).result) :
    b.Fed provs' vars := by
  intro i hi
  obtain ⟨hr, hv⟩ := hF i hi
  obtain ⟨hr', hv'⟩ := hs _ hr
  exact ⟨hr', hv'.symm ▸ hv⟩

theorem go_spec (n : Nat) (vars : List V) (hF : b.Fed provs vars) :
    ∃ extra, (b.go provs n vars).2.1 = vars ++ extra ∧ extra.length ≤ n ∧
      (b.go provs n vars).1 = List.range' vars.length (extra.length + 1) ∧
      b.Fed provs (vars ++ extra) ∧
      ((b.go provs n vars).2.2 = .done (b.ret (vars ++ extra)) ∧ extra.length = n ∨
        extra.length < n ∧ (b.go provs n vars).2.2 = .waiting (b.call (vars ++ extra)) ∧
          (provs (b.call (vars ++ extra))).ready = false) := by
  induction n generalizing vars with
  | zero => exact ⟨[], by simp [Body.go], le_rfl, by simp [Body.go], by simpa using hF,
      .inl ⟨by simp [Body.go], rfl⟩⟩
  | succ n ih =>
    by_cases hr : (provs (b.call vars)).ready = true
    · obtain ⟨extra, h₁, hl, h₂, hF', h₃⟩ := ih _ (fed_snoc b provs hF hr)
      simp only [List.append_assoc, List.singleton_append] at h₁ h₃ hF'
      refine ⟨_ :: extra, by simp [Body.go, hr, h₁], by simp; omega, ?_, hF', ?_⟩
      · simp only [Body.go, hr, if_true, h₂, List.length_append, List.length_singleton,
          List.length_cons]
        rfl
      · simp only [Body.go, hr, if_true, List.length_cons]
        rcases h₃ with ⟨h, he⟩ | ⟨hl', h, h'⟩
        · exact .inl ⟨h, by omega⟩
        · exact .inr ⟨by omega, h, h'⟩
    · refine ⟨[], by simp [Body.go, hr], by simp, by simp [Body.go, hr], by simpa using hF,
        .inr ⟨by simp, by simp [Body.go, hr], by simpa using hr⟩⟩

end Lambda

namespace Runtime

def init [Inhabited V] : Runtime V := ⟨fun _ => .new none, 0, [], none, []⟩

def update (rt : Runtime V) (p : Nat) (P : Provider V) : Runtime V :=
  { rt with provs := Function.update rt.provs p P }

def log (rt : Runtime V) (es : List Event) : Runtime V := { rt with trace := rt.trace ++ es }

def add [Inhabited V] (rt : Runtime V) (body : Option (Body V)) : Runtime V :=
  { rt with provs := Function.update rt.provs rt.count (.new body), count := rt.count + 1 }

/-- The first half of `AsyncProvider::setResult`. -/
def setResult (rt : Runtime V) (p : Nat) (v : V) : Runtime V :=
  rt.update p { rt.provs p with result := v }

/-- `AsyncProviderBase::_gotResult` on provider `p`, on a thread whose current actor is `cur`.
`wakeUp` asserts that the observer waits on `p`; with no actor it calls the observer's `next()`
on this thread, which the runtime does next. -/
def gotResult (rt : Runtime V) (p : Nat) (cur : Option Nat) : Option (Runtime V) :=
  let P := rt.provs p
  let rt := (rt.update p { P with ready := true, observer := none }).log [.ready p]
  match P.observer with
  | none => some { rt with thread := none }
  | some g =>
    if (rt.provs g).waitingOn = some p then
      let rt := rt.log [.wake p g]
      match (rt.provs g).actor with
      | some a => some { rt with pending := rt.pending ++ [(a, g)], thread := none }
      | none => some { rt with thread := some (g, cur) }
    else none

def resumeVars (rt : Runtime V) (G : Provider V) : Option (List V) :=
  if G.continueAt = 0 then some G.vars
  else match G.waitingOn with
    | some q => if (rt.provs q).ready then some (G.vars ++ [(rt.provs q).result]) else none
    | none => none

/-- `_result = _body(_state)` left waiting on `q`, then `_wait()`: capture the current actor and
register as the observer of `q`, which asserts that `q` has none. A body awaits providers that
exist. -/
def wait [Inhabited V] (rt : Runtime V) (g q : Nat) (vars : List V) (cur : Option Nat) :
    Option (Runtime V) :=
  let rt := rt.update g { rt.provs g with
    result := default
    waitingOn := some q
    continueAt := vars.length + 1
    vars := vars
    actor := cur }
  if q < rt.count ∧ (rt.provs q).observer = none then
    some { (rt.update q { rt.provs q with observer := some g }).log [.observe q g cur] with
      thread := none }
  else none

/-- `_result = _body(_state)` with a value, then `_gotResult()`. -/
def finish (rt : Runtime V) (g : Nat) (v : V) (vars : List V) (cur : Option Nat) :
    Option (Runtime V) :=
  (rt.update g { rt.provs g with
    result := v
    waitingOn := none
    continueAt := vars.length
    vars := vars }).gotResult g cur

/-- `AsyncProvider<T>::next` on provider `g`, on a thread whose current actor is `cur`. -/
def next [Inhabited V] (rt : Runtime V) (g : Nat) (cur : Option Nat) : Option (Runtime V) :=
  match (rt.provs g).body, rt.resumeVars (rt.provs g) with
  | some b, some vars =>
    let r := b.go rt.provs (b.awaits - vars.length) vars
    match r.2.2 with
    | .waiting q => (rt.log (r.1.map (.segment g))).wait g q r.2.1 cur
    | .done v => (rt.log (r.1.map (.segment g))).finish g v r.2.1 cur
  | _, _ => none

@[simp] theorem update_provs (rt : Runtime V) (p : Nat) (P : Provider V) :
    (rt.update p P).provs = Function.update rt.provs p P := rfl
@[simp] theorem update_count (rt : Runtime V) (p : Nat) (P : Provider V) :
    (rt.update p P).count = rt.count := rfl
@[simp] theorem update_pending (rt : Runtime V) (p : Nat) (P : Provider V) :
    (rt.update p P).pending = rt.pending := rfl
@[simp] theorem update_thread (rt : Runtime V) (p : Nat) (P : Provider V) :
    (rt.update p P).thread = rt.thread := rfl
@[simp] theorem update_trace (rt : Runtime V) (p : Nat) (P : Provider V) :
    (rt.update p P).trace = rt.trace := rfl
@[simp] theorem add_provs [Inhabited V] (rt : Runtime V) (body : Option (Body V)) :
    (rt.add body).provs = Function.update rt.provs rt.count (.new body) := rfl
@[simp] theorem add_count [Inhabited V] (rt : Runtime V) (body : Option (Body V)) :
    (rt.add body).count = rt.count + 1 := rfl
@[simp] theorem add_pending [Inhabited V] (rt : Runtime V) (body : Option (Body V)) :
    (rt.add body).pending = rt.pending := rfl
@[simp] theorem add_thread [Inhabited V] (rt : Runtime V) (body : Option (Body V)) :
    (rt.add body).thread = rt.thread := rfl
@[simp] theorem add_trace [Inhabited V] (rt : Runtime V) (body : Option (Body V)) :
    (rt.add body).trace = rt.trace := rfl
@[simp] theorem log_provs (rt : Runtime V) (es : List Event) : (rt.log es).provs = rt.provs :=
  rfl
@[simp] theorem log_count (rt : Runtime V) (es : List Event) : (rt.log es).count = rt.count :=
  rfl
@[simp] theorem log_pending (rt : Runtime V) (es : List Event) :
    (rt.log es).pending = rt.pending := rfl
@[simp] theorem log_thread (rt : Runtime V) (es : List Event) :
    (rt.log es).thread = rt.thread := rfl
@[simp] theorem log_trace (rt : Runtime V) (es : List Event) :
    (rt.log es).trace = rt.trace ++ es := rfl

theorem gotResult_cases [Inhabited V] {rt rt' : Runtime V} {p : Nat} {cur : Option Nat}
    (h : rt.gotResult p cur = some rt') :
    rt'.count = rt.count ∧
    rt'.provs = Function.update rt.provs p { rt.provs p with ready := true, observer := none } ∧
    ((rt.provs p).observer = none ∧ rt'.pending = rt.pending ∧ rt'.thread = none ∧
        rt'.trace = rt.trace ++ [.ready p] ∨
      ∃ g, (rt.provs p).observer = some g ∧ (rt.provs g).waitingOn = some p ∧
        rt'.trace = rt.trace ++ [.ready p, .wake p g] ∧
        (∀ a, (rt.provs g).actor = some a →
          rt'.pending = rt.pending ++ [(a, g)] ∧ rt'.thread = none) ∧
        ((rt.provs g).actor = none → rt'.pending = rt.pending ∧ rt'.thread = some (g, cur))) := by
  have hf : ∀ g, (Function.update rt.provs p { rt.provs p with ready := true, observer := none }
      g).waitingOn = (rt.provs g).waitingOn ∧ (Function.update rt.provs p
      { rt.provs p with ready := true, observer := none } g).actor = (rt.provs g).actor := by
    intro g
    by_cases hg : g = p
    · subst hg; simp
    · simp [hg]
  simp only [gotResult] at h
  split at h
  · next ho =>
    cases h
    exact ⟨rfl, rfl, .inl ⟨ho, rfl, rfl, by simp⟩⟩
  · next g ho =>
    split at h
    · next hw =>
      simp only [log, update, (hf g).2] at h
      split at h <;> cases h
      · next a ha =>
        refine ⟨rfl, rfl, .inr ⟨g, ho, (hf g).1 ▸ hw, List.append_assoc _ _ _, fun a' ha' => ?_,
          fun ha' => ?_⟩⟩
        · rw [ha] at ha'; cases ha'; exact ⟨rfl, rfl⟩
        · rw [ha] at ha'; cases ha'
      · next ha =>
        refine ⟨rfl, rfl, .inr ⟨g, ho, (hf g).1 ▸ hw, List.append_assoc _ _ _, fun a' ha' => ?_,
          fun _ => ⟨rfl, rfl⟩⟩⟩
        rw [ha] at ha'; cases ha'
    · cases h

theorem wait_cases [Inhabited V] {rt rt' : Runtime V} {g q : Nat} {vars : List V}
    {cur : Option Nat} (h : rt.wait g q vars cur = some rt') :
    q < rt.count ∧ (rt.provs q).observer = none ∧
    (∀ x, rt'.provs x = if x = g then { rt.provs g with
        result := default
        waitingOn := some q
        continueAt := vars.length + 1
        vars := vars
        actor := cur
        observer := if g = q then some g else (rt.provs g).observer }
      else { rt.provs x with observer := if x = q then some g else (rt.provs x).observer }) ∧
    rt'.count = rt.count ∧ rt'.pending = rt.pending ∧ rt'.thread = none ∧
    rt'.trace = rt.trace ++ [.observe q g cur] := by
  simp only [wait] at h
  split at h
  · next hc =>
    cases h
    have ho : (rt.provs q).observer = none := by
      by_cases hq : q = g
      · subst hq; simpa using hc.2
      · simpa [hq] using hc.2
    refine ⟨hc.1, ho, fun x => ?_, rfl, rfl, rfl, rfl⟩
    by_cases hxg : x = g <;> by_cases hxq : x = q <;> simp_all [Function.update_apply]
  · cases h

theorem next_cases [Inhabited V] {rt rt' : Runtime V} {g : Nat} {cur : Option Nat}
    (h : rt.next g cur = some rt') :
    ∃ b vars, (rt.provs g).body = some b ∧ rt.resumeVars (rt.provs g) = some vars ∧
      ((∃ q, (b.go rt.provs (b.awaits - vars.length) vars).2.2 = .waiting q ∧
        (rt.log ((b.go rt.provs (b.awaits - vars.length) vars).1.map (.segment g))).wait g q
          (b.go rt.provs (b.awaits - vars.length) vars).2.1 cur = some rt') ∨
      (∃ v, (b.go rt.provs (b.awaits - vars.length) vars).2.2 = .done v ∧
        (rt.log ((b.go rt.provs (b.awaits - vars.length) vars).1.map (.segment g))).finish g v
          (b.go rt.provs (b.awaits - vars.length) vars).2.1 cur = some rt')) := by
  simp only [next] at h
  split at h
  · next b vars hb hv =>
    refine ⟨b, vars, hb, hv, ?_⟩
    split at h
    · next q hq => exact .inl ⟨q, hq, h⟩
    · next v hq => exact .inr ⟨v, hq, h⟩
  · cases h

end Runtime

open Runtime in
/-- The runs of the runtime. An async function is called, on a thread whose current actor is
`cur`: its provider's constructor calls `next()`. `create()` makes a provider, and `setResult`
gives one its only result. An actor runs a `wakeAsyncProvider` it was handed; a mailbox may run
its blocks in any order here, which covers the order it does run them in. The thread that
woke a provider with no actor calls its `next()`. -/
inductive Reach [Inhabited V] : Runtime V → Prop where
  | start : Reach init
  | call {rt rt' : Runtime V} (b : Body V) (cur : Option Nat) : Reach rt → rt.thread = none →
      (rt.add (some b)).next rt.count cur = some rt' → Reach rt'
  | create {rt : Runtime V} : Reach rt → rt.thread = none → Reach (rt.add none)
  | setResult {rt rt' : Runtime V} (p : Nat) (v : V) (cur : Option Nat) : Reach rt →
      rt.thread = none → p < rt.count → (rt.provs p).body = none →
      (rt.provs p).ready = false → (rt.setResult p v).gotResult p cur = some rt' → Reach rt'
  | wake {rt rt' : Runtime V} (i a g : Nat) : Reach rt → rt.thread = none →
      rt.pending[i]? = some (a, g) →
      ({ rt with pending := rt.pending.eraseIdx i }.log [.resume g (some a)]).next g (some a) =
        some rt' → Reach rt'
  | resume {rt rt' : Runtime V} (g : Nat) (cur : Option Nat) : Reach rt →
      rt.thread = some (g, cur) →
      ({ rt with thread := none }.log [.resume g none]).next g cur = some rt' → Reach rt'

end Blip.Async
