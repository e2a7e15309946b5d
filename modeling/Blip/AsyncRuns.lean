import Blip.Async

/-!
# Every run of the async runtime

One invariant of reachable runtimes gives what an async function does over any run: its
segments run once each and in order on the results they awaited, its provider becomes ready
once with the body's value, each resumption runs where its wait was registered, and no wake-up
is lost.
-/

set_option autoImplicit false

namespace Blip.AsyncRuns
open Blip.Async Blip.Async.Runtime

variable {V : Type}

def segmentNote (f : Nat) : Event → Option Nat
  | .segment g j => if g = f then some j else none
  | .observe .. | .ready _ | .wake .. | .resume .. => none

def observerNote (p : Nat) : Event → Option Nat
  | .observe q g _ => if q = p then some g else none
  | .segment .. | .ready _ | .wake .. | .resume .. => none

def wakeNote (p : Nat) : Event → Option Nat
  | .wake q g => if q = p then some g else none
  | .segment .. | .observe .. | .ready _ | .resume .. => none

def waitNote (f : Nat) : Event → Option (Option Nat)
  | .observe _ g a => if g = f then some a else none
  | .segment .. | .ready _ | .wake .. | .resume .. => none

def resumeNote (f : Nat) : Event → Option (Option Nat)
  | .resume g a => if g = f then some a else none
  | .segment .. | .observe .. | .ready _ | .wake .. => none

abbrev segmentsOf (f : Nat) (l : List Event) : List Nat := l.filterMap (segmentNote f)
abbrev observersOf (p : Nat) (l : List Event) : List Nat := l.filterMap (observerNote p)
abbrev wokenOf (p : Nat) (l : List Event) : List Nat := l.filterMap (wakeNote p)
abbrev waitActors (f : Nat) (l : List Event) : List (Option Nat) := l.filterMap (waitNote f)
abbrev resumeActors (f : Nat) (l : List Event) : List (Option Nat) := l.filterMap (resumeNote f)

def due (rt : Runtime V) : List Nat := rt.pending.map Prod.snd ++ (rt.thread.map Prod.fst).toList

def Quiet (r : Nat) (e : Event) : Prop :=
  segmentNote r e = none ∧ observerNote r e = none ∧ wakeNote r e = none ∧
    waitNote r e = none ∧ resumeNote r e = none ∧ e ≠ .ready r

section Quiet
variable {r : Nat}

theorem quiet_segment {f : Nat} (j : Nat) (h : f ≠ r) : Quiet r (.segment f j) := by
  simp [Quiet, segmentNote, observerNote, wakeNote, waitNote, resumeNote, h]

theorem quiet_observe {p f : Nat} (a : Option Nat) (hp : p ≠ r) (hf : f ≠ r) :
    Quiet r (.observe p f a) := by
  simp [Quiet, segmentNote, observerNote, wakeNote, waitNote, resumeNote, hp, hf]

theorem quiet_ready {p : Nat} (h : p ≠ r) : Quiet r (.ready p) := by
  simp [Quiet, segmentNote, observerNote, wakeNote, waitNote, resumeNote, h]

theorem quiet_wake {p : Nat} (f : Nat) (h : p ≠ r) : Quiet r (.wake p f) := by
  simp [Quiet, segmentNote, observerNote, wakeNote, waitNote, resumeNote, h]

theorem quiet_resume {f : Nat} (a : Option Nat) (h : f ≠ r) : Quiet r (.resume f a) := by
  simp [Quiet, segmentNote, observerNote, wakeNote, waitNote, resumeNote, h]

theorem quiet_append {es : List Event} (hq : ∀ e ∈ es, Quiet r e) (l : List Event) :
    segmentsOf r (l ++ es) = segmentsOf r l ∧ observersOf r (l ++ es) = observersOf r l ∧
    wokenOf r (l ++ es) = wokenOf r l ∧ waitActors r (l ++ es) = waitActors r l ∧
    resumeActors r (l ++ es) = resumeActors r l ∧
    (l ++ es).count (.ready r) = l.count (.ready r) := by
  have h₀ : ∀ {β : Type} (sel : Event → Option β), (∀ e ∈ es, sel e = none) →
      (l ++ es).filterMap sel = l.filterMap sel := fun sel h => by
    rw [List.filterMap_append, List.filterMap_eq_nil_iff.mpr h, List.append_nil]
  refine ⟨h₀ _ fun e he => (hq e he).1, h₀ _ fun e he => (hq e he).2.1,
    h₀ _ fun e he => (hq e he).2.2.1, h₀ _ fun e he => (hq e he).2.2.2.1,
    h₀ _ fun e he => (hq e he).2.2.2.2.1, ?_⟩
  rw [List.count_append, List.count_eq_zero.mpr fun he => (hq _ he).2.2.2.2.2 rfl, Nat.add_zero]

end Quiet

theorem notes_ready_wake (l : List Event) (p : Nat) (o : Option Nat) :
    let es := .ready p :: o.toList.map (.wake p)
    segmentsOf p (l ++ es) = segmentsOf p l ∧ observersOf p (l ++ es) = observersOf p l ∧
    wokenOf p (l ++ es) = wokenOf p l ++ o.toList ∧ waitActors p (l ++ es) = waitActors p l ∧
    resumeActors p (l ++ es) = resumeActors p l ∧
    (l ++ es).count (.ready p) = l.count (.ready p) + 1 := by
  cases o <;> simp [segmentNote, observerNote, wakeNote, waitNote, resumeNote]

theorem notes_segments (l : List Event) (g r : Nat) (js : List Nat) :
    let es := js.map (Event.segment g)
    segmentsOf r (l ++ es) = segmentsOf r l ++ (if g = r then js else []) ∧
    observersOf r (l ++ es) = observersOf r l ∧ wokenOf r (l ++ es) = wokenOf r l ∧
    waitActors r (l ++ es) = waitActors r l ∧ resumeActors r (l ++ es) = resumeActors r l ∧
    (l ++ es).count (.ready r) = l.count (.ready r) := by
  by_cases hg : g = r <;>
    simp [segmentNote, observerNote, wakeNote, waitNote, resumeNote, hg, List.filterMap_map,
      Function.comp_def, List.count_eq_zero]

theorem notes_observe (l : List Event) (q g r : Nat) (a : Option Nat) :
    let e := Event.observe q g a
    segmentsOf r (l ++ [e]) = segmentsOf r l ∧
    observersOf r (l ++ [e]) = observersOf r l ++ (if q = r then [g] else []) ∧
    wokenOf r (l ++ [e]) = wokenOf r l ∧
    waitActors r (l ++ [e]) = waitActors r l ++ (if g = r then [a] else []) ∧
    resumeActors r (l ++ [e]) = resumeActors r l ∧
    (l ++ [e]).count (.ready r) = l.count (.ready r) := by
  by_cases hq : q = r <;> by_cases hg : g = r <;>
    simp [segmentNote, observerNote, wakeNote, waitNote, resumeNote, hq, hg]

theorem notes_resume (l : List Event) (g r : Nat) (a : Option Nat) :
    let e := Event.resume g a
    segmentsOf r (l ++ [e]) = segmentsOf r l ∧ observersOf r (l ++ [e]) = observersOf r l ∧
    wokenOf r (l ++ [e]) = wokenOf r l ∧ waitActors r (l ++ [e]) = waitActors r l ∧
    resumeActors r (l ++ [e]) = resumeActors r l ++ (if g = r then [a] else []) ∧
    (l ++ [e]).count (.ready r) = l.count (.ready r) := by
  by_cases hg : g = r <;> simp [segmentNote, observerNote, wakeNote, waitNote, resumeNote, hg]

theorem count_map_eraseIdx {α β : Type} [DecidableEq β] (l : List α) (h : α → β) {i : Nat}
    {x : α} (hx : l[i]? = some x) (y : β) :
    ((l.eraseIdx i).map h).count y + (if h x = y then 1 else 0) = (l.map h).count y := by
  obtain ⟨hi, rfl⟩ := List.getElem?_eq_some_iff.mp hx
  conv_rhs => rw [← List.take_append_drop i l, List.drop_eq_getElem_cons hi]
  rw [List.eraseIdx_eq_take_drop_succ]
  simp only [List.map_append, List.map_cons, List.count_append, List.count_cons, beq_iff_eq]
  split <;> omega

theorem segments_run {l : List Event} {g : Nat} {vars : List V} (extra : List V)
    (h : segmentsOf g l = List.range vars.length) :
    segmentsOf g (l ++ (List.range' vars.length (extra.length + 1)).map (.segment g)) =
      List.range ((vars ++ extra).length + 1) := by
  have hr := List.range'_append_1 0 vars.length (extra.length + 1)
  rw [Nat.zero_add] at hr
  rw [(notes_segments l g g _).1, if_pos rfl, h, List.range_eq_range', List.range_eq_range', hr,
    List.length_append]
  congr 1
  omega

def Stable (provs provs' : Nat → Provider V) : Prop :=
  ∀ p, (provs p).ready = true → (provs' p).ready = true ∧ (provs' p).result = (provs p).result

theorem stable_update {provs : Nat → Provider V} {p : Nat} {P : Provider V}
    (h : (provs p).ready = true → P.ready = true ∧ P.result = (provs p).result) :
    Stable provs (Function.update provs p P) := by
  intro x hx
  by_cases hxp : x = p
  · subst hxp; simpa using h hx
  · simpa [hxp] using hx

theorem stable_trans {provs₁ provs₂ provs₃ : Nat → Provider V} (h₁ : Stable provs₁ provs₂)
    (h₂ : Stable provs₂ provs₃) : Stable provs₁ provs₃ := fun p hp =>
  ⟨(h₂ p (h₁ p hp).1).1, (h₂ p (h₁ p hp).1).2.trans (h₁ p hp).2⟩

def Waits (rt : Runtime V) (f q : Nat) : Prop :=
  q < rt.count ∧ ((rt.provs q).ready = false ∧ (rt.provs q).observer = some f ∧ f ∉ due rt ∨
    (rt.provs q).ready = true ∧ (due rt).count f = 1)

structure Links (rt : Runtime V) (skip : Option Nat) : Prop where
  observer : ∀ p g, (rt.provs p).observer = some g → g < rt.count ∧
    (rt.provs g).body.isSome ∧ (rt.provs g).ready = false ∧ (rt.provs g).waitingOn = some p
  waiting : ∀ f b, skip ≠ some f → (rt.provs f).body = some b → (rt.provs f).ready = false →
    Waits rt f (b.call (rt.provs f).vars)
  due : ∀ f ∈ due rt, (rt.provs f).body.isSome ∧ (rt.provs f).ready = false
  pending : ∀ a f, (a, f) ∈ rt.pending → (rt.provs f).actor = some a
  thread : ∀ f c, rt.thread = some (f, c) → (rt.provs f).actor = none

theorem links_congr {rt rt' : Runtime V} {p : Nat} (h : Links rt (some p))
    (hx : ∀ x, x ≠ p → rt'.provs x = rt.provs x)
    (hr : (rt'.provs p).ready = (rt.provs p).ready)
    (ho : (rt'.provs p).observer = (rt.provs p).observer)
    (hpo : ∀ x, (rt.provs x).observer ≠ some p) (hpd : p ∉ due rt)
    (hc : rt.count ≤ rt'.count) (hpe : rt'.pending = rt.pending)
    (hth : rt'.thread = rt.thread) : Links rt' (some p) := by
  have hdue : due rt' = due rt := by simp [due, hpe, hth]
  have hready : ∀ x, (rt'.provs x).ready = (rt.provs x).ready := fun x => by
    by_cases hxp : x = p
    · rw [hxp, hr]
    · rw [hx x hxp]
  have hobs : ∀ x, (rt'.provs x).observer = (rt.provs x).observer := fun x => by
    by_cases hxp : x = p
    · rw [hxp, ho]
    · rw [hx x hxp]
  have hnd : ∀ f ∈ due rt, rt'.provs f = rt.provs f := fun f hf =>
    hx f fun he => hpd (he ▸ hf)
  refine ⟨fun x g hg => ?_, fun f b hs hb hrf => ?_, fun f hf => ?_, fun a f hf => ?_,
    fun f c hf => ?_⟩
  · rw [hobs] at hg
    have hgp : g ≠ p := fun he => hpo x (he ▸ hg)
    rw [hx g hgp]
    exact (h.observer x g hg).imp_left fun hl => Nat.lt_of_lt_of_le hl hc
  · have hfp : f ≠ p := fun he => hs (he ▸ rfl)
    rw [hx f hfp] at hb hrf ⊢
    obtain ⟨hq, hw⟩ := h.waiting f b hs hb hrf
    refine ⟨Nat.lt_of_lt_of_le hq hc, ?_⟩
    rw [hdue, hready, hobs]
    exact hw
  · rw [hdue] at hf
    rw [hnd f hf]
    exact h.due f hf
  · rw [hpe] at hf
    have hf' : f ∈ due rt := by
      simp only [due, List.mem_append, List.mem_map]
      exact .inl ⟨(a, f), hf, rfl⟩
    rw [hnd f hf']
    exact h.pending a f hf
  · rw [hth] at hf
    have hf' : f ∈ due rt := by simp [due, hf]
    rw [hnd f hf']
    exact h.thread f c hf

theorem links_weaken {rt : Runtime V} {p : Nat} (h : Links rt none) : Links rt (some p) :=
  ⟨h.observer, fun f b _ => h.waiting f b (by simp), h.due, h.pending, h.thread⟩

theorem of_not_ready {p : Provider V} {P : Prop} (hr : p.ready = false) : p.ready = true → P :=
  fun h => absurd (hr.symm.trans h) Bool.false_ne_true

theorem due_resume {rt rt' : Runtime V} {g : Nat} (hcnt : (due rt).count g = 1)
    (hdue : ∀ f, (due rt').count f + (if g = f then 1 else 0) = (due rt).count f) :
    g ∉ due rt' ∧ (∀ f, f ≠ g → (due rt').count f = (due rt).count f) ∧
      ∀ f ∈ due rt', f ∈ due rt := by
  have hdf : ∀ f, f ≠ g → (due rt').count f = (due rt).count f := fun f hfg => by
    have := hdue f
    rwa [if_neg (Ne.symm hfg), Nat.add_zero] at this
  have hdg : g ∉ due rt' := by
    have := hdue g
    rw [if_pos rfl, hcnt] at this
    exact List.count_eq_zero.mp (by omega)
  refine ⟨hdg, hdf, fun f hf => ?_⟩
  have hfg : f ≠ g := fun he => hdg (he ▸ hf)
  rw [← List.count_pos_iff, ← hdf f hfg]
  exact List.count_pos_iff.mpr hf

variable [Inhabited V]

structure FnFacts (rt : Runtime V) (f : Nat) (b : Body V) : Prop where
  fed : b.Fed rt.provs (rt.provs f).vars
  segments : segmentsOf f rt.trace = List.range ((rt.provs f).vars.length + 1)
  waits : waitActors f rt.trace =
    resumeActors f rt.trace ++ if (rt.provs f).ready then [] else [(rt.provs f).actor]
  done : (rt.provs f).ready = true → (rt.provs f).waitingOn = none ∧
    (rt.provs f).vars.length = b.awaits ∧ (rt.provs f).result = b.ret (rt.provs f).vars ∧
    ∃ l₁ l₂, rt.trace = l₁ ++ .ready f :: l₂ ∧ segmentsOf f l₂ = []
  waiting : (rt.provs f).ready = false → (rt.provs f).vars.length < b.awaits ∧
    (rt.provs f).waitingOn = some (b.call (rt.provs f).vars) ∧
    (rt.provs f).continueAt = (rt.provs f).vars.length + 1

structure Local (rt : Runtime V) (p : Nat) : Prop where
  fresh : rt.count ≤ p → rt.provs p = .new none
  readyCount : rt.trace.count (.ready p) = if (rt.provs p).ready then 1 else 0
  observers : observersOf p rt.trace =
    if (rt.provs p).ready then wokenOf p rt.trace else (rt.provs p).observer.toList
  observed_le : (observersOf p rt.trace).length ≤ 1
  unwoken : (rt.provs p).ready = false → wokenOf p rt.trace = []
  readyObs : (rt.provs p).ready = true → (rt.provs p).observer = none
  plain : (rt.provs p).body = none → (rt.provs p).waitingOn = none ∧
    segmentsOf p rt.trace = [] ∧ waitActors p rt.trace = [] ∧ resumeActors p rt.trace = []
  fn : ∀ b, (rt.provs p).body = some b → FnFacts rt p b

structure Inv (rt : Runtime V) : Prop where
  links : Links rt none
  prov : ∀ p, Local rt p

theorem local_frame {rt rt' : Runtime V} {r : Nat} {es : List Event} (h : Local rt r)
    (hp : rt'.provs r = rt.provs r) (hc : rt.count ≤ rt'.count)
    (ht : rt'.trace = rt.trace ++ es) (hq : ∀ e ∈ es, Quiet r e)
    (hs : Stable rt.provs rt'.provs) : Local rt' r := by
  obtain ⟨h₁, h₂, h₃, h₄, h₅, h₆⟩ := quiet_append hq rt.trace
  refine ⟨fun hr => hp.trans (h.fresh (hc.trans hr)), ?_, ?_, ?_, ?_, ?_, ?_, fun b hb => ?_⟩
  · rw [ht, h₆, hp]; exact h.readyCount
  · rw [ht, h₂, h₃, hp]; exact h.observers
  · rw [ht, h₂]; exact h.observed_le
  · rw [ht, h₃, hp]; exact h.unwoken
  · rw [hp]; exact h.readyObs
  · rw [ht, h₁, h₄, h₅, hp]; exact h.plain
  · rw [hp] at hb
    have hf := h.fn b hb
    refine ⟨?_, ?_, ?_, ?_, ?_⟩
    · rw [hp]; exact fed_stable b _ hf.fed hs
    · rw [ht, h₁, hp]; exact hf.segments
    · rw [ht, h₄, h₅, hp]; exact hf.waits
    · rw [hp, ht]
      intro hr
      obtain ⟨hw, hl, hv, l₁, l₂, htr, hs₂⟩ := hf.done hr
      exact ⟨hw, hl, hv, l₁, l₂ ++ es, by rw [htr]; simp, by rw [(quiet_append hq l₂).1, hs₂]⟩
    · rw [hp]; exact hf.waiting

structure Resolving (rt : Runtime V) (p : Nat) : Prop where
  lt : p < rt.count
  notReady : (rt.provs p).ready = false
  waitingOn : (rt.provs p).waitingOn = none
  readyCount : rt.trace.count (.ready p) = 0
  observers : observersOf p rt.trace = (rt.provs p).observer.toList
  observed_le : (observersOf p rt.trace).length ≤ 1
  unwoken : wokenOf p rt.trace = []
  plain : (rt.provs p).body = none →
    segmentsOf p rt.trace = [] ∧ waitActors p rt.trace = [] ∧ resumeActors p rt.trace = []
  fn : ∀ b, (rt.provs p).body = some b → b.Fed rt.provs (rt.provs p).vars ∧
    segmentsOf p rt.trace = List.range ((rt.provs p).vars.length + 1) ∧
    waitActors p rt.trace = resumeActors p rt.trace ∧
    (rt.provs p).vars.length = b.awaits ∧ (rt.provs p).result = b.ret (rt.provs p).vars
  notDue : p ∉ due rt
  thread : rt.thread = none
  links : Links rt (some p)
  others : ∀ r, r ≠ p → Local rt r

theorem gotResult_effect {rt rt' : Runtime V} {p : Nat} {cur : Option Nat}
    (hth : rt.thread = none) (h : rt.gotResult p cur = some rt') :
    rt'.count = rt.count ∧
    rt'.provs = Function.update rt.provs p { rt.provs p with ready := true, observer := none } ∧
    rt'.trace = rt.trace ++ .ready p :: (rt.provs p).observer.toList.map (.wake p) ∧
    due rt' = due rt ++ (rt.provs p).observer.toList ∧
    (∀ a f, (a, f) ∈ rt'.pending → (a, f) ∈ rt.pending ∨
      (rt.provs p).observer = some f ∧ (rt.provs f).actor = some a) ∧
    (∀ f c, rt'.thread = some (f, c) →
      (rt.provs p).observer = some f ∧ (rt.provs f).actor = none) := by
  obtain ⟨hc, hp, ⟨ho, hpe, hth', htr⟩ | ⟨g, ho, -, htr, hsome, hnone⟩⟩ := gotResult_cases h
  · refine ⟨hc, hp, by simp [htr, ho], by simp [due, hpe, hth', hth, ho], ?_, ?_⟩
    · intro a f hf; exact .inl (hpe ▸ hf)
    · intro f c hf; simp [hth'] at hf
  · refine ⟨hc, hp, by simp [htr, ho], ?_⟩
    cases ha : (rt.provs g).actor with
    | none =>
      obtain ⟨hpe, hth'⟩ := hnone ha
      refine ⟨by simp [due, hpe, hth', hth, ho], fun a f hf => .inl (hpe ▸ hf), ?_⟩
      intro f c hf
      rw [hth'] at hf
      cases hf
      exact ⟨ho, ha⟩
    | some a =>
      obtain ⟨hpe, hth'⟩ := hsome a ha
      refine ⟨by simp [due, hpe, hth', hth, ho], fun a' f hf => ?_, by simp [hth']⟩
      rw [hpe, List.mem_append, List.mem_singleton] at hf
      rcases hf with hf | hf
      · exact .inl hf
      · cases hf; exact .inr ⟨ho, ha⟩

section GotResult
variable {rt rt' : Runtime V} {p : Nat} {cur : Option Nat}

theorem gotResult_provs (hR : Resolving rt p) (h : rt.gotResult p cur = some rt') :
    rt'.provs p = { rt.provs p with ready := true, observer := none } ∧
    (∀ x, x ≠ p → rt'.provs x = rt.provs x) ∧ Stable rt.provs rt'.provs := by
  obtain ⟨-, hprovs, -⟩ := gotResult_effect hR.thread h
  exact ⟨by rw [hprovs, Function.update_same], fun x hx => by rw [hprovs, Function.update_noteq hx],
    hprovs ▸ stable_update (of_not_ready hR.notReady)⟩

theorem Resolving.observer_waits (hR : Resolving rt p) {g : Nat} (hg : (rt.provs p).observer = some g) :
    g ≠ p ∧ (rt.provs g).body.isSome ∧ (rt.provs g).ready = false ∧ (rt.provs g).waitingOn = some p := by
  obtain ⟨-, hb, hr, hw⟩ := hR.links.observer p g hg
  exact ⟨fun he => (by rw [he, hR.waitingOn] at hw; cases hw), hb, hr, hw⟩

theorem gotResult_waiting (hR : Resolving rt p) (h : rt.gotResult p cur = some rt') {f : Nat}
    {b : Body V} (hb : (rt'.provs f).body = some b) (hr : (rt'.provs f).ready = false) :
    Waits rt' f (b.call (rt'.provs f).vars) := by
  obtain ⟨hc, -, -, hdue, -, -⟩ := gotResult_effect hR.thread h
  obtain ⟨hpp, hx, -⟩ := gotResult_provs hR h
  have hfp : f ≠ p := fun he => by subst he; rw [hpp] at hr; cases hr
  rw [hx f hfp] at hb hr ⊢
  obtain ⟨hq, hwait⟩ := hR.links.waiting f b (fun he => hfp (Option.some.inj he).symm) hb hr
  have hwo := (((hR.others f hfp).fn b hb).waiting hr).2.1
  -- if `f` observes `p`, `p` is the provider `f` awaits
  have hof : (rt.provs p).observer = some f → b.call (rt.provs f).vars = p := fun ho => by
    have hw := (hR.observer_waits ho).2.2.2
    rw [hwo] at hw
    exact Option.some.inj hw
  refine ⟨hc ▸ hq, ?_⟩
  rw [hdue]
  rcases hwait with ⟨hrq, hoq, hnd⟩ | ⟨hrq, hcnt⟩
  · by_cases hqp : b.call (rt.provs f).vars = p
    · rw [hqp] at hoq ⊢
      exact .inr ⟨by rw [hpp], by simp [hoq, List.count_eq_zero.mpr hnd]⟩
    · rw [hx _ hqp]
      refine .inl ⟨hrq, hoq, ?_⟩
      simp only [List.mem_append, Option.mem_toList, not_or]
      exact ⟨hnd, fun ho => hqp (hof ho)⟩
  · have hqp : b.call (rt.provs f).vars ≠ p := fun he => by
      rw [he, hR.notReady] at hrq; cases hrq
    rw [hx _ hqp, List.count_append, hcnt]
    refine .inr ⟨hrq, ?_⟩
    rw [List.count_eq_zero.mpr fun hm => hqp (hof (by simpa using hm))]

theorem gotResult_links (hR : Resolving rt p) (h : rt.gotResult p cur = some rt') : Links rt' none := by
  obtain ⟨hc, -, -, hdue, hpend, hthr⟩ := gotResult_effect hR.thread h
  obtain ⟨hpp, hx, -⟩ := gotResult_provs hR h
  refine ⟨fun x g hg => ?_, fun f b _ hb hr => gotResult_waiting hR h hb hr, fun f hf => ?_,
    fun a f hf => ?_, fun f c hf => ?_⟩
  · by_cases hxp : x = p
    · subst hxp; rw [hpp] at hg; cases hg
    · rw [hx x hxp] at hg
      obtain ⟨hlt, hb, hr, hw⟩ := hR.links.observer x g hg
      have hgp : g ≠ p := fun he => by rw [he, hR.waitingOn] at hw; cases hw
      rw [hc, hx g hgp]
      exact ⟨hlt, hb, hr, hw⟩
  · rw [hdue, List.mem_append] at hf
    rcases hf with hf | hf
    · have hfp : f ≠ p := fun he => hR.notDue (he ▸ hf)
      rw [hx f hfp]
      exact hR.links.due f hf
    · have ho : (rt.provs p).observer = some f := by simpa using hf
      obtain ⟨hfp, hb, hr, -⟩ := hR.observer_waits ho
      rw [hx f hfp]
      exact ⟨hb, hr⟩
  · rcases hpend a f hf with hf | ⟨ho, ha⟩
    · have hfp : f ≠ p := fun he => hR.notDue (by
        simp only [due, hR.thread, Option.map_none', Option.toList_none, List.append_nil,
          List.mem_map]
        exact ⟨(a, f), hf, he⟩)
      rw [hx f hfp]
      exact hR.links.pending a f hf
    · rw [hx f (hR.observer_waits ho).1]
      exact ha
  · obtain ⟨ho, ha⟩ := hthr f c hf
    rw [hx f (hR.observer_waits ho).1]
    exact ha

theorem gotResult_local_self (hR : Resolving rt p) (h : rt.gotResult p cur = some rt') : Local rt' p := by
  obtain ⟨hc, -, htr, -⟩ := gotResult_effect hR.thread h
  obtain ⟨hpp, -, hs⟩ := gotResult_provs hR h
  obtain ⟨n₁, n₂, n₃, n₄, n₅, n₆⟩ := notes_ready_wake rt.trace p (rt.provs p).observer
  refine ⟨fun hle => absurd hle (by rw [hc]; exact Nat.not_le.mpr hR.lt), ?_, ?_, ?_, ?_, ?_,
    ?_, fun b hb => ?_⟩
  · rw [htr, n₆, hR.readyCount, hpp]; rfl
  · rw [htr, n₂, n₃, hR.observers, hR.unwoken, hpp]; rfl
  · rw [htr, n₂]; exact hR.observed_le
  · rw [hpp]; intro h; cases h
  · rw [hpp]; intro; rfl
  · rw [hpp, htr, n₁, n₄, n₅]; exact fun hb => ⟨hR.waitingOn, hR.plain hb⟩
  · rw [hpp] at hb
    obtain ⟨hF, hseg, hwait, hlen, hres⟩ := hR.fn b hb
    refine ⟨?_, ?_, ?_, ?_, ?_⟩
    · rw [hpp]; exact fed_stable b _ hF hs
    · rw [htr, n₁, hpp]; exact hseg
    · rw [htr, n₄, n₅, hpp]; simpa using hwait
    · rw [hpp]
      intro _
      refine ⟨hR.waitingOn, hlen, hres, rt.trace, _, htr, ?_⟩
      cases (rt.provs p).observer <;> simp [segmentNote]
    · rw [hpp]; intro h; cases h

theorem gotResult_inv (hR : Resolving rt p) (h : rt.gotResult p cur = some rt') : Inv rt' := by
  obtain ⟨hc, -, htr, -⟩ := gotResult_effect hR.thread h
  obtain ⟨-, hx, hs⟩ := gotResult_provs hR h
  refine ⟨gotResult_links hR h, fun r => ?_⟩
  by_cases hrp : r = p
  · subst hrp; exact gotResult_local_self hR h
  · refine local_frame (hR.others r hrp) (hx r hrp) hc.ge htr (fun e he => ?_) hs
    simp only [List.mem_cons, List.mem_map, Option.mem_toList] at he
    rcases he with rfl | ⟨g, -, rfl⟩
    · exact quiet_ready (Ne.symm hrp)
    · exact quiet_wake g (Ne.symm hrp)

end GotResult

theorem local_observe {rt rt' : Runtime V} {q g : Nat} {a : Option Nat} {es : List Event}
    (h : Local rt q) (hlt : q < rt.count) (hc : rt.count ≤ rt'.count)
    (hp : rt'.provs q = { rt.provs q with observer := some g })
    (hr : (rt.provs q).ready = false) (ho : (rt.provs q).observer = none) (hgq : g ≠ q)
    (ht : rt'.trace = rt.trace ++ es ++ [.observe q g a]) (hq : ∀ e ∈ es, Quiet q e)
    (hs : Stable rt.provs rt'.provs) : Local rt' q := by
  obtain ⟨h₁, h₂, h₃, h₄, h₅, h₆⟩ := quiet_append hq rt.trace
  obtain ⟨o₁, o₂, o₃, o₄, o₅, o₆⟩ := notes_observe (rt.trace ++ es) q g q a
  simp only [if_true, hgq, if_false, List.append_nil] at o₂ o₄
  refine ⟨fun hle => absurd (hc.trans hle) (Nat.not_le.mpr hlt), ?_, ?_, ?_, ?_, ?_, ?_,
    fun b hb => ?_⟩
  · rw [ht, o₆, h₆, h.readyCount, hp]
  · rw [ht, o₂, h₂, h.observers, hp]; simp [hr, ho]
  · rw [ht, o₂, h₂, h.observers]; simp [hr, ho]
  · rw [ht, o₃, h₃, hp]; exact h.unwoken
  · rw [hp]; exact of_not_ready hr
  · rw [ht, o₁, o₄, o₅, h₁, h₄, h₅, hp]; exact h.plain
  · rw [hp] at hb
    have hf := h.fn b hb
    refine ⟨?_, ?_, ?_, ?_, ?_⟩
    · rw [hp]; exact fed_stable b _ hf.fed hs
    · rw [ht, o₁, h₁, hp]; exact hf.segments
    · rw [ht, o₄, o₅, h₄, h₅, hp]; exact hf.waits
    · rw [hp]; exact of_not_ready hr
    · rw [hp]; exact hf.waiting

structure Running (rt : Runtime V) (g : Nat) (b : Body V) (vars : List V) : Prop where
  body : (rt.provs g).body = some b
  start : rt.resumeVars (rt.provs g) = some vars
  fed : b.Fed rt.provs vars
  le : vars.length ≤ b.awaits
  segments : segmentsOf g rt.trace = List.range vars.length
  waits : waitActors g rt.trace = resumeActors g rt.trace
  lt : g < rt.count
  notReady : (rt.provs g).ready = false
  readyCount : rt.trace.count (.ready g) = 0
  observers : observersOf g rt.trace = (rt.provs g).observer.toList
  observed_le : (observersOf g rt.trace).length ≤ 1
  unwoken : wokenOf g rt.trace = []
  notDue : g ∉ due rt
  thread : rt.thread = none
  unobserved : ∀ p, (rt.provs p).observer ≠ some g
  links : Links rt (some g)
  others : ∀ r, r ≠ g → Local rt r

structure WaitEffect (rt rt' : Runtime V) (es : List Event) (g q : Nat) (vars : List V)
    (cur : Option Nat) : Prop where
  lt : q < rt.count
  unobserved : (rt.provs q).observer = none
  count : rt'.count = rt.count
  pending : rt'.pending = rt.pending
  thread : rt'.thread = none
  trace : rt'.trace = rt.trace ++ es ++ [.observe q g cur]
  ready : ∀ x, (rt'.provs x).ready = (rt.provs x).ready
  body : ∀ x, (rt'.provs x).body = (rt.provs x).body
  observer : ∀ x, x ≠ q → (rt'.provs x).observer = (rt.provs x).observer
  observed : (rt'.provs q).observer = some g
  others : ∀ x, x ≠ g → (rt'.provs x).waitingOn = (rt.provs x).waitingOn ∧
    (rt'.provs x).vars = (rt.provs x).vars ∧ (rt'.provs x).actor = (rt.provs x).actor ∧
    (rt'.provs x).result = (rt.provs x).result
  self : (rt'.provs g).waitingOn = some q ∧ (rt'.provs g).vars = vars ∧ (rt'.provs g).actor = cur ∧
    (rt'.provs g).continueAt = vars.length + 1
  frame : ∀ x, x ≠ g → x ≠ q → rt'.provs x = rt.provs x
  observe : q ≠ g → rt'.provs q = { rt.provs q with observer := some g }

theorem wait_effect {rt rt' : Runtime V} {es : List Event} {g q : Nat} {vars : List V}
    {cur : Option Nat} (h : (rt.log es).wait g q vars cur = some rt') : WaitEffect rt rt' es g q vars cur := by
  obtain ⟨hqc, hqo, hprovs, hc, hpe, hth, htr⟩ := wait_cases h
  simp only [log_provs, log_count, log_pending, log_trace] at hqc hqo hprovs hc hpe htr
  have hsame : ∀ x, (rt'.provs x).ready = (rt.provs x).ready ∧ (rt'.provs x).body = (rt.provs x).body :=
    fun x => by
      by_cases hxg : x = g
      · rw [hprovs, if_pos hxg, hxg]; exact ⟨rfl, rfl⟩
      · rw [hprovs, if_neg hxg]; exact ⟨rfl, rfl⟩
  refine ⟨hqc, hqo, hc, hpe, hth, htr, fun x => (hsame x).1, fun x => (hsame x).2, fun x hx => ?_, ?_,
    fun x hx => ?_, ?_, fun x hxg hxq => ?_, fun hqg => ?_⟩
  · by_cases hxg : x = g
    · rw [hprovs, if_pos hxg]; subst hxg; exact if_neg hx
    · rw [hprovs, if_neg hxg]; exact if_neg hx
  · by_cases hqg : q = g
    · rw [hprovs, if_pos hqg]; exact if_pos hqg.symm
    · rw [hprovs, if_neg hqg]; exact if_pos rfl
  · rw [hprovs, if_neg hx]; exact ⟨rfl, rfl, rfl, rfl⟩
  · rw [hprovs, if_pos rfl]; exact ⟨rfl, rfl, rfl, rfl⟩
  · rw [hprovs, if_neg hxg, if_neg hxq]
  · rw [hprovs, if_neg hqg, if_pos rfl]

section Wait
variable {rt rt' : Runtime V} {g q : Nat} {b : Body V} {vars extra : List V} {cur : Option Nat}

theorem wait_links {es : List Event} (hR : Running rt g b vars) (E : WaitEffect rt rt' es g q (vars ++ extra) cur)
    (hq : q = b.call (vars ++ extra)) (hrq : (rt.provs q).ready = false) : Links rt' none := by
  have hdue : due rt' = due rt := by simp only [due, E.pending, E.thread, hR.thread]
  -- a provider observed by someone else is not the one `g` now observes
  have hobq : ∀ x f, (rt.provs x).observer = some f → x ≠ q := fun x f hx he => by
    rw [he, E.unobserved] at hx; cases hx
  refine ⟨fun x f hf => ?_, fun f b' _ hb hr => ?_, fun f hf => ?_, fun a f hf => ?_,
    fun f c hf => ?_⟩
  · by_cases hxq : x = q
    · subst hxq
      obtain rfl : f = g := Option.some.inj (hf.symm.trans E.observed)
      rw [E.count, E.ready, E.body, hR.body]
      exact ⟨hR.lt, rfl, hR.notReady, E.self.1⟩
    · rw [E.observer x hxq] at hf
      obtain ⟨hlt', hb, hr, hw⟩ := hR.links.observer x f hf
      have hfg : f ≠ g := fun he => hR.unobserved x (he ▸ hf)
      rw [E.count, E.ready, E.body, (E.others f hfg).1]
      exact ⟨hlt', hb, hr, hw⟩
  · by_cases hfg : f = g
    · subst hfg
      rw [E.body, hR.body] at hb
      cases hb
      rw [E.self.2.1, ← hq]
      exact ⟨E.count ▸ E.lt, .inl ⟨(E.ready q).trans hrq, E.observed, hdue ▸ hR.notDue⟩⟩
    · rw [E.body] at hb
      rw [E.ready] at hr
      obtain ⟨hqf, hw⟩ := hR.links.waiting f b' (fun he => hfg (Option.some.inj he).symm) hb hr
      rw [(E.others f hfg).2.1]
      refine ⟨E.count ▸ hqf, ?_⟩
      rw [hdue, E.ready]
      rcases hw with ⟨h₁, h₂, h₃⟩ | h'
      · exact .inl ⟨h₁, (E.observer _ (hobq _ _ h₂)).trans h₂, h₃⟩
      · exact .inr h'
  · rw [hdue] at hf
    rw [E.ready, E.body]
    exact hR.links.due f hf
  · rw [E.pending] at hf
    have hfg : f ≠ g := fun he => hR.notDue (by
      simp only [due, hR.thread, Option.map_none', Option.toList_none, List.append_nil,
        List.mem_map]
      exact ⟨(a, f), hf, he⟩)
    rw [(E.others f hfg).2.2.1]
    exact hR.links.pending a f hf
  · rw [E.thread] at hf; cases hf

theorem wait_local_self (hR : Running rt g b vars)
    (E : WaitEffect rt rt' ((List.range' vars.length (extra.length + 1)).map (.segment g)) g q (vars ++ extra) cur)
    (hlt : (vars ++ extra).length < b.awaits) (hq : q = b.call (vars ++ extra))
    (hF : b.Fed rt.provs (vars ++ extra)) (hs : Stable rt.provs rt'.provs) : Local rt' g := by
  obtain ⟨s₁, s₂, s₃, s₄, s₅, s₆⟩ :=
    notes_segments rt.trace g g (List.range' vars.length (extra.length + 1))
  obtain ⟨o₁, o₂, o₃, o₄, o₅, o₆⟩ := notes_observe (rt.trace ++
    (List.range' vars.length (extra.length + 1)).map (Event.segment g)) q g g cur
  simp only [if_true] at o₄
  have hobs : (rt'.provs g).observer = if g = q then some g else (rt.provs g).observer := by
    split
    · next hgq => subst hgq; exact E.observed
    · next hgq => exact E.observer g hgq
  refine ⟨fun hle => absurd hle (by rw [E.count]; exact Nat.not_le.mpr hR.lt), ?_, ?_, ?_, ?_, ?_,
    ?_, fun b' hb => ?_⟩
  · rw [E.trace, o₆, s₆, hR.readyCount, E.ready, hR.notReady]; rfl
  · rw [E.trace, o₂, s₂, hR.observers, E.ready, hR.notReady, hobs]
    by_cases hqg : q = g
    · subst hqg
      simp only [E.unobserved, Option.toList_none, ↓reduceIte, List.nil_append, Bool.false_eq_true,
        Option.toList_some]
    · simp only [hqg, ↓reduceIte, List.append_nil, Bool.false_eq_true, Ne.symm hqg]
  · rw [E.trace, o₂, s₂, hR.observers]
    by_cases hqg : q = g
    · subst hqg
      simp only [E.unobserved, Option.toList_none, ↓reduceIte, List.nil_append, List.length_singleton,
        Nat.le_refl]
    · cases (rt.provs g).observer <;>
        simp only [Option.toList_none, Option.toList_some, hqg, ↓reduceIte, List.append_nil,
          List.singleton_append, List.length_nil, List.length_singleton, Nat.zero_le, Nat.le_refl]
  · rw [E.trace, o₃, s₃]; intro; exact hR.unwoken
  · rw [E.ready, hR.notReady]; intro h; cases h
  · rw [E.body, hR.body]; intro h; cases h
  · rw [E.body, hR.body] at hb
    cases hb
    refine ⟨?_, ?_, ?_, fun h => ?_, fun _ => ?_⟩
    · rw [E.self.2.1]; exact fed_stable b _ hF hs
    · rw [E.trace, o₁, E.self.2.1]; exact segments_run extra hR.segments
    · rw [E.trace, o₄, o₅, s₄, s₅, hR.waits, E.ready, hR.notReady, E.self.2.2.1]; rfl
    · rw [E.ready, hR.notReady] at h; cases h
    · rw [E.self.2.1, E.self.1, E.self.2.2.2, ← hq]; exact ⟨hlt, rfl, rfl⟩

theorem wait_inv (hR : Running rt g b vars)
    (hlt : (vars ++ extra).length < b.awaits) (hq : q = b.call (vars ++ extra))
    (hrq : (rt.provs q).ready = false) (hF : b.Fed rt.provs (vars ++ extra))
    (h : (rt.log ((List.range' vars.length (extra.length + 1)).map (.segment g))).wait g q
      (vars ++ extra) cur = some rt') : Inv rt' := by
  have E := wait_effect h
  have hs : Stable rt.provs rt'.provs := fun x hx => by
    have hxg : x ≠ g := fun he => by rw [he, hR.notReady] at hx; cases hx
    exact ⟨(E.ready x).trans hx, (E.others x hxg).2.2.2⟩
  refine ⟨wait_links hR E hq hrq, fun r => ?_⟩
  by_cases hrg : r = g
  · subst hrg; exact wait_local_self hR E hlt hq hF hs
  have hseg : ∀ e ∈ (List.range' vars.length (extra.length + 1)).map (Event.segment g), Quiet r e :=
    fun e he => by
      obtain ⟨j, -, rfl⟩ := List.mem_map.mp he
      exact quiet_segment j (Ne.symm hrg)
  by_cases hrq' : r = q
  · subst hrq'
    exact local_observe (hR.others r hrg) E.lt E.count.ge (E.observe hrg) hrq E.unobserved (Ne.symm hrg)
      E.trace hseg hs
  · refine local_frame (hR.others r hrg) (E.frame r hrg hrq') E.count.ge
      (E.trace.trans (List.append_assoc _ _ _)) (fun e he => ?_) hs
    rcases List.mem_append.mp he with he | he
    · exact hseg e he
    · rw [List.mem_singleton.mp he]
      exact quiet_observe cur (Ne.symm hrq') (Ne.symm hrg)

end Wait

theorem finish_inv {rt rt' : Runtime V} {g : Nat} {b : Body V} {vars extra : List V}
    {cur : Option Nat} (hR : Running rt g b vars) (hlen : (vars ++ extra).length = b.awaits)
    (hF : b.Fed rt.provs (vars ++ extra))
    (h : (rt.log ((List.range' vars.length (extra.length + 1)).map (.segment g))).finish g
      (b.ret (vars ++ extra)) (vars ++ extra) cur = some rt') : Inv rt' := by
  refine gotResult_inv ?_ h
  obtain ⟨s₁, s₂, s₃, s₄, s₅, s₆⟩ :=
    notes_segments rt.trace g g (List.range' vars.length (extra.length + 1))
  simp only [if_true] at s₁
  have hseg := segments_run extra hR.segments
  have hx : ∀ x, x ≠ g → Function.update rt.provs g { rt.provs g with
      result := b.ret (vars ++ extra)
      waitingOn := none
      continueAt := (vars ++ extra).length
      vars := vars ++ extra } x = rt.provs x := fun x hx => Function.update_noteq hx _ _
  have hs : Stable rt.provs (Function.update rt.provs g { rt.provs g with
      result := b.ret (vars ++ extra)
      waitingOn := none
      continueAt := (vars ++ extra).length
      vars := vars ++ extra }) := stable_update (of_not_ready hR.notReady)
  refine ⟨hR.lt, by simpa using hR.notReady, by simp, ?_, ?_, ?_, ?_, fun hb => ?_,
    fun b' hb => ?_, ?_, hR.thread, ?_, fun r hr => ?_⟩
  · simp only [update_trace, log_trace]; rw [s₆]; exact hR.readyCount
  · simp only [update_trace, log_trace, update_provs, log_provs, Function.update_same]
    rw [s₂]; exact hR.observers
  · simp only [update_trace, log_trace]; rw [s₂]; exact hR.observed_le
  · simp only [update_trace, log_trace]; rw [s₃]; exact hR.unwoken
  · simp only [update_provs, log_provs, Function.update_same, hR.body] at hb; cases hb
  · simp only [update_provs, log_provs, Function.update_same, hR.body] at hb
    cases hb
    simp only [update_trace, log_trace, update_provs, log_provs, Function.update_same]
    exact ⟨fed_stable b _ hF hs, hseg, by rw [s₄, s₅]; exact hR.waits, hlen, trivial⟩
  · exact hR.notDue
  · exact links_congr hR.links hx (by simp) (by simp) hR.unobserved hR.notDue le_rfl rfl rfl
  · refine local_frame (hR.others r hr) (hx r hr) le_rfl rfl (fun e he => ?_) hs
    obtain ⟨j, -, rfl⟩ := List.mem_map.mp he
    exact quiet_segment j (Ne.symm hr)

theorem next_inv {rt rt' : Runtime V} {g : Nat} {b : Body V} {vars : List V}
    {cur : Option Nat} (hR : Running rt g b vars) (h : rt.next g cur = some rt') : Inv rt' := by
  obtain ⟨b', vars', hb, hv, hcase⟩ := next_cases h
  rw [hR.body] at hb
  cases hb
  rw [hR.start] at hv
  cases hv
  obtain ⟨extra, h₁, hle, h₂, hF, h₃⟩ := go_spec b rt.provs (b.awaits - vars.length) vars hR.fed
  have hl := hR.le
  rcases hcase with ⟨q, hq, hw⟩ | ⟨v, hv, hf⟩
  · rw [h₁, h₂] at hw
    rcases h₃ with ⟨hd, -⟩ | ⟨hlt, hwq, hrq⟩
    · rw [hd] at hq; cases hq
    · rw [hwq] at hq
      cases hq
      exact wait_inv hR (by rw [List.length_append]; omega) rfl hrq hF hw
  · rw [h₁, h₂] at hf
    rcases h₃ with ⟨hd, hlen⟩ | ⟨-, hwq, -⟩
    · rw [hd] at hv
      cases hv
      exact finish_inv hR (by rw [List.length_append]; omega) hF hf
    · rw [hwq] at hv; cases hv

theorem inv_init : Inv (Runtime.init : Runtime V) := by
  refine ⟨⟨?_, ?_, ?_, ?_, ?_⟩, fun p => ⟨?_, ?_, ?_, ?_, ?_, ?_, ?_, ?_⟩⟩ <;>
    simp [Runtime.init, Provider.new, due]

theorem inv_create {rt : Runtime V} (hI : Inv rt) : Inv (rt.add none) := by
  have hp : (rt.add none).provs = rt.provs := by
    rw [add_provs, ← (hI.prov rt.count).fresh le_rfl, Function.update_eq_self]
  obtain ⟨ho, hw, hd, hpe, hth⟩ := hI.links
  refine ⟨⟨fun x g hg => ?_, fun f b hs hb hr => ?_, fun f hf => ?_, fun a f hf => ?_,
    fun f c hf => ?_⟩, fun r => local_frame (hI.prov r) (by rw [hp]) (Nat.le_succ _)
      (List.append_nil _).symm (fun e he => absurd he (List.not_mem_nil e)) (by rw [hp]; exact
        fun x hx => ⟨hx, rfl⟩)⟩
  · rw [hp] at hg ⊢
    exact (ho x g hg).imp_left Nat.lt_succ_of_lt
  · rw [hp] at hb hr
    obtain ⟨hq, hw'⟩ := hw f b hs hb hr
    refine ⟨Nat.lt_succ_of_lt (by rw [hp]; exact hq), ?_⟩
    rw [hp]
    exact hw'
  · rw [hp]; exact hd f hf
  · rw [hp]; exact hpe a f hf
  · rw [hp]; exact hth f c hf

theorem running_call {rt : Runtime V} (hI : Inv rt) (hth : rt.thread = none) (b : Body V) :
    Running (rt.add (some b)) rt.count b [] := by
  have hf := (hI.prov rt.count).fresh le_rfl
  have hl := hI.prov rt.count
  have hplain := hl.plain (by rw [hf]; rfl)
  have hx : ∀ x, x ≠ rt.count → (rt.add (some b)).provs x = rt.provs x := fun x hx =>
    Function.update_noteq hx _ _
  have hn : (rt.add (some b)).provs rt.count = .new (some b) := Function.update_same _ _ _
  have hpo : ∀ x, (rt.provs x).observer ≠ some rt.count := fun x ho =>
    absurd (hI.links.observer x _ ho).1 (Nat.lt_irrefl _)
  have hpd : rt.count ∉ due rt := fun hd => by
    have := (hI.links.due _ hd).1
    rw [hf] at this
    cases this
  refine ⟨by rw [hn]; rfl, by rw [hn]; rfl, fed_nil b _, Nat.zero_le _, ?_, ?_, Nat.lt_succ_self _,
    by rw [hn]; rfl, ?_, ?_, hl.observed_le, hl.unwoken (by rw [hf]; rfl), hpd, hth,
    fun p ho => ?_, ?_, fun r hr => ?_⟩
  · exact hplain.2.1
  · rw [add_trace, hplain.2.2.1, hplain.2.2.2]
  · rw [add_trace, hl.readyCount, hf]; rfl
  · rw [add_trace, hl.observers, hf, hn]; rfl
  · by_cases hp : p = rt.count
    · rw [hp, hn] at ho; cases ho
    · rw [hx p hp] at ho; exact hpo p ho
  · exact links_congr (links_weaken hI.links) hx (by rw [hn, hf]; rfl) (by rw [hn, hf]; rfl) hpo
      hpd (Nat.le_succ _) rfl rfl
  · exact local_frame (hI.prov r) (hx r hr) (Nat.le_succ _) (List.append_nil _).symm
      (fun e he => absurd he (List.not_mem_nil e))
      (stable_update fun h => by rw [hf] at h; cases h)

theorem resolving_setResult {rt : Runtime V} {p : Nat} (hI : Inv rt) (hth : rt.thread = none)
    (hlt : p < rt.count) (hb : (rt.provs p).body = none) (hr : (rt.provs p).ready = false)
    (v : V) : Resolving (rt.setResult p v) p := by
  have hl := hI.prov p
  obtain ⟨hw, hplain⟩ := hl.plain hb
  have hx : ∀ x, x ≠ p → (rt.setResult p v).provs x = rt.provs x := fun x hx =>
    Function.update_noteq hx _ _
  have hpp : (rt.setResult p v).provs p = { rt.provs p with result := v } :=
    Function.update_same _ _ _
  have hpd : p ∉ due rt := fun hd => by
    have := (hI.links.due p hd).1
    rw [hb] at this
    cases this
  have hpo : ∀ x, (rt.provs x).observer ≠ some p := fun x ho => by
    have := (hI.links.observer x p ho).2.1
    rw [hb] at this
    cases this
  have hs : Stable rt.provs (rt.setResult p v).provs :=
    stable_update fun h => by rw [hr] at h; cases h
  refine ⟨hlt, by rw [hpp]; exact hr, by rw [hpp]; exact hw, ?_, ?_, hl.observed_le,
    hl.unwoken hr, fun _ => hplain, fun b' hb' => ?_, hpd, hth, ?_, fun r hr' => ?_⟩
  · rw [setResult, update_trace, hl.readyCount, hr]; rfl
  · rw [hpp, setResult, update_trace, hl.observers, hr]; rfl
  · rw [hpp, hb] at hb'; cases hb'
  · exact links_congr (links_weaken hI.links) hx (by rw [hpp]) (by rw [hpp]) hpo hpd le_rfl
      rfl rfl
  · exact local_frame (hI.prov r) (hx r hr') le_rfl (List.append_nil _).symm
      (fun e he => absurd he (List.not_mem_nil e)) hs

theorem resume_links {rt rt' : Runtime V} {g : Nat} (hI : Inv rt) (hp : rt'.provs = rt.provs)
    (hc : rt'.count = rt.count) (hth : rt'.thread = none)
    (hdf : ∀ f, f ≠ g → (due rt').count f = (due rt).count f) (hsub : ∀ f ∈ due rt', f ∈ due rt)
    (hpend : ∀ x ∈ rt'.pending, x ∈ rt.pending) : Links rt' (some g) := by
  refine ⟨?_, fun f b' hs hb' hr' => ?_, fun f hf => ?_, fun a f hf => ?_, fun f c hf => ?_⟩
  · rw [hp, hc]; exact hI.links.observer
  · rw [hp] at hb' hr' ⊢
    have hfg : f ≠ g := fun he => hs (he ▸ rfl)
    obtain ⟨hq', hw'⟩ := hI.links.waiting f b' (by simp) hb' hr'
    refine ⟨hc ▸ hq', ?_⟩
    rw [hp]
    rcases hw' with ⟨h₁, h₂, h₃⟩ | ⟨h₁, h₂⟩
    · exact .inl ⟨h₁, h₂, fun hm => h₃ (hsub f hm)⟩
    · exact .inr ⟨h₁, (hdf f hfg).trans h₂⟩
  · rw [hp]; exact hI.links.due f (hsub f hf)
  · rw [hp]; exact hI.links.pending a f (hpend _ hf)
  · rw [hth] at hf; cases hf

theorem running_of_due {rt rt' : Runtime V} {g : Nat} (hI : Inv rt) (hg : g ∈ due rt)
    (hp : rt'.provs = rt.provs) (hc : rt'.count = rt.count) (hth : rt'.thread = none)
    (ht : rt'.trace = rt.trace ++ [.resume g (rt.provs g).actor])
    (hdue : ∀ f, (due rt').count f + (if g = f then 1 else 0) = (due rt).count f)
    (hpend : ∀ x ∈ rt'.pending, x ∈ rt.pending) : ∃ b vars, Running rt' g b vars := by
  obtain ⟨hbs, hr⟩ := hI.links.due g hg
  obtain ⟨b, hb⟩ := Option.isSome_iff_exists.mp hbs
  have hl := hI.prov g
  have hf := hl.fn b hb
  obtain ⟨hlt, hwo, hca⟩ := hf.waiting hr
  -- `g` is due, so the provider it awaits is ready and `g` is due once
  obtain ⟨hqc, hw⟩ := hI.links.waiting g b (by simp) hb hr
  obtain ⟨hrq, hcnt⟩ : (rt.provs (b.call (rt.provs g).vars)).ready = true ∧
      (due rt).count g = 1 := by
    rcases hw with ⟨-, -, hnd⟩ | h
    · exact absurd hg hnd
    · exact h
  obtain ⟨hdg, hdf, hsub⟩ := due_resume hcnt hdue
  obtain ⟨n₁, n₂, n₃, n₄, n₅, n₆⟩ := notes_resume rt.trace g g (rt.provs g).actor
  simp only [if_true] at n₅
  refine ⟨b, (rt.provs g).vars ++ [(rt.provs (b.call (rt.provs g).vars)).result], ⟨?_, ?_,
    ?_, ?_, ?_, ?_, ?_, ?_, ?_, ?_, ?_, ?_, hdg, hth, fun p ho => ?_,
    resume_links hI hp hc hth hdf hsub hpend, fun r hr' => ?_⟩⟩
  · rw [hp]; exact hb
  · simp [resumeVars, hp, hca, hwo, hrq]
  · rw [hp]; exact fed_snoc b _ hf.fed hrq
  · simp only [List.length_append, List.length_singleton]; omega
  · rw [ht, n₁, hf.segments, List.length_append, List.length_singleton]
  · rw [ht, n₄, n₅, hf.waits, hr]; rfl
  · rw [hc]
    by_contra hle
    have := hl.fresh (Nat.not_lt.mp hle)
    rw [this] at hb
    cases hb
  · rw [hp]; exact hr
  · rw [ht, n₆, hl.readyCount, hr]; rfl
  · rw [ht, n₂, hl.observers, hp, hr]; rfl
  · rw [ht, n₂]; exact hl.observed_le
  · rw [ht, n₃]; exact hl.unwoken hr
  · rw [hp] at ho
    have hwp := (hI.links.observer p g ho).2.2.2
    rw [hwo] at hwp
    cases hwp
    rw [(hI.prov _).readyObs hrq] at ho
    cases ho
  · exact local_frame (hI.prov r) (by rw [hp]) hc.ge ht
      (fun e he => by rw [List.mem_singleton.mp he]; exact quiet_resume _ (Ne.symm hr'))
      (by rw [hp]; exact fun x hx => ⟨hx, rfl⟩)

theorem running_wake {rt : Runtime V} {i a g : Nat} (hI : Inv rt) (hth : rt.thread = none)
    (hi : rt.pending[i]? = some (a, g)) :
    ∃ b vars, Running ({ rt with pending := rt.pending.eraseIdx i }.log [.resume g (some a)])
      g b vars := by
  have hmem : (a, g) ∈ rt.pending := List.mem_iff_getElem?.mpr ⟨i, hi⟩
  have ha := hI.links.pending a g hmem
  refine running_of_due hI ?_ rfl rfl hth (by rw [ha]; rfl) (fun f => ?_)
    (fun x hx => List.mem_of_mem_eraseIdx hx)
  · simp only [due, hth, Option.map_none', Option.toList_none, List.append_nil, List.mem_map]
    exact ⟨(a, g), hmem, rfl⟩
  · simpa [due, hth] using count_map_eraseIdx rt.pending Prod.snd hi f

theorem running_resume {rt : Runtime V} {g : Nat} {cur : Option Nat} (hI : Inv rt)
    (hth : rt.thread = some (g, cur)) :
    ∃ b vars, Running ({ rt with thread := none }.log [.resume g none]) g b vars := by
  have ha := hI.links.thread g cur hth
  refine running_of_due hI (by simp [due, hth]) rfl rfl rfl (by rw [ha]; rfl) (fun f => ?_)
    (fun x hx => hx)
  simp [due, hth, List.count_singleton]

theorem reach_inv {rt : Runtime V} (h : Reach rt) : Inv rt := by
  induction h with
  | start => exact inv_init
  | call b _ _ hth hn ih => exact next_inv (running_call ih hth b) hn
  | create _ _ ih => exact inv_create ih
  | setResult p v _ _ hth hlt hb hr hg ih =>
    exact gotResult_inv (resolving_setResult ih hth hlt hb hr v) hg
  | wake i a g _ hth hi hn ih =>
    obtain ⟨b, vars, hR⟩ := running_wake ih hth hi
    exact next_inv hR hn
  | resume g _ _ hth hn ih =>
    obtain ⟨b, vars, hR⟩ := running_resume ih hth
    exact next_inv hR hn

end Blip.AsyncRuns
