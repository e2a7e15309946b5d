import Blip.MailboxRuns
import Blip.Manifest

/-!
# The manifests of mailbox chains

Each enqueue call records itself in the calling thread's current `ChannelManifest`, or in a new
one, and the block it hands over makes that manifest current while it runs. Over every run of a
system of actors, each manifest is what its chain's calls, read off the log, make of a new one.
-/

set_option autoImplicit false

namespace Blip.MailboxManifest
open Blip.Dispatch Blip.MailboxRuns Blip.Manifest

/-- A wrapped block: the method it runs, and the manifest it captured (`currentManifest`), by
index. -/
structure Block where
  methodName : String
  manifest : Nat
  deriving DecidableEq, Repr

/-- The actors' mailboxes, the manifests made so far (the first `made`), and a log of every
enqueue call and block start, with its actor, in order. -/
structure World where
  actors : Nat → GCDMailbox Block
  manifests : Nat → ChannelManifest
  made : Nat
  log : List (Nat × Event Block)

def World.init : World := ⟨fun _ => .init, fun _ => .new 0, 0, []⟩

def delaySecs (delay : Nat) : Float := if delay = 0 then 0 else Float.ofNat delay / 1000000000

/-- `sCurrentManifest` on the calling thread: the manifest of the block it runs for actor `a`,
or none on a thread that runs no mailbox block. -/
def World.current (w : World) : Option Nat → Option Nat
  | some a => (w.actors a).running.map Block.manifest
  | none => none

def World.target (w : World) (cur : Option Nat) : Nat := cur.getD w.made

/-- `sCurrentManifest ? sCurrentManifest : make_shared<ChannelManifest>()`: with no current
manifest, a new one is made at `now`. -/
def World.prepare (w : World) (cur : Option Nat) (now : Nat) : World :=
  match cur with
  | some _ => w
  | none => { w with manifests := Function.update w.manifests w.made (.new now), made := w.made + 1 }

/-- `GCDMailbox::enqueueAfter` on actor `a`, from a thread whose current manifest is `cur`: the
call recorded in the manifest, then `++_eventCount`, `retain(_actor)`, and the wrapped block,
which captured the manifest, handed to the queue. -/
def World.enqueueAfter (writeDouble : Float → String) (w : World) (cur : Option Nat)
    (a delay : Nat) (methodName : String) : World :=
  let g := w.actors a
  let k := w.target cur
  let w := w.prepare cur g.now
  { w with
    manifests := Function.update w.manifests k
      ((w.manifests k).addEnqueueCall writeDouble g.now methodName (delaySecs delay))
    actors := Function.update w.actors a (g.enqueueAfter delay ⟨methodName, k⟩)
    log := w.log ++ [(a, .call ⟨methodName, k⟩ g.now delay)] }

def World.enqueue (writeDouble : Float → String) (w : World) (cur : Option Nat) (a : Nat)
    (methodName : String) : World :=
  w.enqueueAfter writeDouble cur a 0 methodName

def World.tick (w : World) (dt : Nat) : World := { w with actors := fun a => (w.actors a).tick dt }

def World.set (w : World) (a : Nat) (g : GCDMailbox Block) : World :=
  { w with actors := Function.update w.actors a g }

def World.run (w : World) (a : Nat) : Option World :=
  match (w.actors a).run with
  | some g =>
    match g.running with
    | some b => some
      { w with
        actors := Function.update w.actors a g
        manifests := Function.update w.manifests b.manifest
          ((w.manifests b.manifest).addExecution g.now b.methodName)
        log := w.log ++ [(a, .run b g.now)] }
    | none => none
  | none => none

/-- The runs of a system of actors: calls from any thread, a block's own thread included, and
each queue's steps, in any order. -/
inductive Reach (writeDouble : Float → String) : World → Prop
  | init : Reach writeDouble World.init
  | enqueueAfter {w : World} (caller : Option Nat) (a delay : Nat) (methodName : String) :
      Reach writeDouble w →
      Reach writeDouble (w.enqueueAfter writeDouble (w.current caller) a delay methodName)
  | tick {w : World} (dt : Nat) : Reach writeDouble w → Reach writeDouble (w.tick dt)
  | fire {w : World} {g : GCDMailbox Block} (a i : Nat) : Reach writeDouble w →
      (w.actors a).fire i = some g → Reach writeDouble (w.set a g)
  | run {w w' : World} (a : Nat) : Reach writeDouble w → w.run a = some w' → Reach writeDouble w'
  | finish {w : World} {g : GCDMailbox Block} (a : Nat) (o : Outcome) : Reach writeDouble w →
      (w.actors a).finish o = some g → Reach writeDouble (w.set a g)

section Steps
variable {writeDouble : Float → String} {w w' : World} {a : Nat}

@[simp] theorem prepare_actors (cur : Option Nat) (now : Nat) : (w.prepare cur now).actors = w.actors := by
  cases cur <;> rfl

@[simp] theorem prepare_log (cur : Option Nat) (now : Nat) : (w.prepare cur now).log = w.log := by
  cases cur <;> rfl

@[simp] theorem enqueueAfter_actors (cur : Option Nat) (delay : Nat) (methodName : String) :
    (w.enqueueAfter writeDouble cur a delay methodName).actors =
      Function.update w.actors a ((w.actors a).enqueueAfter delay ⟨methodName, w.target cur⟩) := by
  cases cur <;> rfl

@[simp] theorem enqueueAfter_log (cur : Option Nat) (delay : Nat) (methodName : String) :
    (w.enqueueAfter writeDouble cur a delay methodName).log =
      w.log ++ [(a, .call ⟨methodName, w.target cur⟩ (w.actors a).now delay)] := by
  cases cur <;> rfl

theorem World.run_cases (h : w.run a = some w') :
    ∃ g b, (w.actors a).run = some g ∧ g.running = some b ∧
      w' = { w with
        actors := Function.update w.actors a g
        manifests := Function.update w.manifests b.manifest
          ((w.manifests b.manifest).addExecution g.now b.methodName)
        log := w.log ++ [(a, .run b g.now)] } := by
  unfold World.run at h
  split at h
  · next g hg =>
    split at h
    · next b hb => exact ⟨g, b, hg, hb, (Option.some.inj h).symm⟩
    · cases h
  · cases h

theorem forall_update (P : GCDMailbox Block → Prop) (h : ∀ a, P (w.actors a)) (a : Nat)
    {g : GCDMailbox Block} (hg : P g) : ∀ a', P (Function.update w.actors a g a') := fun a' => by
  by_cases ha : a' = a
  · subst ha; rwa [Function.update_same]
  · rw [Function.update_noteq ha]; exact h a'

end Steps

theorem reach_actors {writeDouble : Float → String} {w : World} (h : Reach writeDouble w) :
    ∀ a, MailboxRuns.Reach (w.actors a) := by
  induction h with
  | init => exact fun _ => .init
  | enqueueAfter caller a delay name _ ih =>
    rw [enqueueAfter_actors]
    exact forall_update _ ih a (.enqueueAfter _ _ (ih a))
  | tick dt _ ih => exact fun a => .tick dt (ih a)
  | fire a i _ hg ih => exact forall_update _ ih a (.fire i (ih a) hg)
  | run a _ hw ih =>
    obtain ⟨g, b, hg, -, rfl⟩ := World.run_cases hw
    exact forall_update _ ih a (.run (ih a) hg)
  | finish a o _ hg ih => exact forall_update _ ih a (.finish o (ih a) hg)

def manifestCall (k : Nat) : Event Block → Option Call
  | .call b now delay =>
    if b.manifest = k then some (.addEnqueueCall now b.methodName (delaySecs delay)) else none
  | .run b now => if b.manifest = k then some (.addExecution now b.methodName) else none
  | _ => none

/-- The calls of manifest `k`'s chain, as the log shows them, oldest first. -/
def chainCalls (k : Nat) (log : List (Nat × Event Block)) : List Call :=
  log.filterMap fun x => manifestCall k x.2

theorem chainCalls_concat (k : Nat) (log : List (Nat × Event Block)) (x : Nat × Event Block) :
    chainCalls k (log ++ [x]) = chainCalls k log ++ (manifestCall k x.2).toList := by
  simp only [chainCalls, List.filterMap_append, List.filterMap_cons, List.filterMap_nil]
  cases manifestCall k x.2 <;> rfl

theorem chainCalls_split (pre post : List (Nat × Event Block)) (a : Nat) (b : Block) (now : Nat) :
    chainCalls b.manifest (pre ++ (a, .run b now) :: post) =
      chainCalls b.manifest pre ++ .addExecution now b.methodName :: chainCalls b.manifest post := by
  simp [chainCalls, manifestCall]

theorem chainCalls_no_setLimit (k : Nat) (log : List (Nat × Event Block)) :
    ∀ c ∈ chainCalls k log, ∀ l, c ≠ .setLimit l := by
  intro c hc l he
  obtain ⟨⟨a, e⟩, -, hx⟩ := List.mem_filterMap.1 hc
  subst he
  cases e <;> simp only [manifestCall] at hx <;> (try split_ifs at hx) <;> cases hx

theorem chainCalls_no_execution (writeDouble : Float → String) (start : Int) {k : Nat}
    {post : List (Nat × Event Block)} (hp : ∀ x ∈ post, ∀ b t, x.2 = .run b t → b.manifest ≠ k) :
    ∀ d ∈ chainCalls k post, d.entry writeDouble start .executions = none := by
  intro d hd
  obtain ⟨⟨a, e⟩, hx, he⟩ := List.mem_filterMap.1 hd
  cases e with
  | call b now delay =>
    simp only [manifestCall] at he
    split_ifs at he
    cases he
    rfl
  | run b now =>
    simp only [manifestCall] at he
    split_ifs at he with hm
    exact absurd hm (hp _ hx b now rfl)
  | fire t now => cases he
  | caught b => cases he
  | done b => cases he

def blocks (g : GCDMailbox Block) : List Block := g.running.toList ++ g.mailbox.pending

section Blocks
open GCDMailbox
variable {g g' : GCDMailbox Block} {x : Block}

theorem blocks_enqueueAfter (delay : Nat) (b : Block) (hx : x ∈ blocks (g.enqueueAfter delay b)) :
    x ∈ blocks g ∨ x = b := by
  simp only [blocks, GCDMailbox.enqueueAfter, List.mem_append] at hx ⊢
  rcases hx with hx | hx
  · exact .inl (.inl hx)
  · rcases List.mem_append.1 ((enqueueAfter_pending_perm _ _ _ _).mem_iff.1 hx) with hx | hx
    · exact .inl (.inr hx)
    · exact .inr (List.mem_singleton.1 hx)

theorem blocks_fire {i : Nat} (h : g.fire i = some g') (hx : x ∈ blocks g') : x ∈ blocks g := by
  obtain ⟨t, ht, -, rfl⟩ := fire_cases h
  simp only [blocks, List.mem_append] at hx ⊢
  exact hx.imp_right (fire_pending_perm ht).mem_iff.1

theorem blocks_run (h : g.run = some g') : blocks g' = blocks g := by
  obtain ⟨b, rest, hr, hq, rfl⟩ := GCDMailbox.run_cases h
  simp [blocks, Mailbox.pending, hr, hq]

theorem blocks_finish {o : Outcome} (h : g.finish o = some g') (hx : x ∈ blocks g') :
    x ∈ blocks g := by
  obtain ⟨b, -, rfl⟩ := finish_cases h
  exact List.mem_append_right _ (by simpa [blocks] using hx)

end Blocks

structure Chains (writeDouble : Float → String) (w : World) : Prop where
  manifest : ∀ k < w.made,
    w.manifests k = (ChannelManifest.new (w.manifests k).start).run writeDouble (chainCalls k w.log)
  fresh : ∀ k, w.made ≤ k → chainCalls k w.log = []
  carried : ∀ a, ∀ b ∈ blocks (w.actors a), b.manifest < w.made

section Chains
variable {writeDouble : Float → String} {w w' : World} {a : Nat}

theorem chains_init : Chains writeDouble World.init :=
  ⟨fun _ hk => absurd hk (Nat.not_lt_zero _), fun _ _ => rfl, fun _ _ hb => absurd hb (List.not_mem_nil _)⟩

theorem chains_set (hc : Chains writeDouble w) {g : GCDMailbox Block}
    (hg : ∀ x ∈ blocks g, x ∈ blocks (w.actors a)) : Chains writeDouble (w.set a g) :=
  ⟨hc.manifest, hc.fresh,
    forall_update (fun g => ∀ b ∈ blocks g, b.manifest < w.made) hc.carried a fun b hb => hc.carried a b (hg b hb)⟩

theorem chains_tick (dt : Nat) (hc : Chains writeDouble w) : Chains writeDouble (w.tick dt) :=
  ⟨hc.manifest, hc.fresh, hc.carried⟩

theorem chains_record (hc : Chains writeDouble w) {k : Nat} (hk : k < w.made)
    (x : Nat × Event Block) {c : Call} (hx : ∀ k', manifestCall k' x.2 = if k = k' then some c else none)
    (actors : Nat → GCDMailbox Block) (hb : ∀ a, ∀ b ∈ blocks (actors a), b.manifest < w.made) :
    Chains writeDouble
      { w with
        actors := actors
        manifests := Function.update w.manifests k ((w.manifests k).call writeDouble c)
        log := w.log ++ [x] } := by
  refine ⟨fun k' hk' => ?_, fun k' hk' => ?_, hb⟩ <;> dsimp only at hk' ⊢ <;> rw [chainCalls_concat, hx]
  · by_cases he : k = k'
    · subst he
      rw [Function.update_same, if_pos rfl, Option.toList_some, start_call, run_concat,
        ← hc.manifest k hk]
    · rw [Function.update_noteq (Ne.symm he), if_neg he, Option.toList_none, List.append_nil]
      exact hc.manifest k' hk'
  · rw [if_neg (by omega), Option.toList_none, List.append_nil]
    exact hc.fresh k' hk'

theorem chains_prepare (hc : Chains writeDouble w) {cur : Option Nat}
    (hcur : ∀ k, cur = some k → k < w.made) (now : Nat) :
    Chains writeDouble (w.prepare cur now) ∧ w.target cur < (w.prepare cur now).made := by
  cases cur with
  | some k => exact ⟨hc, hcur k rfl⟩
  | none =>
    refine ⟨⟨fun k hk => ?_, fun k hk => hc.fresh k (Nat.le_of_succ_le hk),
      fun a b hb => Nat.lt_succ_of_lt (hc.carried a b hb)⟩, Nat.lt_succ_self _⟩
    dsimp only [World.prepare] at hk ⊢
    by_cases he : k = w.made
    · subst he
      rw [Function.update_same, hc.fresh _ (Nat.le_refl _)]
      rfl
    · rw [Function.update_noteq he]
      exact hc.manifest k (Nat.lt_of_le_of_ne (Nat.le_of_lt_succ hk) he)

theorem current_lt (hc : Chains writeDouble w) (caller : Option Nat) :
    ∀ k, w.current caller = some k → k < w.made := fun k hk => by
  cases caller with
  | none => cases hk
  | some a =>
    obtain ⟨b, hb, rfl⟩ := Option.map_eq_some'.1 hk
    exact hc.carried a b (by simp [blocks, hb])

theorem chains_enqueueAfter (hc : Chains writeDouble w) {cur : Option Nat}
    (hcur : ∀ k, cur = some k → k < w.made) (delay : Nat) (methodName : String) :
    Chains writeDouble (w.enqueueAfter writeDouble cur a delay methodName) := by
  obtain ⟨hc₁, hk⟩ := chains_prepare hc hcur (w.actors a).now
  refine chains_record hc₁ hk (a, .call ⟨methodName, w.target cur⟩ (w.actors a).now delay)
    (fun _ => rfl) _
    (forall_update (fun g => ∀ b ∈ blocks g, b.manifest < _) hc₁.carried a fun b hb => ?_)
  rcases blocks_enqueueAfter delay _ hb with hb | rfl
  · exact hc₁.carried a b (by rwa [prepare_actors])
  · exact hk

theorem chains_run (hc : Chains writeDouble w) (h : w.run a = some w') : Chains writeDouble w' := by
  obtain ⟨g, b, hg, hb, rfl⟩ := World.run_cases h
  have hblocks := blocks_run hg
  have hbm : b ∈ blocks (w.actors a) := by
    rw [← hblocks, blocks, hb]; exact List.mem_append_left _ (List.mem_singleton_self b)
  exact chains_record hc (hc.carried a b hbm) (a, .run b g.now)
    (fun _ => rfl) _
    (forall_update (fun g => ∀ b ∈ blocks g, b.manifest < w.made) hc.carried a fun x hx => hc.carried a x (hblocks ▸ hx))

theorem reach_chains (h : Reach writeDouble w) : Chains writeDouble w := by
  induction h with
  | init => exact chains_init
  | enqueueAfter caller a delay name _ ih => exact chains_enqueueAfter ih (current_lt ih caller) delay name
  | tick dt _ ih => exact chains_tick dt ih
  | fire a i _ hg ih => exact chains_set ih fun _ => blocks_fire hg
  | run a _ hw ih => exact chains_run ih hw
  | finish a o _ hg ih => exact chains_set ih fun _ => blocks_finish hg

end Chains

/-- Over every run of a system of actors, with calls from any thread: each mailbox runs as a
`GCDMailbox` does, and every block waiting or running carries a manifest already made. Each
manifest made is what the calls of its chain make of a new manifest: every enqueue of a block
that captured it, and every start of such a block, in the order of the log. So each of its lists
holds the newest entries of the chain's history, in order, and counts the others. -/
theorem mailbox_manifests {writeDouble : Float → String} {w : World} (h : Reach writeDouble w) :
    (∀ a, MailboxRuns.Reach (w.actors a)) ∧
    (∀ a, ∀ b ∈ blocks (w.actors a), b.manifest < w.made) ∧
    ∀ k < w.made,
      w.manifests k =
        (ChannelManifest.new (w.manifests k).start).run writeDouble (chainCalls k w.log) ∧
      ∀ l, Kept (history writeDouble (w.manifests k).start l (chainCalls k w.log))
        ((w.manifests k).log l) := by
  have hc := reach_chains h
  refine ⟨reach_actors h, hc.carried, fun k hk => ⟨hc.manifest k hk, fun l => ?_⟩⟩
  have hkept := run_kept writeDouble (w.manifests k).start l (chainCalls k w.log)
  rwa [← hc.manifest k hk] at hkept

theorem mailbox_manifests_ex :
    ∃ w, Reach toString w ∧ w.made = 1 ∧ (chainCalls 0 w.log).length = 3 ∧
      (∀ a, MailboxRuns.Reach (w.actors a)) ∧
      (∀ a, ∀ b ∈ blocks (w.actors a), b.manifest < w.made) ∧
      ∀ k < w.made,
        w.manifests k =
          (ChannelManifest.new (w.manifests k).start).run toString (chainCalls k w.log) ∧
        ∀ l, Kept (history toString (w.manifests k).start l (chainCalls k w.log))
          ((w.manifests k).log l) := by
  have h : Reach toString _ :=
    .enqueueAfter (some 0) 1 0 "send" (.run 0 (.enqueueAfter none 0 0 "open" .init) rfl)
  exact ⟨_, h, rfl, rfl, mailbox_manifests h⟩

def LatestStart (w : World) : Prop :=
  ∀ a b, (w.actors a).running = some b → ∃ pre now post, w.log = pre ++ (a, .run b now) :: post ∧
    ∀ x ∈ post, x.1 = a → ∀ b' t, x.2 ≠ .run b' t

section Latest
variable {writeDouble : Float → String} {w w' : World}

theorem LatestStart.extend (hl : LatestStart w) {a : Nat} {b : Block}
    (hr : (w.actors a).running = some b) (x : Nat × Event Block)
    (hx : x.1 = a → ∀ b' t, x.2 ≠ .run b' t) :
    ∃ pre now post, w.log ++ [x] = pre ++ (a, .run b now) :: post ∧
      ∀ y ∈ post, y.1 = a → ∀ b' t, y.2 ≠ .run b' t := by
  obtain ⟨pre, now, post, hlog, hpost⟩ := hl a b hr
  refine ⟨pre, now, post ++ [x], by rw [hlog, List.append_assoc, List.cons_append], fun y hy => ?_⟩
  rcases List.mem_append.1 hy with hy | hy
  · exact hpost y hy
  · rw [List.mem_singleton.1 hy]; exact hx

theorem LatestStart.frame (hl : LatestStart w)
    (hrun : ∀ a b, (w'.actors a).running = some b → (w.actors a).running = some b)
    (hlog : w'.log = w.log) : LatestStart w' := fun a b hr => hlog ▸ hl a b (hrun a b hr)

theorem LatestStart.call (hl : LatestStart w)
    (hrun : ∀ a b, (w'.actors a).running = some b → (w.actors a).running = some b)
    {x : Nat × Event Block} (hlog : w'.log = w.log ++ [x]) (hx : ∀ b' t, x.2 ≠ .run b' t) :
    LatestStart w' := fun a b hr => hlog ▸ hl.extend (hrun a b hr) x fun _ => hx

theorem running_update {a : Nat} {g : GCDMailbox Block}
    (hg : ∀ b, g.running = some b → (w.actors a).running = some b) :
    ∀ a' b, (Function.update w.actors a g a').running = some b → (w.actors a').running = some b := by
  intro a' b hr
  by_cases ha : a' = a
  · subst ha; rw [Function.update_same] at hr; exact hg b hr
  · rwa [Function.update_noteq ha] at hr

theorem latest_enqueueAfter (hl : LatestStart w) (cur : Option Nat) (a delay : Nat)
    (methodName : String) : LatestStart (w.enqueueAfter writeDouble cur a delay methodName) :=
  hl.call (by rw [enqueueAfter_actors]; exact running_update fun _ => id) (enqueueAfter_log ..)
    fun _ _ h => Event.noConfusion h

theorem latest_run (hl : LatestStart w) {a : Nat} (h : w.run a = some w') : LatestStart w' := by
  obtain ⟨g, b, hg, hb, rfl⟩ := World.run_cases h
  intro a' b' hr
  dsimp only at hr ⊢
  by_cases ha : a' = a
  · subst ha
    rw [Function.update_same, hb] at hr
    cases hr
    exact ⟨w.log, g.now, [], rfl, fun _ hx => absurd hx (List.not_mem_nil _)⟩
  · rw [Function.update_noteq ha] at hr
    exact hl.extend hr _ fun he => absurd he.symm ha

theorem reach_latest (h : Reach writeDouble w) : LatestStart w := by
  induction h with
  | init => exact fun _ _ hr => Option.noConfusion hr
  | enqueueAfter caller a delay name _ ih => exact latest_enqueueAfter ih _ a delay name
  | tick dt _ ih => exact ih.frame (fun _ _ => id) rfl
  | fire a i _ hg ih =>
    obtain ⟨t, -, -, rfl⟩ := GCDMailbox.fire_cases hg
    exact ih.frame (running_update fun _ => id) rfl
  | run a _ hw ih => exact latest_run ih hw
  | finish a o _ hg ih =>
    obtain ⟨b, -, rfl⟩ := GCDMailbox.finish_cases hg
    exact ih.frame (running_update fun _ hb => Option.noConfusion hb) rfl

end Latest

/-- While actor `a` runs block `b`, `b`'s start is the latest on `a` in the log. The manifest that
`safelyCall` writes to the log if `b` throws (the thread's current one, `b`'s) lists `b`'s
execution as the newest, unless a block of the same chain has since started on another actor. -/
theorem dump_ends_with_running {writeDouble : Float → String} {w : World} (h : Reach writeDouble w)
    {a : Nat} {b : Block} (hr : (w.actors a).running = some b) :
    ∃ pre, ∃ now : Nat, ∃ post, w.log = pre ++ (a, .run b now) :: post ∧
      (∀ x ∈ post, x.1 = a → ∀ b' t, x.2 ≠ .run b' t) ∧
      ((∀ x ∈ post, ∀ b' t, x.2 = .run b' t → b'.manifest ≠ b.manifest) →
        (w.manifests b.manifest).executions.getLast? =
          some ⟨elapsedMs (w.manifests b.manifest).start now, b.methodName⟩) := by
  obtain ⟨pre, now, post, hlog, hpost⟩ := reach_latest h a b hr
  refine ⟨pre, now, post, hlog, hpost, fun hother => ?_⟩
  have hc := reach_chains h
  have hb : b ∈ blocks (w.actors a) := by
    rw [blocks, hr]; exact List.mem_append_left _ (List.mem_singleton_self b)
  have e := hc.manifest _ (hc.carried a b hb)
  rw [hlog, chainCalls_split] at e
  rw [e, start_run, new_start]
  exact run_executions_getLast writeDouble _ _ _ now b.methodName (chainCalls_no_setLimit _ _)
    (chainCalls_no_execution writeDouble _ hother)

theorem dump_ends_with_running_ex :
    ∃ w, Reach toString w ∧ (w.actors 0).running = some ⟨"open", 0⟩ ∧
      ∃ pre, ∃ now : Nat, ∃ post, w.log = pre ++ (0, .run ⟨"open", 0⟩ now) :: post ∧
        (∀ x ∈ post, x.1 = 0 → ∀ b' t, x.2 ≠ .run b' t) ∧
        ((∀ x ∈ post, ∀ b' t, x.2 = .run b' t → b'.manifest ≠ (⟨"open", 0⟩ : Block).manifest) →
          (w.manifests (⟨"open", 0⟩ : Block).manifest).executions.getLast? =
            some ⟨elapsedMs (w.manifests (⟨"open", 0⟩ : Block).manifest).start now,
              (⟨"open", 0⟩ : Block).methodName⟩) := by
  have h : Reach toString _ :=
    .enqueueAfter (some 0) 1 0 "send" (.run 0 (.enqueueAfter none 0 0 "open" .init) rfl)
  exact ⟨_, h, rfl, dump_ends_with_running h rfl⟩

end Blip.MailboxManifest
