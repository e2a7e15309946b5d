import Mathlib.Data.List.Infix
import Mathlib.Algebra.Group.Nat.Basic

/-!
# The channel manifest

`ChannelManifest` keeps two lists of entries, each trimmed to `_limit` after every add, with a
`uint32_t` count of what was trimmed. Each list is the newest part of its history, its latest add
left it no longer than the limit then in force, and its length plus its count is the history's.
-/

set_option autoImplicit false

namespace Blip.Manifest

/-- `ChannelManifestEntry`: the milliseconds since the manifest started, and a name. -/
structure Entry where
  elapsed : Int
  name : String
  deriving DecidableEq, Repr

/-- `ChannelManifest`: `_start`, the two lists, `_limit` and the two `uint32_t` counts.
Time points of `std::chrono::system_clock` are counted in nanoseconds, its period under libstdc++.
The mutex is not modelled: each call is one step. -/
structure ChannelManifest where
  start : Int
  enqueueCalls : List Entry
  executions : List Entry
  limit : UInt8
  truncatedEnqueue : Nat
  truncatedExecution : Nat

def ChannelManifest.new (start : Int) : ChannelManifest := ⟨start, [], [], 100, 0, 0⟩

/-- `duration_cast<milliseconds>(now - _start)`, which rounds toward zero. -/
def elapsedMs (start now : Int) : Int := (now - start).tdiv 1000000

/-- The name `addEnqueueCall` records: with a non-zero delay, `name [after <after> secs]`. How
`operator<<` writes a `double` is left to `writeDouble`. -/
def actualName (writeDouble : Float → String) (name : String) (after : Float) : String :=
  if after != 0 then name ++ " [after " ++ writeDouble after ++ " secs]" else name

/-- The loop `while (list.size() > _limit) { list.pop_front(); truncated++; }` on a `uint32_t`
count. -/
def trim (limit : UInt8) : List Entry → Nat → List Entry × Nat
  | [], truncated => ([], truncated)
  | e :: es, truncated =>
    if limit.toNat < (e :: es).length then trim limit es ((truncated + 1) % 2 ^ 32)
    else (e :: es, truncated)

def record (limit : UInt8) (entries : List Entry) (truncated : Nat) (e : Entry) :
    List Entry × Nat :=
  trim limit (entries ++ [e]) truncated

/-- `ChannelManifest::addEnqueueCall`, at clock reading `now`. -/
def ChannelManifest.addEnqueueCall (writeDouble : Float → String) (m : ChannelManifest)
    (now : Int) (name : String) (after : Float) : ChannelManifest :=
  let r := record m.limit m.enqueueCalls m.truncatedEnqueue
    ⟨elapsedMs m.start now, actualName writeDouble name after⟩
  { m with enqueueCalls := r.1, truncatedEnqueue := r.2 }

/-- `ChannelManifest::addExecution`, at clock reading `now`. -/
def ChannelManifest.addExecution (m : ChannelManifest) (now : Int) (name : String) :
    ChannelManifest :=
  let r := record m.limit m.executions m.truncatedExecution ⟨elapsedMs m.start now, name⟩
  { m with executions := r.1, truncatedExecution := r.2 }

/-- `ChannelManifest::setLimit`. -/
def ChannelManifest.setLimit (m : ChannelManifest) (limit : UInt8) : ChannelManifest :=
  { m with limit := limit }

inductive Call where
  | addEnqueueCall (now : Int) (name : String) (after : Float)
  | addExecution (now : Int) (name : String)
  | setLimit (limit : UInt8)

def ChannelManifest.call (writeDouble : Float → String) (m : ChannelManifest) : Call →
    ChannelManifest
  | .addEnqueueCall now name after => m.addEnqueueCall writeDouble now name after
  | .addExecution now name => m.addExecution now name
  | .setLimit limit => m.setLimit limit

def ChannelManifest.run (writeDouble : Float → String) (m : ChannelManifest) : List Call →
    ChannelManifest
  | [] => m
  | c :: cs => (m.call writeDouble c).run writeDouble cs

inductive Log where
  | enqueueCalls
  | executions
  deriving DecidableEq, Repr

def ChannelManifest.log (m : ChannelManifest) : Log → List Entry × Nat
  | .enqueueCalls => (m.enqueueCalls, m.truncatedEnqueue)
  | .executions => (m.executions, m.truncatedExecution)

def Call.entry (writeDouble : Float → String) (start : Int) : Log → Call → Option Entry
  | .enqueueCalls, .addEnqueueCall now name after =>
    some ⟨elapsedMs start now, actualName writeDouble name after⟩
  | .executions, .addExecution now name => some ⟨elapsedMs start now, name⟩
  | _, _ => none

def Call.setLimitArg : Call → Option UInt8
  | .setLimit limit => some limit
  | _ => none

/-- The limit in force after the calls `cs` on a new manifest: the argument of the latest
`setLimit` among them, or the default of 100. -/
def latestLimit (cs : List Call) : UInt8 := ((cs.filterMap Call.setLimitArg).getLast?).getD 100

/-- Every entry the calls add to a list, oldest first. -/
def history (writeDouble : Float → String) (start : Int) (l : Log) (calls : List Call) :
    List Entry :=
  calls.filterMap (Call.entry writeDouble start l)

section
variable (writeDouble : Float → String)

@[simp] theorem new_start (start : Int) : (ChannelManifest.new start).start = start := rfl

@[simp] theorem start_call (m : ChannelManifest) (c : Call) :
    (m.call writeDouble c).start = m.start := by
  cases c <;> rfl

theorem run_append (m : ChannelManifest) (cs ds : List Call) :
    m.run writeDouble (cs ++ ds) = (m.run writeDouble cs).run writeDouble ds := by
  induction cs generalizing m with
  | nil => rfl
  | cons c cs ih => exact ih _

@[simp] theorem start_run (m : ChannelManifest) (cs : List Call) :
    (m.run writeDouble cs).start = m.start := by
  induction cs generalizing m with
  | nil => rfl
  | cons c cs ih => rw [ChannelManifest.run, ih, start_call]

theorem run_concat (m : ChannelManifest) (cs : List Call) (c : Call) :
    m.run writeDouble (cs ++ [c]) = (m.run writeDouble cs).call writeDouble c := by
  rw [run_append]; rfl

theorem log_call (m : ChannelManifest) (c : Call) (l : Log) :
    (m.call writeDouble c).log l = match c.entry writeDouble m.start l with
      | some e => record m.limit (m.log l).1 (m.log l).2 e
      | none => m.log l := by
  cases c <;> cases l <;> rfl

theorem log_run_of_none (m : ChannelManifest) (l : Log) (cs : List Call)
    (h : ∀ d ∈ cs, d.entry writeDouble m.start l = none) : (m.run writeDouble cs).log l = m.log l := by
  induction cs generalizing m with
  | nil => rfl
  | cons c cs ih =>
    rw [ChannelManifest.run, ih _ fun d hd => by rw [start_call]; exact h d (.tail _ hd), log_call,
      h c (.head _)]

theorem limit_run (m : ChannelManifest) {cs : List Call} (h : ∀ c ∈ cs, ∀ l, c ≠ .setLimit l) :
    (m.run writeDouble cs).limit = m.limit := by
  induction cs generalizing m with
  | nil => rfl
  | cons c cs ih =>
    rw [ChannelManifest.run, ih _ fun d hd => h d (.tail _ hd)]
    cases c <;> first | rfl | exact absurd rfl (h _ (.head _) _)

theorem limit_run_eq (m : ChannelManifest) (cs : List Call) :
    (m.run writeDouble cs).limit = ((cs.filterMap Call.setLimitArg).getLast?).getD m.limit := by
  induction cs using List.reverseRecOn with
  | nil => rfl
  | append_singleton cs c ih =>
    rw [run_concat, List.filterMap_append]
    cases c <;> simp [ChannelManifest.call, ChannelManifest.addEnqueueCall,
      ChannelManifest.addExecution, ChannelManifest.setLimit, Call.setLimitArg, ih]

theorem limit_new_run (start : Int) (cs : List Call) :
    ((ChannelManifest.new start).run writeDouble cs).limit = latestLimit cs :=
  limit_run_eq writeDouble _ cs

end

theorem trim_eq (limit : UInt8) (l : List Entry) (n : Nat) (hn : n < 2 ^ 32) :
    trim limit l n = (l.drop (l.length - limit.toNat), (n + (l.length - limit.toNat)) % 2 ^ 32) := by
  induction l generalizing n with
  | nil => simp only [trim, List.drop_nil, List.length_nil, Nat.zero_sub, Nat.add_zero,
      Nat.mod_eq_of_lt hn]
  | cons e es ih =>
    rw [trim]
    split
    · next hlt =>
      have hk : (e :: es).length - limit.toNat = es.length - limit.toNat + 1 := by
        simp only [List.length_cons] at hlt ⊢; omega
      rw [ih _ (Nat.mod_lt _ (Nat.two_pow_pos 32)), hk, List.drop_succ_cons, Nat.mod_add_mod,
        Nat.add_right_comm, Nat.add_assoc]
    · next hle =>
      rw [Nat.sub_eq_zero_of_le (Nat.not_lt.mp hle), List.drop_zero, Nat.add_zero,
        Nat.mod_eq_of_lt hn]

example : trim 1 [⟨0, "a"⟩, ⟨1, "b"⟩, ⟨2, "c"⟩] 7 = ([⟨2, "c"⟩], 9) := rfl

/-- A list and its count as its history leaves them: the newest entries in order, and the list's
length plus its count is the history's length modulo `2 ^ 32`. -/
structure Kept (h : List Entry) (p : List Entry × Nat) : Prop where
  suffix : p.1 <:+ h
  count_lt : p.2 < 2 ^ 32
  total : (p.1.length + p.2) % 2 ^ 32 = h.length % 2 ^ 32

theorem kept_nil : Kept [] ([], 0) := ⟨List.nil_suffix, Nat.two_pow_pos 32, rfl⟩

theorem drop_count_mod {m d : Nat} (n : Nat) (hd : d ≤ m) :
    (m - d + (n + d) % 2 ^ 32) % 2 ^ 32 = (m + n) % 2 ^ 32 := by
  rw [Nat.add_mod_mod]
  congr 1
  omega

theorem record_length (limit : UInt8) (l : List Entry) {n : Nat} (hn : n < 2 ^ 32) (e : Entry) :
    (record limit l n e).1.length = min (l.length + 1) limit.toNat := by
  rw [record, trim_eq _ _ _ hn, List.length_drop, List.length_append, List.length_singleton]
  omega

theorem kept_record {h : List Entry} {p : List Entry × Nat} (hk : Kept h p) (limit : UInt8)
    (e : Entry) : Kept (h ++ [e]) (record limit p.1 p.2 e) := by
  obtain ⟨⟨t, ht⟩, hlt, htot⟩ := hk
  rw [record, trim_eq _ _ _ hlt]
  refine ⟨(List.drop_suffix _ _).trans ⟨t, by rw [← ht, List.append_assoc]⟩,
    Nat.mod_lt _ (Nat.two_pow_pos 32), ?_⟩
  rw [List.length_drop, drop_count_mod _ (Nat.sub_le _ _), List.length_append, List.length_append,
    List.length_singleton]
  calc (p.1.length + 1 + p.2) % 2 ^ 32
      = ((p.1.length + p.2) % 2 ^ 32 + 1 % 2 ^ 32) % 2 ^ 32 := by rw [Nat.add_right_comm, Nat.add_mod]
    _ = (h.length + 1) % 2 ^ 32 := by rw [htot, ← Nat.add_mod]

theorem record_getLast {limit : UInt8} (hl : 0 < limit.toNat) (l : List Entry) {n : Nat}
    (hn : n < 2 ^ 32) (e : Entry) : (record limit l n e).1.getLast? = some e := by
  rw [record, trim_eq _ _ _ hn, List.length_append, List.length_singleton,
    List.drop_append_of_le_length (by omega), List.getLast?_concat]

section
variable (writeDouble : Float → String) (start : Int)

theorem run_kept (l : Log) (calls : List Call) :
    Kept (history writeDouble start l calls)
      (((ChannelManifest.new start).run writeDouble calls).log l) := by
  induction calls using List.reverseRecOn with
  | nil => cases l <;> exact kept_nil
  | append_singleton calls c ih =>
    rw [run_concat, log_call, start_run, new_start, history, List.filterMap_append]
    cases he : c.entry writeDouble start l with
    | none => rw [List.filterMap_cons_none he, List.filterMap_nil, List.append_nil]; exact ih
    | some e => rw [List.filterMap_cons_some he, List.filterMap_nil]; exact kept_record ih _ e

theorem run_executions_getLast (A B : List Call) (now : Int) (name : String)
    (hA : ∀ c ∈ A, ∀ l, c ≠ .setLimit l)
    (hB : ∀ d ∈ B, d.entry writeDouble start .executions = none) :
    ((ChannelManifest.new start).run writeDouble (A ++ .addExecution now name :: B)).executions.getLast? =
      some ⟨elapsedMs start now, name⟩ := by
  have hn := (run_kept writeDouble start .executions A).count_lt
  have hl : 0 < ((ChannelManifest.new start).run writeDouble A).limit.toNat := by
    rw [limit_run writeDouble _ hA]; show 0 < 100; decide
  rw [← List.singleton_append, ← List.append_assoc, run_append]
  show ((((ChannelManifest.new start).run writeDouble (A ++ [.addExecution now name])).run writeDouble
    B).log .executions).1.getLast? = _
  rw [log_run_of_none writeDouble _ .executions B (by rw [start_run, new_start]; exact hB), run_concat,
    log_call]
  simp only [Call.entry, start_run, new_start]
  exact record_getLast hl _ hn _

/-- Each list of a manifest, over any sequence of `addEnqueueCall`, `addExecution` and `setLimit`
calls: it holds the newest entries added to it, in order; its length plus its count of trimmed
entries is the number of entries ever added to it, modulo `2 ^ 32`; and its latest add left it
one longer than before, up to the limit then in force (the argument of the latest `setLimit`
before that add, or 100), so no longer than that limit. -/
theorem manifest_keeps_newest (l : Log) (calls : List Call) :
    let m := (ChannelManifest.new start).run writeDouble calls
    (m.log l).1 <:+ history writeDouble start l calls ∧
    ((m.log l).1.length + (m.log l).2) % 2 ^ 32 =
      (history writeDouble start l calls).length % 2 ^ 32 ∧
    ∀ pre c post, calls = pre ++ c :: post → (c.entry writeDouble start l).isSome →
      (∀ d ∈ post, d.entry writeDouble start l = none) →
      (m.log l).1.length =
          min ((((ChannelManifest.new start).run writeDouble pre).log l).1.length + 1)
            (latestLimit pre).toNat ∧
        (m.log l).1.length ≤ (latestLimit pre).toNat := by
  have hk := run_kept writeDouble start l calls
  refine ⟨hk.suffix, hk.total, fun pre c post hc hadd hpost => ?_⟩
  obtain ⟨e, he⟩ := Option.isSome_iff_exists.mp hadd
  subst hc
  set m₁ := (ChannelManifest.new start).run writeDouble pre
  have hs : m₁.start = start := start_run writeDouble _ pre
  rw [run_append, ChannelManifest.run, log_run_of_none writeDouble _ l post
    (by rw [start_call, hs]; exact hpost), log_call, hs, he, ← limit_new_run writeDouble start pre]
  have hlen := record_length m₁.limit (m₁.log l).1 (run_kept writeDouble start l pre).count_lt e
  exact ⟨hlen, hlen ▸ min_le_right _ _⟩

end

theorem manifest_keeps_newest_ex :
    (((ChannelManifest.new 0).run toString
      [.addEnqueueCall 0 "a" 0, .setLimit 1, .addEnqueueCall 5 "b" 0, .addExecution 9 "b"]).log
        .enqueueCalls).1.length =
      min ((((ChannelManifest.new 0).run toString [.addEnqueueCall 0 "a" 0, .setLimit 1]).log
        .enqueueCalls).1.length + 1) (latestLimit [.addEnqueueCall 0 "a" 0, .setLimit 1]).toNat ∧
    (((ChannelManifest.new 0).run toString
      [.addEnqueueCall 0 "a" 0, .setLimit 1, .addEnqueueCall 5 "b" 0, .addExecution 9 "b"]).log
        .enqueueCalls).1.length ≤ (latestLimit [.addEnqueueCall 0 "a" 0, .setLimit 1]).toNat :=
  (manifest_keeps_newest toString 0 .enqueueCalls
    [.addEnqueueCall 0 "a" 0, .setLimit 1, .addEnqueueCall 5 "b" 0, .addExecution 9 "b"]).2.2
    [.addEnqueueCall 0 "a" 0, .setLimit 1] (.addEnqueueCall 5 "b" 0) [.addExecution 9 "b"] rfl rfl
    (by simp [Call.entry])

end Blip.Manifest
