import Mathlib.Data.List.Basic
import Mathlib.Algebra.Group.Int
import Blip.Varint

/-!
# Message contents

`MessageOut::Contents`: the payload still to send, the data source and the unsent part of its
last buffer. Over the code sits the stream of bytes still to be sent, `pending`; each operation
keeps it or takes bytes from its front.
-/

set_option autoImplicit false

namespace Blip.Payload
open Blip.Varint

def kDataBufferSize : Nat := 16384

def sizeT (r : Int) : Nat := (r % 2 ^ 64).toNat

def upTo (buf : Nat → UInt8) (n : Nat) : List UInt8 := (List.range n).map buf

structure Reply where
  result : Int
  buffer : Nat → UInt8

/-- The bytes `readFromDataSource` keeps from a call: `_dataBuffer.upTo(bytesWritten)`. -/
def Reply.bytes (r : Reply) : List UInt8 := upTo r.buffer (sizeT r.result)

/-- A `MessageDataSource`, given by its successive replies. -/
structure DataSource where
  call : Nat → Reply

def DataSource.next (s : DataSource) : DataSource := ⟨fun i => s.call (i + 1)⟩

def DataSource.ofChunks (chunks : List (List UInt8)) : DataSource :=
  ⟨fun i => match chunks.get? i with
    | some c => ⟨c.length, fun j => c.getD j 0⟩
    | none => ⟨0, fun _ => 0⟩⟩

/-- `MessageOut::Contents`. `payload` is `none` once `_payload` has been reset. -/
structure Contents where
  payload : Option (List UInt8)
  unsentPayload : List UInt8
  dataSource : Option DataSource
  unsentDataBuffer : List UInt8

def Contents.new (payload : List UInt8) (dataSource : Option DataSource) : Contents :=
  ⟨some payload, payload, dataSource, []⟩

inductive Slot where
  | unsentPayload
  | unsentDataBuffer
  deriving DecidableEq, Repr

def Contents.slice (c : Contents) : Slot → List UInt8
  | .unsentPayload => c.unsentPayload
  | .unsentDataBuffer => c.unsentDataBuffer

def Contents.advance (c : Contents) : Slot → Nat → Contents
  | .unsentPayload, n => { c with unsentPayload := c.unsentPayload.drop n }
  | .unsentDataBuffer, n => { c with unsentDataBuffer := c.unsentDataBuffer.drop n }

/-- `Contents::readFromDataSource`. The comparison `bytesWritten < _dataBuffer.size` converts
the signed count to `size_t`, as `upTo` does. -/
def Contents.readFromDataSource (c : Contents) (s : DataSource) : Contents :=
  let bytesWritten := (s.call 0).result
  { c with
    unsentDataBuffer := (s.call 0).bytes
    dataSource := if sizeT bytesWritten < kDataBufferSize then none else some s.next }

/-- `Contents::dataToSend`. The data buffer's allocation is not modelled: a reply carries the
memory the slice reads. -/
def Contents.dataToSend (c : Contents) : Slot × Contents :=
  if 0 < c.unsentPayload.length then (.unsentPayload, c)
  else
    let c := { c with payload := none }
    match c.unsentDataBuffer, c.dataSource with
    | [], some s => (.unsentDataBuffer, c.readFromDataSource s)
    | _, _ => (.unsentDataBuffer, c)

/-- `Contents::hasMoreDataToSend`. -/
def Contents.hasMoreDataToSend (c : Contents) : Bool :=
  0 < c.unsentPayload.length || 0 < c.unsentDataBuffer.length || c.dataSource.isSome

/-- `Contents::getPropsAndBody`: the properties and the body read back from `_payload`. A null
`_payload`, once reset, gives empty slices, as an empty one does. `none` stands for the two
cases where the code reads what is not there. A prefix that `ReadUVarInt32` rejects leaves
`propertiesSize` uninitialised. A prefix longer than what follows it makes both slices reach
past the payload. -/
def Contents.getPropsAndBody (c : Contents) : Option (List UInt8 × List UInt8) :=
  match c.payload with
  | none => some ([], [])
  | some payload =>
    if 0 < payload.length then
      match readUVarInt32 payload with
      | some (propertiesSize, props) =>
        if propertiesSize ≤ props.length then
          some (props.take propertiesSize, props.drop propertiesSize)
        else none
      | none => none
    else some ([], [])

theorem sizeT_of_nonneg {r : Int} (h0 : 0 ≤ r) (h : r < 2 ^ 64) : sizeT r = r.toNat := by
  unfold sizeT
  rw [Int.emod_eq_of_lt h0 h]

@[simp] theorem upTo_length (buf : Nat → UInt8) (n : Nat) : (upTo buf n).length = n := by
  simp [upTo]

@[simp] theorem bytes_length (r : Reply) : r.bytes.length = sizeT r.result := upTo_length _ _

theorem upTo_take (buf : Nat → UInt8) (n j : Nat) : (upTo buf n).take j = upTo buf (min j n) := by
  simp [upTo, ← List.map_take, List.take_range]

@[simp] theorem next_call (s : DataSource) (i : Nat) : s.next.call i = s.call (i + 1) := rfl

@[simp] theorem slice_advance (c : Contents) (slot : Slot) (n : Nat) :
    (c.advance slot n).slice slot = (c.slice slot).drop n := by
  cases slot <;> rfl

@[simp] theorem advance_dataSource (c : Contents) (slot : Slot) (n : Nat) :
    (c.advance slot n).dataSource = c.dataSource := by
  cases slot <;> rfl

theorem getPropsAndBody_congr {c c' : Contents} (h : c.payload = c'.payload) :
    c.getPropsAndBody = c'.getPropsAndBody := by
  unfold Contents.getPropsAndBody; rw [h]

/-- The source ends at call `k`: the calls before it fill the buffer, call `k` returns fewer
bytes and no error. -/
def DataSource.EndsAt (s : DataSource) (k : Nat) : Prop :=
  (∀ i < k, (s.call i).result = kDataBufferSize) ∧ 0 ≤ (s.call k).result ∧
    (s.call k).result < kDataBufferSize

def DataSource.chunks (s : DataSource) : Nat → List UInt8
  | 0 => (s.call 0).bytes
  | k + 1 => (s.call 0).bytes ++ s.next.chunks k

def Contents.EndsAt (c : Contents) (k : Nat) : Prop :=
  ∀ s, c.dataSource = some s → s.EndsAt k

def Contents.pending (c : Contents) (k : Nat) : List UInt8 :=
  c.unsentPayload ++ c.unsentDataBuffer ++
    match c.dataSource with
    | none => []
    | some s => s.chunks k

def Contents.Front (c : Contents) (slot : Slot) : Prop :=
  slot = .unsentDataBuffer → c.unsentPayload = []

theorem EndsAt.next {s : DataSource} {k : Nat} (h : s.EndsAt (k + 1)) : s.next.EndsAt k :=
  ⟨fun i hi => h.1 (i + 1) (by omega), h.2⟩

theorem sizeT_full {r : Int} (h : r = kDataBufferSize) : sizeT r = kDataBufferSize := by
  subst h; rfl

theorem sizeT_short {r : Int} (h0 : 0 ≤ r) (h : r < kDataBufferSize) :
    sizeT r < kDataBufferSize := by
  rw [sizeT_of_nonneg h0 (by unfold kDataBufferSize at h; omega)]
  unfold kDataBufferSize at *; omega

theorem readFromDataSource_pending (c : Contents) (s : DataSource) (k : Nat)
    (hs : s.EndsAt k) (hsrc : c.dataSource = some s) (hb : c.unsentDataBuffer = []) :
    (c.readFromDataSource s).EndsAt (k - 1) ∧
      (c.readFromDataSource s).pending (k - 1) = c.pending k ∧
      (c.readFromDataSource s).unsentPayload = c.unsentPayload := by
  cases k with
  | zero =>
    have hshort := sizeT_short hs.2.1 hs.2.2
    refine ⟨?_, ?_, rfl⟩
    · intro s' h; simp [Contents.readFromDataSource, hshort] at h
    · simp [Contents.readFromDataSource, Contents.pending, hshort, hb, hsrc, DataSource.chunks]
  | succ k =>
    have hfull := sizeT_full (hs.1 0 (by omega))
    have hnot : ¬ sizeT (s.call 0).result < kDataBufferSize := by omega
    refine ⟨?_, ?_, rfl⟩
    · intro s' h
      simp only [Contents.readFromDataSource, hnot, if_false, Option.some.injEq] at h
      exact h ▸ EndsAt.next hs
    · simp [Contents.readFromDataSource, Contents.pending, hnot, hb, hsrc, DataSource.chunks]

theorem dataToSend_cases (c : Contents) :
    (0 < c.unsentPayload.length ∧ c.dataToSend = (.unsentPayload, c)) ∨
    (c.unsentPayload = [] ∧ ∃ s, c.unsentDataBuffer = [] ∧ c.dataSource = some s ∧
      c.dataToSend = (.unsentDataBuffer, { c with payload := none }.readFromDataSource s)) ∨
    (c.unsentPayload = [] ∧ (c.unsentDataBuffer ≠ [] ∨ c.dataSource = none) ∧
      c.dataToSend = (.unsentDataBuffer, { c with payload := none })) := by
  by_cases hp : 0 < c.unsentPayload.length
  · exact .inl ⟨hp, by simp [Contents.dataToSend, hp]⟩
  · have hnil : c.unsentPayload = [] := List.eq_nil_of_length_eq_zero (by omega)
    right
    rcases hb : c.unsentDataBuffer with _ | ⟨b, bs⟩ <;> rcases hs : c.dataSource with _ | s
    · exact .inr ⟨hnil, .inr rfl, by simp [Contents.dataToSend, hnil, hb, hs]⟩
    · exact .inl ⟨hnil, s, rfl, rfl, by simp [Contents.dataToSend, hnil, hb, hs]⟩
    · exact .inr ⟨hnil, .inl (by simp), by simp [Contents.dataToSend, hnil, hb, hs]⟩
    · exact .inr ⟨hnil, .inl (by simp), by simp [Contents.dataToSend, hnil, hb, hs]⟩

theorem advance_pending (c : Contents) (slot : Slot) (n k : Nat) (hf : c.Front slot) :
    (c.advance slot n).pending k =
      (c.slice slot).drop n ++ ((c.pending k).drop (c.slice slot).length) := by
  cases slot with
  | unsentPayload => simp [Contents.advance, Contents.pending, Contents.slice]
  | unsentDataBuffer =>
    simp [Contents.advance, Contents.pending, Contents.slice, hf rfl]

theorem pending_front (c : Contents) (slot : Slot) (k : Nat) (hf : c.Front slot) :
    c.pending k = c.slice slot ++ (c.pending k).drop (c.slice slot).length := by
  cases slot with
  | unsentPayload => simp [Contents.pending, Contents.slice]
  | unsentDataBuffer => simp [Contents.pending, Contents.slice, hf rfl]

theorem advance_endsAt (c : Contents) (slot : Slot) (n k : Nat) (h : c.EndsAt k) :
    (c.advance slot n).EndsAt k := by
  intro s hs
  exact h s (by simpa using hs)

/-- `taken` left the front of the stream of `c`, and `c'` is what remains: each step resets
the spent payload, calls the source into an empty buffer, or advances the front slice. This
holds for every source, including one that never ends. -/
inductive Drop : Contents → List UInt8 → Contents → Prop
  | refl (c : Contents) : Drop c [] c
  | reset (c : Contents) : c.unsentPayload = [] → Drop c [] { c with payload := none }
  | read (c : Contents) (s : DataSource) : c.unsentDataBuffer = [] → c.dataSource = some s →
      Drop c [] (c.readFromDataSource s)
  | advance (c : Contents) (slot : Slot) (n : Nat) : c.Front slot →
      Drop c ((c.slice slot).take n) (c.advance slot n)
  | trans {c₁ c₂ c₃ : Contents} {t₁ t₂ : List UInt8} : Drop c₁ t₁ c₂ → Drop c₂ t₂ c₃ →
      Drop c₁ (t₁ ++ t₂) c₃

theorem pending_of_done (c : Contents) (k : Nat) (h : c.hasMoreDataToSend = false) :
    c.pending k = [] := by
  unfold Contents.hasMoreDataToSend at h
  cases hs : c.dataSource with
  | none => simp_all [Contents.pending]
  | some s => simp [hs] at h

theorem Drop.pending {c c' : Contents} {t : List UInt8} (h : Drop c t c') (k : Nat)
    (hk : c.EndsAt k) : ∃ k', c'.EndsAt k' ∧ t ++ c'.pending k' = c.pending k := by
  induction h generalizing k with
  | refl c => exact ⟨k, hk, rfl⟩
  | reset c hp => exact ⟨k, hk, by simp [Contents.pending]⟩
  | read c s hb hs =>
    obtain ⟨he, hpend, -⟩ := readFromDataSource_pending c s k (hk s hs) hs hb
    exact ⟨k - 1, he, hpend⟩
  | advance c slot n hf =>
    refine ⟨k, advance_endsAt c slot n k hk, ?_⟩
    rw [advance_pending c slot n k hf, ← List.append_assoc, List.take_append_drop]
    exact (pending_front c slot k hf).symm
  | trans _ _ ih₁ ih₂ =>
    obtain ⟨k₁, h₁, e₁⟩ := ih₁ k hk
    obtain ⟨k₂, h₂, e₂⟩ := ih₂ k₁ h₁
    exact ⟨k₂, h₂, by rw [List.append_assoc, e₂, e₁]⟩

theorem dataToSend_drop (c : Contents) : Drop c [] c.dataToSend.2 := by
  rcases dataToSend_cases c with ⟨-, he⟩ | ⟨hp, s, hb, hs, he⟩ | ⟨hp, -, he⟩ <;> rw [he]
  · exact .refl c
  · exact .trans (.reset c hp) (.read _ s hb hs)
  · exact .reset c hp

theorem dataToSend_front (c : Contents) : c.dataToSend.2.Front c.dataToSend.1 := by
  rcases dataToSend_cases c with ⟨-, he⟩ | ⟨hp, s, hb, hs, he⟩ | ⟨hp, -, he⟩ <;> rw [he]
  · exact fun h => nomatch h
  · exact fun _ => hp
  · exact fun _ => hp

theorem dataToSend_empty (c : Contents) (h : c.dataToSend.2.slice c.dataToSend.1 = []) :
    c.dataToSend.2.hasMoreDataToSend = false := by
  rcases dataToSend_cases c with ⟨hp, he⟩ | ⟨hp, s, hb, hs, he⟩ | ⟨hp, hor, he⟩ <;>
    rw [he] at h ⊢ <;> simp only [Contents.slice] at h
  · simp [h] at hp
  · have hz : sizeT (s.call 0).result = 0 := by
      simpa [Contents.readFromDataSource] using congrArg List.length h
    simp [Contents.hasMoreDataToSend, Contents.readFromDataSource, hz, hp, kDataBufferSize]
  · simp only [h, ne_eq, not_true_eq_false, false_or] at hor
    simp [Contents.hasMoreDataToSend, hp, h, hor]

end Blip.Payload
