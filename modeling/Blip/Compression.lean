import Mathlib.Data.List.Basic
import Mathlib.Algebra.Group.Nat.Basic

/-!
# The frame codec

The sender feeds message bytes through a codec that writes them into the
frame: a `Raw` write copies, a `SyncFlush` write deflates. Every non-ack frame
ends with the codec's running checksum. `Codec.hh` is not among the sources,
so its contract is taken from the specification (section 4.1).
-/

set_option autoImplicit false

namespace Blip.Compression

inductive Mode where
  | raw
  | syncFlush
  deriving DecidableEq, Repr

structure CodecWrite (σ : Type) where
  consumed : Nat
  output : List UInt8
  state : σ

/-- Modelled from the spec: the `Codec` class (`Codec.hh` is not in src/). `write` reads a
prefix of its source slice and writes only inside the room left in `dst`; given input and room
it writes something, as deflate and a plain copy both do, so the frame loop of the sender ends.
The checksum the codec appends is four bytes. -/
structure Codec (σ : Type) where
  write : σ → List UInt8 → Nat → Mode → CodecWrite σ
  unflushedBytes : σ → Nat
  checksum : σ → List UInt8
  consumed_le : ∀ s src room mode, (write s src room mode).consumed ≤ src.length
  output_le : ∀ s src room mode, (write s src room mode).output.length ≤ room
  output_ne_nil : ∀ s src room mode, src ≠ [] → 0 < room → (write s src room mode).output ≠ []
  checksum_length : ∀ s, (checksum s).length = 4

def kChecksumSize : Nat := 4

/-- A codec whose `Raw` write copies `min |src| room` bytes, advancing both slices, and which
never holds bytes back. -/
def Codec.RawCopies {σ : Type} (codec : Codec σ) : Prop :=
  (∀ s src room, (codec.write s src room .raw).consumed = min src.length room ∧
    (codec.write s src room .raw).output = src.take room) ∧ ∀ s, codec.unflushedBytes s = 0

def crcByte (crc : UInt32) (b : UInt8) : UInt32 :=
  Nat.iterate (fun c => if c &&& 1 = 1 then (c >>> 1) ^^^ 0xEDB88320 else c >>> 1) 8
    (crc ^^^ b.toUInt32)

def crc32 (crc : UInt32) (bytes : List UInt8) : UInt32 :=
  ~~~(bytes.foldl crcByte (~~~crc))

theorem crc32_nil (crc : UInt32) : crc32 crc [] = crc := UInt32.eq_of_toBitVec_eq BitVec.not_not

theorem crc32_append (crc : UInt32) (a b : List UInt8) : crc32 (crc32 crc a) b = crc32 crc (a ++ b) := by
  rw [crc32, crc32, crc32, List.foldl_append]
  exact congrArg (fun c => ~~~(b.foldl crcByte c)) (UInt32.eq_of_toBitVec_eq BitVec.not_not)

def bigEndian (c : UInt32) : List UInt8 :=
  [(c >>> 24).toUInt8, (c >>> 16).toUInt8, (c >>> 8).toUInt8, c.toUInt8]

/-- A codec that copies in both modes, as on a connection that never compresses, keeping the
CRC-32 of every byte it copies. -/
def copyCodec : Codec UInt32 where
  write s src room _ := ⟨min src.length room, src.take room, crc32 s (src.take room)⟩
  unflushedBytes _ := 0
  checksum := bigEndian
  consumed_le _ _ _ _ := Nat.min_le_left _ _
  output_le _ src room _ := List.length_take_le room src
  output_ne_nil _ src room _ hs hr := by
    cases src with
    | nil => exact absurd rfl hs
    | cons b bs => cases room with
      | zero => omega
      | succ n => simp
  checksum_length _ := rfl

theorem copyCodec_rawCopies : copyCodec.RawCopies :=
  ⟨fun _ _ _ => ⟨rfl, rfl⟩, fun _ => rfl⟩

set_option maxRecDepth 10000 in
example : crc32 0 ([0x31, 0x32, 0x33, 0x34, 0x35, 0x36, 0x37, 0x38, 0x39] : List UInt8) =
    0xCBF43926 := by
  decide

end Blip.Compression
