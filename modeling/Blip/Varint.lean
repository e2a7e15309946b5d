import Mathlib.Tactic.Ring

/-!
# Varints

Modelled from the spec, since `varint.hh` is not in src/. A varint is unsigned LEB128: seven bits
a byte, the low group first, and the top bit set on every byte but the last. `ReadUVarInt32`
takes one of at most 5 bytes. Reading back the varint of any 32-bit value gives that value,
whatever bytes follow it.
-/

set_option autoImplicit false

namespace Blip.Varint

def readGroups : Nat → Nat → Nat → List UInt8 → Option (Nat × List UInt8)
  | 0, _, _, _ => none
  | _ + 1, _, _, [] => none
  | n + 1, shift, acc, b :: rest =>
    if b.toNat < 0x80 then some (acc + b.toNat % 0x80 * 2 ^ shift, rest)
    else readGroups n (shift + 7) (acc + b.toNat % 0x80 * 2 ^ shift) rest

/-- Modelled from the spec: `ReadUVarInt32` (`varint.hh` is not in src/) reads an unsigned
LEB128 varint of at most 5 bytes into a `uint32_t`, and leaves the bytes after it. It fails on a
varint that runs past the buffer or past 5 bytes, or whose value does not fit 32 bits. -/
def readUVarInt32 (buf : List UInt8) : Option (Nat × List UInt8) :=
  match readGroups 5 0 0 buf with
  | some (n, rest) => if n < 2 ^ 32 then some (n, rest) else none
  | none => none

/-- The unsigned LEB128 varint of `n`: seven bits a byte, the low group first, and the top bit
set on every byte but the last. -/
def uvarint (n : Nat) : List UInt8 :=
  if h : n < 0x80 then [UInt8.ofNat n] else UInt8.ofNat (n % 0x80 + 0x80) :: uvarint (n / 0x80)
termination_by n
decreasing_by omega

theorem uvarint_eq (n : Nat) :
    uvarint n = if n < 0x80 then [UInt8.ofNat n]
      else UInt8.ofNat (n % 0x80 + 0x80) :: uvarint (n / 0x80) := by
  rw [uvarint]; rfl

theorem uvarint_ne_nil (n : Nat) : uvarint n ≠ [] := by
  rw [uvarint_eq]; split <;> exact List.cons_ne_nil _ _

theorem toNat_ofNat_of_lt {x : Nat} (h : x < 256) : (UInt8.ofNat x).toNat = x := Nat.mod_eq_of_lt h

theorem readGroups_uvarint (k : Nat) (n shift acc : Nat) (rest : List UInt8)
    (hn : n < 2 ^ (7 * (k + 1))) :
    readGroups (k + 1) shift acc (uvarint n ++ rest) = some (acc + n * 2 ^ shift, rest) := by
  induction k generalizing n shift acc with
  | zero =>
    have hlt : n < 0x80 := by simpa using hn
    rw [uvarint_eq, if_pos hlt, List.singleton_append, readGroups, toNat_ofNat_of_lt (by omega),
      if_pos hlt, Nat.mod_eq_of_lt hlt]
  | succ k ih =>
    rw [uvarint_eq]
    split
    · next hlt =>
      rw [List.singleton_append, readGroups, toNat_ofNat_of_lt (by omega), if_pos hlt,
        Nat.mod_eq_of_lt hlt]
    · next hge =>
      have hdiv : n / 0x80 < 2 ^ (7 * (k + 1)) := by
        rw [Nat.div_lt_iff_lt_mul (by norm_num)]
        calc n < 2 ^ (7 * (k + 1 + 1)) := hn
          _ = 2 ^ (7 * (k + 1)) * 0x80 := by rw [Nat.mul_succ, pow_add]; rfl
      -- the low group and the groups above it make the value
      have hsum : n % 0x80 * 2 ^ shift + n / 0x80 * 2 ^ (shift + 7) = n * 2 ^ shift := by
        rw [pow_add]
        conv_rhs => rw [← Nat.mod_add_div n 0x80]
        ring
      rw [List.cons_append, readGroups, toNat_ofNat_of_lt (by omega), if_neg (by omega),
        ih _ _ _ hdiv, show (n % 0x80 + 0x80) % 0x80 = n % 0x80 by omega, Nat.add_assoc, hsum]

theorem readUVarInt32_uvarint (n : Nat) (rest : List UInt8) (hn : n < 2 ^ 32) :
    readUVarInt32 (uvarint n ++ rest) = some (n, rest) := by
  rw [readUVarInt32, readGroups_uvarint 4 n 0 0 rest (Nat.lt_trans hn (by decide))]
  simp only [Nat.zero_add, pow_zero, Nat.mul_one]
  exact if_pos hn

end Blip.Varint
