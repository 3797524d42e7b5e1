import Mathlib.Data.UInt
import TaniDVR.Lib.Slice

/-!
# Bintools — the byte macros of `bintools.h`

The macros read and write memory at a pointer `memx`; here `memx` is the array of the bytes from
that address on.  The `U32` reader is an `int` expression: its value is signed, and a `size_t`
variable that receives it gets the sign extension.
-/

namespace TaniDVR

open Lib

/-- Conversion of an `int` value to `size_t` (64 bits). -/
def toSizeT (x : ℤ) : ℕ := (x % 2 ^ 64).toNat

/-- Conversion of an `int` value to `uint32_t`. -/
def toUint32 (x : ℤ) : ℕ := (x % 2 ^ 32).toNat

/-- Conversion of a `uint32_t` value to `int`. -/
def toInt (n : ℕ) : ℤ := Int.bmod n (2 ^ 32)

/-- `BT_LM2NV_U32`: the four bytes never overlap, so `|` adds them; the sum is an `int`. -/
def btLM2NVU32 (memx : ℕ → UInt8) : ℤ :=
  Int.bmod ((memx 0).toNat + (memx 1).toNat * 2 ^ 8 + (memx 2).toNat * 2 ^ 16 +
    (memx 3).toNat * 2 ^ 24 : ℕ) (2 ^ 32)

/-- `BT_LM2NV_U16`. -/
def btLM2NVU16 (memx : ℕ → UInt8) : ℤ :=
  ((memx 0).toNat + (memx 1).toNat * 2 ^ 8 : ℕ)

/-- `BT_IDeqLM_32`: the bytes at `memx` are the ID `i0x i1x i2x i3x`. -/
def btIDeqLM32 (i0x i1x i2x i3x : UInt8) (memx : ℕ → UInt8) : Bool :=
  ((i0x ^^^ memx 0) ||| (i1x ^^^ memx 1) ||| (i2x ^^^ memx 2) ||| (i3x ^^^ memx 3)) == 0

/-- `BT_NV2MM_U16`: the two bytes written. -/
def btNV2MMU16 (varx : ℕ) : List UInt8 := [UInt8.ofNat (varx >>> 8), UInt8.ofNat varx]

/-- `BT_NV2MM_U32`: the four bytes written. -/
def btNV2MMU32 (varx : ℕ) : List UInt8 :=
  [UInt8.ofNat (varx >>> 24), UInt8.ofNat (varx >>> 16), UInt8.ofNat (varx >>> 8), UInt8.ofNat varx]

/-- `BT_NV2LM_U32`: the four bytes written. -/
def btNV2LMU32 (varx : ℕ) : List UInt8 :=
  [UInt8.ofNat varx, UInt8.ofNat (varx >>> 8), UInt8.ofNat (varx >>> 16), UInt8.ofNat (varx >>> 24)]

/-- The unsigned little-endian value of the four bytes at `memx`. -/
def le32 (memx : ℕ → UInt8) : ℕ :=
  (memx 0).toNat + (memx 1).toNat * 2 ^ 8 + (memx 2).toNat * 2 ^ 16 + (memx 3).toNat * 2 ^ 24

theorem le32_lt (memx : ℕ → UInt8) : le32 memx < 2 ^ 32 := by
  have h0 := (memx 0).toNat_lt
  have h1 := (memx 1).toNat_lt
  have h2 := (memx 2).toNat_lt
  have h3 := (memx 3).toNat_lt
  unfold le32
  omega

theorem le32_congr {m m' : ℕ → UInt8} (h : ∀ i < 4, m i = m' i) : le32 m = le32 m' := by
  rw [le32, h 0 (by omega), h 1 (by omega), h 2 (by omega), h 3 (by omega), le32]

/-- Below `2 ^ 31` the `size_t` value is the unsigned one. -/
theorem toSizeT_btLM2NVU32 {memx : ℕ → UInt8} (h : le32 memx < 2 ^ 31) :
    toSizeT (btLM2NVU32 memx) = le32 memx := by
  have hb : btLM2NVU32 memx = Int.bmod (le32 memx : ℤ) (2 ^ 32) := rfl
  rw [hb, Int.bmod_eq_of_le (by omega) (by omega), toSizeT]
  omega

/-- From `2 ^ 31` on the sign extension makes it larger than any length. -/
theorem toSizeT_btLM2NVU32_large {memx : ℕ → UInt8} (h : 2 ^ 31 ≤ le32 memx) :
    2 ^ 63 ≤ toSizeT (btLM2NVU32 memx) := by
  have hlt := le32_lt memx
  have hb : btLM2NVU32 memx = (le32 memx : ℤ) - 2 ^ 32 := by
    have : btLM2NVU32 memx = Int.bmod (le32 memx : ℤ) (2 ^ 32) := rfl
    rw [this, Int.bmod_def]
    omega
  rw [hb, toSizeT]
  omega

/-- Below `2 ^ 31` the `int` value is the same. -/
theorem toInt_of_lt {n : ℕ} (h : n < 2 ^ 31) : toInt n = n :=
  Int.bmod_eq_of_le (by omega) (by omega)

/-- A `uint32_t` variable gets the unsigned value. -/
theorem toUint32_btLM2NVU32 (memx : ℕ → UInt8) : toUint32 (btLM2NVU32 memx) = le32 memx := by
  have hlt := le32_lt memx
  have hb : btLM2NVU32 memx = Int.bmod (le32 memx : ℤ) (2 ^ 32) := rfl
  rw [hb, toUint32, Int.bmod_def]
  omega

/-- **The length field**: against any bound below `2 ^ 31` the `size_t` reading and the unsigned
reading agree. -/
theorem toSizeT_btLM2NVU32_le_iff {memx : ℕ → UInt8} {n : ℕ} (hn : n < 2 ^ 31) :
    toSizeT (btLM2NVU32 memx) ≤ n ↔ le32 memx ≤ n := by
  by_cases h : le32 memx < 2 ^ 31
  · rw [toSizeT_btLM2NVU32 h]
  · have := toSizeT_btLM2NVU32_large (Nat.not_lt.mp h)
    omega

theorem btIDeqLM32_iff {i0x i1x i2x i3x : UInt8} {memx : ℕ → UInt8} :
    btIDeqLM32 i0x i1x i2x i3x memx = true ↔
      memx 0 = i0x ∧ memx 1 = i1x ∧ memx 2 = i2x ∧ memx 3 = i3x := by
  have hx : ∀ a b : UInt8, a ^^^ b = 0 ↔ b = a := by
    intro a b
    rw [UInt8.xor_eq_zero_iff]
    exact eq_comm
  simp only [btIDeqLM32, beq_iff_eq, UInt8.or_eq_zero_iff, hx, and_assoc]

end TaniDVR
