import Mathlib.Data.Nat.Bitwise
import Micro65.Proofs.Cpu.Masking

set_option autoImplicit false

/-!
Arithmetic on single bytes, in numbers. The tests of single bits that make the flags are read as
comparisons; an addition in binary mode makes nine bits of two bytes and a carry, and a shift moves its
bit between the carry and the byte.
-/

namespace Micro65

/-! ### Bits -/

theorem and_mask_byte (bit : Nat) {byte mask : UInt8} (single : mask.toNat = 2 ^ bit) :
    (byte &&& mask != 0) = byte.toNat.testBit bit := by
  rw [Bool.eq_iff_iff, bne_iff_ne, Ne, ← UInt8.toNat_inj, UInt8.toNat_and, single, Nat.and_two_pow]
  cases byte.toNat.testBit bit <;> simp

theorem and_mask_word (bit : Nat) {word mask : UInt16} (single : mask.toNat = 2 ^ bit) :
    (word &&& mask != 0) = word.toNat.testBit bit := by
  rw [Bool.eq_iff_iff, bne_iff_ne, Ne, ← UInt16.toNat_inj, UInt16.toNat_and, single, Nat.and_two_pow]
  cases word.toNat.testBit bit <;> simp

/-- The sign of a byte. -/
theorem testBit_sign (byte : UInt8) : byte.toNat.testBit 7 = decide (128 ≤ byte.toNat) := by
  have bound := byte.toNat_lt
  rw [Nat.testBit_eq_decide_div_mod_eq, decide_eq_decide]
  omega

theorem toNat_carry (carry : Bool) : carry.toNat.toUInt16.toNat = carry.toNat := by
  cases carry <;> rfl

/-! ### Flags -/

namespace Status

variable (status : Status) (result : UInt8)

theorem has_follow {flag : Flag} (zero : Flag.zero ≠ flag) (negative : Flag.negative ≠ flag) :
    (status.follow result).has flag = status.has flag := by
  rw [follow, has_set_of_ne _ negative, has_set_of_ne _ zero]

theorem negative_follow :
    (status.follow result).has .negative = decide (128 ≤ result.toNat) := by
  rw [follow, has_set_self, and_mask_byte 7 rfl, testBit_sign]

end Status

/-! ### Addition -/

namespace Registers

variable (regs : Registers) (m : UInt8)

/-- The sum that an addition makes, in the mode that it is made in. -/
def sum : UInt16 :=
  if regs.p.has .decimal then decimalSum regs.a m (regs.p.has .carry)
  else binarySum regs.a m (regs.p.has .carry)

theorem add_a : (regs.add m).a = (regs.sum m).toUInt8 := rfl

theorem add_carry : (regs.add m).p.has .carry = (regs.sum m).toNat.testBit 8 := by
  refine (Status.has_follow _ _ (by decide) (by decide)).trans ?_
  rw [Status.has_set_self]
  exact and_mask_word 8 rfl

theorem add_decimal : (regs.add m).p.has .decimal = regs.p.has .decimal := by
  refine (Status.has_follow _ _ (by decide) (by decide)).trans ?_
  rw [Status.has_set_of_ne _ (by decide), Status.has_set_of_ne _ (by decide)]

theorem add_negative : (regs.add m).p.has .negative = decide (128 ≤ (regs.add m).a.toNat) :=
  Status.negative_follow _ _

/-- The overflow flag: both summands have one sign, and the result has the other. -/
theorem add_overflow : (regs.add m).p.has .overflow =
    (decide (128 ≤ regs.a.toNat) == decide (128 ≤ m.toNat) &&
      decide (128 ≤ regs.a.toNat) != decide (128 ≤ (regs.add m).a.toNat)) := by
  have result : (regs.sum m).toNat.testBit 7 = decide (128 ≤ (regs.add m).a.toNat) := by
    rw [← testBit_sign, add_a, UInt16.toNat_toUInt8, Nat.testBit_mod_two_pow]
    rfl
  have flag : (regs.add m).p.has .overflow = ((regs.a.toUInt16 ^^^ regs.sum m) &&&
      (m.toUInt16 ^^^ regs.sum m) &&& 0x80 != 0) := by
    refine (Status.has_follow _ _ (by decide) (by decide)).trans ?_
    rw [Status.has_set_of_ne _ (by decide)]
    exact Status.has_set_self _ _ _
  rw [flag, and_mask_word 7 rfl, UInt16.toNat_and, UInt16.toNat_xor, UInt16.toNat_xor, Nat.testBit_and,
    Nat.testBit_xor, Nat.testBit_xor, UInt8.toNat_toUInt16, UInt8.toNat_toUInt16, testBit_sign,
    testBit_sign, result]
  generalize decide (128 ≤ regs.a.toNat) = left
  generalize decide (128 ≤ m.toNat) = right
  generalize decide (128 ≤ (regs.add m).a.toNat) = result
  revert left right result
  decide

theorem toNat_binarySum (a m : UInt8) (carry : Bool) :
    (binarySum a m carry).toNat = a.toNat + m.toNat + carry.toNat := by
  have low := a.toNat_lt
  have high := m.toNat_lt
  have bit := carry.toNat_lt
  rw [binarySum, UInt16.toNat_add, UInt16.toNat_add, UInt8.toNat_toUInt16, UInt8.toNat_toUInt16,
    toNat_carry]
  omega

theorem toNat_sum (binary : regs.p.has .decimal = false) :
    (regs.sum m).toNat = regs.a.toNat + m.toNat + (regs.p.has .carry).toNat := by
  rw [sum, binary, if_neg Bool.false_ne_true, toNat_binarySum]

/-- In binary mode an addition makes nine bits, of which the highest is the carry. -/
theorem add_binary (binary : regs.p.has .decimal = false) :
    (regs.add m).a.toNat + 256 * ((regs.add m).p.has .carry).toNat =
      regs.a.toNat + m.toNat + (regs.p.has .carry).toNat := by
  have low := regs.a.toNat_lt
  have high := m.toNat_lt
  have bit := (regs.p.has .carry).toNat_lt
  have total := regs.toNat_sum m binary
  rw [add_carry, add_a, UInt16.toNat_toUInt8, Nat.toNat_testBit]
  omega

end Registers

/-! ### Shifts -/

namespace Change

/-- The carry that a shift moves into its byte. -/
def carryIn (status : Status) : Change → Nat
  | rotateLeft | rotateRight => (status.has .carry).toNat
  | shiftLeft | shiftRight | increment | decrement => 0

variable (status : Status) (value : UInt8)

theorem toNat_shiftLeft_one : (value <<< 1).toNat = 2 * value.toNat % 256 := by
  rw [UInt8.toNat_shiftLeft, Nat.shiftLeft_eq]
  exact congrArg (· % 256) (Nat.mul_comm _ _)

theorem toNat_shiftRight_one : (value >>> 1).toNat = value.toNat / 2 := by
  rw [UInt8.toNat_shiftRight]
  exact Nat.shiftRight_eq_div_pow _ _

theorem toNat_rotateLeft (carry : Bool) :
    (value <<< 1 ||| if carry then 1 else 0).toNat = 2 * value.toNat % 256 + carry.toNat := by
  have even : 2 * value.toNat % 256 = 2 ^ 1 * (value.toNat % 128) := by omega
  have low : (if carry then 1 else 0 : UInt8).toNat = carry.toNat := by cases carry <;> rfl
  rw [UInt8.toNat_or, toNat_shiftLeft_one, low, even, Nat.two_pow_add_eq_or_of_lt carry.toNat_lt]

theorem toNat_rotateRight (carry : Bool) :
    (value >>> 1 ||| (if carry then 1 else 0 : UInt8) <<< 7).toNat = value.toNat / 2 + 128 * carry.toNat := by
  have bound := value.toNat_lt
  have high : ((if carry then 1 else 0 : UInt8) <<< 7).toNat = 2 ^ 7 * carry.toNat := by
    cases carry <;> rfl
  have half : value.toNat / 2 < 2 ^ 7 := by omega
  rw [UInt8.toNat_or, toNat_shiftRight_one, high, Nat.or_comm, ← Nat.two_pow_add_eq_or_of_lt half,
    Nat.add_comm]

/-- A shift to the left makes nine bits, of which the highest is the carry. -/
theorem apply_left {change : Change} (left : change = shiftLeft ∨ change = rotateLeft) :
    (change.apply status value).1.toNat + 256 * ((change.apply status value).2.has .carry).toNat =
      2 * value.toNat + change.carryIn status := by
  have bound := value.toNat_lt
  have out : ((status.set .carry (value &&& 0x80 != 0)).has .carry).toNat = value.toNat / 128 := by
    rw [Status.has_set_self, and_mask_byte 7 rfl, Nat.toNat_testBit]
    omega
  rcases left with rfl | rfl
  · change (value <<< 1).toNat + 256 * ((status.set .carry _).has .carry).toNat = 2 * value.toNat + 0
    rw [out, toNat_shiftLeft_one]
    omega
  · change (value <<< 1 ||| if status.has .carry then 1 else 0).toNat +
      256 * ((status.set .carry _).has .carry).toNat = 2 * value.toNat + (status.has .carry).toNat
    rw [out, toNat_rotateLeft]
    omega

/-- A shift to the right leaves the lowest bit in the carry. -/
theorem apply_right {change : Change} (right : change = shiftRight ∨ change = rotateRight) :
    2 * (change.apply status value).1.toNat + ((change.apply status value).2.has .carry).toNat =
      value.toNat + 256 * change.carryIn status := by
  have out : ((status.set .carry (value &&& 0x01 != 0)).has .carry).toNat = value.toNat % 2 := by
    rw [Status.has_set_self, and_mask_byte 0 rfl, Nat.toNat_testBit, Nat.pow_zero, Nat.div_one]
  rcases right with rfl | rfl
  · change 2 * (value >>> 1).toNat + ((status.set .carry _).has .carry).toNat = value.toNat + 256 * 0
    rw [out, toNat_shiftRight_one]
    omega
  · change 2 * (value >>> 1 ||| (if status.has .carry then 1 else 0 : UInt8) <<< 7).toNat +
      ((status.set .carry _).has .carry).toNat = value.toNat + 256 * (status.has .carry).toNat
    rw [out, toNat_rotateRight]
    omega

end Change
end Micro65
