import Micro65.Cpu.Registers
import Micro65.Isa.Mnemonic

set_option autoImplicit false

/-!
Arithmetic on registers: addition in binary and in decimal mode, comparison, and the operations that
change a byte in place.
-/

namespace Micro65

/-- The sum of two bytes and a carry, whose bit 8 is the carry out. -/
def binarySum (a m : UInt8) (carry : Bool) : UInt16 :=
  a.toUInt16 + m.toUInt16 + carry.toNat.toUInt16

/-- The same with six more, so that the low digit carries at ten; taken back where it does not carry.
The high digit is left as it is. -/
def decimalSum (a m : UInt8) (carry : Bool) : UInt16 :=
  let raised := a.toUInt16 + 0x06
  let withoutCarries := raised ^^^ m.toUInt16 ^^^ carry.toNat.toUInt16
  let sum := raised + (m.toUInt16 + carry.toNat.toUInt16)
  if ~~~(sum ^^^ withoutCarries) &&& 0x10 != 0 then sum - 0x06 else sum

namespace Registers

/-- Adds a byte and the carry to the accumulator. -/
def add (regs : Registers) (m : UInt8) : Registers :=
  let carry := regs.p.has .carry
  let sum := if regs.p.has .decimal then decimalSum regs.a m carry else binarySum regs.a m carry
  let overflow := (regs.a.toUInt16 ^^^ sum) &&& (m.toUInt16 ^^^ sum) &&& 0x80 != 0
  let p := (regs.p.set .overflow overflow).set .carry (sum &&& 0x100 != 0)
  { regs with p }.setA sum.toUInt8

/-- Decimal mode costs one cycle. -/
def addPenalty (regs : Registers) : Nat := if regs.p.has .decimal then 1 else 0

end Registers

namespace Status

/-- Compares two bytes; the carry says that nothing had to be borrowed. -/
def compare (status : Status) (left right : UInt8) : Status :=
  let status := (status.set .zero (left == right)).set .carry (right ≤ left)
  status.set .negative ((left - right) &&& 0x80 != 0)

/-- Tests bits of a byte. An immediate byte leaves overflow and negative alone. -/
def testBits (status : Status) (a m : UInt8) (immediate : Bool) : Status :=
  let status := status.set .zero (a &&& m == 0)
  if immediate then status
  else (status.set .negative (m &&& 0x80 != 0)).set .overflow (m &&& 0x40 != 0)

/-- Whether a branch is taken. -/
def branches (status : Status) : Mnemonic → Bool
  | .bcc => !status.has .carry
  | .bcs => status.has .carry
  | .beq => status.has .zero
  | .bne => !status.has .zero
  | .bmi => status.has .negative
  | .bpl => !status.has .negative
  | .bvc => !status.has .overflow
  | .bvs => status.has .overflow
  | _ => true

end Status

/-- Operations that replace a byte by another. -/
inductive Change where
  | shiftLeft | shiftRight | rotateLeft | rotateRight | increment | decrement
  deriving DecidableEq, Repr

/-- The new byte, and the status with the bit that was shifted out as its carry. -/
def Change.apply (change : Change) (status : Status) (value : UInt8) : UInt8 × Status :=
  let carry : UInt8 := if status.has .carry then 1 else 0
  match change with
  | shiftLeft => (value <<< 1, status.set .carry (value &&& 0x80 != 0))
  | shiftRight => (value >>> 1, status.set .carry (value &&& 0x01 != 0))
  | rotateLeft => (value <<< 1 ||| carry, status.set .carry (value &&& 0x80 != 0))
  | rotateRight => (value >>> 1 ||| carry <<< 7, status.set .carry (value &&& 0x01 != 0))
  | increment => (value + 1, status)
  | decrement => (value - 1, status)

end Micro65
