set_option autoImplicit false

/-!
Registers of the processor. The status byte holds seven named flags; its bit 5 is stored and has no
meaning.
-/

namespace Micro65

inductive Flag where
  | carry | zero
  /-- Interrupt requests are masked. -/
  | irqDisable
  | decimal
  /-- Set by a `BRK` instruction. -/
  | brk
  | overflow | negative
  deriving DecidableEq, Repr

namespace Flag

def all : List Flag := [carry, zero, irqDisable, decimal, brk, overflow, negative]

theorem mem_all (flag : Flag) : flag ∈ all := by cases flag <;> decide

def name : Flag → String
  | carry => "C"
  | zero => "Z"
  | irqDisable => "I"
  | decimal => "D"
  | brk => "B"
  | overflow => "V"
  | negative => "N"

def mask : Flag → UInt8
  | carry => 0x01
  | zero => 0x02
  | irqDisable => 0x04
  | decimal => 0x08
  | brk => 0x10
  | overflow => 0x40
  | negative => 0x80

end Flag

structure Status where
  byte : UInt8 := 0
  deriving DecidableEq, Repr

namespace Status

def has (status : Status) (flag : Flag) : Bool := status.byte &&& flag.mask != 0

def set (status : Status) (flag : Flag) (on : Bool) : Status :=
  ⟨if on then status.byte ||| flag.mask else status.byte &&& ~~~flag.mask⟩

/-- Zero and negative follow a result. -/
def follow (status : Status) (result : UInt8) : Status :=
  (status.set .zero (result == 0)).set .negative (result &&& 0x80 != 0)

/-- Names and values of all flags. -/
def named (status : Status) : List (String × Bool) :=
  Flag.all.map fun flag => (flag.name, status.has flag)

end Status

structure Registers where
  pc : UInt16 := 0
  a : UInt8 := 0
  x : UInt8 := 0
  y : UInt8 := 0
  s : UInt8 := 0
  p : Status := {}
  deriving DecidableEq, Repr

namespace Registers

def setFlag (regs : Registers) (flag : Flag) (on : Bool) : Registers :=
  { regs with p := regs.p.set flag on }

/-- Loads a register and lets the flags follow. -/
def setA (regs : Registers) (value : UInt8) : Registers :=
  { regs with a := value, p := regs.p.follow value }

def setX (regs : Registers) (value : UInt8) : Registers :=
  { regs with x := value, p := regs.p.follow value }

def setY (regs : Registers) (value : UInt8) : Registers :=
  { regs with y := value, p := regs.p.follow value }

end Registers

/-- The word of two bytes. -/
def wordOf (low high : UInt8) : UInt16 := high.toUInt16 <<< 8 ||| low.toUInt16

/-- Two addresses lie on different pages. -/
def crosses (source target : UInt16) : Bool := source &&& 0xFF00 != target &&& 0xFF00

end Micro65
