import Micro65.Cpu.Execute
import Micro65.Proofs.Isa.Opcode

set_option autoImplicit false

/-!
Finding an operand in memory. Where reading changes nothing, each mode consumes the bytes that its
value takes and arrives where the mode says, whatever the registers and the rest of memory hold.
-/

namespace Micro65

/-! ### Bytes of words -/

theorem wordOf_littleEndian (value : UInt16) :
    wordOf value.toUInt8 (value >>> 8).toUInt8 = value := by
  have bounded := value.toNat_lt
  have disjoint := Nat.shiftLeft_add_eq_or_of_lt (Nat.mod_lt value.toNat (by decide : 2 ^ 8 > 0))
    (value.toNat / 256)
  rw [← UInt16.toNat_inj]
  simp only [wordOf, UInt16.toNat_or, UInt16.toNat_shiftLeft, UInt8.toNat_toUInt16,
    UInt16.toNat_toUInt8, UInt16.toNat_shiftRight]
  have high : value.toNat >>> (UInt16.toNat 8 % 16) % 2 ^ 8 = value.toNat / 256 := by
    rw [Nat.shiftRight_eq_div_pow]
    change value.toNat / 256 % 256 = _
    omega
  rw [high]
  change (value.toNat / 256) <<< 8 % 2 ^ 16 ||| _ = _
  rw [Nat.mod_eq_of_lt (by rw [Nat.shiftLeft_eq]; omega), ← disjoint, Nat.shiftLeft_eq]
  omega

theorem toUInt8_wordOf (low high : UInt8) : (wordOf low high).toUInt8 = low := by
  rw [← UInt8.toNat_inj]
  simp only [wordOf, UInt16.toNat_toUInt8, UInt16.toNat_or, UInt16.toNat_shiftLeft,
    UInt8.toNat_toUInt16, Nat.or_mod_two_pow, Nat.shiftLeft_eq]
  have shifted : high.toNat * 2 ^ (UInt16.toNat 8 % 16) % 2 ^ 16 % 2 ^ 8 = 0 := by
    change high.toNat * 256 % 65536 % 256 = 0
    omega
  rw [shifted, Nat.zero_or, Nat.mod_eq_of_lt low.toNat_lt]

theorem toUInt16_toUInt8 {value : UInt16} (short : value < 0x100) :
    value.toUInt8.toUInt16 = value :=
  (UInt16.toUInt16_toUInt8 value).trans (UInt16.mod_eq_of_lt short)

theorem toUInt16_add (value index : UInt8) :
    (value + index).toUInt16 = (value.toUInt16 + index.toUInt16) % 0x100 := by
  have low := value.toNat_lt
  have high := index.toNat_lt
  rw [← UInt16.toNat_inj]
  simp only [UInt8.toNat_toUInt16, UInt8.toNat_add, UInt16.toNat_mod, UInt16.toNat_add]
  change _ = _ % 2 ^ 16 % 256
  omega

theorem wordOf_shiftRight (low high : UInt8) : (wordOf low high >>> 8).toUInt8 = high := by
  have low_lt := low.toNat_lt
  have high_lt := high.toNat_lt
  have joined := Nat.shiftLeft_add_eq_or_of_lt low_lt high.toNat
  have shifted : high.toNat <<< 8 % 2 ^ 16 = high.toNat * 256 := by
    rw [Nat.shiftLeft_eq]
    omega
  rw [← UInt8.toNat_inj]
  simp only [wordOf, UInt16.toNat_toUInt8, UInt16.toNat_shiftRight, UInt16.toNat_or,
    UInt16.toNat_shiftLeft, UInt8.toNat_toUInt16]
  change (high.toNat <<< 8 % 2 ^ 16 ||| low.toNat) >>> 8 % 2 ^ 8 = _
  rw [Nat.shiftLeft_eq] at joined
  rw [shifted, ← joined, Nat.shiftRight_eq_div_pow]
  omega

theorem littleEndian_wordOf (low high : UInt8) : littleEndian (wordOf low high) = [low, high] := by
  rw [littleEndian, toUInt8_wordOf, wordOf_shiftRight]

/-! ### Pages -/

/-- The page of an address is its high byte. -/
def pageOf (address : UInt16) : Nat := address.toNat / 256

theorem crosses_iff (source target : UInt16) :
    crosses source target = true ↔ pageOf source ≠ pageOf target := by
  -- Both masks keep the bits from the eighth on, which are those of the page.
  have masked (address : UInt16) : (address &&& 0xFF00).toNat = pageOf address * 256 := by
    have bound := address.toNat_lt
    apply Nat.eq_of_testBit_eq
    intro bit
    have mask : (UInt16.toNat 0xFF00).testBit bit = (decide (8 ≤ bit) && decide (bit < 16)) := by
      change (255 <<< 8).testBit bit = _
      rw [Nat.testBit_shiftLeft, show 255 = 2 ^ 8 - 1 from rfl, Nat.testBit_two_pow_sub_one]
      grind
    have page : pageOf address * 256 = address.toNat >>> 8 <<< 8 := by
      rw [Nat.shiftLeft_eq, Nat.shiftRight_eq_div_pow]
      rfl
    rw [UInt16.toNat_and, Nat.testBit_and, mask, page, Nat.testBit_shiftLeft, Nat.testBit_shiftRight]
    by_cases high : bit < 16
    · by_cases low : 8 ≤ bit
      · simp [high, low]
      · simp [low]
    · have none : address.toNat.testBit bit = false :=
        Nat.testBit_lt_two_pow (Nat.lt_of_lt_of_le bound (Nat.pow_le_pow_right (by decide) (by omega)))
      simp [none, show 8 + (bit - 8) = bit by omega]
  rw [crosses, bne_iff_ne, ne_eq, ← UInt16.toNat_inj, masked, masked]
  omega

/-! ### Modes -/

/-- The word that a cell of page zero points to. Its high byte does not leave the page. -/
def zeroPageWord (memory : UInt16 → UInt8) (cell : UInt16) : UInt16 :=
  wordOf (memory cell) (memory ((cell + 1) % 0x100))

namespace Mode

/-- Where the operand of an instruction at `address` is, by the value that the instruction carries. -/
def place (mode : Mode) (memory : UInt16 → UInt8) (regs : Registers) (address value : UInt16) :
    Place :=
  match mode with
  | .imm => .memory (address + 1)
  | .abs => .memory value
  | .absX => .memory (value + regs.x.toUInt16)
  | .absY => .memory (value + regs.y.toUInt16)
  | .zpg => .memory value
  | .zpgX => .memory ((value + regs.x.toUInt16) % 0x100)
  | .zpgY => .memory ((value + regs.y.toUInt16) % 0x100)
  | .ind => .memory (zeroPageWord memory value)
  | .indX => .memory (zeroPageWord memory ((value + regs.x.toUInt16) % 0x100))
  | .indY => .memory (zeroPageWord memory value + regs.y.toUInt16)
  | .acc => .a
  | .regX => .x
  | .regY => .y

/-- The address that a mode adds its index to, where the sum may lie on another page. -/
def base? (mode : Mode) (memory : UInt16 → UInt8) (value : UInt16) : Option UInt16 :=
  match mode with
  | .absX | .absY => some value
  | .indY => some (zeroPageWord memory value)
  | _ => none

/-- What an operand costs: one cycle where its index leads to another page than that of its base. -/
def penalty (mode : Mode) (memory : UInt16 → UInt8) (regs : Registers) (address value : UInt16) : Nat :=
  match mode.base? memory value, mode.place memory regs address value with
  | some base, .memory target => if pageOf base = pageOf target then 0 else 1
  | _, _ => 0

end Mode

theorem Effective.extra_indexed (base : UInt16) (index : UInt8) :
    (indexed base index).extra = if pageOf base = pageOf (base + index.toUInt16) then 0 else 1 := by
  change (if crosses base (base + index.toUInt16) then 1 else 0) = _
  by_cases same : pageOf base = pageOf (base + index.toUInt16)
  · rw [if_pos same, if_neg fun other => (crosses_iff _ _).1 other same]
  · rw [if_neg same, if_pos ((crosses_iff _ _).2 same)]

variable {δ μ : Type}

/-- Reading finds the contents of a memory and leaves the board as it is. -/
def Board.Holds [Device δ] (board : Board δ μ) (memory : UInt16 → UInt8) : Prop :=
  ∀ address, board.read address = (memory address, board)

/-- The core with its program counter past some bytes. -/
def Core.past (core : Core δ μ) (count : UInt16) : Core δ μ :=
  { core with regs := { core.regs with pc := core.regs.pc + count } }

namespace Core

variable (core : Core δ μ) (count other : UInt16)

@[simp] theorem past_pc : (core.past count).regs.pc = core.regs.pc + count := rfl
@[simp] theorem past_x : (core.past count).regs.x = core.regs.x := rfl
@[simp] theorem past_y : (core.past count).regs.y = core.regs.y := rfl

@[simp] theorem past_past : (core.past count).past other = core.past (count + other) := by
  simp only [past, UInt16.add_assoc]

@[simp] theorem past_zero : core.past 0 = core := by
  simp only [past, UInt16.add_zero]

end Core

namespace Exec

variable {α β : Type} {core : Core δ μ} {memory : UInt16 → UInt8}

@[simp] theorem run_bind (first : Exec δ μ α) (next : α → Exec δ μ β) (core : Core δ μ) :
    (first >>= next).run core = (next (first.run core).1).run (first.run core).2 := rfl

@[simp] theorem run_pure (value : α) (core : Core δ μ) :
    (pure value : Exec δ μ α).run core = (value, core) := rfl

@[simp] theorem run_regs (core : Core δ μ) :
    (regs : Exec δ μ Registers).run core = (core.regs, core) := rfl

@[simp] theorem run_update (change : Registers → Registers) (core : Core δ μ) :
    (update change : Exec δ μ Unit).run core = ((), { core with regs := change core.regs }) := rfl

variable [Device δ]

theorem run_read (holds : core.board.Holds memory) (address : UInt16) :
    (read address : Exec δ μ UInt8).run core = (memory address, core) := by
  change ((core.board.read address).1, Core.mk core.regs (core.board.read address).2) = _
  rw [holds address]

theorem run_fetch (holds : core.board.Holds memory) :
    (fetch : Exec δ μ UInt8).run core = (memory core.regs.pc, core.past 1) := by
  simp only [fetch, run_bind, run_regs, run_read holds, run_update, run_pure]
  rfl

theorem run_fetchWord (holds : core.board.Holds memory) :
    (fetchWord : Exec δ μ UInt16).run core =
      (wordOf (memory core.regs.pc) (memory (core.regs.pc + 1)), core.past 2) := by
  have next : (core.past 1).board.Holds memory := holds
  simp only [fetchWord, run_bind, run_fetch holds, run_fetch next, run_pure, Core.past_pc,
    Core.past_past]
  rfl

theorem run_zeroPagePointer (holds : core.board.Holds memory) (cell : UInt8) :
    (zeroPagePointer cell : Exec δ μ UInt16).run core =
      (zeroPageWord memory cell.toUInt16, core) := by
  simp only [zeroPagePointer, run_bind, run_read holds, run_pure, toUInt16_add]
  rfl

/-- Consecutive cells hold the bytes. -/
def Carries (memory : UInt16 → UInt8) (address : UInt16) : List UInt8 → Prop
  | [] => True
  | byte :: rest => memory address = byte ∧ Carries memory (address + 1) rest

section Values

variable {value : UInt16}

theorem run_fetch_value (holds : core.board.Holds memory)
    (carries : Carries memory core.regs.pc [value.toUInt8]) :
    (fetch : Exec δ μ UInt8).run core = (value.toUInt8, core.past 1) := by
  rw [run_fetch holds, carries.1]

theorem run_fetchWord_value (holds : core.board.Holds memory)
    (carries : Carries memory core.regs.pc (littleEndian value)) :
    (fetchWord : Exec δ μ UInt16).run core = (value, core.past 2) := by
  rw [run_fetchWord holds, carries.1, carries.2.1, wordOf_littleEndian]

theorem run_operand_memory {mode : Mode} {found : Effective} {core' : Core δ μ}
    (reached : (effective mode : Exec δ μ (Option Effective)).run core = (some found, core')) :
    (operand (some mode) : Exec δ μ (Place × Nat)).run core =
      ((.memory found.address, found.extra), core') := by
  simp only [operand, run_bind, reached, run_pure]

/-- What a mode has found is where the mode says, and costs what the mode says. -/
def Finds (mode : Mode) (memory : UInt16 → UInt8) (regs : Registers) (address value : UInt16)
    (found : Effective) : Prop :=
  mode.place memory regs address value = .memory found.address ∧
    mode.penalty memory regs address value = found.extra

/-- A mode with one byte, which is the value. -/
theorem run_effective_byte (holds : core.board.Holds memory) {mode : Mode} {address : UInt16}
    (one : mode.operandLength = 1) (short : value < 0x100) (pc : core.regs.pc = address + 1)
    (carries : Carries memory core.regs.pc [value.toUInt8]) :
    ∃ found, (effective mode : Exec δ μ (Option Effective)).run core = (some found, core.past 1) ∧
      Finds mode memory core.regs address value found := by
  have fetched := run_fetch_value holds carries
  have holdsPast : (core.past 1).board.Holds memory := holds
  have same := toUInt16_toUInt8 short
  cases mode with
  | imm => exact ⟨⟨core.regs.pc, 0⟩, rfl, by rw [pc]; rfl, rfl⟩
  | zpg =>
    refine ⟨⟨value, 0⟩, ?_, rfl, rfl⟩
    simp only [effective, plain, run_bind, run_pure, fetched, same]
  | zpgX =>
    refine ⟨⟨(value + core.regs.x.toUInt16) % 0x100, 0⟩, ?_, rfl, rfl⟩
    simp only [effective, plain, run_bind, run_pure, run_regs, fetched, toUInt16_add, same,
      Core.past_x]
  | zpgY =>
    refine ⟨⟨(value + core.regs.y.toUInt16) % 0x100, 0⟩, ?_, rfl, rfl⟩
    simp only [effective, plain, run_bind, run_pure, run_regs, fetched, toUInt16_add, same,
      Core.past_y]
  | ind =>
    refine ⟨⟨zeroPageWord memory value, 0⟩, ?_, rfl, rfl⟩
    simp only [effective, plain, run_bind, run_pure, fetched, run_zeroPagePointer holdsPast, same]
  | indX =>
    refine ⟨⟨zeroPageWord memory ((value + core.regs.x.toUInt16) % 0x100), 0⟩, ?_, rfl, rfl⟩
    simp only [effective, plain, run_bind, run_pure, run_regs, fetched,
      run_zeroPagePointer holdsPast, toUInt16_add, same, Core.past_x]
  | indY =>
    refine ⟨.indexed (zeroPageWord memory value) core.regs.y, ?_, rfl,
      (Effective.extra_indexed _ _).symm⟩
    simp only [effective, run_bind, run_pure, run_regs, fetched, run_zeroPagePointer holdsPast, same,
      Core.past_y]
  | _ => contradiction

/-- A mode with two bytes, which are the value. -/
theorem run_effective_word (holds : core.board.Holds memory) {mode : Mode} (address : UInt16)
    (two : mode.operandLength = 2) (carries : Carries memory core.regs.pc (littleEndian value)) :
    ∃ found, (effective mode : Exec δ μ (Option Effective)).run core = (some found, core.past 2) ∧
      Finds mode memory core.regs address value found := by
  have fetched := run_fetchWord_value holds carries
  cases mode with
  | abs =>
    refine ⟨⟨value, 0⟩, ?_, rfl, rfl⟩
    simp only [effective, plain, run_bind, run_pure, fetched]
  | absX =>
    refine ⟨.indexed value core.regs.x, ?_, rfl, (Effective.extra_indexed _ _).symm⟩
    simp only [effective, run_bind, run_pure, run_regs, fetched, Core.past_x]
  | absY =>
    refine ⟨.indexed value core.regs.y, ?_, rfl, (Effective.extra_indexed _ _).symm⟩
    simp only [effective, run_bind, run_pure, run_regs, fetched, Core.past_y]
  | _ => contradiction

/-- The operand of a mode is found by the bytes behind the opcode, at the cost of its mode, and the
program counter moves past them. -/
theorem run_operand (holds : core.board.Holds memory) {mode : Mode} {address : UInt16}
    (short : mode.operandLength = 1 → value < 0x100) (pc : core.regs.pc = address + 1)
    (carries : Carries memory core.regs.pc (mode.bytes value)) :
    (operand (some mode) : Exec δ μ (Place × Nat)).run core =
      ((mode.place memory core.regs address value, mode.penalty memory core.regs address value),
        core.past (UInt16.ofNat mode.operandLength)) := by
  by_cases register : mode.operandLength = 0
  · rw [register]
    change _ = (_, core.past 0)
    rw [Core.past_zero]
    cases mode <;> first | contradiction | rfl
  by_cases one : mode.operandLength = 1
  · rw [Mode.bytes_of_one _ one] at carries
    obtain ⟨found, reached, place, penalty⟩ := run_effective_byte holds one (short one) pc carries
    rw [run_operand_memory reached, place, penalty, one]
    rfl
  have two : mode.operandLength = 2 := by
    have bound := mode.operandLength_le
    omega
  rw [Mode.bytes_of_two _ two] at carries
  obtain ⟨found, reached, place, penalty⟩ := run_effective_word holds address two carries
  rw [run_operand_memory reached, place, penalty, two]
  rfl

end Values

end Exec
end Micro65
