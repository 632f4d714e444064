import Micro65.Proofs.Cpu.Chains

set_option autoImplicit false

/-!
Addition in decimal mode. The low digit of a byte carries at ten, but nothing corrects the high digit: it
counts up to fifteen before the byte carries. So a byte counts to 160, and a chain of additions adds
decimal numbers exactly as long as no byte reaches a hundred.
-/

namespace Micro65

/-! ### Digits -/

/-- Both digits of the byte are decimal. -/
def Packed (byte : UInt8) : Prop := byte.toNat / 16 ≤ 9 ∧ byte.toNat % 16 ≤ 9

instance (byte : UInt8) : Decidable (Packed byte) := inferInstanceAs (Decidable (_ ∧ _))

/-- The number of two digits. -/
def decimalOf (byte : UInt8) : Nat := 10 * (byte.toNat / 16) + byte.toNat % 16

/-- The number of bytes that count up to a base each, of which the first is the lowest. With a base of a
hundred it has two decimal digits in each byte. -/
def countOf (base : Nat) (bytes : List UInt8) : Nat := Nat.ofDigits base (bytes.map decimalOf)

theorem countOf_map {α : Type} (base : Nat) (byte : α → UInt8) (items : List α) :
    countOf base (items.map byte) = Nat.ofDigits base (items.map fun item => decimalOf (byte item)) :=
  congrArg _ List.map_map

theorem countOf_map_cons {α : Type} (base : Nat) (byte : α → UInt8) (head : α) (tail : List α) :
    countOf base ((head :: tail).map byte) = decimalOf (byte head) + base * countOf base (tail.map byte) :=
  Nat.ofDigits_cons

theorem decimalOf_lt {byte : UInt8} (packed : Packed byte) : decimalOf byte < 100 := by
  obtain ⟨high, low⟩ := packed
  unfold decimalOf
  omega

theorem low_digits_mod (low above size : Nat) :
    (low + 100 * above) % (100 * size) = low % 100 + 100 * ((low / 100 + above) % size) := by
  have quotient : (low + 100 * above) / 100 = low / 100 + above := by omega
  rw [Nat.mod_mul, quotient]
  omega

theorem testBit_not_word (word : UInt16) {bit : Nat} (inside : bit < 16) :
    (~~~word).toNat.testBit bit = !word.toNat.testBit bit := by
  change (~~~word.toBitVec).getLsbD bit = !word.toBitVec.getLsbD bit
  rw [BitVec.getLsbD_not, decide_eq_true inside, Bool.true_and]

/-- The sum in decimal mode: the low digit carries at ten, the high one does not. -/
theorem toNat_decimalSum {a m : UInt8} (carry : Bool) (left : a.toNat % 16 ≤ 9) (right : m.toNat % 16 ≤ 9) :
    let low := a.toNat % 16 + m.toNat % 16 + carry.toNat
    (decimalSum a m carry).toNat = 16 * (a.toNat / 16 + m.toNat / 16 + low / 10) + low % 10 := by
  intro low
  have boundA := a.toNat_lt
  have boundM := m.toNat_lt
  have bit := carry.toNat_lt
  obtain ⟨raised, isRaised⟩ : ∃ raised, a.toUInt16 + 0x06 = raised := ⟨_, rfl⟩
  obtain ⟨sum, isSum⟩ : ∃ sum, raised + (m.toUInt16 + carry.toNat.toUInt16) = sum := ⟨_, rfl⟩
  have toNat_raised : raised.toNat = a.toNat + 6 := by
    rw [← isRaised, UInt16.toNat_add, UInt8.toNat_toUInt16]
    change (a.toNat + 6) % 65536 = _
    omega
  have toNat_sum : sum.toNat = a.toNat + 6 + m.toNat + carry.toNat := by
    rw [← isSum, UInt16.toNat_add, UInt16.toNat_add, toNat_raised, UInt8.toNat_toUInt16, toNat_carry]
    omega
  -- Bit 4 of the sum differs from that of its summands where the low digit carries.
  have uncarried : (~~~(sum ^^^ (raised ^^^ m.toUInt16 ^^^ carry.toNat.toUInt16)) &&& 0x10 != 0) = true ↔
      low < 10 := by
    have none : carry.toNat.testBit 4 = false := Nat.testBit_lt_two_pow (Nat.lt_trans bit (by decide))
    rw [and_mask_word 4 rfl, testBit_not_word _ (by decide), UInt16.toNat_xor, UInt16.toNat_xor,
      UInt16.toNat_xor, Nat.testBit_xor, Nat.testBit_xor, Nat.testBit_xor, toNat_raised, toNat_sum,
      UInt8.toNat_toUInt16, toNat_carry, none, Bool.xor_false, Bool.not_eq_true', bne_eq_false_iff_eq,
      Bool.eq_iff_iff, Bool.xor_iff_ne]
    simp only [Nat.testBit_eq_decide_div_mod_eq, Ne, decide_eq_decide, decide_eq_true_eq]
    omega
  have corrected : decimalSum a m carry = if low < 10 then sum - 0x06 else sum := by
    rw [← if_congr uncarried rfl rfl, ← isSum, ← isRaised]
    rfl
  have enough : (0x06 : UInt16) ≤ sum := by
    rw [UInt16.le_iff_toNat_le, toNat_sum]
    change 6 ≤ _
    omega
  rw [corrected]
  split
  · rw [UInt16.toNat_sub_of_le _ _ enough, toNat_sum]
    change _ - 6 = _
    omega
  · omega

namespace Registers

theorem add_decimalOf (regs : Registers) {m : UInt8} (decimal : regs.p.has .decimal = true)
    (left : regs.a.toNat % 16 ≤ 9) (right : m.toNat % 16 ≤ 9) :
    decimalOf (regs.add m).a + 160 * ((regs.add m).p.has .carry).toNat =
        decimalOf regs.a + decimalOf m + (regs.p.has .carry).toNat ∧
      (regs.add m).a.toNat % 16 ≤ 9 := by
  have boundA := regs.a.toNat_lt
  have boundM := m.toNat_lt
  have bit := (regs.p.has .carry).toNat_lt
  have total := toNat_decimalSum (regs.p.has .carry) left right
  rw [← show regs.sum m = _ from if_pos decimal] at total
  rw [add_carry, add_a, Nat.toNat_testBit, decimalOf, UInt16.toNat_toUInt8, total]
  unfold decimalOf
  omega

end Registers

/-! ### Chains -/

variable {δ μ : Type} [Device δ] [Monitor μ]

/-- Both summands of the next addition are decimal. -/
def Core.PackedOperands (core : Core δ μ) : Prop := Packed core.regs.a ∧ Packed core.operandByte

omit [Monitor μ] in
instance (core : Core δ μ) : Decidable core.PackedOperands := inferInstanceAs (Decidable (_ ∧ _))

/-- What the next addition of decimal numbers has to make of its two digits. -/
def Core.decimalTotal (core : Core δ μ) : Nat :=
  decimalOf core.regs.a + decimalOf core.operandByte + (core.regs.p.has .carry).toNat

namespace Exec

variable {core : Core δ μ}

theorem next_of_adc (executes : core.Executes .adc) :
    core.next.regs.a = (core.regs.add core.operandByte).a ∧
      core.next.regs.p = (core.regs.add core.operandByte).p := by
  have adds : Mnemonic.addend? .adc = some id := rfl
  have next := next_of_addend executes adds
  simp only [id_eq] at next
  exact next

/-- A byte counts to 160 before it carries. -/
theorem next_of_decimal (executes : core.Executes .adc) (decimal : core.regs.p.has .decimal = true)
    (packed : core.PackedOperands) :
    decimalOf core.next.regs.a + 160 * (core.next.regs.p.has .carry).toNat = core.decimalTotal ∧
      core.next.regs.a.toNat % 16 ≤ 9 ∧ core.next.regs.p.has .decimal = true := by
  obtain ⟨result, status⟩ := next_of_adc executes
  obtain ⟨total, low⟩ := core.regs.add_decimalOf decimal packed.1.2 packed.2.2
  rw [result, status]
  exact ⟨total, low, (core.regs.add_decimal _).trans decimal⟩

/-- Below a hundred the byte is right, and from there on it is not. -/
theorem next_packed_iff (executes : core.Executes .adc) (decimal : core.regs.p.has .decimal = true)
    (packed : core.PackedOperands) :
    Packed core.next.regs.a ∧ decimalOf core.next.regs.a = core.decimalTotal % 100 ↔
      core.decimalTotal < 100 := by
  obtain ⟨total, low, -⟩ := next_of_decimal executes decimal packed
  have left := decimalOf_lt packed.1
  have right := decimalOf_lt packed.2
  have bit := (core.regs.p.has .carry).toNat_lt
  have bound : core.decimalTotal < 200 := by
    unfold Core.decimalTotal
    omega
  unfold Packed decimalOf at *
  omega

theorem next_carry_of_small (executes : core.Executes .adc) (decimal : core.regs.p.has .decimal = true)
    (packed : core.PackedOperands) (small : core.decimalTotal < 100) :
    core.next.regs.p.has .carry = false := by
  obtain ⟨total, -, -⟩ := next_of_decimal executes decimal packed
  cases carry : core.next.regs.p.has .carry with
  | false => rfl
  | true =>
    rw [carry, Bool.toNat_true] at total
    omega

end Exec

namespace Chain

variable {first final : Core δ μ} {rest : List (Core δ μ)} {kind later : Mnemonic}

theorem decimal_of_mem (chain : Chain .adc .adc first rest final)
    (decimal : first.regs.p.has .decimal = true) : ∀ core ∈ rest, core.regs.p.has .decimal = true := by
  have adds : Mnemonic.addend? .adc = some id := rfl
  exact fun core member => (chain.decimal_eq adds adds core member).trans decimal

/-- The chain adds numbers to a base of 160. -/
theorem counts (chain : Chain .adc .adc first rest final) (decimal : first.regs.p.has .decimal = true)
    (packed : ∀ core ∈ first :: rest, core.PackedOperands) :
    countOf 160 ((first :: rest).map (·.next.regs.a)) +
        (final.regs.p.has .carry).toNat * 160 ^ (first :: rest).length =
      countOf 160 ((first :: rest).map (·.regs.a)) + countOf 160 ((first :: rest).map Core.operandByte) +
        (first.regs.p.has .carry).toNat := by
  rw [List.forall_mem_cons] at packed
  have total := chain.carries 160 (decimalOf ·.next.regs.a)
    (fun core => decimalOf core.regs.a + decimalOf core.operandByte)
    (Exec.next_of_decimal chain.executes.1 decimal packed.1).1 fun core member =>
      (Exec.next_of_decimal (chain.executes.2 core member) (chain.decimal_of_mem decimal core member)
        (packed.2 core member)).1
  rwa [ofDigits_map_add, ← countOf_map, ← countOf_map, ← countOf_map] at total

/-- Digits and carry of a decimal sum are right as long as every byte stays below a hundred. The induction
takes off the lowest byte: up to there all is right, so its carry decides whether the rest can be. -/
theorem exact_iff (chain : Chain kind later first rest final) (adc : kind = .adc) (adc' : later = .adc)
    (decimal : first.regs.p.has .decimal = true)
    (packed : ∀ core ∈ first :: rest, core.PackedOperands) :
    let total := countOf 100 ((first :: rest).map (·.regs.a)) +
      countOf 100 ((first :: rest).map Core.operandByte) + (first.regs.p.has .carry).toNat
    let size := 100 ^ (first :: rest).length
    ((∀ core ∈ first :: rest, Packed core.next.regs.a) ∧
        countOf 100 ((first :: rest).map (·.next.regs.a)) = total % size ∧
        (final.regs.p.has .carry = true ↔ size ≤ total)) ↔
      ∀ core ∈ first :: rest, core.decimalTotal < 100 := by
  intro total size
  induction chain with
  | @one kind later core executes =>
    subst adc
    rw [List.forall_mem_singleton] at packed
    have correct := Exec.next_packed_iff executes decimal packed
    have only (byte : Core δ μ → UInt8) : countOf 100 ([core].map byte) = decimalOf (byte core) :=
      Nat.ofDigits_singleton ..
    have same : total = core.decimalTotal := by
      change countOf 100 _ + countOf 100 _ + _ = _
      rw [only, only]
      rfl
    have width : size = 100 := rfl
    rw [List.forall_mem_singleton, List.forall_mem_singleton, only, same, width, ← and_assoc, correct]
    refine and_iff_left_of_imp fun small => ?_
    rw [Exec.next_carry_of_small executes decimal packed small]
    exact ⟨nofun, fun reached => absurd small (Nat.not_lt.2 reached)⟩
  | @more kind later core middle final rest executes threads chain inductionHypothesis =>
    subst adc
    rw [List.forall_mem_cons] at packed
    have correct := Exec.next_packed_iff executes decimal packed.1
    obtain ⟨-, -, decimal'⟩ := Exec.next_of_decimal executes decimal packed.1
    have higher := inductionHypothesis adc' adc' (threads.decimal.trans decimal') packed.2
    have both (holds : Core δ μ → Prop) : (∀ other ∈ core :: middle :: rest, holds other) ↔
        holds core ∧ ∀ other ∈ middle :: rest, holds other := List.forall_mem_cons
    let above : Nat := countOf 100 ((middle :: rest).map (·.regs.a)) +
      countOf 100 ((middle :: rest).map Core.operandByte)
    have split : total = core.decimalTotal + 100 * above := by
      change countOf 100 _ + countOf 100 _ + _ = _
      rw [countOf_map_cons _ _ core, countOf_map_cons _ _ core, Core.decimalTotal]
      omega
    have width : size = 100 * 100 ^ (middle :: rest).length := Nat.pow_succ'
    rw [both, both, countOf_map_cons _ _ core, split, width, low_digits_mod]
    by_cases small : core.decimalTotal < 100
    · rw [threads.carry, Exec.next_carry_of_small executes decimal packed.1 small] at higher
      obtain ⟨packed', digit⟩ := correct.2 small
      have reached : 100 * 100 ^ (middle :: rest).length ≤ core.decimalTotal + 100 * above ↔
          100 ^ (middle :: rest).length ≤ above := by omega
      rw [Nat.div_eq_of_lt small, Nat.zero_add, digit, Nat.add_left_cancel_iff,
        Nat.mul_right_inj (by decide), reached, and_assoc, and_iff_right packed', and_iff_right small]
      exact higher
    · refine iff_of_false ?_ fun bounded => small bounded.1
      rintro ⟨⟨packed', -⟩, digits, -⟩
      have bound := decimalOf_lt packed'
      exact small (correct.1 ⟨packed', by omega⟩)

end Chain

/-- A chain of `ADC` instructions in decimal mode, on bytes with two decimal digits each. It adds numbers
to a base of 160; as decimal numbers they are added, with all digits and the carry right, exactly if no
byte reaches a hundred with its carry. -/
theorem decimal_chain_exact_iff {first final : Core δ μ} {rest : List (Core δ μ)}
    (chain : Chain .adc .adc first rest final) (decimal : first.regs.p.has .decimal = true)
    (packed : ∀ core ∈ first :: rest, core.PackedOperands) :
    let cores := first :: rest
    let x := cores.map (·.regs.a)
    let y := cores.map Core.operandByte
    let sum := cores.map (·.next.regs.a)
    let carry := (first.regs.p.has .carry).toNat
    let total := countOf 100 x + countOf 100 y + carry
    countOf 160 sum + (final.regs.p.has .carry).toNat * 160 ^ cores.length =
      countOf 160 x + countOf 160 y + carry ∧
    ((∀ core ∈ cores, Packed core.next.regs.a) ∧ countOf 100 sum = total % 100 ^ cores.length ∧
        (final.regs.p.has .carry = true ↔ 100 ^ cores.length ≤ total) ↔
      ∀ core ∈ cores, core.decimalTotal < 100) :=
  ⟨chain.counts decimal packed, chain.exact_iff rfl rfl decimal packed⟩

/-- A carry between the digits, and none between the bytes. -/
theorem decimal_chain_exact_two_bytes :
    let span : Span := ⟨0x0200, 0x0205, by decide⟩
    let code : Block := ⟨span, Block.fill (.replicate _ 0) 0 [0x69, 0x49, 0xA9, 0x19, 0x69, 0x01]⟩
    let core : Core Peripheral Silent :=
      { regs := { pc := 0x0200, a := 0x50, p := ⟨0x08⟩ },
        board := { bus := { devices := [.rom code] }, monitor := .silent } }
    let cores := [core, core.next.next]
    countOf 100 (cores.map (·.regs.a)) = 1950 ∧ countOf 100 (cores.map Core.operandByte) = 149 ∧
    (∀ core ∈ cores, core.decimalTotal < 100) ∧ countOf 100 (cores.map (·.next.regs.a)) = 2099 := by
  intro span code core cores
  have checked : core.Executes .adc ∧ core.next.Threads core.next.next ∧ core.next.next.Executes .adc ∧
      (∀ core ∈ cores, core.PackedOperands) ∧ core.regs.p.has .carry = false ∧
      countOf 100 (cores.map (·.regs.a)) = 1950 ∧ countOf 100 (cores.map Core.operandByte) = 149 ∧
      ∀ core ∈ cores, core.decimalTotal < 100 := by
    decide +kernel
  obtain ⟨executes, threads, executes', packed, carry, x, y, small⟩ := checked
  have decimal : core.regs.p.has .decimal = true := by decide
  have chain : Chain .adc .adc core [core.next.next] core.next.next.next :=
    .more executes threads (.one executes')
  obtain ⟨-, digits, -⟩ := (decimal_chain_exact_iff chain decimal packed).2.2 small
  have digits' : _ = _ % 100 ^ cores.length := digits
  have width : 100 ^ cores.length = 10000 := rfl
  rw [x, y, carry, width] at digits'
  exact ⟨x, y, small, digits'⟩

/-- Fifty and fifty is not zero with a carry: the high digit goes to ten. -/
theorem decimal_fifty_and_fifty :
    let span : Span := ⟨0x0200, 0x0201, by decide⟩
    let code : Block := ⟨span, Block.fill (.replicate _ 0) 0 [0x69, 0x50]⟩
    let core : Core Peripheral Silent :=
      { regs := { pc := 0x0200, a := 0x50, p := ⟨0x08⟩ },
        board := { bus := { devices := [.rom code] }, monitor := .silent } }
    let total := countOf 100 [core.regs.a] + countOf 100 [core.operandByte] +
      (core.regs.p.has .carry).toNat
    Chain .adc .adc core [] core.next ∧ core.regs.p.has .decimal = true ∧ core.PackedOperands ∧
    core.next.regs.a = 0xA0 ∧ core.next.regs.p.has .carry = false ∧ total = 100 ∧
    ¬(Packed core.next.regs.a ∧ countOf 100 [core.next.regs.a] = total % 100 ∧
      (core.next.regs.p.has .carry = true ↔ 100 ≤ total)) := by
  intro span code core total
  have checked : core.Executes .adc ∧ core.regs.p.has .decimal = true ∧ core.PackedOperands ∧
      core.next.regs.a = 0xA0 ∧ core.next.regs.p.has .carry = false ∧ total = 100 := by
    decide +kernel
  obtain ⟨executes, decimal, packed, sum, carry, value⟩ := checked
  refine ⟨.one executes, decimal, packed, sum, carry, value, fun ⟨_, _, carries⟩ => ?_⟩
  rw [carry, value] at carries
  exact absurd (carries.2 (Nat.le_refl _)) Bool.false_ne_true

end Micro65
