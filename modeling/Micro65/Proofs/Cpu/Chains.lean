import Mathlib.Data.Nat.Digits.Defs
import Mathlib.Tactic.Ring
import Micro65.Proofs.Cpu.Arithmetic
import Micro65.Proofs.Cpu.Locating

set_option autoImplicit false

/-!
Arithmetic on numbers of many bytes. An instruction is executed for each byte, and whatever else is
executed in between leaves the carry alone. Then additions and subtractions from the lowest byte up, and
shifts in their direction, compute with the numbers as a whole: the carry is all that one byte has to
know of the other.
-/

namespace Micro65

/-! ### Numbers -/

/-- The number of bytes, of which the first is the lowest. -/
def numberOf (bytes : List UInt8) : Nat := Nat.ofDigits 256 (bytes.map UInt8.toNat)

/-- A number below a size, read as two's complement. -/
def signedOf (size number : Nat) : Int := if size ≤ 2 * number then number - size else number

/-- The value is no number in two's complement of the size. -/
def Overflows (size : Nat) (value : Int) : Prop := 2 * value < -size ∨ size ≤ 2 * value

theorem numberOf_cons (byte : UInt8) (bytes : List UInt8) :
    numberOf (byte :: bytes) = byte.toNat + 256 * numberOf bytes := by
  rw [numberOf, List.map_cons, Nat.ofDigits_cons]
  rfl

theorem numberOf_singleton (byte : UInt8) : numberOf [byte] = byte.toNat := Nat.ofDigits_singleton ..

theorem numberOf_lt (bytes : List UInt8) : numberOf bytes < 256 ^ bytes.length := by
  induction bytes with
  | nil => decide
  | cons byte bytes inductionHypothesis =>
    have bound := byte.toNat_lt
    rw [numberOf_cons, List.length_cons, Nat.pow_succ]
    omega

/-- The last byte is the highest. -/
theorem numberOf_concat (bytes : List UInt8) (byte : UInt8) :
    numberOf (bytes ++ [byte]) = numberOf bytes + 256 ^ bytes.length * byte.toNat := by
  rw [numberOf, List.map_append, Nat.ofDigits_append, List.length_map, List.map_singleton,
    Nat.ofDigits_singleton]
  rfl

section Tables

variable {α : Type}

theorem numberOf_map (byte : α → UInt8) (items : List α) :
    numberOf (items.map byte) = Nat.ofDigits 256 (items.map fun item => (byte item).toNat) :=
  congrArg _ List.map_map

/-- Of bytes that are listed from the highest down, the first counts most. -/
theorem numberOf_map_reverse_cons (byte : α → UInt8) (head : α) (tail : List α) :
    numberOf ((head :: tail).map byte).reverse =
      numberOf (tail.map byte).reverse + 256 ^ tail.length * (byte head).toNat := by
  rw [List.map_cons, List.reverse_cons, numberOf_concat, List.length_reverse, List.length_map]

theorem ofDigits_map_cons (base : Nat) (digit : α → Nat) (head : α) (tail : List α) :
    Nat.ofDigits base ((head :: tail).map digit) =
      digit head + base * Nat.ofDigits base (tail.map digit) := Nat.ofDigits_cons

theorem ofDigits_map_add (base : Nat) (left right : α → Nat) (items : List α) :
    Nat.ofDigits base (items.map fun item => left item + right item) =
      Nat.ofDigits base (items.map left) + Nat.ofDigits base (items.map right) := by
  rw [Nat.ofDigits_add_ofDigits_eq_ofDigits_zipWith_of_length_eq
    ((List.length_map left).trans (List.length_map right).symm), List.zipWith_map, List.zipWith_self]

theorem ofDigits_map_mul (base factor : Nat) (digit : α → Nat) (items : List α) :
    Nat.ofDigits base (items.map fun item => factor * digit item) =
      factor * Nat.ofDigits base (items.map digit) := by
  rw [Nat.mul_ofDigits, List.map_map]
  rfl

end Tables

theorem numberOf_complement (bytes : List UInt8) :
    numberOf (bytes.map (~~~·)) + numberOf bytes + 1 = 256 ^ bytes.length := by
  induction bytes with
  | nil => rfl
  | cons byte bytes inductionHypothesis =>
    have bound := byte.toNat_lt
    have flipped : (~~~byte).toNat = 255 - byte.toNat := by
      rw [UInt8.toNat_not]
      rfl
    rw [List.map_cons, numberOf_cons, numberOf_cons, List.length_cons, Nat.pow_succ, flipped]
    omega

/-- The sign bit of a number. -/
def sign (bytes : List UInt8) : Bool := decide (256 ^ bytes.length ≤ 2 * numberOf bytes)

/-- The sign bit is in the highest byte. -/
theorem sign_concat (bytes : List UInt8) (byte : UInt8) :
    sign (bytes ++ [byte]) = decide (128 ≤ byte.toNat) := by
  have bound := numberOf_lt bytes
  rw [sign, decide_eq_decide, numberOf_concat, List.length_append, List.length_singleton, Nat.pow_succ]
  constructor
  · intro reached
    by_contra below
    have most := Nat.mul_le_mul_left (256 ^ bytes.length) (Nat.le_of_lt_succ (Nat.lt_of_not_le below))
    omega
  · intro above
    have least := Nat.mul_le_mul_left (256 ^ bytes.length) above
    omega

/-! ### Two's complement -/

theorem size_even {bytes : List UInt8} (nonempty : bytes ≠ []) : 256 ^ bytes.length % 2 = 0 := by
  obtain ⟨count, length⟩ := Nat.exists_eq_add_one_of_ne_zero (mt List.length_eq_zero_iff.1 nonempty)
  rw [length, Nat.pow_succ]
  omega

/-- Signs tell whether a sum overflows. -/
theorem overflows_iff {x y sum : List UInt8} {carry carryOut : Bool} (width : x.length = sum.length)
    (width' : y.length = sum.length) (nonempty : sum ≠ [])
    (total : numberOf sum + carryOut.toNat * 256 ^ sum.length = numberOf x + numberOf y + carry.toNat) :
    (sign x == sign y && sign x != sign sum) = true ↔ Overflows (256 ^ sum.length)
      (signedOf (256 ^ sum.length) (numberOf x) + signedOf (256 ^ sum.length) (numberOf y) + carry.toNat) := by
  have boundX := numberOf_lt x
  have boundY := numberOf_lt y
  have bound := numberOf_lt sum
  have bit := carry.toNat_lt
  unfold sign Overflows signedOf
  rw [width] at boundX ⊢
  rw [width'] at boundY ⊢
  have even := size_even nonempty
  generalize 256 ^ sum.length = size at *
  have carried : carryOut.toNat * size = 0 ∨ carryOut.toNat * size = size := by
    cases carryOut with
    | false => exact .inl (Nat.zero_mul size)
    | true => exact .inr (Nat.one_mul size)
  generalize carryOut.toNat * size = out at total carried
  simp only [Bool.and_eq_true, beq_iff_eq, bne_iff_ne, Ne, decide_eq_decide]
  split <;> split <;> omega

/-- The complement of a number is one less than its negative. -/
theorem signedOf_complement (bytes : List UInt8) (nonempty : bytes ≠ []) :
    signedOf (256 ^ bytes.length) (numberOf (bytes.map (~~~·))) =
      -signedOf (256 ^ bytes.length) (numberOf bytes) - 1 := by
  have total := numberOf_complement bytes
  have even := size_even nonempty
  unfold signedOf
  split <;> split <;> omega

/-! ### Chains -/

variable {δ μ : Type} [Device δ] [Monitor μ]

/-- Whatever happens between two instructions, as long as it leaves the carry and the decimal flag as they
are. -/
structure Core.Threads (core other : Core δ μ) : Prop where
  carry : other.regs.p.has .carry = core.regs.p.has .carry
  decimal : other.regs.p.has .decimal = core.regs.p.has .decimal

instance (core other : Core δ μ) : Decidable (core.Threads other) :=
  decidable_of_iff (_ ∧ _)
    ⟨fun ⟨carry, decimal⟩ => ⟨carry, decimal⟩, fun ⟨carry, decimal⟩ => ⟨carry, decimal⟩⟩

/-- An instruction is executed on a first byte, and another one on each byte that follows. The cores are
those that execute, with anything in between that threads the flags; the last core is what they leave. -/
inductive Chain : Mnemonic → Mnemonic → Core δ μ → List (Core δ μ) → Core δ μ → Prop where
  | one {kind later : Mnemonic} {core : Core δ μ} (executes : core.Executes kind) :
      Chain kind later core [] core.next
  | more {kind later : Mnemonic} {core middle final : Core δ μ} {rest : List (Core δ μ)}
      (executes : core.Executes kind) (threads : core.next.Threads middle)
      (chain : Chain later later middle rest final) : Chain kind later core (middle :: rest) final

namespace Chain

variable {first final : Core δ μ} {rest : List (Core δ μ)} {kind later : Mnemonic}

theorem executes (chain : Chain kind later first rest final) :
    first.Executes kind ∧ ∀ core ∈ rest, core.Executes later := by
  induction chain with
  | one executes => exact ⟨executes, nofun⟩
  | more executes threads chain inductionHypothesis =>
    exact ⟨executes, List.forall_mem_cons.2 inductionHypothesis⟩

/-- The chain ends with the instruction on the last byte. -/
theorem exists_last (chain : Chain kind later first rest final) :
    ∃ front last, first :: rest = front ++ [last] ∧ final = last.next := by
  induction chain with
  | @one kind later core executes => exact ⟨[], core, rfl, rfl⟩
  | @more kind later core middle final rest executes threads chain inductionHypothesis =>
    obtain ⟨front, last, cores, ends⟩ := inductionHypothesis
    exact ⟨core :: front, last, congrArg (core :: ·) cores, ends⟩

/-- The carry is all that goes from one digit to the next. Where each instruction splits what it is given
into a digit and a carry, the chain does so with the numbers. -/
theorem carries (chain : Chain kind later first rest final) (base : Nat) (digit given : Core δ μ → Nat)
    {carryIn : Nat}
    (low : digit first + base * (first.next.regs.p.has .carry).toNat = given first + carryIn)
    (high : ∀ core ∈ rest, digit core + base * (core.next.regs.p.has .carry).toNat =
      given core + (core.regs.p.has .carry).toNat) :
    Nat.ofDigits base ((first :: rest).map digit) +
        (final.regs.p.has .carry).toNat * base ^ (first :: rest).length =
      Nat.ofDigits base ((first :: rest).map given) + carryIn := by
  induction chain generalizing carryIn with
  | one executes =>
    rw [List.map_singleton, List.map_singleton, Nat.ofDigits_singleton, Nat.ofDigits_singleton,
      List.length_singleton, Nat.pow_one, Nat.mul_comm]
    exact low
  | @more kind later core middle final rest executes threads chain inductionHypothesis =>
    rw [List.forall_mem_cons, threads.carry] at high
    have rest' := inductionHypothesis high.1 high.2
    have scaled := congrArg (base * ·) rest'
    simp only [Nat.mul_add] at scaled
    rw [ofDigits_map_cons _ _ core, ofDigits_map_cons _ _ core, List.length_cons, Nat.pow_succ',
      Nat.mul_left_comm]
    omega

variable {addend : UInt8 → UInt8}

/-- Additions are all made in the mode of the first. -/
theorem decimal_eq (chain : Chain kind later first rest final) (adds : kind.addend? = some addend)
    (adds' : later.addend? = some addend) :
    ∀ core ∈ rest, core.regs.p.has .decimal = first.regs.p.has .decimal := by
  induction chain with
  | one executes => exact nofun
  | @more kind later core middle final rest executes threads chain inductionHypothesis =>
    have same : middle.regs.p.has .decimal = core.regs.p.has .decimal := by
      rw [threads.decimal, (Exec.next_of_addend executes adds).2, Registers.add_decimal]
    exact List.forall_mem_cons.2 ⟨same, fun other member =>
      (inductionHypothesis adds' adds' other member).trans same⟩

theorem total (chain : Chain kind kind first rest final) (adds : kind.addend? = some addend)
    (binary : first.regs.p.has .decimal = false) :
    numberOf ((first :: rest).map (·.next.regs.a)) +
        (final.regs.p.has .carry).toNat * 256 ^ (first :: rest).length =
      numberOf ((first :: rest).map (·.regs.a)) + numberOf ((first :: rest).map (addend ·.operandByte)) +
        (first.regs.p.has .carry).toNat := by
  have split {core : Core δ μ} (executes : core.Executes kind) (binary : core.regs.p.has .decimal = false) :
      core.next.regs.a.toNat + 256 * (core.next.regs.p.has .carry).toNat =
        core.regs.a.toNat + (addend core.operandByte).toNat + (core.regs.p.has .carry).toNat := by
    rw [(Exec.next_of_addend executes adds).1, (Exec.next_of_addend executes adds).2]
    exact core.regs.add_binary _ binary
  have total := chain.carries 256 (·.next.regs.a.toNat)
    (fun core => core.regs.a.toNat + (addend core.operandByte).toNat) (split chain.executes.1 binary)
    fun core member => split (chain.executes.2 core member)
      ((chain.decimal_eq adds adds core member).trans binary)
  rwa [ofDigits_map_add, ← numberOf_map, ← numberOf_map, ← numberOf_map] at total

/-- The flags are those of the last sum, and so of the highest bytes. -/
theorem signs (chain : Chain kind kind first rest final) (adds : kind.addend? = some addend) :
    let x := (first :: rest).map (·.regs.a)
    let y := (first :: rest).map (addend ·.operandByte)
    let sum := (first :: rest).map (·.next.regs.a)
    final.regs.p.has .overflow = (sign x == sign y && sign x != sign sum) ∧
      final.regs.p.has .negative = sign sum := by
  have executes : ∀ core ∈ first :: rest, core.Executes kind := List.forall_mem_cons.2 chain.executes
  obtain ⟨front, last, cores, left⟩ := chain.exists_last
  rw [cores] at executes
  obtain ⟨result, status⟩ := Exec.next_of_addend (executes last List.mem_concat_self) adds
  have highest (byte : Core δ μ → UInt8) :
      sign ((first :: rest).map byte) = decide (128 ≤ (byte last).toNat) := by
    rw [cores, List.map_append, List.map_singleton, sign_concat]
  simp only [highest]
  rw [left, status, result]
  exact ⟨Registers.add_overflow _ _, Registers.add_negative _ _⟩

/-- Whatever is added, the total is that of the numbers, and the flags are those of its two's complement. -/
theorem adds (chain : Chain kind kind first rest final) (adds : kind.addend? = some addend)
    (binary : first.regs.p.has .decimal = false) :
    let cores := first :: rest
    let size : Nat := 256 ^ cores.length
    let x := numberOf (cores.map (·.regs.a))
    let y := numberOf (cores.map (addend ·.operandByte))
    let sum := numberOf (cores.map (·.next.regs.a))
    let carry := (first.regs.p.has .carry).toNat
    sum + (final.regs.p.has .carry).toNat * size = x + y + carry ∧
    (final.regs.p.has .overflow = true ↔
      Overflows size (signedOf size x + signedOf size y + carry)) ∧
    (final.regs.p.has .negative = true ↔ size ≤ 2 * sum) := by
  intro cores size x y sum carry
  have total := chain.total adds binary
  obtain ⟨overflow, negative⟩ := chain.signs adds
  have length (byte : Core δ μ → UInt8) : (cores.map byte).length = cores.length := List.length_map byte
  have sumLength := length (·.next.regs.a)
  refine ⟨total, ?_, ?_⟩
  · rw [overflow]
    have overflows := overflows_iff ((length (·.regs.a)).trans sumLength.symm)
      ((length (addend ·.operandByte)).trans sumLength.symm) (List.cons_ne_nil _ _)
      (by rw [sumLength]; exact total)
    rwa [sumLength] at overflows
  · rw [negative, sign, decide_eq_true_iff, sumLength]

/-- A subtraction adds the complement, so its carry says that nothing had to be borrowed. -/
theorem subtracts (chain : Chain .sbc .sbc first rest final) (binary : first.regs.p.has .decimal = false) :
    let cores := first :: rest
    let size : Nat := 256 ^ cores.length
    let x := numberOf (cores.map (·.regs.a))
    let y := numberOf (cores.map Core.operandByte)
    let difference := numberOf (cores.map (·.next.regs.a))
    let carry := (first.regs.p.has .carry).toNat
    (difference : Int) = (x - y - (1 - carry)) % (size : Int) ∧
    (final.regs.p.has .carry = true ↔ y + (1 - carry) ≤ x) ∧
    (final.regs.p.has .overflow = true ↔
      Overflows size (signedOf size x - signedOf size y - (1 - carry))) ∧
    (final.regs.p.has .negative = true ↔ size ≤ 2 * difference) := by
  intro cores size x y difference carry
  have complements : Mnemonic.addend? .sbc = some (~~~·) := rfl
  obtain ⟨total, overflow, negative⟩ := chain.adds complements binary
  have flipped : cores.map (fun core => ~~~core.operandByte) =
      (cores.map Core.operandByte).map (~~~·) := List.map_map.symm
  have complement := numberOf_complement (cores.map Core.operandByte)
  have signed := signedOf_complement (cores.map Core.operandByte) (List.cons_ne_nil _ _)
  rw [← flipped, List.length_map] at complement signed
  have bound := numberOf_lt (cores.map (·.next.regs.a))
  rw [List.length_map] at bound
  have bit := (first.regs.p.has .carry).toNat_lt
  have balance : difference + (final.regs.p.has .carry).toNat * size + y + 1 = x + size + carry := by
    have total' : difference + (final.regs.p.has .carry).toNat * size =
        x + numberOf (cores.map fun core => ~~~core.operandByte) + carry := total
    omega
  refine ⟨?_, ?_, ?_, negative⟩
  · have reduced : (x : Int) - y - (1 - carry) =
        difference + size * ((final.regs.p.has .carry).toNat - 1) := by
      rw [Int.mul_sub, Int.mul_one, Int.mul_comm (size : Int)]
      omega
    rw [reduced, Int.add_mul_emod_self_left,
      Int.emod_eq_of_lt (Int.natCast_nonneg _) (Int.ofNat_lt.2 bound)]
  · cases out : final.regs.p.has .carry with
    | false =>
      rw [out, Bool.toNat_false, Nat.zero_mul] at balance
      exact ⟨nofun, fun enough => by omega⟩
    | true =>
      rw [out, Bool.toNat_true, Nat.one_mul] at balance
      exact ⟨fun _ => by omega, fun _ => rfl⟩
  · have value : signedOf size x + (-signedOf size y - 1) + carry =
        signedOf size x - signedOf size y - (1 - carry) := by omega
    rw [overflow, signed, ← value]

section Shifts

variable {ram : Block → δ} {change : Change}

/-- Shifts to the left, from the lowest byte up, double the number. -/
theorem doubles (isRam : IsRam ram) (chain : Chain kind later first rest final)
    (shifts : kind.change? = some change) (left : change = .shiftLeft ∨ change = .rotateLeft)
    (rotates : later.change? = some .rotateLeft) (keeps : ∀ core ∈ first :: rest, core.Keeps ram) :
    numberOf ((first :: rest).map Core.result) +
        (final.regs.p.has .carry).toNat * 256 ^ (first :: rest).length =
      2 * numberOf ((first :: rest).map Core.operandByte) + change.carryIn first.regs.p := by
  have split {core : Core δ μ} {kind : Mnemonic} {change : Change} (executes : core.Executes kind)
      (shifts : kind.change? = some change) (left : change = .shiftLeft ∨ change = .rotateLeft)
      (keeps : core.Keeps ram) :
      core.result.toNat + 256 * (core.next.regs.p.has .carry).toNat =
        2 * core.operandByte.toNat + change.carryIn core.regs.p := by
    obtain ⟨result, status⟩ := Exec.next_of_change isRam executes shifts keeps
    rw [result, status, Status.has_follow _ _ (by decide) (by decide)]
    exact change.apply_left core.regs.p core.operandByte left
  rw [List.forall_mem_cons] at keeps
  have total := chain.carries 256 (·.result.toNat) (2 * ·.operandByte.toNat)
    (split chain.executes.1 shifts left keeps.1) fun core member =>
      split (chain.executes.2 core member) rotates (.inr rfl) (keeps.2 core member)
  rwa [ofDigits_map_mul, ← numberOf_map, ← numberOf_map] at total

/-- Shifts to the right, from the highest byte down, halve the number. -/
theorem halves (isRam : IsRam ram) (chain : Chain kind later first rest final)
    (shifts : kind.change? = some change) (right : change = .shiftRight ∨ change = .rotateRight)
    (rotates : later.change? = some .rotateRight) (keeps : ∀ core ∈ first :: rest, core.Keeps ram) :
    2 * numberOf ((first :: rest).map Core.result).reverse + (final.regs.p.has .carry).toNat =
      numberOf ((first :: rest).map Core.operandByte).reverse +
        256 ^ (first :: rest).length * change.carryIn first.regs.p := by
  induction chain generalizing change with
  | @one kind later core executes =>
    obtain ⟨result, status⟩ := Exec.next_of_change isRam executes shifts (keeps core List.mem_cons_self)
    have total := change.apply_right core.regs.p core.operandByte right
    simp only [List.map_cons, List.map_nil, List.reverse_singleton, numberOf_singleton,
      List.length_singleton]
    rw [result, status, Status.has_follow _ _ (by decide) (by decide)]
    omega
  | @more kind later core middle final rest executes threads chain inductionHypothesis =>
    rw [List.forall_mem_cons] at keeps
    obtain ⟨result, status⟩ := Exec.next_of_change isRam executes shifts keeps.1
    have total := change.apply_right core.regs.p core.operandByte right
    have total' := inductionHypothesis rotates (.inr rfl) rotates keeps.2
    rw [Change.carryIn, threads.carry, status, Status.has_follow _ _ (by decide) (by decide)] at total'
    have width : 256 ^ (core :: middle :: rest).length = 256 ^ (middle :: rest).length * 256 :=
      Nat.pow_succ ..
    rw [numberOf_map_reverse_cons _ core, numberOf_map_reverse_cons _ core, width, result]
    generalize 256 ^ (middle :: rest).length = size at total' ⊢
    generalize numberOf ((middle :: rest).map Core.result).reverse = results at total' ⊢
    generalize numberOf ((middle :: rest).map Core.operandByte).reverse = bytes at total' ⊢
    calc _ = 2 * results + (final.regs.p.has .carry).toNat +
          size * (2 * (change.apply core.regs.p core.operandByte).1.toNat) := by ring
      _ = bytes + size * (2 * (change.apply core.regs.p core.operandByte).1.toNat +
          ((change.apply core.regs.p core.operandByte).2.has .carry).toNat) := by rw [total']; ring
      _ = _ := by rw [total]; ring

end Shifts

end Chain

/-- Carries chain bytes into numbers. An `ADC` on each byte from the lowest up adds, and an `SBC` on each
subtracts; the carry, the overflow and the sign are then those of the whole numbers. An `ASL` on the lowest
byte and a `ROL` on each byte above double a number, an `LSR` on the highest byte and a `ROR` on each byte
below halve it, and the carry has the bit that is lost. -/
theorem chains_compute {ram : Block → δ} (isRam : IsRam ram) {first final : Core δ μ}
    {rest : List (Core δ μ)} :
    let cores := first :: rest
    let size : Nat := 256 ^ cores.length
    let carryIn := (first.regs.p.has .carry).toNat
    let carryOut := (final.regs.p.has .carry).toNat
    let x := numberOf (cores.map (·.regs.a))
    let y := numberOf (cores.map Core.operandByte)
    let result := numberOf (cores.map (·.next.regs.a))
    (Chain .adc .adc first rest final → first.regs.p.has .decimal = false →
      result + carryOut * size = x + y + carryIn ∧
      (final.regs.p.has .overflow = true ↔
        Overflows size (signedOf size x + signedOf size y + carryIn)) ∧
      (final.regs.p.has .negative = true ↔ size ≤ 2 * result)) ∧
    (Chain .sbc .sbc first rest final → first.regs.p.has .decimal = false →
      (result : Int) = (x - y - (1 - carryIn)) % (size : Int) ∧
      (final.regs.p.has .carry = true ↔ y + (1 - carryIn) ≤ x) ∧
      (final.regs.p.has .overflow = true ↔
        Overflows size (signedOf size x - signedOf size y - (1 - carryIn))) ∧
      (final.regs.p.has .negative = true ↔ size ≤ 2 * result)) ∧
    (Chain .asl .rol first rest final → (∀ core ∈ cores, core.Keeps ram) →
      numberOf (cores.map Core.result) + carryOut * size = 2 * numberOf (cores.map Core.operandByte)) ∧
    (Chain .lsr .ror first rest final → (∀ core ∈ cores, core.Keeps ram) →
      numberOf (cores.map Core.result).reverse = numberOf (cores.map Core.operandByte).reverse / 2 ∧
      carryOut = numberOf (cores.map Core.operandByte).reverse % 2) := by
  intro cores size carryIn carryOut x y result
  refine ⟨fun chain binary => ?_, fun chain binary => ?_,
    fun chain keeps => chain.doubles isRam rfl (.inl rfl) rfl keeps, fun chain keeps => ?_⟩
  · have added : Mnemonic.addend? .adc = some id := rfl
    have summed := chain.adds added binary
    simp only [id_eq] at summed
    exact summed
  · exact chain.subtracts binary
  · have total := chain.halves isRam rfl (.inl rfl) rfl keeps
    have bit := (final.regs.p.has .carry).toNat_lt
    rw [Change.carryIn, Nat.mul_zero, Nat.add_zero] at total
    change 2 * numberOf (cores.map Core.result).reverse + carryOut =
      numberOf (cores.map Core.operandByte).reverse at total
    omega

/-- Numbers of two bytes, where the second bytes are loaded in between. -/
theorem chains_compute_two_bytes :
    let span : Span := ⟨0x0200, 0x0215, by decide⟩
    let code : Block := ⟨span, Block.fill (.replicate _ 0) 0
      [0x69, 0xF0, 0xA9, 0x7F, 0x69, 0x01, 0xE9, 0xF0, 0xA9, 0x80, 0xE9, 0x01,
        0x06, 0x10, 0xA9, 0xC0, 0x2A, 0x46, 0x10, 0xA9, 0x81, 0x6A]⟩
    let cell : Block := (Block.empty ⟨0x0010, 0x0010, by decide⟩).set 0x0010 0x81
    let board : Board Peripheral Silent :=
      { bus := { devices := [.rom code, .ram cell] }, monitor := .silent }
    let add : Core Peripheral Silent := { regs := { pc := 0x0200, a := 0x20, p := ⟨0x01⟩ }, board }
    let sub : Core Peripheral Silent := { regs := { pc := 0x0206, a := 0x10, p := ⟨0x01⟩ }, board }
    let left : Core Peripheral Silent := { regs := { pc := 0x020C }, board }
    let right : Core Peripheral Silent := { regs := { pc := 0x0211 }, board }
    numberOf ([add, add.next.next].map (·.next.regs.a)) = 0x7F20 + 0x01F0 + 1 ∧
    add.next.next.next.regs.p.has .overflow = true ∧
    numberOf ([sub, sub.next.next].map (·.next.regs.a)) = 0x8010 - 0x01F0 ∧
    sub.next.next.next.regs.p.has .carry = true ∧
    numberOf ([left, left.next.next].map Core.result) + 0x10000 = 2 * 0xC081 ∧
    numberOf ([right, right.next.next].map Core.result).reverse = 0x8181 / 2 := by
  intro span code cell board add sub left right
  -- One evaluation is cheaper than many: the opcode table is built for each.
  have checked : ((add.Executes .adc ∧ add.next.Threads add.next.next ∧ add.next.next.Executes .adc) ∧
        numberOf ([add, add.next.next].map (·.regs.a)) = 0x7F20 ∧
        numberOf ([add, add.next.next].map Core.operandByte) = 0x01F0 ∧
        add.next.next.next.regs.p.has .carry = false) ∧
      ((sub.Executes .sbc ∧ sub.next.Threads sub.next.next ∧ sub.next.next.Executes .sbc) ∧
        numberOf ([sub, sub.next.next].map (·.regs.a)) = 0x8010 ∧
        numberOf ([sub, sub.next.next].map Core.operandByte) = 0x01F0) ∧
      ((left.Executes .asl ∧ left.next.Threads left.next.next ∧ left.next.next.Executes .rol) ∧
        (left.place = .memory 0x0010 ∧ left.next.next.place = .a) ∧
        numberOf ([left, left.next.next].map Core.operandByte) = 0xC081 ∧
        left.next.next.next.regs.p.has .carry = true) ∧
      (right.Executes .lsr ∧ right.next.Threads right.next.next ∧ right.next.next.Executes .ror) ∧
        (right.place = .memory 0x0010 ∧ right.next.next.place = .a) ∧
        numberOf ([right, right.next.next].map Core.operandByte).reverse = 0x8181 := by
    decide +kernel
  obtain ⟨⟨adc, x, y, out⟩, ⟨sbc, x', y'⟩, ⟨asl, places, bytes, out'⟩, lsr, places', bytes'⟩ := checked
  have chain {first second : Core Peripheral Silent} {kind later : Mnemonic} (follows :
      first.Executes kind ∧ first.next.Threads second ∧ second.Executes later) :
      Chain kind later first [second] second.next := .more follows.1 follows.2.1 (.one follows.2.2)
  have serves : Serves Peripheral.ram 0x0010 0x81 board.bus.devices :=
    .later (.here (by decide +kernel) nofun)
  have keeps {first second : Core Peripheral Silent} (same : first.devices = board.bus.devices)
      (places : first.place = .memory 0x0010 ∧ second.place = .a) :
      ∀ core ∈ [first, second], core.Keeps Peripheral.ram := by
    refine List.forall_mem_cons.2 ⟨fun address place => ?_,
      List.forall_mem_singleton.2 fun address place => ?_⟩
    · obtain rfl : 0x0010 = address := Place.memory.inj (places.1.symm.trans place)
      exact ⟨0x81, same ▸ serves⟩
    · cases places.2.symm.trans place
  have binary : (⟨0x01⟩ : Status).has .decimal = false := by decide
  have carryIn : add.regs.p.has .carry = true := by decide
  have carryIn' : sub.regs.p.has .carry = true := by decide
  obtain ⟨sum, overflow, -⟩ := (chains_compute Peripheral.isRam).1 (chain adc) binary
  obtain ⟨difference, carry, -, -⟩ := (chains_compute Peripheral.isRam).2.1 (chain sbc) binary
  have doubled := (chains_compute Peripheral.isRam).2.2.1 (chain asl) (keeps rfl places)
  obtain ⟨halved, -⟩ := (chains_compute Peripheral.isRam).2.2.2 (chain lsr) (keeps rfl places')
  rw [x, y, out, carryIn, Bool.toNat_false, Nat.zero_mul, Nat.add_zero] at sum
  rw [x, y, carryIn] at overflow
  rw [x', y', carryIn', Bool.toNat_true] at difference carry
  rw [List.length_cons, List.length_singleton] at difference
  rw [bytes, out', Bool.toNat_true, Nat.one_mul, List.length_cons, List.length_singleton] at doubled
  rw [bytes'] at halved
  exact ⟨sum, overflow.2 (.inr (by decide)), by omega, carry.2 (by decide), by omega, halved⟩

end Micro65
