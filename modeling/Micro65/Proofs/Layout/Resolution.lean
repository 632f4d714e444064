import Micro65.Asm.Layout
import Micro65.Proofs.Isa.Opcode
import Micro65.Proofs.Layout.Narrowing
import Micro65.Proofs.Layout.Placement

set_option autoImplicit false

/-!
What the updates between passes make of an instruction. Each of them makes one property true and
touches no other field; an instruction that has the property already is left as it is.
-/

namespace Micro65

/-- A word is the number that it was made of, if that is no larger than a word. -/
theorem toNat_toUInt16_of_bounded {value : Int} (low : 0 ≤ value) (high : value ≤ 0xFFFF) :
    (value.toNat.toUInt16.toNat : Int) = value := by
  rw [Nat.toUInt16_eq, UInt16.toNat_ofNat']
  omega

namespace Instruction

variable {labels : Labels} {inst inst' : Instruction}

/-- Mode and parameter are those that the operand has under the table. -/
def Moded (labels : Labels) (inst : Instruction) : Prop :=
  inst.kind ≠ .base → inst.kind ≠ .data → ∀ operand, inst.operand = some operand →
    ∃ mode, operand.mode labels = .ok (mode, inst.param) ∧ inst.mode = some mode

/-- The size is the one that the mode asks for. -/
def Measured (inst : Instruction) : Prop :=
  match inst.kind with
  | .base => inst.size = 0
  | .data => True
  | kind => kind.size? inst.mode = some inst.size ∧ inst.sizeRange = .point inst.size

/-- The address is the only one that is left. -/
def Located (inst : Instruction) : Prop :=
  inst.kind ≠ .base → inst.addressRange = .point inst.address.toNat

theorem resolveMode_eq_ok (done : inst.resolveMode labels = .ok inst') :
    inst'.Moded labels ∧ inst' = { inst with mode := inst'.mode, param := inst'.param } ∧
      (inst.operand = none → inst'.param = inst.param) := by
  unfold resolveMode at done
  split at done
  next kind =>
    cases done
    exact ⟨fun notBase => absurd kind notBase, rfl, fun _ => rfl⟩
  next kind =>
    cases done
    exact ⟨fun _ notData => absurd kind notData, rfl, fun _ => rfl⟩
  next missing _ _ =>
    cases done
    refine ⟨fun _ _ operand given => ?_, rfl, fun _ => rfl⟩
    rw [missing] at given
    contradiction
  next operand given notBase notData =>
    rw [except_bind_eq_ok_iff] at done
    obtain ⟨⟨mode, param⟩, chosen, done⟩ := done
    cases done
    refine ⟨fun _ _ other given' => ?_, rfl, by simp [given]⟩
    rw [given, Option.some.injEq] at given'
    subst given'
    exact ⟨mode, chosen, rfl⟩

theorem Moded.resolveMode (moded : inst.Moded labels) : inst.resolveMode labels = .ok inst := by
  unfold Instruction.resolveMode
  split
  · rfl
  · rfl
  · rfl
  next operand given notBase notData =>
    obtain ⟨mode, chosen, same⟩ := moded notBase notData operand given
    rw [chosen]
    simp only [bind, Except.bind, pure, Except.pure, ← same]

theorem resolveSize_eq_ok (done : inst.resolveSize = .ok inst') :
    inst'.Measured ∧ inst' = { inst with size := inst'.size, sizeRange := inst'.sizeRange } ∧
      (inst.kind = .base ∨ inst.kind = .data → inst'.sizeRange = inst.sizeRange) := by
  unfold resolveSize at done
  split at done
  next kind =>
    cases done
    exact ⟨by simp [Measured, kind], rfl, fun _ => rfl⟩
  next kind =>
    cases done
    exact ⟨by simp [Measured, kind], rfl, fun _ => rfl⟩
  next notBase notData =>
    split at done
    next size found =>
      cases done
      refine ⟨?_, rfl, by rintro (kind | kind) <;> contradiction⟩
      unfold Measured
      split
      · contradiction
      · contradiction
      · exact ⟨found, rfl⟩
    next => contradiction

theorem Measured.size_eq_zero (measured : inst.Measured) (kind : inst.kind = .base) :
    inst.size = 0 := by
  simpa [Measured, kind] using measured

theorem Measured.exact (measured : inst.Measured) (notBase : inst.kind ≠ .base)
    (notData : inst.kind ≠ .data) :
    inst.kind.size? inst.mode = some inst.size ∧ inst.sizeRange = .point inst.size := by
  unfold Measured at measured
  split at measured
  · contradiction
  · contradiction
  · exact measured

theorem Measured.resolveSize (measured : inst.Measured) : inst.resolveSize = .ok inst := by
  unfold Instruction.resolveSize
  split
  next kind => simp only [← measured.size_eq_zero kind]
  next => rfl
  next notBase notData =>
    obtain ⟨found, exactly⟩ := measured.exact notBase notData
    rw [found]
    simp only [← exactly]

theorem Measured.sized (measured : inst.Measured)
    (data : inst.kind = .data → inst.sizeRange.isPoint = true →
      inst.size = inst.sizeRange.lo.toNat) : inst.Sized := by
  unfold Sized
  split
  next => trivial
  next kind => exact data kind
  next notBase notData => exact (measured.exact notBase notData).2

theorem resolveAddress_eq_ok (done : inst.resolveAddress = .ok inst') :
    inst'.Located ∧ inst' = { inst with address := inst'.address } := by
  unfold resolveAddress at done
  split at done
  next kind =>
    cases done
    exact ⟨fun notBase => absurd kind notBase, rfl⟩
  next => contradiction
  next address placed notBase =>
    split at done
    next bounded =>
      cases done
      refine ⟨fun _ => ?_, rfl⟩
      rw [Interval.value?_eq_some_iff] at placed
      rw [placed, toNat_toUInt16_of_bounded bounded.1 bounded.2]
    next => contradiction

theorem Located.resolveAddress (located : inst.Located) : inst.resolveAddress = .ok inst := by
  unfold Instruction.resolveAddress
  split
  · rfl
  next unknown notBase =>
    rw [located notBase] at unknown
    simp at unknown
  next address placed notBase =>
    rw [located notBase] at placed
    simp only [Interval.value?_point, Option.some.injEq] at placed
    subst placed
    have bounded := inst.address.toNat_lt
    rw [if_pos (by omega)]
    simp

theorem emit_eq_ok_iff (labels : Labels) (inst inst' : Instruction) :
    inst.emit labels = .ok inst' ↔
      ∃ bytes, inst.encode labels = .ok bytes ∧ inst' = { inst with bytes } := by
  unfold emit
  cases inst.encode labels <;> simp [bind, Except.bind, pure, Except.pure, eq_comm]

/-- Nothing is settled: the sizes are all those that the mnemonic can have. -/
structure Open (inst : Instruction) : Prop where
  sizes : inst.sizeRange = ⟨inst.kind.sizeRange.1, inst.kind.sizeRange.2⟩
  param : inst.param = none

theorem Open.proper (opened : inst.Open) : inst.sizeRange.Proper := by
  rw [opened.sizes]
  unfold Interval.Proper
  cases inst.kind <;> decide

/-- Mode and size are settled under the table. -/
structure Resolved (labels : Labels) (inst : Instruction) : Prop where
  moded : inst.Moded labels
  measured : inst.Measured
  sized : inst.Sized
  bare : inst.operand = none → inst.param = none

theorem resolve_refines {middle : Instruction} (opened : inst.Open)
    (moded : inst.resolveMode labels = .ok middle) (measured : middle.resolveSize = .ok inst') :
    inst'.Resolved labels ∧ inst'.Refines inst := by
  obtain ⟨moded, rest, bare⟩ := resolveMode_eq_ok moded
  obtain ⟨measured, rest', same⟩ := resolveSize_eq_ok measured
  have kind : inst'.kind = inst.kind := by rw [rest', rest]
  have sizes : inst.kind = .base ∨ inst.kind = .data → inst'.sizeRange = inst.sizeRange := by
    rw [rest] at same
    exact same
  refine ⟨⟨?_, measured, measured.sized ?_, ?_⟩, ⟨kind, ?_, ?_, ?_, ?_⟩⟩
  · rw [rest']
    exact moded
  · intro data point
    -- An open `DATA` line can take one byte or two, which is no point.
    rw [kind] at data
    rw [sizes (.inr data), opened.sizes, data] at point
    contradiction
  · rw [rest', rest]
    exact fun missing => (bare missing).trans opened.param
  · rw [rest', rest]
  · rw [rest', rest]
  · intro notData
    rw [opened.sizes, ← kind]
    by_cases base : inst'.kind = .base
    · rw [measured.size_eq_zero base, base]
      exact Interval.inside_refl _
    · have bounds := Mnemonic.size?_within (measured.exact base notData).1
      exact ⟨Int.ofNat_le.2 bounds.1, Int.ofNat_le.2 bounds.2⟩
  · intro data
    rw [kind] at data
    rw [opened.sizes, data]
    rfl

/-- A mode that has been chosen is the mode under every table that knows more. -/
theorem Moded.narrows {outer : Labels} (moded : inst.Moded outer) (within : labels.Within outer)
    (proper : labels.Proper) : inst.Moded labels := by
  intro notBase notData operand given
  obtain ⟨mode, chosen, same⟩ := moded notBase notData operand given
  exact ⟨mode, operand.mode_narrows within proper chosen, same⟩

theorem Resolved.narrows {outer : Labels} (resolved : inst.Resolved outer)
    (within : labels.Within outer) (proper : labels.Proper) : inst.Resolved labels :=
  ⟨resolved.moded.narrows within proper, resolved.measured, resolved.sized, resolved.bare⟩

end Instruction

/-- A pass by sizes does not touch what is settled. -/
theorem sizeStep_resolved {labels : Labels} {walk walk' : Walk} {inst inst' : Instruction}
    (resolved : inst.Resolved labels) (done : sizeStep walk inst = (walk', inst', none)) :
    inst'.Resolved labels := by
  obtain ⟨moded, measured, sized, bare⟩ := resolved
  rcases sizeStep_cases done with ⟨-, -, -, -, -, -, rfl⟩ | ⟨kind, sizeRange, -, -, rfl⟩ |
    ⟨-, -, -, rfl⟩
  · exact ⟨moded, measured, sized, bare⟩
  · refine ⟨moded, ?_, ?_, bare⟩
    · simp only [Instruction.Measured, kind]
    · simp only [Instruction.Sized, kind]
      exact fun point => if_pos point
  · exact ⟨moded, measured, sized, bare⟩

end Micro65
