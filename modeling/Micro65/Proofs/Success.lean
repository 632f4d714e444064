import Micro65.Asm.Error

set_option autoImplicit false

/-!
Computations that succeed. A computation made of two succeeds exactly if both do, and what holds of a result
is decided by running the computation.
-/

namespace Micro65

theorem except_bind_eq_ok_iff {ε α β : Type} (first : Except ε α) (next : α → Except ε β)
    (result : β) :
    (first >>= next) = .ok result ↔ ∃ value, first = .ok value ∧ next value = .ok result := by
  cases first <;> simp [bind, Except.bind]

theorem locate_eq_ok_iff {α : Type} (position : Position) (result : Except AsmError α) (value : α) :
    locate position result = .ok value ↔ result = .ok value := by
  cases result <;> simp [locate]

/-! Whether a computation ends as it is said to, and what then holds of its result or of the state that it
leaves, is decided by running it. -/

section Running

instance decidableEqExcept {ε α : Type} [DecidableEq ε] [DecidableEq α] : DecidableEq (Except ε α)
  | .ok first, .ok second => decidable_of_iff (first = second) (by simp)
  | .error first, .error second => decidable_of_iff (first = second) (by simp)
  | .ok _, .error _ | .error _, .ok _ => isFalse nofun

instance decidableExistsOk {ε α : Type} (result : Except ε α) :
    Decidable (∃ value, result = .ok value) :=
  match result with
  | .ok value => isTrue ⟨value, rfl⟩
  | .error _ => isFalse nofun

instance decidableExistsOkAnd {ε α : Type} (result : Except ε α) (Holds : α → Prop)
    [DecidablePred Holds] : Decidable (∃ value, result = .ok value ∧ Holds value) :=
  match result with
  | .ok value => decidable_of_iff (Holds value) (by simp)
  | .error _ => isFalse (by simp)

variable {α σ : Type} [DecidableEq α] (outcome : α × σ) (answer : α)

instance decidableExistsState : Decidable (∃ state, outcome = (answer, state)) :=
  decidable_of_iff (outcome.1 = answer) (by simp [Prod.ext_iff])

instance decidableExistsStateAnd (Holds : σ → Prop) [DecidablePred Holds] :
    Decidable (∃ state, outcome = (answer, state) ∧ Holds state) :=
  decidable_of_iff (outcome.1 = answer ∧ Holds outcome.2) (by simp [Prod.ext_iff, and_assoc])

end Running

end Micro65
