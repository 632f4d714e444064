set_option autoImplicit false

/-!
Running down a list. A sweep threads a state through the items and stops at the first failure; what
was done until then is kept, the failing item included. An update treats each item alone, and leaves
the failing item as it was.
-/

namespace Micro65

/-- What a sweep leaves behind. -/
structure Swept (σ α ε : Type) where
  state : σ
  items : List α
  failure : Option ε

def sweep {σ α ε : Type} (step : σ → α → σ × α × Option ε) : σ → List α → Swept σ α ε
  | state, [] => ⟨state, [], none⟩
  | state, item :: rest =>
    match step state item with
    | (state, item, some failure) => ⟨state, item :: rest, some failure⟩
    | (state, item, none) =>
      let after := sweep step state rest
      { after with items := item :: after.items }

def updateAll {α ε : Type} (update : α → Except ε α) : List α → List α × Option ε
  | [] => ([], none)
  | item :: rest =>
    match update item with
    | .error failure => (item :: rest, some failure)
    | .ok item =>
      let (rest, failure) := updateAll update rest
      (item :: rest, failure)

theorem updateAll_eq_none_iff {α ε : Type} (update : α → Except ε α) (items items' : List α) :
    updateAll update items = (items', none) ↔ items.mapM update = .ok items' := by
  induction items generalizing items' with
  | nil => simp [updateAll, pure, Except.pure, eq_comm]
  | cons item rest ih =>
    rw [updateAll, List.mapM_cons]
    cases h : update item with
    | error failure => simp [bind, Except.bind]
    | ok item' =>
      cases ht : updateAll update rest with
      | mk left failure =>
        cases failure with
        | none =>
          have := (ih left).1 ht
          simp [this, bind, Except.bind, pure, Except.pure]
        | some failure =>
          have none_ok : ∀ others, rest.mapM update ≠ .ok others := fun others equal => by
            have := (ih others).2 equal
            simp [ht] at this
          cases hm : rest.mapM update with
          | error e => simp [bind, Except.bind]
          | ok others => exact absurd hm (none_ok others)

end Micro65
