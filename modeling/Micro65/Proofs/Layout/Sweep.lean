import Mathlib.Data.List.Forall2
import Micro65.Asm.Layout.Sweep

set_option autoImplicit false

/-!
Sweeps and updates that run to the end of their list. `Sweeps` follows a sweep item by item; an update
that succeeds relates each item to its successor.
-/

namespace Micro65

variable {σ τ α β ε : Type}

/-- A sweep from one state to another that fails nowhere. -/
inductive Sweeps (step : σ → α → σ × α × Option ε) : σ → List α → σ → List α → Prop where
  | nil {state} : Sweeps step state [] state []
  | cons {state middle after item item' rest rest'} :
      step state item = (middle, item', none) → Sweeps step middle rest after rest' →
      Sweeps step state (item :: rest) after (item' :: rest')

theorem sweep_eq_iff (step : σ → α → σ × α × Option ε) (state after : σ) (items items' : List α) :
    sweep step state items = ⟨after, items', none⟩ ↔ Sweeps step state items after items' := by
  constructor
  · intro done
    induction items generalizing state items' with
    | nil =>
      cases done
      exact .nil
    | cons item rest inductionHypothesis =>
      rw [sweep] at done
      rcases first : step state item with ⟨middle, item', _ | failure⟩
      · rw [first] at done
        simp only [Swept.mk.injEq] at done
        obtain ⟨rfl, rfl, finished⟩ := done
        exact .cons first (inductionHypothesis _ _ (by rw [← finished]))
      · rw [first] at done
        cases done
  · intro swept
    induction swept with
    | nil => rfl
    | cons first _ inductionHypothesis => simp only [sweep, first, inductionHypothesis]

/-- A sweep fails at the item that the ones before it lead to. -/
theorem sweep_failure_eq_some_iff (step : σ → α → σ × α × Option ε) (state : σ) (items : List α)
    (failure : ε) : (sweep step state items).failure = some failure ↔
      ∃ before item rest middle before' after item', items = before ++ item :: rest ∧
        Sweeps step state before middle before' ∧
        step middle item = (after, item', some failure) := by
  constructor
  · intro failed
    induction items generalizing state with
    | nil => contradiction
    | cons item rest inductionHypothesis =>
      rw [sweep] at failed
      rcases first : step state item with ⟨middle, item', _ | cause⟩
      · rw [first] at failed
        obtain ⟨before, failing, rest, last, before', after, failing', rfl, swept, fails⟩ :=
          inductionHypothesis _ failed
        exact ⟨item :: before, failing, rest, last, item' :: before', after, failing', rfl,
          .cons first swept, fails⟩
      · rw [first] at failed
        cases failed
        exact ⟨[], item, rest, state, [], middle, item', rfl, .nil, first⟩
  · rintro ⟨before, item, rest, middle, before', after, item', rfl, swept, fails⟩
    induction swept with
    | nil => simp only [List.nil_append, sweep, fails]
    | cons first _ inductionHypothesis =>
      simp only [List.cons_append, sweep, first, inductionHypothesis fails]

namespace Sweeps

variable {step : σ → α → σ × α × Option ε} {state after : σ} {items items' : List α}

/-- What a step keeps of the state, a sweep keeps, and each item is related to what it became. -/
theorem invariant (Kept : σ → Prop) (Became : α → α → Prop) {Allowed : α → Prop}
    (keep : ∀ {state middle item item'}, Kept state → Allowed item →
      step state item = (middle, item', none) → Kept middle ∧ Became item item')
    (swept : Sweeps step state items after items') (start : Kept state)
    (allowed : ∀ item ∈ items, Allowed item) :
    Kept after ∧ List.Forall₂ Became items items' := by
  induction swept with
  | nil => exact ⟨start, .nil⟩
  | cons first _ inductionHypothesis =>
    rw [List.forall_mem_cons] at allowed
    obtain ⟨kept, became⟩ := keep start allowed.1 first
    obtain ⟨keptAfter, becameRest⟩ := inductionHypothesis kept allowed.2
    exact ⟨keptAfter, .cons became becameRest⟩

/-- What becomes of an item wherever its step starts, has become of each item of a sweep. -/
theorem became (Became : α → α → Prop)
    (become : ∀ {state middle item item'}, step state item = (middle, item', none) →
      Became item item')
    (swept : Sweeps step state items after items') : List.Forall₂ Became items items' := by
  induction swept with
  | nil => exact .nil
  | cons first _ inductionHypothesis => exact .cons (become first) inductionHypothesis

/-- Two sweeps side by side. -/
theorem related (Near : σ → τ → Prop) (Like Become : α → β → Prop)
    {step' : τ → β → τ × β × Option ε}
    (keep : ∀ {state middle item item' state' middle' other other'}, Near state state' →
      Like item other → step state item = (middle, item', none) →
      step' state' other = (middle', other', none) → Near middle middle' ∧ Become item' other')
    {state' after' : τ} {others others' : List β} (swept : Sweeps step state items after items')
    (swept' : Sweeps step' state' others after' others') (start : Near state state')
    (alike : List.Forall₂ Like items others) :
    Near after after' ∧ List.Forall₂ Become items' others' := by
  induction swept generalizing state' others others' with
  | nil =>
    cases alike
    cases swept'
    exact ⟨start, .nil⟩
  | cons first _ inductionHypothesis =>
    cases alike with
    | cons like alike =>
      cases swept' with
      | cons first' swept' =>
        obtain ⟨near, like'⟩ := keep start like first first'
        obtain ⟨nearAfter, alikeRest⟩ := inductionHypothesis swept' near alike
        exact ⟨nearAfter, .cons like' alikeRest⟩

/-- A sweep that fails beside one that does not fails at an item that the other gets past. -/
theorem related_failure (Near : σ → τ → Prop) (Like : α → β → Prop)
    {step' : τ → β → τ × β × Option ε}
    (keep : ∀ {state middle item item' state' middle' other other'}, Near state state' →
      Like item other → step state item = (middle, item', none) →
      step' state' other = (middle', other', none) → Near middle middle')
    {state' after' : τ} {others others' : List β} {failure : ε}
    (swept' : Sweeps step' state' others after' others') (start : Near state state')
    (alike : List.Forall₂ Like items others)
    (failed : (sweep step state items).failure = some failure) :
    ∃ state after item item' state' after' other other', Near state state' ∧ Like item other ∧
      step state item = (after, item', some failure) ∧
      step' state' other = (after', other', none) := by
  induction swept' generalizing state items with
  | nil =>
    cases alike
    contradiction
  | @cons state' _ _ other other' _ _ first' _ inductionHypothesis =>
    cases alike with
    | @cons item _ _ _ like alike =>
      rw [sweep] at failed
      rcases first : step state item with ⟨middle, item', _ | cause⟩
      · rw [first] at failed
        exact inductionHypothesis (keep start like first first') alike failed
      · rw [first] at failed
        cases failed
        exact ⟨state, middle, item, item', state', _, other, other', start, like, first, first'⟩

end Sweeps

/-! ### Images -/

section Images

variable {δ : Type} (onState : σ → τ) (onItem : α → β) (onFailure : ε → δ)

def Swept.map (swept : Swept σ α ε) : Swept τ β δ :=
  ⟨onState swept.state, swept.items.map onItem, swept.failure.map onFailure⟩

/-- A step that does the same to an image does the same to the images of a whole list. -/
theorem sweep_map {step : σ → α → σ × α × Option ε} {step' : τ → β → τ × β × Option δ}
    (same : ∀ state item, step' (onState state) (onItem item) =
      (onState (step state item).1, onItem (step state item).2.1,
        (step state item).2.2.map onFailure))
    (state : σ) (items : List α) :
    sweep step' (onState state) (items.map onItem) =
      (sweep step state items).map onState onItem onFailure := by
  induction items generalizing state with
  | nil => rfl
  | cons item rest inductionHypothesis =>
    rw [List.map_cons, sweep, sweep, same]
    rcases step state item with ⟨middle, item', _ | failure⟩
    · simp only [Option.map_none, inductionHypothesis]
      rfl
    · rfl

theorem updateAll_map {update : α → Except ε α} {update' : β → Except δ β}
    (same : ∀ item, update' (onItem item) = ((update item).map onItem).mapError onFailure)
    (items : List α) :
    updateAll update' (items.map onItem) =
      ((updateAll update items).1.map onItem, (updateAll update items).2.map onFailure) := by
  induction items with
  | nil => rfl
  | cons item rest inductionHypothesis =>
    rw [List.map_cons, updateAll, updateAll, same]
    cases update item with
    | error failure => rfl
    | ok item' =>
      simp only [Except.map, Except.mapError, inductionHypothesis]
      rfl

end Images

theorem mapM_eq_ok_iff (update : α → Except ε β) (items : List α) (results : List β) :
    items.mapM update = .ok results ↔
      List.Forall₂ (fun item result => update item = .ok result) items results := by
  induction items generalizing results with
  | nil => simp [pure, Except.pure, eq_comm]
  | cons item rest inductionHypothesis =>
    rw [List.mapM_cons, List.forall₂_cons_left_iff]
    rcases first : update item with failure | result
    · simp [bind, Except.bind]
    · rcases others : rest.mapM update with failure | resultsRest
      · simp only [← inductionHypothesis, others]
        simp [bind, Except.bind]
      · simp only [← inductionHypothesis, others]
        simp [bind, Except.bind, pure, Except.pure, eq_comm]

theorem forall₂_trans {γ : Type} {First : α → β → Prop} {Second : β → γ → Prop} {Both : α → γ → Prop}
    (join : ∀ {item middle last}, First item middle → Second middle last → Both item last)
    {items : List α} {middles : List β} {lasts : List γ} (first : List.Forall₂ First items middles)
    (second : List.Forall₂ Second middles lasts) : List.Forall₂ Both items lasts := by
  induction first generalizing lasts with
  | nil =>
    cases second
    exact .nil
  | cons here _ inductionHypothesis =>
    cases second with
    | cons next rest => exact .cons (join here next) (inductionHypothesis rest)

/-- What holds of everything that an item can become holds of all items afterwards. -/
theorem forall_of_forall₂ {Became : α → β → Prop} {After : β → Prop} {items : List α}
    {items' : List β} (became : List.Forall₂ Became items items')
    (after : ∀ {item item'}, Became item item' → After item') : ∀ item ∈ items', After item := by
  induction became with
  | nil => simp
  | cons first _ inductionHypothesis =>
    exact List.forall_mem_cons.2 ⟨after first, inductionHypothesis⟩

end Micro65
