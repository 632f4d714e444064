import Micro65.Asm.Labels
import Micro65.Proofs.Interval.Narrowing

set_option autoImplicit false

/-!
Label tables under changes of their intervals. A table is within another if it has the same names and
each interval of the one lies inside that of the other.
-/

namespace Micro65.Labels

def names (labels : Labels) : List String := labels.toList.map (·.name)

/-- No name is in the table twice. -/
def Distinct (labels : Labels) : Prop := labels.names.Nodup

def Proper (labels : Labels) : Prop :=
  ∀ name range, labels.get? name = some range → range.Proper

def Within (inner outer : Labels) : Prop :=
  ∀ name, Option.Rel Interval.Inside (inner.get? name) (outer.get? name)

theorem get?_set (labels : Labels) (name other : String) (range : Interval) :
    (labels.set name range).get? other =
      if other = name then (labels.get? name).map fun _ => range else labels.get? other := by
  split
  next same => rw [same, get?_set_self]
  next different => exact get?_set_of_ne labels range different

@[simp] theorem names_set (labels : Labels) (name : String) (range : Interval) :
    (labels.set name range).names = labels.names := by
  simp only [names, set, List.map_map]
  apply List.map_congr_left
  intro label _
  simp only [Function.comp_apply]
  split <;> rfl

theorem isSome_get?_iff (labels : Labels) (name : String) :
    (labels.get? name).isSome ↔ name ∈ labels.names := by
  simp only [get?, find?, Option.isSome_map, List.find?_isSome, beq_iff_eq, names, List.mem_map]

theorem get?_cons (label : Label) (rest : List Label) (name : String) :
    (Labels.mk (label :: rest)).get? name =
      if label.name = name then some label.range else (Labels.mk rest).get? name := by
  unfold get? find?
  rw [List.find?_cons]
  by_cases same : label.name = name
  · simp [same]
  · simp [same, beq_eq_false_iff_ne.2 same]

theorem get?_eq_some_of_mem {labels : Labels} (distinct : labels.Distinct) {label : Label}
    (member : label ∈ labels.toList) : labels.get? label.name = some label.range := by
  obtain ⟨entries⟩ := labels
  induction entries with
  | nil => contradiction
  | cons entry entries inductionHypothesis =>
    simp only [Distinct, names, List.map_cons, List.nodup_cons] at distinct
    rcases List.mem_cons.1 member with rfl | member
    · simp [get?, find?]
    · have other : entry.name ≠ label.name := fun same =>
        distinct.1 (same ▸ List.mem_map_of_mem member)
      have found := inductionHypothesis distinct.2 member
      simpa [get?, find?, other] using found

theorem exists_of_get? {labels : Labels} {name : String} {range : Interval}
    (found : labels.get? name = some range) : ∃ label ∈ labels.toList, label.range = range := by
  obtain ⟨label, held, same⟩ := Option.map_eq_some_iff.1 found
  exact ⟨label, List.mem_of_find?_eq_some held, same⟩

/-- Writing down what the table says already changes nothing. -/
theorem set_eq_self {labels : Labels} (distinct : labels.Distinct) {name : String}
    {range : Interval} (found : labels.get? name = some range) : labels.set name range = labels := by
  have unchanged : ∀ label ∈ labels.toList,
      (if label.name == name then { label with range } else label) = id label := by
    intro label member
    split
    next same =>
      rw [beq_iff_eq] at same
      have held := get?_eq_some_of_mem distinct member
      rw [same, found, Option.some.injEq] at held
      rw [held, id_eq]
    next => rfl
  unfold set
  rw [List.map_congr_left unchanged, List.map_id]

theorem differs_eq_false_iff (labels : Labels) (name : String) (range : Interval) :
    labels.differs name range = false ↔ ∀ held, labels.get? name = some held → held = range := by
  unfold differs
  cases labels.get? name with
  | none => simp
  | some held => simp

theorem Proper.set {labels : Labels} (proper : labels.Proper) (name : String) {range : Interval}
    (new : range.Proper) : (labels.set name range).Proper := by
  intro other held found
  rw [get?_set] at found
  split at found
  · rw [Option.map_eq_some_iff] at found
    obtain ⟨_, _, rfl⟩ := found
    exact new
  · exact proper other held found

/-- Tables with the same names are within one another if their intervals are. -/
theorem within_of_names {inner outer : Labels} (names : inner.names = outer.names)
    (inside : ∀ name range range', inner.get? name = some range → outer.get? name = some range' →
      range.Inside range') : inner.Within outer := by
  intro name
  have known : (inner.get? name).isSome ↔ (outer.get? name).isSome := by
    rw [isSome_get?_iff, isSome_get?_iff, names]
  have each := inside name
  generalize inner.get? name = a at known each ⊢
  generalize outer.get? name = b at known each ⊢
  cases a with
  | none =>
    cases b with
    | none => exact .none
    | some range => simp at known
  | some range =>
    cases b with
    | none => simp at known
    | some range' => exact .some (each range range' rfl rfl)

theorem Within.refl (labels : Labels) : labels.Within labels := by
  intro name
  cases labels.get? name with
  | none => exact .none
  | some range => exact .some range.inside_refl

theorem Within.trans {inner middle outer : Labels} (first : inner.Within middle)
    (second : middle.Within outer) : inner.Within outer := by
  intro name
  have low := first name
  have high := second name
  generalize inner.get? name = a at low ⊢
  generalize middle.get? name = b at low high
  generalize outer.get? name = c at high ⊢
  cases low with
  | none => exact high
  | some inside =>
    cases high with
    | some inside' => exact .some (inside.trans inside')

theorem Within.set {inner outer : Labels} (within : inner.Within outer) (name : String)
    {range range' : Interval} (inside : range.Inside range') :
    (inner.set name range).Within (outer.set name range') := by
  intro other
  rw [get?_set, get?_set]
  split
  next =>
    have same := within name
    generalize inner.get? name = a at same ⊢
    generalize outer.get? name = b at same ⊢
    cases same with
    | none => exact .none
    | some _ => exact .some inside
  next => exact within other

theorem Within.mem_names {inner outer : Labels} (within : inner.Within outer) {name : String}
    {range : Interval} (found : inner.get? name = some range) : name ∈ outer.names := by
  have same := within name
  rw [found] at same
  rw [← isSome_get?_iff]
  generalize outer.get? name = wide at same ⊢
  cases same with
  | some _ => rfl

theorem Within.get? {inner outer : Labels} (within : inner.Within outer) {name : String}
    {range : Interval} (found : outer.get? name = some range) :
    ∃ range', inner.get? name = some range' ∧ range'.Inside range := by
  have same := within name
  rw [found] at same
  generalize inner.get? name = a at same ⊢
  cases same with
  | some inside => exact ⟨_, rfl, inside⟩

/-! ### Tables of one label -/

section Singleton

variable {name : String} {range range' : Interval}

theorem get?_singleton (name other : String) (range : Interval) :
    (ofRanges [(name, range)]).get? other = if name = other then some range else none :=
  get?_cons _ _ _

theorem eq_of_get?_singleton {other : String} {held : Interval}
    (found : (ofRanges [(name, range)]).get? other = some held) : held = range := by
  rw [get?_singleton] at found
  split at found
  · exact (Option.some.inj found).symm
  · contradiction

theorem proper_singleton (proper : range.Proper) : (ofRanges [(name, range)]).Proper :=
  fun _ _ found => eq_of_get?_singleton found ▸ proper

theorem within_singleton (inside : range.Inside range') :
    (ofRanges [(name, range)]).Within (ofRanges [(name, range')]) :=
  within_of_names rfl fun _ _ _ found found' =>
    eq_of_get?_singleton found ▸ eq_of_get?_singleton found' ▸ inside

end Singleton

end Micro65.Labels
