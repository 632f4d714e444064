import Micro65.Proofs.Expr.Bounds
import Micro65.Proofs.Layout.Discovery
import Micro65.Proofs.Layout.Narrowing

set_option autoImplicit false

/-!
Programs that have a layout. A program is realized by an assignment of addresses to its labels if a
cursor that starts at zero, and moves by the sizes that the instructions have under the assignment,
comes to every label at its address.
-/

namespace Micro65

/-- The table of an assignment: each label of the program at its one address. -/
def Labels.assigned (addresses : String → UInt16) (program : List Instruction) : Labels :=
  ⟨(program.filterMap Instruction.label).map fun name =>
    ⟨name, ⟨"", 0⟩, .point (addresses name).toNat⟩⟩

/-- The instruction takes up so many bytes under the table: `DATA` as many as its value needs, the
others as many as the mode of their operand asks for. -/
inductive Instruction.Takes (labels : Labels) (inst : Instruction) : Int → Prop where
  | data {operand value} :
      inst.kind = .data → inst.operand = some operand →
      operand.range labels = .ok (.point value) → 0 ≤ value → value ≤ 0xFFFF →
      Takes labels inst (dataWidth value)
  | bare {size : Nat} :
      inst.kind ≠ .data → inst.operand = none → inst.kind.size? none = some size →
      Takes labels inst size
  | moded {operand mode param} {size : Nat} :
      inst.kind ≠ .data → inst.operand = some operand →
      operand.mode labels = .ok (mode, param) → inst.kind.size? (some mode) = some size →
      Takes labels inst size

/-- The instruction moves the cursor so under the table, and its label says where it was. -/
inductive Instruction.Leads (labels : Labels) (inst : Instruction) (cursor : Int) : Int → Prop where
  | base {operand target} :
      inst.kind = .base → inst.operand = some operand →
      operand.range labels = .ok (.point target) → Leads labels inst cursor target
  | placed {size} :
      inst.kind ≠ .base →
      (∀ name, inst.label = some name → labels.get? name = some (.point cursor)) →
      inst.Takes labels size → Leads labels inst cursor (cursor + size)

/-- The program, laid out from the cursor on, has its labels where the table says. -/
inductive Realized (labels : Labels) : Int → List Instruction → Prop where
  | nil {cursor} : Realized labels cursor []
  | cons {cursor next inst rest} :
      inst.Leads labels cursor next → Realized labels next rest →
      Realized labels cursor (inst :: rest)

/-- The label that is known once a walk has come to the instruction. -/
def Instruction.stamped (inst : Instruction) : List String :=
  if inst.kind = .base then [] else inst.label.toList

/-- `BASE` and `DATA` lines mention only labels that are stamped by then, given those that are known
before the program. -/
def LooksBack (known : List String) : List Instruction → Prop
  | [] => True
  | inst :: rest =>
    (inst.kind = .base ∨ inst.kind = .data → ∀ operand, inst.operand = some operand →
      operand.labels ⊆ known ++ inst.stamped) ∧ LooksBack (known ++ inst.stamped) rest

namespace Labels

variable {addresses : String → UInt16} {program : List Instruction}

theorem names_assigned (addresses : String → UInt16) (program : List Instruction) :
    (assigned addresses program).names = program.filterMap Instruction.label := by
  simp [names, assigned, List.map_map, Function.comp_def]

theorem eq_of_get?_assigned {name : String} {range : Interval}
    (held : (assigned addresses program).get? name = some range) :
    range = .point (addresses name).toNat := by
  obtain ⟨label, found, rfl⟩ := Option.map_eq_some_iff.1 held
  have same := List.find?_some found
  obtain ⟨other, -, rfl⟩ := List.mem_map.1 (List.mem_of_find?_eq_some found)
  rw [beq_iff_eq] at same
  rw [← same]

theorem proper_assigned : (assigned addresses program).Proper := by
  intro name range held
  rw [eq_of_get?_assigned held]
  exact Interval.proper_point _

theorem bounded_assigned : (assigned addresses program).Bounded := by
  intro name range held
  rw [eq_of_get?_assigned held]
  exact Interval.bounded_word _

/-- An assignment to the labels that discovery has found is within what is known of them. -/
theorem Unknown.assigned_within {labels : Labels} (unknown : labels.Unknown)
    (names : labels.names = program.filterMap Instruction.label) :
    (assigned addresses program).Within labels := by
  refine within_of_names (by rw [names_assigned, names]) fun name range range' held held' => ?_
  have bounded := (addresses name).toNat_lt
  rw [unknown name range' held', eq_of_get?_assigned held]
  change 0 ≤ ((addresses name).toNat : Int) ∧ ((addresses name).toNat : Int) ≤ 0xFFFF
  omega

/-- A table that allows for the inner one still does after a stamp that allows for it. -/
theorem Within.stamp_right {inner outer : Labels} (within : inner.Within outer)
    {label : Option String} {range narrow : Interval} (inside : narrow.Inside range)
    (held : ∀ name, label = some name → inner.get? name = some narrow) :
    inner.Within (outer.stamp label range) := by
  cases label with
  | none => exact within
  | some name =>
    intro other
    rw [Labels.stamp, get?_set]
    split
    next same =>
      have own := within name
      rw [held name rfl] at own
      rw [same, held name rfl]
      generalize outer.get? name = wide at own ⊢
      cases own with
      | some _ => exact .some inside
    next => exact within other

end Labels

namespace Instruction.Takes

variable {labels : Labels} {inst : Instruction} {size : Int}

theorem of_data (takes : inst.Takes labels size) (kind : inst.kind = .data) : ∃ operand value,
    inst.operand = some operand ∧ operand.range labels = .ok (.point value) ∧ 0 ≤ value ∧
      value ≤ 0xFFFF ∧ size = dataWidth value := by
  cases takes with
  | data _ given evaluated low high => exact ⟨_, _, given, evaluated, low, high, rfl⟩
  | bare notData => exact absurd kind notData
  | moded notData => exact absurd kind notData

theorem nonneg (takes : inst.Takes labels size) : 0 ≤ size := by
  cases takes with
  | data =>
    unfold dataWidth
    split <;> omega
  | bare => omega
  | moded => omega

end Instruction.Takes

/-! ### Programs with the same code -/

section Code

variable {labels : Labels} {inst other : Instruction} {cursor next size : Int}

theorem Instruction.Takes.congr (takes : inst.Takes labels size) (code : inst.SameCode other) :
    other.Takes labels size := by
  cases takes with
  | data data given evaluated low high =>
    exact .data (code.kind ▸ data) (code.operand ▸ given) evaluated low high
  | bare notData given sized =>
    exact .bare (code.kind ▸ notData) (code.operand ▸ given) (code.kind ▸ sized)
  | moded notData given chosen sized =>
    exact .moded (code.kind ▸ notData) (code.operand ▸ given) chosen (code.kind ▸ sized)

theorem Instruction.Leads.congr (leads : inst.Leads labels cursor next)
    (code : inst.SameCode other) : other.Leads labels cursor next := by
  cases leads with
  | base base given evaluated => exact .base (code.kind ▸ base) (code.operand ▸ given) evaluated
  | placed notBase labelled takes =>
    exact .placed (code.kind ▸ notBase) (code.label ▸ labelled) (takes.congr code)

theorem Realized.congr {program program' : List Instruction}
    (realized : Realized labels cursor program)
    (code : List.Forall₂ Instruction.SameCode program program') :
    Realized labels cursor program' := by
  induction realized generalizing program' with
  | nil =>
    cases code
    exact .nil
  | cons leads _ inductionHypothesis =>
    cases code with
    | cons same code => exact .cons (leads.congr same) (inductionHypothesis code)

theorem LooksBack.congr {known : List String} {program program' : List Instruction}
    (looksBack : LooksBack known program)
    (code : List.Forall₂ Instruction.SameCode program program') : LooksBack known program' := by
  induction code generalizing known with
  | nil => trivial
  | @cons inst other _ _ same _ inductionHypothesis =>
    have stamped : other.stamped = inst.stamped := by
      rw [Instruction.stamped, Instruction.stamped, same.kind, same.label]
    rw [LooksBack, stamped, ← same.kind, ← same.operand]
    exact ⟨looksBack.1, inductionHypothesis looksBack.2⟩

end Code

end Micro65
