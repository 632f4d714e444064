import Mathlib.Data.List.Basic
import Mathlib.Data.List.Induction
import Micro65.Asm.Assembly

set_option autoImplicit false

/-!
Rows of stores, each a byte with its address. The bytes of an instruction go to consecutive addresses,
which wrap at the end of memory; of several stores at one address the last one counts.
-/

namespace Micro65

theorem add_one_add_ofNat (address : UInt16) (position : Nat) :
    address + 1 + UInt16.ofNat position = address + UInt16.ofNat (position + 1) := by
  rw [UInt16.add_assoc, ← UInt16.ofNat_one, ← UInt16.ofNat_add, Nat.add_comm]

@[simp] theorem addressed_nil (address : UInt16) : addressed address [] = [] := rfl

/-- The bytes behind the first one begin at the next address. -/
@[simp] theorem addressed_cons (address : UInt16) (byte : UInt8) (rest : List UInt8) :
    addressed address (byte :: rest) = (address, byte) :: addressed (address + 1) rest := by
  have first : address + UInt16.ofNat 0 = address := UInt16.add_zero address
  simp only [addressed, List.mapIdx_cons, first, add_one_add_ofNat]

theorem mem_addressed_iff {bytes : List UInt8} {address other : UInt16} :
    other ∈ (addressed address bytes).map (·.1) ↔
      ∃ position < bytes.length, other = address + UInt16.ofNat position := by
  constructor
  · intro member
    obtain ⟨store, indexed, rfl⟩ := List.mem_map.1 member
    obtain ⟨position, inside, rfl⟩ := List.mem_mapIdx.1 indexed
    exact ⟨position, inside, rfl⟩
  · rintro ⟨position, inside, rfl⟩
    exact List.mem_map.2 ⟨_, List.mem_mapIdx.2 ⟨position, inside, rfl⟩, rfl⟩

/-- The stores of the instruction of a line, if there is one. -/
def Line.stores (line : Line) : List (UInt16 × UInt8) :=
  line.instruction.toList.flatMap fun inst => addressed inst.address inst.bytes

theorem Assembly.bytes_eq_flatMap (asm : Assembly) :
    asm.bytes = asm.files.flatMap fun file => file.lines.flatMap Line.stores := by
  simp only [bytes, instructions, SourceFile.instructions, List.filterMap_eq_flatMap_toList,
    List.flatMap_assoc]
  rfl

variable {stores : List (UInt16 × UInt8)} {address : UInt16} {byte : UInt8}

/-- The byte is stored at the address, and nothing is stored there afterwards. -/
def LastStore (stores : List (UInt16 × UInt8)) (address : UInt16) (byte : UInt8) : Prop :=
  ∃ before after, stores = before ++ (address, byte) :: after ∧ ∀ store ∈ after, store.1 ≠ address

def lastStored? (stores : List (UInt16 × UInt8)) (address : UInt16) : Option UInt8 :=
  ((stores.filter (·.1 == address)).map (·.2)).getLast?

@[simp] theorem lastStored?_nil (address : UInt16) : lastStored? [] address = none := rfl

@[simp] theorem lastStored?_concat (stores : List (UInt16 × UInt8)) (store : UInt16 × UInt8)
    (address : UInt16) : lastStored? (stores ++ [store]) address =
      if store.1 = address then some store.2 else lastStored? stores address := by
  unfold lastStored?
  by_cases same : store.1 = address <;> simp [same]

theorem lastStored?_eq_none_iff :
    lastStored? stores address = none ↔ ∀ store ∈ stores, store.1 ≠ address := by
  simp [lastStored?]

theorem lastStored?_eq_some_iff :
    lastStored? stores address = some byte ↔ LastStore stores address byte := by
  constructor
  · intro last
    induction stores using List.reverseRecOn with
    | nil => simp at last
    | append_singleton stores store inductionHypothesis =>
      by_cases same : store.1 = address
      · simp only [lastStored?_concat, same, if_true, Option.some.injEq] at last
        exact ⟨stores, [], by rw [← same, ← last], by simp⟩
      · simp only [lastStored?_concat, same, if_false] at last
        obtain ⟨before, after, rfl, silent⟩ := inductionHypothesis last
        refine ⟨before, after ++ [store], by simp, ?_⟩
        intro other member
        rcases List.mem_append.1 member with member | member
        · exact silent other member
        · rw [List.mem_singleton.1 member]
          exact same
  · rintro ⟨before, after, rfl, silent⟩
    induction after using List.reverseRecOn with
    | nil => simp
    | append_singleton after store inductionHypothesis =>
      have different : store.1 ≠ address := silent store (by simp)
      have earlier := inductionHypothesis fun other member => silent other (by simp [member])
      rw [← List.cons_append, ← List.append_assoc, lastStored?_concat, if_neg different]
      exact earlier

/-- Cells into which stores have been written hold the last of them. -/
theorem getElem_foldl_set {α : Type} (content : UInt8 → α) (cells : Vector α 0x10000)
    (stores : List (UInt16 × UInt8)) (address : UInt16) :
    (stores.foldl (fun cells store => cells.set store.1.toNat (content store.2) store.1.toNat_lt)
      cells)[address.toFin] = ((lastStored? stores address).map content).getD cells[address.toFin] := by
  induction stores using List.reverseRecOn with
  | nil => rfl
  | append_singleton stores store inductionHypothesis =>
    simp only [List.foldl_append, List.foldl_cons, List.foldl_nil, lastStored?_concat,
      Fin.getElem_fin, UInt16.toFin_val, Vector.getElem_set] at inductionHypothesis ⊢
    by_cases same : store.1 = address
    · simp [same]
    · have apart : store.1.toNat ≠ address.toNat := fun equal => same (UInt16.toNat_inj.1 equal)
      rw [if_neg apart, if_neg same]
      exact inductionHypothesis

end Micro65
