import Micro65.Command.Assemble
import Micro65.Proofs.Assembly.Stores

set_option autoImplicit false

/-!
The views of the memory of an assembly. An assembly is a row of stores, and each view keeps the last
store at every address: where regions overlap, or wrap at the end of memory, all views show the same.
-/

namespace Micro65

namespace Assembly

variable (asm : Assembly)

theorem memory_getElem (address : UInt16) : asm.memory[address.toFin] = asm.byteAt? address := by
  have last := getElem_foldl_set some (.replicate 0x10000 none) asm.bytes address
  simp only [Fin.getElem_fin, Vector.getElem_replicate] at last
  refine last.trans ?_
  change _ = lastStored? asm.bytes address
  cases lastStored? asm.bytes address <;> rfl

theorem image_getElem (address : UInt16) :
    asm.image[address.toFin] = (asm.byteAt? address).getD 0x00 := by
  have last := getElem_foldl_set id (.replicate 0x10000 0) asm.bytes address
  simp only [Fin.getElem_fin, Vector.getElem_replicate, Option.map_id_fun] at last
  exact last

variable (cells : Vector (Option UInt8) 0x10000)

theorem isSome_window_iff (address : UInt16) (length : Nat) :
    (bytesAt?.window cells address length).isSome ↔
      ∀ position < length, (cells[(address + UInt16.ofNat position).toFin]).isSome := by
  induction length generalizing address with
  | zero => simp [bytesAt?.window]
  | succ length inductionHypothesis =>
    have first : address + UInt16.ofNat 0 = address := UInt16.add_zero address
    rw [Nat.forall_lt_succ_left, first, bytesAt?.window]
    cases held : cells[address.toFin] with
    | none => simp
    | some byte => simp [inductionHypothesis, add_one_add_ofNat]

theorem window_getElem {address : UInt16} {length : Nat} {bytes : List UInt8}
    (found : bytesAt?.window cells address length = some bytes) :
    bytes.length = length ∧ ∀ position (inside : position < bytes.length),
      cells[(address + UInt16.ofNat position).toFin] = some bytes[position] := by
  induction length generalizing address bytes with
  | zero =>
    cases found
    simp
  | succ length inductionHypothesis =>
    rw [bytesAt?.window] at found
    split at found
    · contradiction
    next byte held =>
      obtain ⟨rest, others, rfl⟩ := Option.map_eq_some_iff.1 found
      obtain ⟨size, listed⟩ := inductionHypothesis others
      refine ⟨congrArg Nat.succ size, ?_⟩
      intro position inside
      cases position with
      | zero =>
        have first : address + UInt16.ofNat 0 = address := UInt16.add_zero address
        rw [first]
        exact held
      | succ position =>
        rw [← add_one_add_ofNat]
        exact listed position (Nat.lt_of_succ_lt_succ inside)

end Assembly

namespace Image

theorem store_eq_foldl (cells : Vector UInt8 0x10000) (address : UInt16) (bytes : List UInt8) :
    store cells address bytes = (addressed address bytes).foldl
      (fun cells store => cells.set store.1.toNat store.2 store.1.toNat_lt) cells := by
  induction bytes generalizing cells address with
  | nil => rfl
  | cons byte rest inductionHypothesis =>
    rw [store, inductionHypothesis, addressed_cons, List.foldl_cons]

theorem content_eq_image (asm : Assembly) : content asm = asm.image := by
  simp only [content, store_eq_foldl, Assembly.image, Assembly.bytes, Assembly.instructions,
    List.foldl_flatMap]

end Image

/-- All views of an assembly show the same memory: at each address the byte that was stored there last,
whether regions overlap or wrap. Consecutive bytes are found exactly if all of their addresses were
written, and the image has zero where nothing was. -/
theorem Assembly.views_agree (asm : Assembly) :
    (∀ address byte, asm.byteAt? address = some byte ↔ LastStore asm.bytes address byte) ∧
    (∀ address, asm.byteAt? address = none ↔ ∀ store ∈ asm.bytes, store.1 ≠ address) ∧
    (∀ address, asm.memory[address.toFin] = asm.byteAt? address) ∧
    (∀ address, asm.image[address.toFin] = (asm.byteAt? address).getD 0x00) ∧
    (∀ address length, (asm.bytesAt? address length).isSome ↔
      ∀ position < length, (asm.byteAt? (address + UInt16.ofNat position)).isSome) ∧
    (∀ address length bytes, asm.bytesAt? address length = some bytes → bytes.length = length ∧
      ∀ position (inside : position < bytes.length),
        asm.byteAt? (address + UInt16.ofNat position) = some bytes[position]) ∧
    (Command.Assembling.render .image asm).size = 0x10000 ∧
    (Command.Assembling.render .image asm).data = asm.image.toArray := by
  refine ⟨fun _ _ => lastStored?_eq_some_iff, fun _ => lastStored?_eq_none_iff, asm.memory_getElem,
    asm.image_getElem, ?_, ?_, ?_, ?_⟩
  · intro address length
    simp only [← asm.memory_getElem]
    exact isSome_window_iff asm.memory address length
  · intro address length bytes found
    simp only [← asm.memory_getElem]
    exact window_getElem asm.memory found
  · exact (Image.content asm).size_toArray
  · exact congrArg Vector.toArray (Image.content_eq_image asm)

end Micro65
