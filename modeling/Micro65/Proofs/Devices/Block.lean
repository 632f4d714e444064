import Micro65.Devices.Block

set_option autoImplicit false

/-!
Cells of a block. What is written to an address is read back there, and everywhere else nothing changes.
-/

namespace Micro65

namespace Span

theorem toNat_of_offset? {span : Span} {address : UInt16} {offset : Fin span.length}
    (found : span.offset? address = some offset) :
    address.toNat = span.first.toNat + offset.val := by
  unfold offset? at found
  split at found
  next inside =>
    have low := UInt16.le_iff_toNat_le.1 inside.1
    rw [Option.some.injEq] at found
    rw [← found]
    exact (Nat.add_sub_cancel' low).symm
  next => contradiction

end Span

namespace Block

variable {span : Span} {cells : Vector UInt8 span.length} {address : UInt16}

theorem get?_of_offset? {offset : Fin span.length} (found : span.offset? address = some offset) :
    (⟨span, cells⟩ : Block).get? address = some cells[offset] := by
  change (span.offset? address).map _ = _
  rw [found]
  rfl

theorem exists_get?_of_mem (block : Block) {address : UInt16} (low : block.span.first ≤ address)
    (high : address ≤ block.span.last) : ∃ value, block.get? address = some value := by
  obtain ⟨offset, found⟩ :=
    Option.isSome_iff_exists.1 ((block.span.isSome_offset?_iff address).2 ⟨low, high⟩)
  exact ⟨_, get?_of_offset? found⟩

theorem get?_eq_none_of_outside {block : Block} {address : UInt16}
    (outside : ¬(block.span.first ≤ address ∧ address ≤ block.span.last)) : block.get? address = none := by
  rw [← block.span.isSome_offset?_iff, Option.not_isSome_iff_eq_none] at outside
  exact Option.map_eq_none_iff.2 outside

/-- A block starts out with nothing but zeros. -/
theorem eq_zero_of_get?_empty {value : UInt8} (held : (empty span).get? address = some value) :
    value = 0x00 := by
  obtain ⟨offset, -, rfl⟩ := Option.map_eq_some_iff.1 held
  exact Vector.getElem_replicate _

theorem set_of_offset? {offset : Fin span.length} (found : span.offset? address = some offset)
    (data : UInt8) :
    (⟨span, cells⟩ : Block).set address data = ⟨span, cells.set offset data offset.isLt⟩ := by
  unfold set
  dsimp only
  split
  next found' =>
    rw [found] at found'
    cases found'
    rfl
  next missing =>
    rw [found] at missing
    contradiction

theorem set_of_outside (outside : span.offset? address = none) (data : UInt8) :
    (⟨span, cells⟩ : Block).set address data = ⟨span, cells⟩ := by
  unfold set
  dsimp only
  split
  next found =>
    rw [outside] at found
    contradiction
  next => rfl

/-- A cell keeps its byte while other addresses are written. -/
theorem get?_set_of_some {block : Block} {value : UInt8} (held : block.get? address = some value)
    (written : UInt16) (data : UInt8) :
    (block.set written data).get? address = some (if address = written then data else value) := by
  obtain ⟨span, cells⟩ := block
  obtain ⟨offset, found, rfl⟩ := Option.map_eq_some_iff.1 held
  change span.offset? address = some offset at found
  have position := Span.toNat_of_offset? found
  cases place : span.offset? written with
  | none =>
    have different : address ≠ written := by
      rintro rfl
      rw [found] at place
      contradiction
    rw [set_of_outside place, get?_of_offset? found, if_neg different]
  | some other =>
    have position' := Span.toNat_of_offset? place
    rw [set_of_offset? place, get?_of_offset? found, Option.some.injEq]
    change (cells.set other.val data other.isLt)[offset.val] = _
    rw [Vector.getElem_set]
    by_cases same : address = written
    · have equal : other.val = offset.val := by
        subst same
        omega
      rw [if_pos equal, if_pos same]
    · have unequal : other.val ≠ offset.val := by
        intro equal
        exact same (UInt16.toNat_inj.1 (by omega))
      rw [if_neg unequal, if_neg same]
      rfl

/-- Which addresses a block answers for is a matter of its range. -/
theorem get?_eq_none_iff (block : Block) (address : UInt16) :
    block.get? address = none ↔ block.span.offset? address = none := Option.map_eq_none_iff

theorem span_set (block : Block) (written : UInt16) (data : UInt8) :
    (block.set written data).span = block.span := by
  cases place : block.span.offset? written with
  | none => rw [set_of_outside place]
  | some offset => rw [set_of_offset? place]

/-- Writing to one address leaves what is read at the others. -/
theorem get?_set_of_ne {other : UInt16} (different : address ≠ other) (block : Block) (data : UInt8) :
    (block.set other data).get? address = block.get? address := by
  cases held : block.get? address with
  | some value => rw [get?_set_of_some held, if_neg different]
  | none =>
    rw [get?_eq_none_iff] at held ⊢
    rwa [span_set]

end Block

end Micro65
