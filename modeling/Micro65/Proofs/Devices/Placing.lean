import Micro65.Proofs.Devices.Block

set_option autoImplicit false

/-!
Images in blocks. An image that fits is found in the block from its offset on, and around it the block is as
it was; of an image of the whole address space each cell takes the byte of its own address. Any other image is
refused, as too large or because its end is no 64-bit number.
-/

namespace Micro65

theorem Span.length_le (span : Span) : span.length ≤ Block.fullImage := by
  have bound := span.last.toNat_lt
  unfold length Block.fullImage
  omega

theorem Span.sub_first_lt_length {span : Span} {address : UInt16} (low : span.first ≤ address)
    (high : address ≤ span.last) : address.toNat - span.first.toNat < span.length := by
  rw [UInt16.le_iff_toNat_le] at low high
  unfold length
  omega

namespace Block

/-- A byte is put into every cell that the data reach. -/
theorem getElem?_fill {size : Nat} (cells : Vector UInt8 size) (offset : Nat) (data : List UInt8)
    (cell : Nat) :
    (fill cells offset data)[cell]? =
      if offset ≤ cell ∧ cell < offset + data.length ∧ cell < size then data[cell - offset]?
      else cells[cell]? := by
  induction data generalizing cells offset with
  | nil =>
    rw [fill, if_neg]
    rw [List.length_nil]
    omega
  | cons byte rest inductionHypothesis =>
    rw [fill, inductionHypothesis, List.length_cons]
    rcases Nat.lt_trichotomy cell offset with before | same | behind
    · rw [if_neg (by omega), if_neg (by omega), Vector.getElem?_setIfInBounds_ne (by omega)]
    · subst same
      rw [if_neg (by omega), Vector.getElem?_setIfInBounds_self]
      by_cases inside : cell < size
      · rw [if_pos inside, if_pos (by omega), Nat.sub_self, List.getElem?_cons_zero]
      · rw [if_neg inside, if_neg (by omega), Vector.getElem?_eq_none (Nat.le_of_not_lt inside)]
    · rw [Vector.getElem?_setIfInBounds_ne (by omega)]
      obtain ⟨position, rfl⟩ := Nat.exists_eq_add_of_lt behind
      have next : offset + position + 1 - (offset + 1) = position := by omega
      have whole : offset + position + 1 - offset = position + 1 := by omega
      simp only [next, whole, List.getElem?_cons_succ]
      congr 1
      simp only [eq_iff_iff]
      omega

theorem get?_eq_getElem? {block : Block} {address : UInt16} (low : block.span.first ≤ address)
    (high : address ≤ block.span.last) :
    block.get? address = block.cells[address.toNat - block.span.first.toNat]? := by
  obtain ⟨offset, found⟩ :=
    Option.isSome_iff_exists.1 ((block.span.isSome_offset?_iff address).2 ⟨low, high⟩)
  have position : address.toNat - block.span.first.toNat = offset.val := by
    have := Span.toNat_of_offset? found
    omega
  rw [get?_of_offset? found, position, Vector.getElem?_eq_getElem offset.isLt]
  rfl

/-- The second block is the first one with bytes laid in, the first of them `offset` cells into it. -/
structure Overlaid (before : Block) (offset : Nat) (data : List UInt8) (after : Block) : Prop where
  span : after.span = before.span
  inside : ∀ index < data.length, after.cells[offset + index]? = data[index]?
  outside : ∀ cell, cell < offset ∨ offset + data.length ≤ cell → after.cells[cell]? = before.cells[cell]?

variable {block : Block} {data : List UInt8} {offset : Nat}

theorem overlaid_fill (fits : offset + data.length ≤ block.span.length) :
    block.Overlaid offset data { block with cells := fill block.cells offset data } := by
  refine ⟨rfl, fun index inside => ?_, fun cell outside => ?_⟩
  · change (fill block.cells offset data)[offset + index]? = _
    rw [getElem?_fill, if_pos (by omega), Nat.add_sub_cancel_left]
  · change (fill block.cells offset data)[cell]? = _
    rw [getElem?_fill, if_neg (by omega)]

theorem load_of_fits (fits : offset + data.length ≤ block.span.length) :
    ∃ after, block.load data offset = .ok after ∧ block.Overlaid offset data after := by
  have small : ¬UInt64.size ≤ offset + data.length := by
    have bound := block.span.length_le
    unfold fullImage at bound
    unfold UInt64.size
    omega
  refine ⟨_, ?_, overlaid_fill fits⟩
  rw [load, if_neg small, if_neg (Nat.not_lt.2 fits)]

theorem load_of_exceeds (exceeds : block.span.length < offset + data.length) :
    block.load data offset = .error
      (if UInt64.size ≤ offset + data.length then .endOverflow
        else .tooLarge data.length block.span.first block.span.last) := by
  rw [load, if_pos exceeds]
  split <;> rfl

/-- Of an image of the whole address space each cell takes the byte of its own address. -/
theorem place_full (full : data.length = fullImage) :
    ∃ after, block.place data none = .ok after ∧ after.span = block.span ∧
      ∀ address, block.span.first ≤ address → address ≤ block.span.last →
        after.get? address = data[address.toNat]? := by
  let part := (data.drop block.span.first.toNat).take block.span.length
  have covered : part.length = block.span.length := by
    have ordered := UInt16.le_iff_toNat_le.1 block.span.ordered
    have bound := block.span.last.toNat_lt
    rw [List.length_take, List.length_drop, full, fullImage, Span.length]
    omega
  have fits : 0 + part.length ≤ block.span.length := by omega
  obtain ⟨after, loaded, overlaid⟩ := load_of_fits fits
  refine ⟨after, ?_, overlaid.span, fun address low high => ?_⟩
  · exact (if_pos full).trans loaded
  · have inside := Span.sub_first_lt_length low high
    have first : after.span.first = block.span.first := congrArg Span.first overlaid.span
    have cell := overlaid.inside _ (covered ▸ inside)
    rw [Nat.zero_add] at cell
    rw [get?_eq_getElem? (overlaid.span ▸ low) (overlaid.span ▸ high), first, cell,
      List.getElem?_take_of_lt inside, List.getElem?_drop,
      Nat.add_sub_cancel' (UInt16.le_iff_toNat_le.1 low)]

/-- Any other image is loaded where its offset is, or else so that it ends with the block. -/
theorem place_eq_load {offset : Option Nat} (other : ¬(offset = none ∧ data.length = fullImage)) :
    block.place data offset = block.load data (offset.getD (block.span.length - data.length)) := by
  cases offset with
  | none => exact if_neg fun full => other ⟨rfl, full⟩
  | some offset => rfl

/-- Placing an image is exact. With no offset and a byte for each address, every cell takes the byte of its
address. Otherwise the image goes to its offset, or to the end of the block, if it fits there: its bytes are in
the cells from there on, and all other cells are as they were. If it does not fit it is too large for the
block, except that an end that is no 64-bit number is an error of its own. -/
theorem place_exact (block : Block) (data : List UInt8) (offset : Option Nat) :
    let start := offset.getD (block.span.length - data.length)
    (offset = none ∧ data.length = fullImage →
      ∃ after, block.place data offset = .ok after ∧ after.span = block.span ∧
        ∀ address, block.span.first ≤ address → address ≤ block.span.last →
          after.get? address = data[address.toNat]?) ∧
    (¬(offset = none ∧ data.length = fullImage) →
      (start + data.length ≤ block.span.length →
        ∃ after, block.place data offset = .ok after ∧ block.Overlaid start data after) ∧
      (block.span.length < start + data.length → start + data.length < UInt64.size →
        block.place data offset = .error (.tooLarge data.length block.span.first block.span.last)) ∧
      (UInt64.size ≤ start + data.length → block.place data offset = .error .endOverflow)) := by
  intro start
  refine ⟨?_, fun other => ?_⟩
  · rintro ⟨rfl, full⟩
    exact place_full full
  · rw [place_eq_load other]
    refine ⟨load_of_fits, fun exceeds below => ?_, fun above => ?_⟩
    · rw [load_of_exceeds exceeds, if_neg (Nat.not_le.2 below)]
    · have exceeds : block.span.length < start + data.length := by
        have bound := block.span.length_le
        unfold fullImage at bound
        unfold UInt64.size at above
        omega
      rw [load_of_exceeds exceeds, if_pos above]

/-- The vectors at the end of memory: a full image gives its last bytes, two bytes fill the block from behind,
and one cell further they do not fit. -/
theorem place_exact_vectors : ∃ (block full after : Block) (image : List UInt8),
    block.span.first = 0xFFFC ∧ block.span.last = 0xFFFF ∧ image.length = fullImage ∧
    block.place image none = .ok full ∧ full.get? 0xFFFF = image[0xFFFF]? ∧
    block.place [0x00, 0x80] none = .ok after ∧ block.Overlaid 2 [0x00, 0x80] after ∧
    after.cells[3]? = some 0x80 ∧ after.cells[1]? = block.cells[1]? ∧
    block.place [0x00, 0x80] (some 3) = .error (.tooLarge 2 0xFFFC 0xFFFF) := by
  let block : Block := .empty ⟨0xFFFC, 0xFFFF, by decide⟩
  let image : List UInt8 := List.replicate fullImage 0xEA
  have length : image.length = fullImage := List.length_replicate
  obtain ⟨full, placedFull, -, bytes⟩ := (place_exact block image none).1 ⟨rfl, length⟩
  obtain ⟨fits, -, -⟩ := (place_exact block [0x00, 0x80] none).2 (by decide)
  obtain ⟨-, exceeds, -⟩ := (place_exact block [0x00, 0x80] (some 3)).2 (by decide)
  obtain ⟨after, placed, overlaid⟩ := fits (by decide)
  have start : (none : Option Nat).getD (block.span.length - [(0x00 : UInt8), 0x80].length) = 2 := by
    decide
  rw [start] at overlaid
  have refused : block.place [0x00, 0x80] (some 3) = .error (.tooLarge 2 0xFFFC 0xFFFF) :=
    exceeds (by decide) (by decide +kernel)
  exact ⟨block, full, after, image, rfl, rfl, length, placedFull, bytes 0xFFFF (by decide) (by decide),
    placed, overlaid, overlaid.inside 1 (by decide), overlaid.outside 1 (.inl (by decide)),
    refused⟩

/-- A byte far behind the block, so far that its end is no 64-bit number. -/
theorem place_past_all_numbers :
    let block : Block := .empty ⟨0xFFFF, 0xFFFF, by decide⟩
    let offset := 0xFFFFFFFFFFFFFFFF
    offset < UInt64.size ∧ block.span.length < offset + [(0x01 : UInt8)].length ∧
      block.place [0x01] (some offset) = .error .endOverflow ∧
      block.place [0x01] (some offset) ≠ .error (.tooLarge 1 0xFFFF 0xFFFF) := by
  intro block offset
  have overflows : block.place [0x01] (some offset) = .error .endOverflow := rfl
  refine ⟨by decide, by decide, overflows, ?_⟩
  rw [overflows]
  exact nofun

end Block
end Micro65
