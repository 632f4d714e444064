import Micro65.Text.Hex

set_option autoImplicit false

/-!
Ranges of addresses, both ends included.
-/

namespace Micro65

structure Span where
  first : UInt16
  last : UInt16
  ordered : first ≤ last

/-- A range that ends before it starts. -/
structure InvertedRange where
  first : UInt16
  last : UInt16
  deriving DecidableEq, Repr

def InvertedRange.message (range : InvertedRange) : String :=
  "Address range $" ++ Text.hexWord range.first ++ "-$" ++ Text.hexWord range.last ++ " is inverted"

namespace Span

def make (first last : UInt16) : Except InvertedRange Span :=
  if ordered : first ≤ last then .ok ⟨first, last, ordered⟩ else .error ⟨first, last⟩

def length (span : Span) : Nat := span.last.toNat - span.first.toNat + 1

/-- Position of an address in the range. -/
def offset? (span : Span) (address : UInt16) : Option (Fin span.length) :=
  if inside : span.first ≤ address ∧ address ≤ span.last then
    some ⟨address.toNat - span.first.toNat, by
      have low := UInt16.le_iff_toNat_le.mp inside.1
      have high := UInt16.le_iff_toNat_le.mp inside.2
      unfold length
      omega⟩
  else none

def text (span : Span) : String := "$" ++ Text.hexWord span.first ++ "-$" ++ Text.hexWord span.last

theorem isSome_offset?_iff (span : Span) (address : UInt16) :
    (span.offset? address).isSome ↔ span.first ≤ address ∧ address ≤ span.last := by
  unfold offset?
  split <;> simp_all

end Span
end Micro65
