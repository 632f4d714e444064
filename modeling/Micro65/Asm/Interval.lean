import Micro65.Text.Hex

set_option autoImplicit false

/-!
Closed intervals of values that an expression can still take. Bounds are 64-bit numbers and saturate
at the limits; a saturated bound lies outside every byte and word.
-/

namespace Micro65

def leastBound : Int := -0x8000000000000000

def greatestBound : Int := 0x7FFFFFFFFFFFFFFF

/-- The nearest 64-bit number. -/
def saturate (value : Int) : Int := max leastBound (min value greatestBound)

theorem saturate_of_bounded {value : Int} (low : leastBound ≤ value) (high : value ≤ greatestBound) :
    saturate value = value := by
  unfold saturate
  omega

theorem saturate_mono {value other : Int} (h : value ≤ other) : saturate value ≤ saturate other := by
  unfold saturate
  omega

structure Interval where
  lo : Int
  hi : Int
  deriving DecidableEq, Repr

namespace Interval

/-- The whole address space: nothing is known. -/
def unknown : Interval := ⟨0, 0xFFFF⟩

def point (value : Int) : Interval := ⟨value, value⟩

def isPoint (range : Interval) : Bool := range.lo == range.hi

def value? (range : Interval) : Option Int := if range.isPoint then some range.lo else none

def within (range : Interval) (lo hi : Int) : Bool := lo ≤ range.lo && range.hi ≤ hi

def contains (range : Interval) (value : Int) : Bool := range.lo ≤ value && value ≤ range.hi

/-- Every value of the one interval is a value of the other. -/
def Inside (inner outer : Interval) : Prop := outer.lo ≤ inner.lo ∧ inner.hi ≤ outer.hi

instance (inner outer : Interval) : Decidable (inner.Inside outer) :=
  inferInstanceAs (Decidable (_ ∧ _))

def add (left right : Interval) : Interval :=
  ⟨saturate (left.lo + right.lo), saturate (left.hi + right.hi)⟩

def sub (left right : Interval) : Interval :=
  ⟨saturate (left.lo - right.hi), saturate (left.hi - right.lo)⟩

/-- The extreme products lie among those of the bounds. -/
def mul (left right : Interval) : Interval :=
  let ll := saturate (left.lo * right.lo)
  let lh := saturate (left.lo * right.hi)
  let hl := saturate (left.hi * right.lo)
  let hh := saturate (left.hi * right.hi)
  ⟨min (min ll lh) (min hl hh), max (max ll lh) (max hl hh)⟩

instance : Add Interval := ⟨add⟩
instance : Sub Interval := ⟨sub⟩
instance : Mul Interval := ⟨mul⟩

/-- Low bytes are known only while the whole interval shares one page. -/
def lowByte (range : Interval) : Interval :=
  if range.lo / 256 = range.hi / 256 then ⟨range.lo % 256, range.hi % 256⟩ else ⟨0x00, 0xFF⟩

/-- The page of a value, which is negative for a negative value. -/
def highByte (range : Interval) : Interval := ⟨range.lo / 256, range.hi / 256⟩

/-- Negative values have no place in an address space: a difference of addresses starts at zero. -/
def clampNegative (range : Interval) : Interval :=
  let lo := max range.lo 0
  ⟨lo, max range.hi lo⟩

def text (range : Interval) : String :=
  if range.isPoint then "$" ++ Text.hexNumber range.lo
  else "[$" ++ Text.hexNumber range.lo ++ ", $" ++ Text.hexNumber range.hi ++ "]"

theorem inside_refl (range : Interval) : range.Inside range := ⟨Int.le_refl _, Int.le_refl _⟩

theorem Inside.trans {inner middle outer : Interval} (h : inner.Inside middle)
    (h' : middle.Inside outer) : inner.Inside outer :=
  ⟨Int.le_trans h'.1 h.1, Int.le_trans h.2 h'.2⟩

end Interval
end Micro65
