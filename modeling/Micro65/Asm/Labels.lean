import Micro65.Asm.Error
import Micro65.Asm.Interval

set_option autoImplicit false

/-!
The label table: each name has the position of its definition and the interval of addresses it can
still take. Names keep the order in which they were defined.
-/

namespace Micro65

structure Label where
  name : String
  position : Position
  range : Interval
  deriving DecidableEq, Repr

structure Labels where
  toList : List Label
  deriving DecidableEq, Repr

namespace Labels

def empty : Labels := ⟨[]⟩

def find? (labels : Labels) (name : String) : Option Label :=
  labels.toList.find? (·.name == name)

def get? (labels : Labels) (name : String) : Option Interval := (labels.find? name).map (·.range)

def position? (labels : Labels) (name : String) : Option Position :=
  (labels.find? name).map (·.position)

def contains (labels : Labels) (name : String) : Bool := (labels.find? name).isSome

def push (labels : Labels) (label : Label) : Labels := ⟨labels.toList ++ [label]⟩

/-- Registers a new name as unknown. A name that is taken keeps its definition, whose position is
returned. -/
def insert (labels : Labels) (name : String) (position : Position) : Labels × Option Position :=
  match labels.position? name with
  | some taken => (labels, some taken)
  | none => (labels.push ⟨name, position, .unknown⟩, none)

/-- Gives a name a new interval; a name that is not in the table is ignored. -/
def set (labels : Labels) (name : String) (range : Interval) : Labels :=
  ⟨labels.toList.map fun label => if label.name == name then { label with range } else label⟩

/-- The interval of a name is there and differs from `range`. -/
def differs (labels : Labels) (name : String) (range : Interval) : Bool :=
  match labels.get? name with
  | some current => current != range
  | none => false

/-- Names with their intervals, in the order of definition. -/
def ranges (labels : Labels) : List (String × Interval) :=
  labels.toList.map fun label => (label.name, label.range)

/-- A table of intervals without positions. Of equal names the last interval holds, at the place of
the first. -/
def ofRanges (ranges : List (String × Interval)) : Labels :=
  ranges.foldl add empty
where
  add (labels : Labels) (entry : String × Interval) : Labels :=
    if labels.contains entry.1 then labels.set entry.1 entry.2
    else labels.push ⟨entry.1, ⟨"", 0⟩, entry.2⟩

theorem get?_set_self (labels : Labels) (name : String) (range : Interval) :
    (labels.set name range).get? name = (labels.get? name).map fun _ => range := by
  obtain ⟨entries⟩ := labels
  induction entries with
  | nil => rfl
  | cons entry entries ih =>
    by_cases h : entry.name = name
    · simp [get?, find?, set, h]
    · simpa [get?, find?, set, h] using ih

theorem get?_set_of_ne (labels : Labels) {name other : String} (range : Interval)
    (different : other ≠ name) : (labels.set name range).get? other = labels.get? other := by
  obtain ⟨entries⟩ := labels
  induction entries with
  | nil => rfl
  | cons entry entries ih =>
    simp only [get?, find?, set, List.map_cons, List.find?_cons] at ih ⊢
    grind

end Labels
end Micro65
