import Micro65.Text.Hex
import Micro65.Text.Lines

set_option autoImplicit false

/-!
Texts written line by line. Such a text reads back as its lines, but for a carriage return at the end of
one; and no line of any text holds a line feed.
-/

namespace Micro65.Text

/-- A line without the carriage return that may stand before its line feed. -/
def withoutReturn (line : List Char) : List Char :=
  if line.getLast? = some '\r' then line.dropLast else line

theorem withoutReturn_concat (line : List Char) (last : Char) :
    withoutReturn (line ++ [last]) = if last = '\r' then line else line ++ [last] := by
  simp [withoutReturn]

/-- What stands before a character that is no carriage return stays. -/
theorem withoutReturn_append {c : Char} (before rest : List Char) (other : c ≠ '\r') :
    ∃ rest', withoutReturn (before ++ c :: rest) = before ++ c :: rest' := by
  rcases List.eq_nil_or_concat rest with rfl | ⟨rest, last, rfl⟩
  · exact ⟨[], by rw [withoutReturn_concat, if_neg other]⟩
  · rw [List.concat_eq_append, ← List.cons_append, ← List.append_assoc, withoutReturn_concat]
    split
    · exact ⟨rest, rfl⟩
    · exact ⟨rest ++ [last], by simp⟩

theorem lineLists_go_lineFeed (line rest : List Char) :
    lineLists.go line ('\n' :: rest) = withoutReturn line.reverse :: lineLists.go [] rest := by
  cases line with
  | nil => rfl
  | cons last line =>
    rw [List.reverse_cons, withoutReturn_concat]
    by_cases carriage : last = '\r'
    · rw [carriage]
      rfl
    · rw [if_neg carriage, ← List.reverse_cons, lineLists.go]
      rintro _ ⟨⟩
      exact carriage rfl

theorem lineLists_go_cons {c : Char} (line rest : List Char) (other : c ≠ '\n') :
    lineLists.go line (c :: rest) = lineLists.go (c :: line) rest := by
  rw [lineLists.go]
  exact other

theorem lineLists_go_append {item : List Char} (line rest : List Char) (unbroken : '\n' ∉ item) :
    lineLists.go line (item ++ '\n' :: rest) =
      withoutReturn (line.reverse ++ item) :: lineLists.go [] rest := by
  induction item generalizing line with
  | nil => rw [List.nil_append, lineLists_go_lineFeed, List.append_nil]
  | cons c item inductionHypothesis =>
    rw [List.mem_cons, not_or] at unbroken
    have other : c ≠ '\n' := fun same => unbroken.1 same.symm
    rw [List.cons_append, lineLists_go_cons _ _ other, inductionHypothesis _ unbroken.2,
      List.reverse_cons, List.append_assoc]
    rfl

/-- What is read of a line that was written. -/
def asRead (line : String) : String := String.ofList (withoutReturn line.toList)

theorem asRead_eq_self {line : String} {before : List Char} {last : Char}
    (text : line.toList = before ++ [last]) (other : last ≠ '\r') : asRead line = line := by
  rw [asRead, text, withoutReturn_concat, if_neg other, ← text, String.ofList_toList]

/-- Lines written one by one are read back. -/
theorem lines_join {items : List String} (unbroken : ∀ item ∈ items, '\n' ∉ item.toList) :
    lines (String.join (items.map (· ++ "\n"))) = items.map asRead := by
  induction items with
  | nil => rfl
  | cons item rest inductionHypothesis =>
    rw [List.forall_mem_cons] at unbroken
    have others := inductionHypothesis unbroken.2
    have text : (String.join ((item :: rest).map (· ++ "\n"))).toList =
        item.toList ++ '\n' :: (String.join (rest.map (· ++ "\n"))).toList := by
      simp [String.toList_join]
    unfold lines lineLists at others ⊢
    rw [text, lineLists_go_append [] _ unbroken.1, List.map_cons, others]
    rfl

/-- With a carriage return and a line feed at its end every line is read back as it is. -/
theorem lines_join_returns {items : List String} (unbroken : ∀ item ∈ items, '\n' ∉ item.toList) :
    lines (String.join (items.map (· ++ "\r\n"))) = items := by
  have same : items.map (· ++ "\r\n") = (items.map (· ++ "\r")).map (· ++ "\n") := by
    simp [String.append_assoc]
  have closed : ∀ item ∈ items.map (· ++ "\r"), '\n' ∉ item.toList := by
    simpa [not_or] using unbroken
  rw [same, lines_join closed, List.map_map]
  refine (List.map_congr_left fun item _ => ?_).trans (List.map_id items)
  simp [asRead, withoutReturn_concat]

theorem mem_withoutReturn {line : List Char} {c : Char} (member : c ∈ withoutReturn line) :
    c ∈ line := by
  unfold withoutReturn at member
  split at member
  · exact List.dropLast_subset line member
  · exact member

theorem not_mem_lineLists_go {line text : List Char} (unbroken : '\n' ∉ line) :
    ∀ item ∈ lineLists.go line text, '\n' ∉ item := by
  induction text generalizing line with
  | nil =>
    intro item member
    rw [lineLists.go] at member
    split at member
    · contradiction
    · rw [List.mem_singleton.1 member, List.mem_reverse]
      exact unbroken
  | cons c text inductionHypothesis =>
    by_cases lineFeed : c = '\n'
    · rw [lineFeed, lineLists_go_lineFeed, List.forall_mem_cons]
      refine ⟨fun member => unbroken ?_, inductionHypothesis (by simp)⟩
      exact List.mem_reverse.1 (mem_withoutReturn member)
    · rw [lineLists_go_cons _ _ lineFeed]
      refine inductionHypothesis fun member => ?_
      rcases List.mem_cons.1 member with same | member
      · exact lineFeed same.symm
      · exact unbroken member

theorem not_mem_lines {text line : String} (member : line ∈ lines text) : '\n' ∉ line.toList := by
  obtain ⟨item, itemMember, rfl⟩ := List.mem_map.1 member
  rw [String.toList_ofList]
  exact not_mem_lineLists_go List.not_mem_nil item itemMember

/-! ### Joined texts -/

/-- A text up to a line feed falls into lines by itself. -/
theorem lineLists_go_lineFeed_append (line text rest : List Char) :
    lineLists.go line (text ++ '\n' :: rest) =
      lineLists.go line (text ++ ['\n']) ++ lineLists.go [] rest := by
  induction text generalizing line with
  | nil => rw [List.nil_append, List.nil_append, lineLists_go_lineFeed, lineLists_go_lineFeed]; rfl
  | cons c text inductionHypothesis =>
    rw [List.cons_append, List.cons_append]
    by_cases lineFeed : c = '\n'
    · rw [lineFeed, lineLists_go_lineFeed, lineLists_go_lineFeed, inductionHypothesis]
      rfl
    · rw [lineLists_go_cons _ _ lineFeed, lineLists_go_cons _ _ lineFeed, inductionHypothesis]

/-- What the last line of a text becomes when an end is put to it. An empty rest becomes a line. -/
theorem lineLists_go_close {ending : List Char} {close : List Char → List Char}
    (closes : ∀ line, lineLists.go line ending = [close line.reverse]) (line text : List Char) :
    lineLists.go line (text ++ ending) = lineLists.go line text ++ [close []] ∨
      ∃ before last, lineLists.go line text = before ++ [last] ∧
        lineLists.go line (text ++ ending) = before ++ [close last] := by
  induction text generalizing line with
  | nil =>
    rw [List.nil_append, closes]
    cases line with
    | nil => exact .inl rfl
    | cons last line => exact .inr ⟨[], _, rfl, rfl⟩
  | cons c text inductionHypothesis =>
    rw [List.cons_append]
    by_cases lineFeed : c = '\n'
    · rw [lineFeed, lineLists_go_lineFeed, lineLists_go_lineFeed]
      rcases inductionHypothesis [] with closed | ⟨before, last, open_, closed⟩
      · exact .inl (by rw [closed]; rfl)
      · exact .inr ⟨withoutReturn line.reverse :: before, last, by rw [open_]; rfl, by rw [closed]; rfl⟩
    · rw [lineLists_go_cons _ _ lineFeed, lineLists_go_cons _ _ lineFeed]
      exact inductionHypothesis (c :: line)

/-- What ends a line. -/
def lineBreaks : List String := ["\n", "\r\n"]

theorem lines_append_break {lineBreak : String} (breaks : lineBreak ∈ lineBreaks)
    (text rest : String) :
    lines (text ++ lineBreak ++ rest) = lines (text ++ lineBreak) ++ lines rest := by
  simp only [lineBreaks, List.mem_cons, List.not_mem_nil, or_false] at breaks
  obtain ⟨carriage, ends⟩ : ∃ carriage, lineBreak.toList = carriage ++ ['\n'] := by
    rcases breaks with rfl | rfl
    · exact ⟨[], rfl⟩
    · exact ⟨['\r'], rfl⟩
  simp only [lines, lineLists, String.toList_append, ends]
  rw [← List.append_assoc, List.append_assoc _ ['\n'], List.singleton_append,
    lineLists_go_lineFeed_append, List.map_append]

/-- A break behind a text makes a line of an empty rest, and may take a carriage return off the last
line. -/
theorem lines_close {lineBreak : String} (breaks : lineBreak ∈ lineBreaks) (text : String) :
    lines (text ++ lineBreak) = lines text ++ [""] ∨
      ∃ before last closed, lines text = before ++ [last] ∧
        lines (text ++ lineBreak) = before ++ [closed] ∧ (closed = last ∨ closed = asRead last) := by
  simp only [lineBreaks, List.mem_cons, List.not_mem_nil, or_false] at breaks
  have either : ∃ close : List Char → List Char, close [] = [] ∧
      (∀ line, lineLists.go line lineBreak.toList = [close line.reverse]) ∧
        ∀ line, close line = line ∨ close line = withoutReturn line := by
    rcases breaks with rfl | rfl
    · exact ⟨withoutReturn, rfl, fun line => lineLists_go_lineFeed line [], fun _ => .inr rfl⟩
    · refine ⟨id, rfl, fun line => ?_, fun _ => .inl rfl⟩
      change lineLists.go line ['\r', '\n'] = _
      rw [lineLists_go_cons _ _ (by decide), lineLists_go_lineFeed, List.reverse_cons,
        withoutReturn_concat, if_pos rfl]
      rfl
  obtain ⟨close, empty, closes, read⟩ := either
  simp only [lines, lineLists, String.toList_append]
  rcases lineLists_go_close closes [] text.toList with closed | ⟨before, last, whole, closed⟩
  · exact .inl (by rw [closed, empty, List.map_append]; rfl)
  · refine .inr ⟨before.map String.ofList, String.ofList last, String.ofList (close last), ?_, ?_, ?_⟩
    · rw [whole, List.map_append]
      rfl
    · rw [closed, List.map_append]
      rfl
    · rw [asRead, String.toList_ofList]
      exact (read last).imp (congrArg String.ofList) (congrArg String.ofList)

/-! ### Numbers -/

theorem not_mem_toString (number : Nat) : '\n' ∉ (toString number).toList := by
  rw [Nat.toString_eq_ofList_toDigits, String.toList_ofList]
  intro member
  have digit := Nat.isDigit_of_mem_toDigits (by decide : 0 < 10) (by decide) member
  contradiction

theorem not_mem_numbered {text : String} (number : Nat) (unbroken : '\n' ∉ text.toList) :
    '\n' ∉ (toString number ++ ": " ++ text).toList := by
  rw [String.toList_append, String.toList_append, List.mem_append, List.mem_append, not_or, not_or]
  exact ⟨⟨not_mem_toString number, by decide⟩, unbroken⟩

theorem hexDigit_ne {c : Char} (digit : Nat) (other : isHexDigit c = false) :
    hexDigit digit ≠ c := by
  rintro rfl
  revert other
  unfold hexDigit
  split <;> decide

theorem not_mem_hexByteDigits (byte : UInt8) : '\n' ∉ hexByteDigits byte := by
  have other := fun digit => hexDigit_ne (c := '\n') digit (by decide)
  simp [hexByteDigits, (other _).symm]

theorem not_mem_hexByte (byte : UInt8) : '\n' ∉ (hexByte byte).toList := by
  rw [hexByte, String.toList_ofList]
  exact not_mem_hexByteDigits byte

theorem not_mem_hexWord (word : UInt16) : '\n' ∉ (hexWord word).toList := by
  rw [hexWord, String.toList_ofList, hexWordDigits, List.mem_append, not_or]
  exact ⟨not_mem_hexByteDigits _, not_mem_hexByteDigits _⟩

end Micro65.Text
