import Mathlib.Data.Nat.Find
import Micro65.Proofs.Source.Labels
import Micro65.Proofs.Source.Statements

set_option autoImplicit false

/-!
Labels and the instructions that they belong to. A label waits for the first instruction at or behind its line;
if another label or the end of the file comes first, the file cannot be read, and the first label for which this
happens is reported at its own line. Nothing else about labels keeps a file from being read.
-/

namespace Micro65

/-- The tokens hold an instruction or a directive, with a label in front or without. -/
def Token.startCode : List Token → Bool
  | ident _ :: _ => true
  | label _ :: colon :: ident _ :: _ => true
  | _ => false

def hasCode (line : String) : Bool :=
  (Lexeme.scan line).toOption.any fun lexemes => Token.startCode (lexemes.map Lexeme.token)

/-- No line in front of the next label, or of the end, has an instruction. -/
def Unserved (lines : List String) : Prop :=
  ∀ line ∈ lines.takeWhile (fun line => (definedLabel? line).isNone), hasCode line = false

/-- The line of this index defines the label, but has no instruction, and none follows in time. -/
def Dangles (lines : List String) (index : Nat) (label : String) : Prop :=
  ∃ line rest, lines.drop index = line :: rest ∧ definedLabel? line = some label ∧
    hasCode line = false ∧ Unserved rest

/-- Each line can be read by itself with the constants of the lines above, none of which it defines again. -/
inductive Readable : Constants → List String → Prop where
  | nil {constants} : Readable constants []
  | const {constants line name value rest} :
      Statement.ofLine constants line = .ok (.const name value) → constants.lookup name = none →
      Readable ((name, value) :: constants) rest → Readable constants (line :: rest)
  | other {constants line statement rest} : Statement.ofLine constants line = .ok statement →
      (∀ name value, statement ≠ .const name value) → Readable constants rest →
      Readable constants (line :: rest)

theorem Readable.code {constants : Constants} {line : String} {label : Option String}
    {body : Option Code} {rest : List String}
    (read : Statement.ofLine constants line = .ok (.code label body))
    (behind : Readable constants rest) : Readable constants (line :: rest) :=
  .other read nofun behind

/-! ### Where a label goes -/

def Statement.hasBody : Statement → Bool
  | .code _ body => body.isSome
  | _ => false

theorem Statement.ofLine_hasBody {constants : Constants} {line : String} {statement : Statement}
    (read : ofLine constants line = .ok statement) : statement.hasBody = hasCode line := by
  obtain ⟨lexemes, scanned, parsed⟩ := (except_bind_eq_ok_iff _ _ _).1 read
  rw [hasCode, scanned]
  change _ = Token.startCode (lexemes.map Lexeme.token)
  generalize written : lexemes.map Lexeme.token = tokens
  have derives := written ▸ parse_eq_ok_iff.1 parsed
  cases derives <;> rfl

namespace SourceFile

section Attached

variable {name : String} {context after : Context} {number : Nat} {texts : List String}
  {lines : List Line}

theorem parseLine_takesAll {position : Position} {text : String} {inst : Instruction}
    (parsed : parseLine context position text = .ok (after, some inst)) : after.pending = none := by
  obtain ⟨statement, line, takes⟩ := (parseLine_eq_ok_iff _ _ _ _ _).1 parsed
  cases takes with
  | code added => rfl

/-- The first instruction of the lines has the label. -/
def Carried (lines : List Line) (label : String) : Prop :=
  ∃ inst, lines.findSome? (·.instruction) = some inst ∧ inst.label = some label

/-- A label that waits in front of a line, or is defined by it, goes to its instruction or waits behind it. -/
theorem carried_of_parseLine {text : String} {instruction : Option Instruction} {label : String}
    (parsed : parseLine context ⟨name, number⟩ text = .ok (after, instruction))
    (rest : label ∈ after.waiting → Carried lines label)
    (member : label ∈ context.waiting ++ (definedLabel? text).toList) :
    Carried (⟨number, text, instruction⟩ :: lines) label := by
  rw [← parseLine_labels parsed, List.mem_append, Option.mem_toList] at member
  cases instruction with
  | none =>
    obtain ⟨inst, found, own⟩ := rest (member.resolve_left nofun)
    exact ⟨inst, by rw [List.findSome?_cons]; exact found, own⟩
  | some inst =>
    refine ⟨inst, by rw [List.findSome?_cons], ?_⟩
    rcases member with own | waiting
    · exact own
    · simp [Context.waiting, parseLine_takesAll parsed] at waiting

/-- Every label goes to the first instruction at or behind the line that defines it. -/
theorem Parses.carried (parses : Parses name context number texts after lines)
    (settled : after.pending = none) :
    (∀ label ∈ context.waiting, Carried lines label) ∧
      ∀ index text label, texts[index]? = some text → definedLabel? text = some label →
        Carried (lines.drop index) label := by
  induction parses with
  | nil => simp [Context.waiting, settled]
  | @cons context middle after number text rest instruction lines first _ inductionHypothesis =>
    obtain ⟨waiting, defined⟩ := inductionHypothesis settled
    refine ⟨fun label member => ?_, fun index line label here own => ?_⟩
    · exact carried_of_parseLine first (waiting label) (List.mem_append_left _ member)
    · cases index with
      | zero =>
        obtain rfl := Option.some.inj here
        refine carried_of_parseLine first (waiting label) (List.mem_append_right _ ?_)
        rw [own]
        exact List.mem_singleton_self label
      | succ index => exact defined index line label here own

theorem Parses.numbers_eq (parses : Parses name context number texts after lines) :
    lines.map (·.number) = List.range' number texts.length := by
  induction parses with
  | nil => rfl
  | cons _ _ inductionHypothesis =>
    rw [List.map_cons, inductionHypothesis, List.length_cons, List.range'_succ]

end Attached

/-! ### Labels for which there is no instruction -/

theorem unserved_cons_iff (line : String) (rest : List String) :
    Unserved (line :: rest) ↔
      (definedLabel? line).isSome = true ∨ hasCode line = false ∧ Unserved rest := by
  unfold Unserved
  rw [List.takeWhile_cons]
  cases definedLabel? line <;> simp

theorem dangles_zero_iff (line : String) (rest : List String) (label : String) :
    Dangles (line :: rest) 0 label ↔
      definedLabel? line = some label ∧ hasCode line = false ∧ Unserved rest := by
  simp [Dangles]

/-- The first label of the lines that dangles. -/
def FirstDangles (lines : List String) (index : Nat) (label : String) : Prop :=
  Dangles lines index label ∧ ∀ earlier < index, ∀ other, ¬Dangles lines earlier other

theorem firstDangles_zero_iff (line : String) (rest : List String) (label : String) :
    FirstDangles (line :: rest) 0 label ↔
      definedLabel? line = some label ∧ hasCode line = false ∧ Unserved rest := by
  rw [FirstDangles, dangles_zero_iff]
  simp

theorem firstDangles_succ_iff (line : String) (rest : List String) (index : Nat) (label : String) :
    FirstDangles (line :: rest) (index + 1) label ↔
      (∀ other, ¬Dangles (line :: rest) 0 other) ∧ FirstDangles rest index label := by
  constructor
  · rintro ⟨here, first⟩
    exact ⟨first 0 index.succ_pos, here,
      fun earlier less => first (earlier + 1) (Nat.succ_lt_succ less)⟩
  · rintro ⟨none, here, first⟩
    refine ⟨here, fun earlier less => ?_⟩
    cases earlier with
    | zero => exact none
    | succ earlier => exact first earlier (Nat.lt_of_succ_lt_succ less)

theorem exists_firstDangles_iff (lines : List String) :
    (∃ index label, FirstDangles lines index label) ↔ ∃ index label, Dangles lines index label := by
  classical
  constructor
  · rintro ⟨index, label, here, -⟩
    exact ⟨index, label, here⟩
  · intro some
    obtain ⟨label, here⟩ := Nat.find_spec some
    exact ⟨_, label, here, fun earlier less other dangles => Nat.find_min some less ⟨other, dangles⟩⟩

/-- The failure that is due to lines numbered from `number` on, in front of which a label may wait. -/
def Fails (name : String) (waiting : Option (String × Position)) (number : Nat) (lines : List String)
    (failure : Diagnostic) : Prop :=
  (∃ label defined, waiting = some (label, defined) ∧ Unserved lines ∧
      failure = ⟨.danglingLabel label, some defined⟩) ∨
    (waiting = none ∨ ¬Unserved lines) ∧ ∃ index label, FirstDangles lines index label ∧
      failure = ⟨.danglingLabel label, some ⟨name, number + index⟩⟩

section Fails

variable {name line : String} {waiting : Option (String × Position)} {number : Nat}
  {rest : List String} {failure : Diagnostic}

/-- If the first line does not dangle, one of the others does. -/
theorem exists_firstDangles_cons_iff (silent : ∀ other, ¬Dangles (line :: rest) 0 other) :
    (∃ index label, FirstDangles (line :: rest) index label ∧
        failure = ⟨.danglingLabel label, some ⟨name, number + index⟩⟩) ↔
      ∃ index label, FirstDangles rest index label ∧
        failure = ⟨.danglingLabel label, some ⟨name, number + 1 + index⟩⟩ := by
  constructor
  · rintro ⟨index, label, first, rfl⟩
    cases index with
    | zero => exact absurd first.1 (silent label)
    | succ index =>
      refine ⟨index, label, ((firstDangles_succ_iff ..).1 first).2, ?_⟩
      rw [Nat.add_assoc, Nat.add_comm 1]
  · rintro ⟨index, label, first, rfl⟩
    refine ⟨index + 1, label, (firstDangles_succ_iff ..).2 ⟨silent, first⟩, ?_⟩
    rw [Nat.add_assoc, Nat.add_comm 1]

theorem fails_cons_of_code (code : hasCode line = true)
    (free : waiting = none ∨ definedLabel? line = none) :
    Fails name waiting number (line :: rest) failure ↔ Fails name none (number + 1) rest failure := by
  have silent : ∀ other, ¬Dangles (line :: rest) 0 other := by
    simp [dangles_zero_iff, code]
  have served : definedLabel? line = none → ¬Unserved (line :: rest) := by
    intro none
    simp [unserved_cons_iff, none, code]
  unfold Fails
  rw [exists_firstDangles_cons_iff silent]
  rcases free with rfl | none
  · simp
  · simp [served none]

theorem fails_cons_of_silent (none : definedLabel? line = none) (silent : hasCode line = false) :
    Fails name waiting number (line :: rest) failure ↔
      Fails name waiting (number + 1) rest failure := by
  have first : ∀ other, ¬Dangles (line :: rest) 0 other := by
    simp [dangles_zero_iff, none]
  have same : Unserved (line :: rest) ↔ Unserved rest := by
    simp [unserved_cons_iff, none, silent]
  unfold Fails
  rw [exists_firstDangles_cons_iff first, same]

theorem fails_cons_of_label {label : String} (own : definedLabel? line = some label)
    (silent : hasCode line = false) :
    Fails name none number (line :: rest) failure ↔
      Fails name (some (label, ⟨name, number⟩)) (number + 1) rest failure := by
  by_cases unserved : Unserved rest
  · have here : FirstDangles (line :: rest) 0 label :=
      (firstDangles_zero_iff ..).2 ⟨own, silent, unserved⟩
    constructor
    · rintro (⟨_, _, waits, -⟩ | ⟨-, index, other, first, rfl⟩)
      · contradiction
      · cases index with
        | zero =>
          obtain rfl := Option.some.inj (own.symm.trans ((firstDangles_zero_iff ..).1 first).1)
          exact .inl ⟨label, _, rfl, unserved, rfl⟩
        | succ index => exact absurd here.1 (first.2 0 index.succ_pos label)
    · rintro (⟨_, _, ⟨⟩, -, rfl⟩ | ⟨waits | served, -⟩)
      · exact .inr ⟨.inl rfl, 0, label, here, rfl⟩
      · contradiction
      · exact absurd unserved served
  · have first : ∀ other, ¬Dangles (line :: rest) 0 other := by
      simp [dangles_zero_iff, unserved]
    unfold Fails
    rw [exists_firstDangles_cons_iff first]
    simp [unserved]

theorem fails_cons_of_waiting {label : String} {defined : Position}
    (own : (definedLabel? line).isSome = true) :
    Fails name (some (label, defined)) number (line :: rest) failure ↔
      failure = ⟨.danglingLabel label, some defined⟩ := by
  have unserved : Unserved (line :: rest) := (unserved_cons_iff ..).2 (.inl own)
  constructor
  · rintro (⟨_, _, ⟨⟩, -, same⟩ | ⟨waits | served, -⟩)
    · exact same
    · contradiction
    · exact absurd unserved served
  · intro same
    exact .inl ⟨_, _, rfl, unserved, same⟩

end Fails

/-! ### Reading line after line -/

section Reading

variable {context : Context} {position : Position} {line : String} {rest : List String}

theorem Context.addLabel_eq_error {label : Option String} {failure : Diagnostic}
    (clash : context.addLabel position label = .error failure) :
    ∃ earlier defined, context.pending = some (earlier, defined) ∧ label.isSome = true ∧
      failure = ⟨.danglingLabel earlier, some defined⟩ := by
  unfold addLabel at clash
  split at clash
  · contradiction
  · contradiction
  next earlier defined waits =>
    cases clash
    exact ⟨_, _, waits, rfl, rfl⟩

/-- A readable line can fail only by its label. -/
theorem parseLine_of_clash {failure : Diagnostic} (readable : Readable context.constants (line :: rest))
    (clash : context.addLabel position (definedLabel? line) = .error failure) :
    parseLine context position line = .error failure := by
  have ⟨statement, read⟩ : ∃ statement, Statement.ofLine context.constants line = .ok statement := by
    cases readable with
    | const read => exact ⟨_, read⟩
    | other read => exact ⟨_, read⟩
  rw [← (Statement.ofLine_defines read).1] at clash
  unfold parseLine
  rw [read]
  cases statement with
  | empty => cases clash
  | const => cases clash
  | code label body =>
    change (context.addLabel position label >>= _) = _
    rw [show context.addLabel position label = .error failure from clash]
    rfl

/-- What a readable line leaves to those behind it. -/
theorem parseLine_of_readable {pending : Option (String × Position)}
    (readable : Readable context.constants (line :: rest))
    (added : context.addLabel position (definedLabel? line) = .ok pending) :
    ∃ after instruction, parseLine context position line = .ok (after, instruction) ∧
      after.pending = (if hasCode line then none else pending) ∧ Readable after.constants rest := by
  simp only [parseLine_eq_ok_iff]
  cases readable with
  | const read fresh behind =>
    rw [← (Statement.ofLine_defines read).1] at added
    rw [← Statement.ofLine_hasBody read]
    cases added
    exact ⟨_, _, ⟨_, read, .const fresh⟩, rfl, behind⟩
  | @other _ _ statement _ read plain behind =>
    rw [← (Statement.ofLine_defines read).1] at added
    rw [← Statement.ofLine_hasBody read]
    cases statement with
    | empty =>
      cases added
      exact ⟨_, _, ⟨_, read, .empty⟩, rfl, behind⟩
    | const name value => exact absurd rfl (plain name value)
    | code label body =>
      cases body with
      | none => exact ⟨_, _, ⟨_, read, .label added⟩, rfl, behind⟩
      | some code => exact ⟨_, _, ⟨_, read, .code added⟩, rfl, behind⟩

/-- Adding the label of a line to one that waits says what fails from the next line on. -/
theorem fails_cons_iff {name : String} {number : Nat} {pending : Option (String × Position)}
    {failure : Diagnostic}
    (added : context.addLabel ⟨name, number⟩ (definedLabel? line) = .ok pending) :
    Fails name context.pending number (line :: rest) failure ↔
      Fails name (if hasCode line then none else pending) (number + 1) rest failure := by
  cases own : definedLabel? line with
  | none =>
    rw [own] at added
    cases added
    cases code : hasCode line with
    | true => exact fails_cons_of_code code (.inr own)
    | false => exact fails_cons_of_silent own code
  | some label =>
    rw [own] at added
    cases waits : context.pending with
    | some earlier => simp [Context.addLabel, waits] at added
    | none =>
      obtain rfl : some (label, ⟨name, number⟩) = pending := by
        simpa [Context.addLabel, waits] using added
      cases code : hasCode line with
      | true => exact fails_cons_of_code code (.inl rfl)
      | false => exact fails_cons_of_label own code

/-- Readable lines fail to be read by their labels only. -/
theorem parseLines_eq_error_iff (context : Context) (name : String) (number : Nat)
    {texts : List String} (failure : Diagnostic) (readable : Readable context.constants texts) :
    parseLines name context number texts = .error failure ↔
      Fails name context.pending number texts failure := by
  induction texts generalizing context number with
  | nil =>
    unfold parseLines
    cases waits : context.pending with
    | none => simp [Fails, FirstDangles, Dangles]
    | some pending =>
      obtain ⟨label, defined⟩ := pending
      simp [Fails, Unserved, @eq_comm _ failure]
  | cons line rest inductionHypothesis =>
    cases added : context.addLabel ⟨name, number⟩ (definedLabel? line) with
    | error clash =>
      obtain ⟨label, defined, waits, own, rfl⟩ := Context.addLabel_eq_error added
      rw [parseLines, parseLine_of_clash readable added, waits, fails_cons_of_waiting own]
      exact ⟨fun same => (Except.error.inj same).symm, fun same => congrArg Except.error same.symm⟩
    | ok pending =>
      obtain ⟨after, instruction, first, left, behind⟩ := parseLine_of_readable readable added
      rw [fails_cons_iff added, ← left, ← inductionHypothesis after (number + 1) behind, parseLines, first]
      change (parseLines name after (number + 1) rest >>= _) = _ ↔ _
      cases parseLines name after (number + 1) rest <;> simp [bind, Except.bind, pure, Except.pure]

theorem parse_eq_error_iff (name text : String) (failure : Diagnostic)
    (readable : Readable [] (Text.lines text)) :
    parse name text = .error failure ↔ ∃ index label, FirstDangles (Text.lines text) index label ∧
      failure = ⟨.danglingLabel label, some ⟨name, index + 1⟩⟩ := by
  have lines := parseLines_eq_error_iff {} name 1 failure readable
  simp only [Fails, reduceCtorEq, false_and, exists_false, true_or, true_and, false_or,
    Nat.add_comm 1] at lines
  rw [← lines, parse]
  cases parseLines name {} 1 (Text.lines text) <;> simp [bind, Except.bind, pure, Except.pure]

end Reading

/-- No label is lost and none is made up. A file that can be read has all lines of its text, and each label is
at the first instruction from its definition on; a text of readable lines can be read unless a label dangles,
and the first that does is reported where it is defined. -/
theorem parse_attaches (name text : String) :
    (∀ file, parse name text = .ok file →
      file.lines.map (·.text) = Text.lines text ∧
      file.lines.map (·.number) = List.range' 1 (Text.lines text).length ∧
      file.instructions.filterMap Instruction.label = (Text.lines text).filterMap definedLabel? ∧
      ∀ index line label, (Text.lines text)[index]? = some line → definedLabel? line = some label →
        Carried (file.lines.drop index) label) ∧
    (Readable [] (Text.lines text) →
      ((∃ failure, parse name text = .error failure) ↔
        ∃ index label, Dangles (Text.lines text) index label) ∧
      ∀ failure, parse name text = .error failure → ∃ index label,
        FirstDangles (Text.lines text) index label ∧
        failure = ⟨.danglingLabel label, some ⟨name, index + 1⟩⟩) := by
  refine ⟨fun file parsed => ?_, fun readable => ⟨?_, fun failure => ?_⟩⟩
  · have labels := parse_labels parsed
    obtain ⟨after, lines, parses, settled, rfl⟩ := (parse_eq_ok_iff _ _ _).1 parsed
    exact ⟨parses.texts_eq, parses.numbers_eq, labels, (parses.carried settled).2⟩
  · rw [← exists_firstDangles_iff]
    constructor
    · rintro ⟨failure, failed⟩
      obtain ⟨index, label, first, -⟩ := (parse_eq_error_iff _ _ _ readable).1 failed
      exact ⟨index, label, first⟩
    · rintro ⟨index, label, first⟩
      exact ⟨_, (parse_eq_error_iff _ _ _ readable).2 ⟨index, label, first, rfl⟩⟩
  · exact (parse_eq_error_iff _ _ _ readable).1

/-- A label that waits over a constant, an empty line and a comment; and one that another label cuts off, even
though an instruction stands on the line of that one. -/
theorem parse_attaches_waiting :
    (∃ file, parse "t.s" "@a:\n%k = $01\n\n;@b: NOP\nLDA # %k\n@b: NOP" = .ok file ∧
      file.instructions.filterMap Instruction.label = ["a", "b"] ∧ Carried file.lines "a") ∧
    Readable [] (Text.lines "@a: NOP\n@b:\n%k = $01\n@c: LDA # %k") ∧
    parse "t.s" "@a: NOP\n@b:\n%k = $01\n@c: LDA # %k" =
      .error ⟨.danglingLabel "b", some ⟨"t.s", 2⟩⟩ ∧
    FirstDangles (Text.lines "@a: NOP\n@b:\n%k = $01\n@c: LDA # %k") 1 "b" := by
  obtain ⟨file, parsed⟩ : ∃ file,
      parse "t.s" "@a:\n%k = $01\n\n;@b: NOP\nLDA # %k\n@b: NOP" = .ok file := by decide +kernel
  have split : Text.lines "@a: NOP\n@b:\n%k = $01\n@c: LDA # %k" =
      ["@a: NOP", "@b:", "%k = $01", "@c: LDA # %k"] := by decide +kernel
  have readable : Readable [] (Text.lines "@a: NOP\n@b:\n%k = $01\n@c: LDA # %k") := by
    rw [split]
    have code : Statement.ofLine [] "@a: NOP" =
        .ok (.code (some "a") (some ⟨"NOP", .nop, none⟩)) := by decide +kernel
    have label : Statement.ofLine [] "@b:" = .ok (.code (some "b") none) := by decide +kernel
    have const : Statement.ofLine [] "%k = $01" = .ok (.const "k" (.literal 1)) := by decide +kernel
    have used : Statement.ofLine [("k", .literal 1)] "@c: LDA # %k" =
        .ok (.code (some "c") (some ⟨"LDA", .lda, some (.address (.literal 1))⟩)) := by decide +kernel
    exact .code code (.code label (.const const rfl (.code used .nil)))
  have failed : parse "t.s" "@a: NOP\n@b:\n%k = $01\n@c: LDA # %k" =
      .error ⟨.danglingLabel "b", some ⟨"t.s", 2⟩⟩ := by decide +kernel
  refine ⟨⟨file, parsed, ?_, ?_⟩, readable, failed, ?_⟩
  · rw [((parse_attaches _ _).1 file parsed).2.2.1]
    decide +kernel
  · exact ((parse_attaches _ _).1 file parsed).2.2.2 0 "@a:" "a" (by decide +kernel) (by decide +kernel)
  · obtain ⟨index, label, first, same⟩ := ((parse_attaches _ _).2 readable).2 _ failed
    simp only [Diagnostic.mk.injEq, AsmError.danglingLabel.injEq, Option.some.injEq,
      Position.mk.injEq, true_and] at same
    obtain ⟨rfl, line⟩ := same
    obtain rfl : index = 1 := by omega
    exact first

end SourceFile
end Micro65
