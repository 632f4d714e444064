import Micro65.Proofs.Source.Parsing
import Micro65.Proofs.Source.Statements

set_option autoImplicit false

/-!
Operands of parsed sources. An instruction has an operand exactly if its mnemonic takes one, whatever
else is on its line and on the lines before.
-/

namespace Micro65

def Code.Complete (code : Code) : Prop := code.operand.isSome = code.kind.takesOperand

def Instruction.Complete (inst : Instruction) : Prop := inst.operand.isSome = inst.kind.takesOperand

def Statement.Complete : Statement → Prop
  | .code _ (some body) => body.Complete
  | _ => True

theorem Code.Derives.complete {constants : Constants} {spelling : String} {tokens : List Token}
    {code : Code} (derives : Derives constants spelling tokens code) : code.Complete := by
  cases derives with
  | bare _ takes => exact takes.symm
  | operand _ takes => exact takes.symm

namespace Statement

theorem Derives.complete {constants : Constants} {tokens : List Token} {statement : Statement}
    (derives : Derives constants tokens statement) : statement.Complete := by
  cases derives with
  | empty | const | label => trivial
  | labelled code => exact code.complete
  | code code => exact code.complete

theorem ofLine_complete {constants : Constants} {line : String} {statement : Statement}
    (parsed : ofLine constants line = .ok statement) : statement.Complete := by
  unfold ofLine at parsed
  rw [except_bind_eq_ok_iff] at parsed
  obtain ⟨lexemes, -, parsed⟩ := parsed
  exact (parse_eq_ok_iff.1 parsed).complete

end Statement

namespace SourceFile

theorem parseLine_complete {context after : Context} {position : Position} {text : String}
    {inst : Instruction} (parsed : parseLine context position text = .ok (after, some inst)) :
    inst.Complete := by
  obtain ⟨statement, line, takes⟩ := (parseLine_eq_ok_iff _ _ _ _ _).1 parsed
  have complete := Statement.ofLine_complete line
  cases takes with
  | code added => exact complete

theorem Parses.complete {name : String} {context after : Context} {number : Nat}
    {texts : List String} {lines : List Line}
    (parses : Parses name context number texts after lines) :
    ∀ inst ∈ lines.filterMap (·.instruction), inst.Complete := by
  induction parses with
  | nil => simp
  | @cons _ _ _ _ _ _ instruction _ first _ inductionHypothesis =>
    cases instruction with
    | none => exact inductionHypothesis
    | some inst => exact List.forall_mem_cons.2 ⟨parseLine_complete first, inductionHypothesis⟩

/-- Parsing leaves no mnemonic without the operand that it takes, and none with one that it does not
take. -/
theorem parse_complete {name text : String} {file : SourceFile}
    (parsed : parse name text = .ok file) : ∀ inst ∈ file.instructions, inst.Complete := by
  obtain ⟨after, lines, parses, -, rfl⟩ := (parse_eq_ok_iff _ _ _).1 parsed
  exact parses.complete

end SourceFile
end Micro65
