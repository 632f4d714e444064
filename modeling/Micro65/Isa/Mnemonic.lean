import Micro65.Text.Style

set_option autoImplicit false

/-!
Mnemonics: the three directives, the implied instructions, the branches, and the instructions that
take an operand.
-/

namespace Micro65

inductive Mnemonic where
  | base | start | data
  | brk | adc | sbc | and | asl
  | bcc | bcs | beq | bmi | bne | bpl | bra | bvc | bvs
  | bit | clc | cld | cli | clv | sec | sed | sei | cmp | cpx | cpy | dec | inc | eor | jmp | jsr
  | lda | ldx | ldy | lsr | nop | ora | pha | php | phx | pla | plp | plx | ply | rol | rti | rts
  | ror | sta | sty | stx | tax | txa | tay | tya | tsx | txs
  deriving DecidableEq, Repr

namespace Mnemonic

def all : List Mnemonic :=
  [base, start, data, brk, adc, sbc, and, asl, bcc, bcs, beq, bmi, bne, bpl, bra, bvc, bvs, bit,
    clc, cld, cli, clv, sec, sed, sei, cmp, cpx, cpy, dec, inc, eor, jmp, jsr, lda, ldx, ldy, lsr,
    nop, ora, pha, php, phx, pla, plp, plx, ply, rol, rti, rts, ror, sta, sty, stx, tax, txa, tay,
    tya, tsx, txs]

theorem mem_all (kind : Mnemonic) : kind ∈ all := by cases kind <;> decide

def name : Mnemonic → String
  | base => "BASE" | start => "START" | data => "DATA"
  | brk => "BRK" | adc => "ADC" | sbc => "SBC" | and => "AND" | asl => "ASL"
  | bcc => "BCC" | bcs => "BCS" | beq => "BEQ" | bmi => "BMI" | bne => "BNE"
  | bpl => "BPL" | bra => "BRA" | bvc => "BVC" | bvs => "BVS" | bit => "BIT"
  | clc => "CLC" | cld => "CLD" | cli => "CLI" | clv => "CLV"
  | sec => "SEC" | sed => "SED" | sei => "SEI"
  | cmp => "CMP" | cpx => "CPX" | cpy => "CPY" | dec => "DEC" | inc => "INC" | eor => "EOR"
  | jmp => "JMP" | jsr => "JSR" | lda => "LDA" | ldx => "LDX" | ldy => "LDY" | lsr => "LSR"
  | nop => "NOP" | ora => "ORA" | pha => "PHA" | php => "PHP" | phx => "PHX"
  | pla => "PLA" | plp => "PLP" | plx => "PLX" | ply => "PLY" | rol => "ROL"
  | rti => "RTI" | rts => "RTS" | ror => "ROR" | sta => "STA" | sty => "STY" | stx => "STX"
  | tax => "TAX" | txa => "TXA" | tay => "TAY" | tya => "TYA" | tsx => "TSX" | txs => "TXS"

/-- Position in `all`. -/
def number (kind : Mnemonic) : Nat := kind.ctorIdx

/-- Numbers outside the list stand for `nop`. -/
def ofNumber (number : Nat) : Mnemonic := all.getD number nop

theorem ofNumber_number (kind : Mnemonic) : ofNumber kind.number = kind := by cases kind <;> rfl

/-- Any mixture of cases is accepted, and `OR` is a second name of `ora`. -/
def ofSpelling? (spelling : String) : Option Mnemonic :=
  let upper := spelling.toUpper
  if upper == "OR" then some ora else all.find? (·.name == upper)

def parse (spelling : String) : Except String Mnemonic :=
  match ofSpelling? spelling with
  | some kind => .ok kind
  | none => .error ("Unknown instruction: " ++ spelling)

theorem parse_eq_ok_iff (spelling : String) (kind : Mnemonic) :
    parse spelling = .ok kind ↔ ofSpelling? spelling = some kind := by
  unfold parse
  split <;> simp_all

def isDirective : Mnemonic → Bool
  | base | start | data => true
  | _ => false

def isBranch : Mnemonic → Bool
  | bcc | bcs | beq | bmi | bne | bpl | bra | bvc | bvs => true
  | _ => false

/-- Instructions of one byte that never take an operand. -/
def isImplied : Mnemonic → Bool
  | brk | clc | cld | cli | clv | sec | sed | sei | nop | pha | php | phx | pla | plp | plx | ply
  | rti | rts | tax | txa | tay | tya | tsx | txs => true
  | _ => false

def takesOperand (kind : Mnemonic) : Bool := !kind.isImplied

/-- Least and greatest size in bytes while the addressing mode is open. -/
def sizeRange : Mnemonic → Nat × Nat
  | base | start => (0, 0)
  | data => (1, 2)
  | asl | lsr | rol | ror | dec | inc => (1, 3)
  | jsr => (3, 3)
  | kind => if kind.isBranch then (2, 2) else if kind.isImplied then (1, 1) else (2, 3)

/-- The name in a column of five, coloured by class. -/
def styled (kind : Mnemonic) : String :=
  let style : Text.Style :=
    if kind.isDirective then .cyan else if kind.isBranch then .magenta else .red
  style.paint (Text.padRight 5 kind.name)

end Mnemonic
end Micro65
