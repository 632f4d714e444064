import Micro65.Asm.Output.PunchCard
import Micro65.Cpu.Registers
import Micro65.Proofs.Assembly.SourceLines
import Micro65.Proofs.Assembly.Stores
import Micro65.Proofs.Cpu.Operand

set_option autoImplicit false

/-!
A reader of punch cards. It skips comments, and does with every other card what its two control holes
say. Cards that were punched for an assembly make it store the bytes of the assembly, in their order and
each at its address, and leave it at the start.
-/

namespace Micro65.PunchCard

structure Reader where
  address : UInt16 := 0
  stores : List (UInt16 × UInt8) := []
  deriving DecidableEq, Repr

namespace Reader

def punch (reader : Reader) (byte : UInt8) : Control → Reader
  | .store => ⟨reader.address + 1, reader.stores ++ [(reader.address, byte)]⟩
  | .lowAddress => { reader with address := wordOf byte (reader.address >>> 8).toUInt8 }
  | .highAddress => { reader with address := wordOf reader.address.toUInt8 byte }

/-- What a card makes of a reader, whatever its remark says. -/
def take (reader : Reader) : Card → Reader
  | .comment _ => reader
  | .punched control byte _ => reader.punch byte control

end Reader

/-! ### Reading cards -/

def hole? : Char → Option Bool
  | 'O' => some true
  | '_' => some false
  | _ => none

/-- The columns of a card stand before its remark, with blanks among them. -/
def columns? (line : List Char) : Option (List Bool) :=
  ((line.takeWhile (· ≠ ';')).filter (· ≠ ' ')).mapM hole?

def control? : Bool → Bool → Option Control
  | false, true => some .store
  | true, false => some .lowAddress
  | true, true => some .highAddress
  | false, false => none

/-- The number with the given binary digits, the most significant first. -/
def byteOf (bits : List Bool) : UInt8 := bits.foldl (fun byte bit => 2 * byte + bit.toUInt8) 0

def row? : List Bool → Option (Control × UInt8)
  | first :: second :: bits =>
    if bits.length = 8 then (control? first second).map (·, byteOf bits) else none
  | _ => none

namespace Reader

/-- Reads a line. One that is neither a comment nor a card stops the reader. -/
def readLine? (reader : Reader) (line : List Char) : Option Reader :=
  if line.head? = some ';' then some reader
  else ((columns? line).bind row?).map fun (control, byte) => reader.punch byte control

def read? (text : String) : Option Reader :=
  (Text.lines text).foldlM (fun reader line => reader.readLine? line.toList) {}

end Reader

/-! ### Cards read back -/

theorem byteOf_bits (byte : UInt8) :
    byteOf ([0x80, 0x40, 0x20, 0x10, 0x08, 0x04, 0x02, 0x01].map (byte &&& · != 0)) = byte := by
  have all : ∀ number : Fin 256, byteOf ([0x80, 0x40, 0x20, 0x10, 0x08, 0x04, 0x02, 0x01].map
      (UInt8.ofFin number &&& · != 0)) = UInt8.ofFin number := by decide +kernel
  exact all byte.toFin

theorem columns?_append {columns : List Char} (rest : List Char) (bare : ';' ∉ columns) :
    columns? (columns ++ ';' :: rest) = (columns.filter (· ≠ ' ')).mapM hole? := by
  unfold columns?
  rw [List.takeWhile_append_of_pos, List.takeWhile_cons_of_neg (by simp), List.append_nil]
  intro c member
  simp only [decide_eq_true_eq]
  exact fun same => bare (same ▸ member)

def Control.pattern : Control → List Bool
  | store => [false, true]
  | lowAddress => [true, false]
  | highAddress => [true, true]

theorem mapM_control (control : Control) :
    (control.text.toList.filter (· ≠ ' ')).mapM hole? = some control.pattern := by
  cases control <;> decide

theorem mapM_holes (byte : UInt8) (bits : List UInt8) :
    ((holes byte bits).toList.filter (· ≠ ' ')).mapM hole? =
      some (bits.map (byte &&& · != 0)) := by
  induction bits with
  | nil => rfl
  | cons bit bits inductionHypothesis =>
    have hole : (hole byte bit).toList.filter (· ≠ ' ') =
        [if byte &&& bit = 0 then '_' else 'O'] := by
      unfold PunchCard.hole
      split <;> decide
    have text : (holes byte (bit :: bits)).toList =
        (PunchCard.hole byte bit).toList ++ (holes byte bits).toList := by
      simp [holes, String.toList_join]
    rw [text, List.filter_append, hole, List.mapM_append, inductionHypothesis]
    by_cases blank : byte &&& bit = 0 <;> simp [blank, hole?]

/-- The columns of a punched card, up to its remark. -/
def Control.columns (control : Control) (byte : UInt8) : List Char :=
  control.text.toList ++ ' ' :: (holes byte [0x80, 0x40, 0x20, 0x10]).toList ++
    ' ' :: (holes byte [0x08, 0x04, 0x02, 0x01]).toList ++ [' ']

/-- Nothing but columns and the blanks among them. -/
def marks : List Char := [' ', '_', 'O']

theorem holes_subset (byte : UInt8) (bits : List UInt8) : (holes byte bits).toList ⊆ marks := by
  rw [holes, String.toList_join]
  intro c member
  obtain ⟨text, textMember, member⟩ := List.mem_flatMap.1 member
  obtain ⟨bit, -, rfl⟩ := List.mem_map.1 textMember
  have marked : (hole byte bit).toList ⊆ marks := by
    unfold hole
    split <;> decide
  exact marked member

theorem columns_subset (control : Control) (byte : UInt8) : control.columns byte ⊆ marks := by
  have controls : control.text.toList ⊆ marks := by cases control <;> decide
  have blank : ' ' ∈ marks := by decide
  unfold Control.columns
  simp only [List.append_subset, List.cons_subset, List.nil_subset, and_true]
  exact ⟨⟨⟨controls, blank, holes_subset byte _⟩, blank, holes_subset byte _⟩, blank⟩

theorem not_mem_columns {c : Char} (control : Control) (byte : UInt8) (other : c ∉ marks) :
    c ∉ control.columns byte := fun member => other (columns_subset control byte member)

theorem row?_append (control : Control) {bits : List Bool} (eight : bits.length = 8) :
    row? (control.pattern ++ bits) = some (control, byteOf bits) := by
  cases control <;> exact if_pos eight

theorem columns?_punched (control : Control) (byte : UInt8) (remark : List Char) :
    (columns? (control.columns byte ++ ';' :: remark)).bind row? = some (control, byte) := by
  have blank : ∀ rest : List Char,
      (' ' :: rest).filter (· ≠ ' ') = rest.filter (· ≠ ' ') := fun _ => rfl
  have columns : ((control.columns byte).filter (· ≠ ' ')).mapM hole? = some (control.pattern ++
      [0x80, 0x40, 0x20, 0x10, 0x08, 0x04, 0x02, 0x01].map (byte &&& · != 0)) := by
    simp only [Control.columns, List.filter_append, blank, List.mapM_append, mapM_control,
      mapM_holes, List.filter_nil, Option.pure_def, Option.bind_eq_bind,
      Option.bind_some, List.append_nil, List.append_assoc]
    rfl
  rw [columns?_append remark (not_mem_columns control byte (by decide)), columns,
    Option.bind_some, row?_append control rfl, byteOf_bits]

theorem Card.punched_text (control : Control) (byte : UInt8) (address : Option UInt16) :
    ∃ remark, '\n' ∉ remark ∧
      (punched control byte address).text.toList = control.columns byte ++ ';' :: remark := by
  cases address with
  | none =>
    refine ⟨(" " ++ " ; 0x" ++ Text.hexByte byte).toList, ?_, ?_⟩
    · simp [Text.not_mem_hexByte]
    · simp [text, Control.columns]
  | some address =>
    refine ⟨(" " ++ " ; 0x" ++ Text.hexWord address ++ " ; 0x" ++ Text.hexByte byte).toList, ?_, ?_⟩
    · simp [Text.not_mem_hexByte, Text.not_mem_hexWord]
    · simp [text, Control.columns]

/-- A card whose comment goes on on no other line. -/
def Card.Unbroken : Card → Prop
  | comment text => '\n' ∉ text.toList
  | punched _ _ _ => True

theorem Card.Unbroken.text {card : Card} (unbroken : card.Unbroken) : '\n' ∉ card.text.toList := by
  cases card with
  | comment text => simpa [Card.text, Unbroken] using unbroken
  | punched control byte address =>
    obtain ⟨remark, rest, text⟩ := punched_text control byte address
    rw [text, List.mem_append, List.mem_cons, not_or, not_or]
    exact ⟨not_mem_columns control byte (by decide), by decide, rest⟩

namespace Reader

theorem readLine?_card (reader : Reader) (card : Card) :
    reader.readLine? (Text.withoutReturn card.text.toList) = some (reader.take card) := by
  cases card with
  | comment text =>
    obtain ⟨rest, shown⟩ := Text.withoutReturn_append (c := ';') [] (' ' :: text.toList) (by decide)
    have line : (Card.comment text).text.toList = [] ++ ';' :: ' ' :: text.toList := by
      simp [Card.text]
    rw [line, shown]
    rfl
  | punched control byte address =>
    obtain ⟨remark, -, text⟩ := Card.punched_text control byte address
    obtain ⟨rest, shown⟩ := Text.withoutReturn_append (c := ';') (control.columns byte) remark
      (by decide)
    have card : (control.columns byte ++ ';' :: rest).head? ≠ some ';' := by
      cases control <;> simp [Control.columns, Control.text]
    rw [text, shown, readLine?, if_neg card, columns?_punched]
    rfl

/-- Cards that are written one by one are read one by one. -/
theorem read?_join {cards : List Card} (unbroken : ∀ card ∈ cards, card.Unbroken) :
    read? (String.join (cards.map fun card => card.text ++ "\n")) = some (cards.foldl take {}) := by
  have texts : ∀ text ∈ cards.map Card.text, '\n' ∉ text.toList := by
    intro text member
    obtain ⟨card, cardMember, rfl⟩ := List.mem_map.1 member
    exact (unbroken card cardMember).text
  have lines := Text.lines_join texts
  rw [List.map_map, List.map_map] at lines
  change Text.lines (String.join (cards.map fun card => card.text ++ "\n")) = _ at lines
  rw [read?, lines, List.foldlM_map]
  clear texts lines unbroken
  generalize ({} : Reader) = reader
  induction cards generalizing reader with
  | nil => rfl
  | cons card rest inductionHypothesis =>
    rw [List.foldlM_cons, List.foldl_cons, Function.comp_apply, Text.asRead, String.toList_ofList,
      readLine?_card]
    exact inductionHypothesis _

/-! ### What the cards of an assembly make a reader do -/

theorem foldl_setAddress (reader : Reader) (address : UInt16) :
    (setAddress address).foldl take reader = { reader with address } := by
  simp only [setAddress, List.foldl_cons, List.foldl_nil, take, punch, toUInt8_wordOf,
    wordOf_littleEndian]

theorem foldl_jump (reader : Reader) (address : UInt16) :
    (jump reader.address address).foldl take reader = { reader with address } := by
  unfold jump
  split
  next reached => rw [List.foldl_nil, reached]
  next => rw [List.foldl_cons, take, foldl_setAddress]

/-- A reader at the address of the first card stores every byte where it belongs, and is then where the
cards end. -/
theorem foldl_storeBytes (reader : Reader) (bytes : List UInt8) :
    (storeBytes reader.address bytes).1.foldl take reader =
      ⟨(storeBytes reader.address bytes).2, reader.stores ++ addressed reader.address bytes⟩ := by
  induction bytes generalizing reader with
  | nil => simp [storeBytes]
  | cons byte rest inductionHypothesis =>
    have next := inductionHypothesis (reader.punch byte .store)
    simp only [punch] at next
    simp only [storeBytes, addressed_cons, List.foldl_cons, take, punch, next, List.append_assoc,
      List.singleton_append]

/-- The address that the cards of a line leave a reader at is the one that those of the next line
count on. -/
theorem foldl_lineCards (reader : Reader) (lines : List Line) :
    (lineCards reader.address lines).1.foldl take reader =
      ⟨(lineCards reader.address lines).2, reader.stores ++ lines.flatMap Line.stores⟩ := by
  induction lines generalizing reader with
  | nil => simp [lineCards]
  | cons line rest inductionHypothesis =>
    rw [lineCards, List.flatMap_cons]
    cases given : line.instruction with
    | none => simp [given, Line.stores, take, inductionHypothesis]
    | some inst =>
      have stores : line.stores = addressed inst.address inst.bytes := by simp [Line.stores, given]
      rw [stores]
      by_cases empty : inst.bytes.isEmpty = true
      · have none : inst.bytes = [] := List.isEmpty_iff.1 empty
        simp [none, take, inductionHypothesis]
      · have stored := foldl_storeBytes { reader with address := inst.address } inst.bytes
        have next := inductionHypothesis ⟨(storeBytes inst.address inst.bytes).2,
          reader.stores ++ addressed inst.address inst.bytes⟩
        simp only at stored next
        simp only [empty, if_false, List.cons_append, List.foldl_cons, List.foldl_append, take,
          foldl_jump, stored, next, List.append_assoc, Bool.false_eq_true]

theorem foldl_fileCards (reader : Reader) (files : List SourceFile) :
    ∃ address, (fileCards reader.address files).foldl take reader =
      ⟨address, reader.stores ++ files.flatMap fun file => file.lines.flatMap Line.stores⟩ := by
  induction files generalizing reader with
  | nil => exact ⟨reader.address, by simp [fileCards]⟩
  | cons file rest inductionHypothesis =>
    obtain ⟨address, others⟩ := inductionHypothesis ⟨(lineCards reader.address file.lines).2,
      reader.stores ++ file.lines.flatMap Line.stores⟩
    refine ⟨address, ?_⟩
    simp only [fileCards, List.cons_append, List.foldl_cons, List.foldl_append, take,
      foldl_lineCards, others, List.flatMap_cons, List.append_assoc]

theorem foldl_cards (asm : Assembly) : (cards asm).foldl take {} = ⟨asm.start, asm.bytes⟩ := by
  obtain ⟨address, filed⟩ := foldl_fileCards {} asm.files
  rw [← asm.bytes_eq_flatMap] at filed
  rw [cards, List.foldl_append, filed, List.foldl_cons, take, foldl_setAddress, List.nil_append]

end Reader

/-! ### Cards of unbroken sources -/

theorem unbroken_setAddress (address : UInt16) : ∀ card ∈ setAddress address, card.Unbroken := by
  simp [setAddress, Card.Unbroken]

theorem unbroken_jump (reached address : UInt16) : ∀ card ∈ jump reached address, card.Unbroken := by
  unfold jump
  split
  · exact nofun
  · refine List.forall_mem_cons.2 ⟨?_, unbroken_setAddress address⟩
    simp [Card.Unbroken, Text.not_mem_hexWord]

theorem unbroken_storeBytes (address : UInt16) (bytes : List UInt8) :
    ∀ card ∈ (storeBytes address bytes).1, card.Unbroken := by
  induction bytes generalizing address with
  | nil => exact nofun
  | cons byte rest inductionHypothesis =>
    exact List.forall_mem_cons.2 ⟨trivial, inductionHypothesis (address + 1)⟩

theorem unbroken_lineCards {lines : List Line} (reached : UInt16)
    (unbroken : ∀ line ∈ lines, '\n' ∉ line.text.toList) :
    ∀ card ∈ (lineCards reached lines).1, card.Unbroken := by
  induction lines generalizing reached with
  | nil => simp [lineCards]
  | cons line rest inductionHypothesis =>
    rw [List.forall_mem_cons] at unbroken
    have others := fun reached => inductionHypothesis reached unbroken.2
    have comment : (Card.comment (toString line.number ++ ": " ++ line.text)).Unbroken :=
      Text.not_mem_numbered line.number unbroken.1
    rw [lineCards]
    cases line.instruction with
    | none => exact List.forall_mem_cons.2 ⟨comment, others reached⟩
    | some inst =>
      dsimp only
      split
      · exact List.forall_mem_cons.2 ⟨comment, others reached⟩
      · simp only [List.cons_append, List.forall_mem_cons, List.forall_mem_append]
        exact ⟨comment, ⟨unbroken_jump _ _, unbroken_storeBytes _ _⟩, others _⟩

theorem unbroken_fileCards {files : List SourceFile} (reached : UInt16)
    (unbroken : ∀ file ∈ files, file.Unbroken) :
    ∀ card ∈ fileCards reached files, card.Unbroken := by
  induction files generalizing reached with
  | nil => simp [fileCards]
  | cons file rest inductionHypothesis =>
    rw [List.forall_mem_cons] at unbroken
    simp only [fileCards, List.cons_append, List.forall_mem_cons, List.forall_mem_append]
    exact ⟨unbroken.1.name, unbroken_lineCards reached unbroken.1.lines,
      inductionHypothesis _ unbroken.2⟩

/-- A reader of the punched assembly makes its stores in order, and ends at its start. -/
theorem read?_text {asm : Assembly} (unbroken : ∀ file ∈ asm.files, file.Unbroken) :
    Reader.read? (text asm) = some ⟨asm.start, asm.bytes⟩ := by
  have cardsUnbroken : ∀ card ∈ cards asm, card.Unbroken := by
    rw [cards, List.forall_mem_append, List.forall_mem_cons]
    refine ⟨unbroken_fileCards 0 unbroken, ?_, unbroken_setAddress asm.start⟩
    simp [Card.Unbroken]
  rw [text, Reader.read?_join cardsUnbroken, Reader.foldl_cards]

end Micro65.PunchCard
