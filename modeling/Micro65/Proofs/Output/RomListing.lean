import Micro65.Asm.Output.RomListing
import Micro65.Proofs.Assembly.SourceLines
import Micro65.Proofs.Assembly.Stores
import Micro65.Proofs.Text.Hex

set_option autoImplicit false

/-!
Reading a listing of calls. The start address stands in the first line; of the others, those that are no
comments are the calls, one for each byte of the assembly in its order.
-/

namespace Micro65

namespace RomListing

open Text

def isComment (line : String) : Bool := line.startsWith "//"

/-- The address in the first line, which must be written exactly as it is in listings. -/
def readStart? (line : String) : Option UInt16 :=
  let start := (hexValue (line.toList.drop 12)).toUInt16
  if comment ("start: 0x" ++ hexWord start) = line then some start else none

/-- The arguments of a call, which must be written exactly as calls are. -/
def readCall? (line : String) : Option (UInt16 × UInt8) :=
  let digits := line.toList.drop 14
  let address := (hexValue (digits.take 4)).toUInt16
  let byte := (hexValue ((digits.drop 8).take 2)).toUInt8
  if call address byte = line then some (address, byte) else none

/-- The start address, and the calls in their order. -/
def read? (text : String) : Option (UInt16 × List (UInt16 × UInt8)) :=
  match Text.lines text with
  | [] => none
  | first :: rest => do
    let start ← readStart? first
    let calls ← (rest.filter fun line => !isComment line).mapM readCall?
    return (start, calls)

/-! ### Lines read back -/

theorem start_toList (start : UInt16) : (comment ("start: 0x" ++ hexWord start)).toList =
    "// ".toList ++ ("start: 0x".toList ++ hexWordDigits start) := by
  simp only [comment, String.toList_append, hexWord, String.toList_ofList]

theorem asRead_start (start : UInt16) : asRead (comment ("start: 0x" ++ hexWord start)) =
    comment ("start: 0x" ++ hexWord start) := by
  have digits : (comment ("start: 0x" ++ hexWord start)).toList = "// ".toList ++
      ("start: 0x".toList ++ (hexByteDigits (start.toNat / 256).toUInt8 ++
        [hexDigit (start.toUInt8.toNat / 16)])) ++ [hexDigit (start.toUInt8.toNat % 16)] := by
    simp only [start_toList, hexWordDigits, hexByteDigits, List.append_assoc]
    rfl
  exact asRead_eq_self digits (hexDigit_ne _ (by decide))

theorem readStart?_comment (start : UInt16) :
    readStart? (comment ("start: 0x" ++ hexWord start)) = some start := by
  have digits : (comment ("start: 0x" ++ hexWord start)).toList.drop 12 = hexWordDigits start := by
    rw [start_toList]
    rfl
  have same : start.toNat.toUInt16 = start := UInt16.ofNat_toNat
  rw [readStart?, digits, hexValue_hexWordDigits, same]
  exact if_pos rfl

theorem call_toList (address : UInt16) (byte : UInt8) :
    (call address byte).toList = "rom.program(0x".toList ++ (hexWordDigits address ++
      (", 0x".toList ++ (hexByteDigits byte ++ ");".toList))) := by
  change ("rom.program(0x" ++ hexWord address ++ ", 0x" ++ hexByte byte ++ ");").toList = _
  simp only [String.toList_append, hexWord, hexByte, String.toList_ofList, List.append_assoc]

theorem readCall?_call (address : UInt16) (byte : UInt8) :
    readCall? (call address byte) = some (address, byte) := by
  have word : ((call address byte).toList.drop 14).take 4 = hexWordDigits address := by
    rw [call_toList]
    rfl
  have last : (((call address byte).toList.drop 14).drop 8).take 2 = hexByteDigits byte := by
    rw [call_toList]
    rfl
  have sameAddress : address.toNat.toUInt16 = address := UInt16.ofNat_toNat
  have sameByte : byte.toNat.toUInt8 = byte := UInt8.ofNat_toNat
  rw [readCall?, word, last, hexValue_hexWordDigits, hexValue_hexByteDigits, sameAddress, sameByte]
  exact if_pos rfl

theorem isComment_asRead_comment (text : String) : isComment (asRead (comment text)) = true := by
  obtain ⟨rest, shown⟩ := withoutReturn_append (c := ' ') ['/', '/'] text.toList (by decide)
  have line : (comment text).toList = ['/', '/'] ++ ' ' :: text.toList := String.toList_append
  rw [isComment, String.startsWith_string_iff, asRead, String.toList_ofList, line, shown,
    String.toList_ofList]
  exact List.prefix_append ['/', '/'] (' ' :: rest)

theorem asRead_call (address : UInt16) (byte : UInt8) :
    asRead (call address byte) = call address byte := by
  have semicolon : (call address byte).toList = "rom.program(0x".toList ++ (hexWordDigits address ++
      (", 0x".toList ++ (hexByteDigits byte ++ [')']))) ++ [';'] := by
    simp only [call_toList, List.append_assoc]
    rfl
  exact asRead_eq_self semicolon (by decide)

theorem isComment_call (address : UInt16) (byte : UInt8) :
    isComment (call address byte) = false := by
  rw [isComment, String.startsWith_string_eq_false_iff, call_toList]
  change ¬['/', '/'] <+: 'r' :: _
  rw [List.cons_prefix_cons]
  rintro ⟨same, -⟩
  contradiction

theorem mapM_readCall? (stores : List (UInt16 × UInt8)) :
    (stores.map fun store => call store.1 store.2).mapM readCall? = some stores := by
  induction stores with
  | nil => rfl
  | cons store rest inductionHypothesis =>
    rw [List.map_cons, List.mapM_cons, readCall?_call, inductionHypothesis]
    rfl

theorem not_mem_comment {text : String} (unbroken : '\n' ∉ text.toList) :
    '\n' ∉ (comment text).toList := by
  rw [comment, String.toList_append, List.mem_append, not_or]
  exact ⟨by decide, unbroken⟩

theorem not_mem_call (address : UInt16) (byte : UInt8) : '\n' ∉ (call address byte).toList := by
  have word := not_mem_hexWord address
  have last := not_mem_hexByte byte
  rw [hexWord, String.toList_ofList] at word
  rw [hexByte, String.toList_ofList] at last
  rw [call_toList]
  simp only [List.mem_append, not_or]
  exact ⟨by decide, word, by decide, last, by decide⟩

/-! ### The listing of an assembly -/

/-- The running address goes through the addresses of the stores. -/
theorem byteCalls_eq (address : UInt16) (bytes : List UInt8) :
    byteCalls address bytes = (addressed address bytes).map fun store => call store.1 store.2 := by
  induction bytes generalizing address with
  | nil => rfl
  | cons byte rest inductionHypothesis =>
    rw [byteCalls, inductionHypothesis, addressed_cons, List.map_cons]

theorem lineCalls_eq (line : Line) :
    lineCalls line = comment (toString line.number ++ ": " ++ line.text) ::
      line.stores.map fun store => call store.1 store.2 := by
  unfold lineCalls Line.stores
  cases line.instruction with
  | none => rfl
  | some inst => simp [byteCalls_eq]

theorem unbroken_lines {asm : Assembly} (unbroken : ∀ file ∈ asm.files, file.Unbroken) :
    ∀ item ∈ lines asm, '\n' ∉ item.toList := by
  have start := not_mem_hexWord asm.start
  refine List.forall_mem_cons.2 ⟨not_mem_comment ?_, ?_⟩
  · rw [String.toList_append, List.mem_append, not_or]
    exact ⟨by decide, start⟩
  intro item member
  obtain ⟨file, fileMember, member⟩ := List.mem_flatMap.1 member
  rcases List.mem_cons.1 member with rfl | member
  · exact not_mem_comment (unbroken file fileMember).name
  obtain ⟨line, lineMember, member⟩ := List.mem_flatMap.1 member
  rw [lineCalls_eq] at member
  rcases List.mem_cons.1 member with rfl | member
  · exact not_mem_comment (not_mem_numbered line.number ((unbroken file fileMember).lines line lineMember))
  · obtain ⟨store, -, rfl⟩ := List.mem_map.1 member
    exact not_mem_call store.1 store.2

/-- The lines of a listing that are no comments, as they are read. -/
def callsRead (items : List String) : List String :=
  (items.map asRead).filter fun line => !isComment line

theorem callsRead_append (items others : List String) :
    callsRead (items ++ others) = callsRead items ++ callsRead others := by
  unfold callsRead
  rw [List.map_append, List.filter_append]

theorem callsRead_comment (text : String) (items : List String) :
    callsRead (comment text :: items) = callsRead items := by
  simp [callsRead, isComment_asRead_comment]

theorem callsRead_calls (stores : List (UInt16 × UInt8)) :
    callsRead (stores.map fun store => call store.1 store.2) =
      stores.map fun store => call store.1 store.2 := by
  induction stores with
  | nil => rfl
  | cons store rest inductionHypothesis =>
    unfold callsRead at inductionHypothesis ⊢
    rw [List.map_cons, List.map_cons, asRead_call, List.filter_cons_of_pos, inductionHypothesis]
    rw [isComment_call, Bool.not_false]

theorem callsRead_lineCalls (lines : List Line) :
    callsRead (lines.flatMap lineCalls) =
      (lines.flatMap Line.stores).map fun store => call store.1 store.2 := by
  induction lines with
  | nil => rfl
  | cons line rest inductionHypothesis =>
    rw [List.flatMap_cons, callsRead_append, inductionHypothesis, lineCalls_eq, callsRead_comment,
      callsRead_calls, List.flatMap_cons, List.map_append]

theorem callsRead_files (files : List SourceFile) :
    callsRead (files.flatMap fun file => comment file.name :: file.lines.flatMap lineCalls) =
      (files.flatMap fun file => file.lines.flatMap Line.stores).map fun store =>
        call store.1 store.2 := by
  induction files with
  | nil => rfl
  | cons file rest inductionHypothesis =>
    rw [List.flatMap_cons, callsRead_append, inductionHypothesis, callsRead_comment,
      callsRead_lineCalls, List.flatMap_cons, List.map_append]

variable {asm : Assembly}

theorem lines_text (unbroken : ∀ file ∈ asm.files, file.Unbroken) :
    Text.lines (text asm) = (lines asm).map asRead := lines_join (unbroken_lines unbroken)

/-- The first line carries the start address. -/
theorem head?_lines_text (unbroken : ∀ file ∈ asm.files, file.Unbroken) :
    (Text.lines (text asm)).head? = some (comment ("start: 0x" ++ hexWord asm.start)) := by
  rw [lines_text unbroken, lines, List.map_cons, List.head?_cons, asRead_start]

/-- The lines that are no comments are one call for each byte, in order. -/
theorem filter_lines_text (unbroken : ∀ file ∈ asm.files, file.Unbroken) :
    ((Text.lines (text asm)).filter fun line => !isComment line) =
      asm.bytes.map fun store => call store.1 store.2 := by
  rw [lines_text unbroken]
  change callsRead (comment _ :: _) = _
  rw [callsRead_comment, callsRead_files, asm.bytes_eq_flatMap]

/-- The listing reads back as the start and the bytes of the assembly. -/
theorem read?_text (unbroken : ∀ file ∈ asm.files, file.Unbroken) :
    read? (text asm) = some (asm.start, asm.bytes) := by
  have calls := callsRead_files asm.files
  rw [← asm.bytes_eq_flatMap, callsRead] at calls
  rw [read?, lines_text unbroken, lines, List.map_cons, asRead_start]
  simp only [readStart?_comment, calls, mapM_readCall?]
  rfl

end RomListing
end Micro65
