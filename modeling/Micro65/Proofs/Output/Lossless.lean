import Micro65.Proofs.Output.PunchCard
import Micro65.Proofs.Output.RomListing

set_option autoImplicit false

/-!
Texts that carry a whole assembly. Both are read line by line; what a source puts into their comments is
harmless as long as it stays on its line.
-/

namespace Micro65

/-- Punch cards make a reader store the bytes of the assembly in order and end at its start. A listing of
calls has the start in its first line, and one call for each byte, in order, in the lines that are no
comments. -/
theorem outputs_lossless {files : List SourceFile} {asm : Assembly}
    (parsed : ∀ file ∈ files, ∃ name text, SourceFile.parse name text = .ok file)
    (names : ∀ file ∈ files, '\n' ∉ file.name.toList) (done : assemble files = .ok asm) :
    PunchCard.Reader.read? (PunchCard.text asm) = some ⟨asm.start, asm.bytes⟩ ∧
    (Text.lines (RomListing.text asm)).head? =
      some (RomListing.comment ("start: 0x" ++ Text.hexWord asm.start)) ∧
    ((Text.lines (RomListing.text asm)).filter fun line => !RomListing.isComment line) =
      asm.bytes.map (fun store => RomListing.call store.1 store.2) ∧
    RomListing.read? (RomListing.text asm) = some (asm.start, asm.bytes) := by
  have unbroken := assemble_unbroken parsed names done
  exact ⟨PunchCard.read?_text unbroken, RomListing.head?_lines_text unbroken,
    RomListing.filter_lines_text unbroken, RomListing.read?_text unbroken⟩

/-- The second region stands before the first, and its last byte is at the end of memory. -/
theorem outputs_lossless_regions : ∃ file asm,
    SourceFile.parse "regions.asm" "START $0300\nBASE $FFFE\nDATA $0300\nBASE $0300\nNOP ; rest\n" =
      .ok file ∧ assemble [file] = .ok asm ∧
    PunchCard.Reader.read? (PunchCard.text asm) = some ⟨asm.start, asm.bytes⟩ ∧
    RomListing.read? (RomListing.text asm) = some (asm.start, asm.bytes) := by
  have assembled : ∃ file,
      SourceFile.parse "regions.asm" "START $0300\nBASE $FFFE\nDATA $0300\nBASE $0300\nNOP ; rest\n" =
        .ok file ∧ '\n' ∉ file.name.toList ∧ ∃ asm, assemble [file] = .ok asm := by
    decide +kernel
  obtain ⟨file, parsed, name, asm, done⟩ := assembled
  have parsedAll := SourceFile.exists_parse_of_mem_singleton parsed
  have names : ∀ other ∈ [file], '\n' ∉ other.name.toList := by
    simpa only [List.mem_singleton, forall_eq] using name
  obtain ⟨cards, -, -, calls⟩ := outputs_lossless parsedAll names done
  exact ⟨file, asm, parsed, done, cards, calls⟩

end Micro65
