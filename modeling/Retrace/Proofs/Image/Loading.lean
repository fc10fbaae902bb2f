import Retrace.Image.Load
import Retrace.Proofs.Dwarf.LineUnits
import Retrace.Proofs.Elf.Programs
import Retrace.Proofs.Elf.Tables

/-!
# Images of written programs

Loading the file of a program gives the image that is built from the parts of the program, as long
as these tell something about addresses.
-/

namespace Retrace

open Bytes Elf

namespace Elf

/-- Whether a symbol is of use to a reader: it has a name, and is neither a mapping symbol nor a
local label. -/
def SymbolSource.IsKept (s : SymbolSource) : Prop :=
  s.name ≠ "" ∧ ¬ ['$'] <+: s.name.toList ∧ ¬ ['.', 'L'] <+: s.name.toList

instance (s : SymbolSource) : Decidable s.IsKept :=
  inferInstanceAs (Decidable (_ ∧ _))

namespace Program

variable (p : Program)

def kept : List SymbolSource :=
  p.symbols.filter fun s => s.IsKept

/-- The ranges from each row to the next. -/
def ranges : List LineRange :=
  p.lines?.elim [] Dwarf.SourceMap.ranges

/-- The image that is built from the parts of a program, without its file. -/
def image : Image :=
  .ofParts .rv32 ((p.sections.filter (·.data ≠ [])).map SectionSource.loaded)
    (p.kept.map SymbolSource.symbol) p.ranges

end Program

variable {p : Program}

theorem isVisibleName_iff (s : SymbolSource) : isVisibleName s.name = true ↔ s.IsKept := by
  have hnamed : s.name ≠ "" ↔ s.name.toList ≠ [] := by
    rw [ne_eq, ne_eq, String.toList_eq_nil_iff]
  rw [SymbolSource.IsKept, hnamed, isVisibleName]
  split
  case h_1 hname => simp [hname]
  case h_2 hname => simp [hname]
  case h_3 hname => simp [hname]
  case h_4 hempty hmapping hlocal =>
    refine iff_of_true rfl ⟨hempty, ?_, ?_⟩
    · rintro ⟨rest, hname⟩
      exact hmapping rest hname.symm
    · rintro ⟨rest, hname⟩
      exact hlocal rest hname.symm

theorem Program.filter_symbols (p : Program) :
    (p.symbols.map SymbolSource.symbol).filter (isVisibleName ·.name) =
      p.kept.map SymbolSource.symbol := by
  rw [kept, List.filter_map]
  refine congrArg _ (List.filter_congr fun s _ => ?_)
  exact Bool.eq_iff_iff.mpr ((isVisibleName_iff s).trans decide_eq_true_iff.symm)

/-! ## What is read -/

variable {elf : Elf.Reader} {dwarf : Dwarf.Reader}

theorem Program.Valid.partsOfFile? (h : p.Valid) {file : elf.File}
    (ht : elf.Tells p.layout p.encode file) :
    Image.partsOfFile? elf file =
      some ⟨(p.sections.filter (·.data ≠ [])).map SectionSource.loaded,
        p.kept.map SymbolSource.symbol, ⟨[], []⟩, p.lines?.elim [] Dwarf.SourceMap.encode⟩ := by
  have hstrings : elf.debugData? file ".debug_str" = some [] :=
    h.debugData?_strings ht (by decide)
  have hlines : elf.debugData? file ".debug_line_str" = some [] :=
    h.debugData?_strings ht (by decide)
  rw [Image.partsOfFile?, h.loadedSections? ht, h.visibleSymbols? ht, hstrings, hlines,
    h.debugData?_lines ht, p.filter_symbols]
  rfl

/-- There is room for the length of the line information. -/
theorem Program.Valid.length_body (h : p.Valid) {m : Dwarf.SourceMap} (hm : p.lines? = some m) :
    m.unit.body.length < 0xfffffff0 := by
  have hmem : linePiece m ∈ p.pieces := by
    simp [pieces, front, leading, hm]
  obtain ⟨q, hq, hpiece⟩ := exists_placed hmem
  have hstart : headerSize ≤ q.offset := le_offset hq
  have hstop := offset_le hq
  have hlength : (linePiece m).data.length = 4 + m.unit.body.length := by
    simp [linePiece, Dwarf.SourceMap.encode, Dwarf.UnitLayout.bytes]
  have hoffset := h.offset
  rw [hpiece, hlength] at hstop
  rw [headerSize] at hstart
  omega

theorem Program.Valid.ranges? (h : p.Valid) (hdwarf : dwarf.RunsPrograms)
    (strings : Dwarf.Strings) :
    dwarf.ranges? strings 4 (p.lines?.elim [] Dwarf.SourceMap.encode) =
      some (p.ranges.filter fun r => r.start < r.stop) := by
  cases hlines : p.lines? with
  | none =>
      rw [ranges, hlines, Option.elim_none, Dwarf.Reader.ranges?, Dwarf.Reader.rangesFrom?]
      rfl
  | some m =>
      rw [ranges, hlines]
      exact (h.lines m hlines).ranges? (h.length_body hlines) hdwarf strings

end Elf

namespace Image

variable {p : Program}

theorem isEmpty_mergeSort {α : Type} (as : List α) (le : α → α → Bool) :
    (as.mergeSort le).isEmpty = as.isEmpty := by
  rw [Bool.eq_iff_iff, List.isEmpty_iff_length_eq_zero, List.isEmpty_iff_length_eq_zero,
    List.length_mergeSort]

theorem ofList_filter (ranges : List LineRange) :
    LineTable.ofList (ranges.filter fun r => r.start < r.stop) = LineTable.ofList ranges := by
  rw [LineTable.ofList, LineTable.ofList, List.filter_filter]
  simp only [Bool.and_self]

/-- The image of the file of a program is built from the parts of the program; only where they tell
nothing about addresses there is none. -/
theorem written_program_loads {elf : Elf.Reader} {dwarf : Dwarf.Reader} (helf : elf.ReadsTables)
    (hdwarf : dwarf.RunsPrograms) (h : p.Valid) :
    parse elf dwarf p.encode =
      if p.kept = [] ∧ ∀ r ∈ p.ranges, ¬ r.start < r.stop then .error .noDebugInfo
      else .ok p.image := by
  have himage : ofParts .rv32 ((p.sections.filter (·.data ≠ [])).map SectionSource.loaded)
      (p.kept.map SymbolSource.symbol) (p.ranges.filter fun r => r.start < r.stop) = p.image := by
    rw [ofParts, ofList_filter]
    rfl
  have hsymbols : p.image.symbols.isEmpty = true ↔ p.kept = [] := by
    rw [SymbolTable.isEmpty, Program.image, ofParts, SymbolTable.ofList, isEmpty_mergeSort,
      List.isEmpty_iff, List.map_eq_nil_iff]
  have hlines : p.image.lines.isEmpty = true ↔ ∀ r ∈ p.ranges, ¬ r.start < r.stop := by
    rw [LineTable.isEmpty, Program.image, ofParts, LineTable.ofList, isEmpty_mergeSort,
      List.isEmpty_iff, List.filter_eq_nil_iff]
    simp only [decide_eq_true_iff]
  obtain ⟨file, hopen, htells⟩ := helf p.layout p.encode h.describes
  have hmachine : elf.machine file = machineRiscv := htells.machine
  have hranges := h.ranges? hdwarf ⟨[], []⟩
  rw [parse, hopen]
  simp only [hmachine, htells.little, htells.words32, h.partsOfFile? htells, ne_eq,
    not_true_eq_false, Bool.not_true, if_false, Bool.false_eq_true]
  rw [show Isa.BaseSet.rv32.addressBits / 8 = 4 from rfl, hranges]
  simp only [himage, Bool.and_eq_true, hsymbols, hlines]

/-- A function of two instructions with a mapping symbol at its start. Two rows are about the second
instruction. -/
def twoInstructions : Program :=
  ⟨[⟨".text", 0x1000, [0x13, 0x05, 0x00, 0x00, 0x67, 0x80, 0x00, 0x00], true⟩,
      ⟨".bss", 0x2000, [], false⟩],
    [⟨"$x", 0x1000, 0, false⟩, ⟨"main", 0x1000, 8, true⟩],
    some ⟨"main.c", [⟨0x1000, 7⟩, ⟨0x1004, 9⟩, ⟨0x1004, 8⟩], 0x1008⟩⟩

theorem twoInstructions_loads :
    Elf.reader.ReadsTables ∧ Dwarf.reader.RunsPrograms ∧ twoInstructions.Valid ∧
      ofElf twoInstructions.encode =
      .ok (ofParts .rv32
        [⟨".text", 0x1000, [0x13, 0x05, 0x00, 0x00, 0x67, 0x80, 0x00, 0x00], true⟩]
        [⟨"main", 0x1000, 8, true⟩]
        [⟨0x1000, 0x1004, "main.c", 7⟩, ⟨0x1004, 0x1004, "main.c", 9⟩,
          ⟨0x1004, 0x1008, "main.c", 8⟩]) := by
  have hlines : ∀ m ∈ twoInstructions.lines?, m.Valid := by
    rintro m ⟨⟩
    exact ⟨by decide, by decide, by decide, by decide, by decide⟩
  have hkept :
      ¬ (twoInstructions.kept = [] ∧ ∀ r ∈ twoInstructions.ranges, ¬ r.start < r.stop) := by
    decide +kernel
  have hvalid : twoInstructions.Valid :=
    ⟨by decide, by decide, by decide, hlines, by decide +kernel, by decide⟩
  refine ⟨Elf.reader_readsTables, Dwarf.reader_runsPrograms, hvalid, ?_⟩
  refine (written_program_loads Elf.reader_readsTables Dwarf.reader_runsPrograms hvalid).trans ?_
  exact (if_neg hkept).trans rfl

end Image

end Retrace
