import Mathlib.Algebra.BigOperators.Group.List.Basic
import Mathlib.Data.List.Find
import Retrace.Elf.File
import Retrace.Proofs.Elf.Layout

/-!
# The reader tells what stands in a file

A file that has a layout is opened, and its tables are read from where they stand.
-/

namespace Retrace.Elf

open Bytes Text

/-- Words of 32 bits in little byte order. -/
def format32 : Format :=
  ⟨false, .little⟩

/-- The header of a file with the layout as it is read. -/
def Layout.readHeader (l : Layout) : Header :=
  ⟨format32, l.machine, 0, l.tableOffset, 32, 0, 40, l.sections.length, l.namesIndex⟩

def Layout.file (l : Layout) (data : List UInt8) : File :=
  ⟨data, l.readHeader, some l.sections⟩

variable {l : Layout} {data bytes table : List UInt8} {h : SectionHeader} {size n place : Nat}
  {name : String}

/-! ## Headers -/

theorem reads_number (h : n < 256 ^ size) :
    (format32.number size).Reads (littleEndian size n) n :=
  Parser.Reads.number h

theorem reads_sectionHeader (h : SectionHeader) (hfits : ∀ n ∈ h.fields, n < 2 ^ 32) :
    (sectionHeader format32).Reads h.bytes h := by
  have hword (n : Nat) (hn : n < 2 ^ 32) : (format32.number 4).Reads (littleEndian 4 n) n :=
    reads_number hn
  simp only [SectionHeader.fields, List.forall_mem_cons] at hfits
  obtain ⟨hname, htype, hflags, haddress, hoffset, hsize, hlink, hinfo, halignment, hentry, -⟩ :=
    hfits
  simp only [SectionHeader.bytes, SectionHeader.fields, List.flatMap_cons, List.flatMap_nil,
    List.append_nil]
  exact (hword _ hname).bind ((hword _ htype).bind ((hword _ hflags).bind
    ((hword _ haddress).bind ((hword _ hoffset).bind ((hword _ hsize).bind
      ((hword _ hlink).bind ((hword _ hinfo).bind ((hword _ halignment).bind
        ((hword _ hentry).map _)))))))))

theorem reads_format : format.Reads identification format32 := by
  have hmagic : (Parser.take 4).Reads [0x7f, 0x45, 0x4c, 0x46] _ := .take rfl
  have hrest : (Parser.take 9).Reads [0, 0, 0, 0, 0, 0, 0, 0, 0] _ := .take rfl
  exact hmagic.bind (.require rfl ((Parser.Reads.byte 1).bind (.require (.inl rfl)
    ((Parser.Reads.byte 1).bind (.require (.inl rfl) ((Parser.Reads.byte 1).bind
      (.require rfl (hrest.map fun _ => format32))))))))

theorem Layout.Fits.reads_header (h : l.Fits) : Elf.header.Reads l.header l.readHeader := by
  have hhalf (n : Nat) (hn : n < 2 ^ 16) : (format32.number 2).Reads (littleEndian 2 n) n :=
    reads_number hn
  have hword (n : Nat) (hn : n < 2 ^ 32) : (format32.number 4).Reads (littleEndian 4 n) n :=
    reads_number hn
  have hnames : l.namesIndex < 2 ^ 16 := Nat.lt_trans h.namesIndex.2 (by decide)
  simp only [Layout.header, List.append_assoc]
  exact reads_format.bind ((hhalf l.type h.type).bind ((hhalf l.machine h.machine).bind
    ((hword 1 (by decide)).bind ((hword l.entry h.entry).bind ((hword 0 (by decide)).bind
      ((hword l.tableOffset h.tableOffset.2).bind ((hword l.flags h.flags).bind
        ((hhalf headerSize (by decide)).bind ((hhalf 32 (by decide)).bind
          ((hhalf 0 (by decide)).bind ((hhalf 40 (by decide)).bind
            ((hhalf l.sections.length h.count.2).bind
              ((hhalf l.namesIndex hnames).map _)))))))))))))

/-! ## Contents and names -/

theorem slice?_of_at (h : At data place bytes) : slice? data place bytes.length = some bytes := by
  rw [slice?, if_pos h.le_length]
  obtain ⟨rest, hrest⟩ := h.drop
  rw [hrest, List.take_left]

theorem stored?_of_holds (hheld : h.Holds data bytes) :
    (l.file data).stored? h = some bytes := by
  have hslice := slice?_of_at hheld.contents
  rwa [hheld.size] at hslice

theorem name?_of_at (h : NameAt table place name) : name? table place = some name := by
  have hread := (Parser.Reads.untilZero (Utf8.encode_ne_zero h.plain)).run?_at h.bytes
  have hle := h.bytes.le_length
  rw [name?, if_pos (by omega), hread, Option.bind_some, Utf8.decode?_encode]

/-! ## Tables -/

theorem length_bytes (h : SectionHeader) : h.bytes.length = 40 := by
  simp [SectionHeader.bytes, SectionHeader.fields]

namespace Layout.Describes

theorem readSections? (h : l.Describes data) :
    File.readSections? data l.readHeader = some (some l.sections) := by
  have hoffset : l.tableOffset ≠ 0 := Nat.ne_of_gt h.fits.tableOffset.1
  have hcount : l.sections.length ≠ 0 := Nat.ne_of_gt h.fits.count.1
  have hlength : (l.sections.flatMap SectionHeader.bytes).length = 40 * l.sections.length := by
    simp [List.length_flatMap, length_bytes, Nat.mul_comm]
  have hslice := slice?_of_at h.table
  rw [hlength] at hslice
  have hsections := (Parser.Reads.times l.sections fun s hs =>
    reads_sectionHeader s (h.fits.sections s hs)).run?_self
  rw [List.map_id'] at hsections
  simp only [File.readSections?, readHeader, hoffset, hcount, if_false, Format.sectionHeaderSize,
    format32, hslice, Option.bind_eq_bind, Option.bind_some, Bool.false_eq_true, ne_eq,
    not_true_eq_false]
  exact congrArg (Option.bind · _) hsections

theorem ofBytes? (h : l.Describes data) : File.ofBytes? data = some (l.file data) := by
  have hheader : Elf.header.run? data = some l.readHeader := h.fits.reads_header.run?_at h.header
  rw [File.ofBytes?, hheader, Option.bind_eq_bind, Option.bind_some, h.readSections?]
  rfl

theorem namedSections? (h : l.Describes data) :
    (l.file data).namedSections? = some (some l.sections, some (name? l.names)) := by
  obtain ⟨s, hs, hheld⟩ := h.names
  have hzero : l.namesIndex ≠ 0 := Nat.ne_of_gt h.fits.namesIndex.1
  have hgreatest : l.namesIndex ≠ 0xffff := Nat.ne_of_lt h.fits.namesIndex.2
  have hstored : (l.file data).stored? s = some l.names := stored?_of_holds hheld
  simp only [File.namedSections?, file, readHeader, hzero, hgreatest, if_false,
    Option.bind_eq_bind, Option.bind_some, hs]
  exact congrArg (Option.bind · _) hstored

theorem sectionNamed? (h : l.Describes data) {sections : List (SectionHeader × String)}
    (hsections : sections.map Prod.fst = l.sections)
    (hnames : ∀ s ∈ sections, NameAt l.names s.1.name s.2) (name : String) :
    (l.file data).sectionNamed? name = some ((sections.find? (·.2 = name)).map Prod.fst) := by
  have hfind : sections.find? ((fun s => name? l.names s.name = some name) ∘ Prod.fst) =
      sections.find? (·.2 = name) := by
    refine List.find?_congr fun s hs => ?_
    simp only [Function.comp_apply, name?_of_at (hnames s hs), Option.some.injEq]
  rw [File.sectionNamed?, h.namedSections?, ← hfind, ← List.find?_map, hsections]
  rfl

end Layout.Describes

theorem contents?_of_holds (htype : h.type ≠ SectionHeader.typeNoBits)
    (hplain : h.isCompressed = false) (hheld : h.Holds data bytes) :
    (l.file data).contents? h = some (bytes, false) := by
  rw [File.contents?, if_neg htype, stored?_of_holds hheld]
  simp [hplain]

/-! ## Symbols -/

theorem StoredSymbol.Fits.reads_bytes {s : StoredSymbol} (h : s.Fits) :
    (symbolEntry format32).Reads s.bytes s.entry := by
  have hword (n : Nat) (hn : n < 2 ^ 32) : (format32.number 4).Reads (littleEndian 4 n) n :=
    reads_number hn
  have hhalf : (format32.number 2).Reads (littleEndian 2 s.sectionIndex) s.sectionIndex :=
    reads_number h.sectionIndex
  have hbyte (b : UInt8) : (format32.number 1).Reads [b] b.toNat := by
    have hread : (Parser.take 1).Reads [b] [b] := .take rfl
    exact hread.map (Bytes.number .little)
  simp only [StoredSymbol.bytes, List.append_assoc]
  exact (hword _ h.name).bind ((hword _ h.value).bind ((hword _ h.size).bind
    ((hbyte s.info).bind ((hbyte s.visibility).bind (hhalf.map _)))))

theorem StoredSymbol.length_bytes (s : StoredSymbol) : s.bytes.length = 16 := by
  simp [StoredSymbol.bytes]

theorem symbols?_of_none
    (hnone : l.sections.find? (·.type = SectionHeader.typeSymbols) = none) :
    (l.file data).symbols? = some none := by
  simp only [File.symbols?, Layout.file, hnone]

theorem symbols?_of_holds {table strings : SectionHeader} {symbols : List StoredSymbol}
    {text : List UInt8} (hfind : l.sections.find? (·.type = SectionHeader.typeSymbols) = some table)
    (hsize : table.entrySize = 16) (hfits : ∀ s ∈ symbols, s.Fits)
    (hheld : table.Holds data (symbols.flatMap StoredSymbol.bytes))
    (hlink : l.sections[table.link]? = some strings) (htext : strings.Holds data text) :
    (l.file data).symbols? = some (some (symbols.map StoredSymbol.entry, name? text)) := by
  have hlength : (symbols.flatMap StoredSymbol.bytes).length / format32.symbolSize =
      symbols.length := by
    simp [List.length_flatMap, StoredSymbol.length_bytes, format32, Format.symbolSize]
  have hentries := (Parser.Reads.times symbols fun s hs => (hfits s hs).reads_bytes).run?_self
  have hdata : (l.file data).stored? table = some _ := stored?_of_holds hheld
  have hstrings : (l.file data).stored? strings = some text := stored?_of_holds htext
  have hentrySize : table.entrySize = format32.symbolSize := hsize
  rw [File.symbols?]
  simp only [show (l.file data).sections? = some l.sections from rfl,
    show (l.file data).header.format = format32 from rfl, hfind, hentrySize, ne_eq,
    not_true_eq_false, if_false, hdata, hlink, hstrings, hlength, hentries, Option.bind_eq_bind,
    Option.bind_some]
  rfl

/-- The reader opens every file that has a layout, and tells what stands in it. -/
theorem reader_readsTables : reader.ReadsTables := by
  intro l data h
  refine ⟨l.file data, h.ofBytes?, ?_⟩
  exact {
    machine := rfl
    little := rfl
    words32 := rfl
    sections := ⟨name? l.names, h.namedSections?, fun _ _ => name?_of_at⟩
    named := fun _ => h.sectionNamed?
    contents := fun _ _ => contents?_of_holds
    noSymbols := symbols?_of_none
    symbols := fun _ _ _ text hfind hsize hfits hheld hlink htext =>
      ⟨name? text, symbols?_of_holds hfind hsize hfits hheld hlink htext, fun _ _ => name?_of_at⟩ }

end Retrace.Elf
