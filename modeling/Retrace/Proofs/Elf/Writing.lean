import Mathlib.Data.List.Basic
import Retrace.Elf.Program
import Retrace.Proofs.Dwarf.LineRows
import Retrace.Proofs.Elf.Layout

/-!
# Writing ELF files

A program is written as a file of 32-bit words in little byte order: the file header, the contents
of the sections one after the other, and the table of section headers. Whatever is written stands
at the place that the tables give for it.
-/

namespace Retrace.Elf

open Bytes Text

/-- A section of a program. -/
structure SectionSource where
  name : String
  address : UInt32
  data : List UInt8
  executable : Bool
  deriving DecidableEq, Repr

/-- A function or an object of a program. -/
structure SymbolSource where
  name : String
  address : UInt32
  size : UInt32
  isFunction : Bool
  deriving DecidableEq, Repr

structure Program where
  sections : List SectionSource
  symbols : List SymbolSource
  lines? : Option Dwarf.SourceMap
  deriving DecidableEq, Repr

/-- A section as it is written. -/
structure Piece where
  name : String
  type : Nat
  flags : Nat
  address : Nat
  data : List UInt8
  link : Nat
  entrySize : Nat
  deriving DecidableEq, Repr

/-- A section and the places of its name in the string table and of its contents in the file. -/
structure Placed where
  piece : Piece
  nameAt : Nat
  offset : Nat
  deriving DecidableEq, Repr

/-! ## Strings -/

/-- The bytes of names, each with a zero at its end. -/
def nameBytes {α : Type} (name : α → String) (as : List α) : List UInt8 :=
  as.flatMap fun a => Utf8.encode (name a) ++ [0]

/-- A string table: the empty name and then the others. -/
def stringTable {α : Type} (name : α → String) (as : List α) : List UInt8 :=
  0 :: nameBytes name as

/-- The places of names in a string table, the first of which is at `start`. -/
def withNames {α : Type} (name : α → String) (start : Nat) : List α → List (α × Nat)
  | [] => []
  | a :: as => (a, start) :: withNames name (start + (Utf8.encode (name a)).length + 1) as

/-! ## Sections -/

def SectionSource.piece (s : SectionSource) : Piece :=
  ⟨s.name, SectionHeader.typeProgram, if s.executable then 6 else 2, s.address.toNat, s.data, 0, 0⟩

/-- A symbol with the place of its name: it is global, and defined in the first section. -/
def SymbolSource.stored (s : SymbolSource × Nat) : StoredSymbol :=
  ⟨s.2, s.1.address.toNat, s.1.size.toNat, if s.1.isFunction then 18 else 17, 0, 1⟩

/-- The symbols of a symbol table: the empty one and then the others. -/
def storedSymbols (symbols : List SymbolSource) : List StoredSymbol :=
  ⟨0, 0, 0, 0, 0, 0⟩ :: (withNames SymbolSource.name 1 symbols).map SymbolSource.stored

def typeStrings : Nat := 3

/-- The section with line information. -/
def linePiece (m : Dwarf.SourceMap) : Piece :=
  ⟨".debug_line", SectionHeader.typeProgram, 0, 0, m.encode, 0, 0⟩

namespace Program

variable (p : Program)

/-- The sections that are loaded and the one with line information. -/
def leading : List Piece :=
  p.sections.map SectionSource.piece ++ p.lines?.toList.map linePiece

def symbolPiece : Piece :=
  ⟨".symtab", SectionHeader.typeSymbols, 0, 0,
    (storedSymbols p.symbols).flatMap StoredSymbol.bytes, p.leading.length + 2, 16⟩

def symbolNamePiece : Piece :=
  ⟨".strtab", typeStrings, 0, 0, stringTable SymbolSource.name p.symbols, 0, 0⟩

/-- The sections before the last one. There is no symbol table without symbols. -/
def front : List Piece :=
  p.leading ++ if p.symbols.isEmpty then [] else [p.symbolPiece, p.symbolNamePiece]

/-- The names of all sections; that of their string table is the last one. -/
def names : List String :=
  p.front.map Piece.name ++ [".shstrtab"]

def namePiece : Piece :=
  ⟨".shstrtab", typeStrings, 0, 0, stringTable id p.names, 0, 0⟩

def pieces : List Piece :=
  p.front ++ [p.namePiece]

end Program

/-! ## Layout -/

/-- The zeros up to the next multiple of four. -/
def padding (position : Nat) : List UInt8 :=
  List.replicate ((4 - position % 4) % 4) 0

/-- The contents of sections from a position on. -/
def contentBytes (position : Nat) : List (Piece × Nat) → List UInt8
  | [] => padding position
  | q :: qs =>
    let start := position + (padding position).length
    padding position ++ q.1.data ++ contentBytes (start + q.1.data.length) qs

/-- The places of sections from a position on. -/
def place (position : Nat) : List (Piece × Nat) → List Placed
  | [] => []
  | q :: qs =>
    let start := position + (padding position).length
    ⟨q.1, q.2, start⟩ :: place (start + q.1.data.length) qs

/-- The header of a section. That of a symbol table tells how many symbols are local. -/
def Placed.header (q : Placed) : SectionHeader :=
  let isSymbols := q.piece.type = SectionHeader.typeSymbols
  ⟨q.nameAt, q.piece.type, q.piece.flags, q.piece.address, q.offset, q.piece.data.length,
    q.piece.link, if isSymbols then 1 else 0, if isSymbols then 4 else 1, q.piece.entrySize⟩

def emptyHeader : SectionHeader :=
  ⟨0, 0, 0, 0, 0, 0, 0, 0, 0, 0⟩

namespace Program

variable (p : Program)

def named : List (Piece × Nat) :=
  withNames Piece.name 1 p.pieces

def contents : List UInt8 :=
  contentBytes headerSize p.named

def placed : List Placed :=
  place headerSize p.named

def tableOffset : Nat :=
  headerSize + p.contents.length

/-- The section headers; the first one is empty. -/
def headers : List SectionHeader :=
  emptyHeader :: p.placed.map Placed.header

def layout : Layout where
  type := 2
  machine := machineRiscv
  entry := 0
  flags := 0
  tableOffset := p.tableOffset
  sections := p.headers
  namesIndex := p.pieces.length
  names := stringTable id p.names

/-- The file of a program. -/
def encode : List UInt8 :=
  p.layout.header ++ p.contents ++ p.headers.flatMap SectionHeader.bytes

/-- What a program must meet to be written: names have no zeros, offsets and indices fit into their
fields, and no section looks like one with line information. -/
structure Valid : Prop where
  sections : ∀ s ∈ p.sections, '\x00' ∉ s.name.toList
  plain : ∀ s ∈ p.sections, s.name ∉ [".debug_line", ".debug_str", ".debug_line_str"]
  symbols : ∀ s ∈ p.symbols, '\x00' ∉ s.name.toList
  lines : ∀ m ∈ p.lines?, m.Valid
  offset : p.tableOffset < 2 ^ 32
  count : p.headers.length < 2 ^ 16

end Program

variable {α : Type} {name : α → String} {as : List α} {a : α} {start position place : Nat}
  {q : Placed} {qs : List (Piece × Nat)} {pre : List UInt8}

/-! ## Places of names -/

theorem map_fst_withNames (name : α → String) (start : Nat) (as : List α) :
    (withNames name start as).map Prod.fst = as := by
  induction as generalizing start with
  | nil => rfl
  | cons a as ih => rw [withNames, List.map_cons, ih]

theorem at_nameBytes (h : (a, place) ∈ withNames name start as) (hpre : pre.length = start) :
    At (pre ++ nameBytes name as) place (Utf8.encode (name a) ++ [0]) := by
  induction as generalizing start pre with
  | nil => cases h
  | cons b as ih =>
      rcases List.mem_cons.mp h with heq | hmem
      · cases heq
        exact ⟨pre, nameBytes name as, rfl, hpre⟩
      · have hbytes : pre ++ nameBytes name (b :: as) =
            pre ++ (Utf8.encode (name b) ++ [0]) ++ nameBytes name as := by
          simp [nameBytes]
        rw [hbytes]
        refine ih hmem ?_
        rw [List.length_append, List.length_append, List.length_singleton, hpre, Nat.add_assoc]

/-- A name stands at the place that it is said to have. -/
theorem nameAt_of_mem (h : (a, place) ∈ withNames name 1 as) (ha : '\x00' ∉ (name a).toList) :
    NameAt (stringTable name as) place (name a) :=
  have hpre : [(0 : UInt8)].length = 1 := rfl
  ⟨ha, at_nameBytes h hpre⟩

theorem nameAt_zero (name : α → String) (as : List α) : NameAt (stringTable name as) 0 "" :=
  ⟨List.not_mem_nil, .start [0] (nameBytes name as)⟩

theorem place_lt (h : (a, place) ∈ withNames name 1 as) : place < (stringTable name as).length := by
  have hpre : [(0 : UInt8)].length = 1 := rfl
  have hle := (at_nameBytes h hpre).le_length
  rw [List.length_append, List.length_singleton] at hle
  exact Nat.lt_of_lt_of_le (Nat.lt_add_of_pos_right (Nat.succ_pos _)) hle

/-! ## Places of contents -/

theorem map_place (position : Nat) (qs : List (Piece × Nat)) :
    (Elf.place position qs).map (fun q => (q.piece, q.nameAt)) = qs := by
  induction qs generalizing position with
  | nil => rfl
  | cons q qs ih => simp only [Elf.place, List.map_cons, ih]

theorem le_offset (h : q ∈ Elf.place position qs) : position ≤ q.offset := by
  induction qs generalizing position with
  | nil => cases h
  | cons p qs ih =>
      rcases List.mem_cons.mp h with rfl | hmem
      · exact Nat.le_add_right _ _
      · have hlater := ih hmem
        omega

/-- The contents of a section stand at the place that it is said to have. -/
theorem at_of_mem (h : q ∈ Elf.place position qs) (hpre : pre.length = position)
    (rest : List UInt8) : At (pre ++ (contentBytes position qs ++ rest)) q.offset q.piece.data := by
  induction qs generalizing position pre with
  | nil => cases h
  | cons p qs ih =>
      have hstart : (pre ++ padding position).length = position + (padding position).length := by
        rw [List.length_append, hpre]
      -- The padding belongs to what stands in front of the section.
      have hbytes : pre ++ (contentBytes position (p :: qs) ++ rest) =
          (pre ++ padding position) ++ (p.1.data ++ (contentBytes
            (position + (padding position).length + p.1.data.length) qs ++ rest)) := by
        simp only [contentBytes, List.append_assoc]
      rw [hbytes]
      rcases List.mem_cons.mp h with rfl | hmem
      · exact ⟨pre ++ padding position, _, rfl, hstart⟩
      · rw [← List.append_assoc]
        exact ih hmem (by rw [List.length_append, hstart])

namespace Program

variable {p : Program} {piece : Piece}

/-! ## Pieces -/

theorem mem_pieces (h : piece ∈ p.pieces) :
    (∃ s ∈ p.sections, s.piece = piece) ∨ (∃ m ∈ p.lines?, linePiece m = piece) ∨
      (p.symbols ≠ [] ∧ piece = p.symbolPiece) ∨ piece = p.symbolNamePiece ∨
        piece = p.namePiece := by
  simp only [pieces, front, leading, List.mem_append, List.mem_map, Option.mem_toList,
    List.mem_singleton] at h
  rcases h with ((hsection | hlines) | hsymbols) | hnames
  · exact .inl hsection
  · exact .inr (.inl hlines)
  · split at hsymbols
    · cases hsymbols
    · rename_i hne
      rcases List.mem_pair.mp hsymbols with htable | hstrings
      · exact .inr (.inr (.inl ⟨fun hnil => hne (by rw [hnil]; rfl), htable⟩))
      · exact .inr (.inr (.inr (.inl hstrings)))
  · exact .inr (.inr (.inr (.inr hnames)))

theorem map_piece_placed (p : Program) : p.placed.map Placed.piece = p.pieces := by
  have hpairs := congrArg (List.map Prod.fst) (map_place headerSize p.named)
  rw [List.map_map, named, map_fst_withNames] at hpairs
  exact hpairs

theorem length_headers (p : Program) : p.headers.length = p.pieces.length + 1 := by
  rw [headers, List.length_cons, List.length_map, ← map_piece_placed, List.length_map]

theorem mem_named (hq : q ∈ p.placed) : (q.piece, q.nameAt) ∈ withNames Piece.name 1 p.pieces := by
  have hpairs : p.placed.map (fun q => (q.piece, q.nameAt)) = p.named :=
    map_place headerSize p.named
  rw [← named, ← hpairs]
  exact List.mem_map_of_mem hq

theorem mem_pieces_of_mem_placed (hq : q ∈ p.placed) : q.piece ∈ p.pieces := by
  rw [← map_piece_placed]
  exact List.mem_map_of_mem hq

theorem exists_placed (h : piece ∈ p.pieces) : ∃ q ∈ p.placed, q.piece = piece := by
  rw [← map_piece_placed] at h
  exact List.mem_map.mp h

theorem exists_header {i : Nat} (h : p.pieces[i]? = some piece) :
    ∃ q ∈ p.placed, q.piece = piece ∧ p.headers[i + 1]? = some q.header := by
  rw [← map_piece_placed, List.getElem?_map] at h
  obtain ⟨q, hq, rfl⟩ := Option.map_eq_some_iff.mp h
  refine ⟨q, List.mem_of_getElem? hq, rfl, ?_⟩
  rw [headers, List.getElem?_cons_succ, List.getElem?_map, hq, Option.map_some]

theorem stringTable_pieces (p : Program) :
    stringTable Piece.name p.pieces = stringTable id p.names := by
  simp [stringTable, nameBytes, pieces, names, namePiece, List.flatMap_map]

theorem Valid.nameAt_placed (h : p.Valid) (hq : q ∈ p.placed) :
    NameAt (stringTable id p.names) q.nameAt q.piece.name := by
  have hname : '\x00' ∉ q.piece.name.toList := by
    have hfixed : ∀ name ∈ [".debug_line", ".symtab", ".strtab", ".shstrtab"],
        '\x00' ∉ name.toList := by
      decide
    rcases mem_pieces (mem_pieces_of_mem_placed hq) with
      ⟨s, hs, heq⟩ | ⟨m, -, heq⟩ | ⟨-, heq⟩ | heq | heq
    · rw [← heq]
      exact h.sections s hs
    · exact hfixed _ (by simp [← heq, linePiece])
    · exact hfixed _ (by simp [heq, symbolPiece])
    · exact hfixed _ (by simp [heq, symbolNamePiece])
    · exact hfixed _ (by simp [heq, namePiece])
  rw [← stringTable_pieces]
  exact nameAt_of_mem (mem_named hq) hname

/-! ## The layout -/

theorem length_header (p : Program) : p.layout.header.length = headerSize := by
  simp [Layout.header, identification, headerSize]

theorem holds_placed (hq : q ∈ p.placed) : q.header.Holds p.encode q.piece.data := by
  refine ⟨?_, rfl⟩
  rw [encode, List.append_assoc]
  exact at_of_mem hq p.length_header _

theorem offset_le (hq : q ∈ p.placed) : q.offset + q.piece.data.length ≤ p.tableOffset := by
  have hle := (at_of_mem hq p.length_header []).le_length
  rwa [List.append_nil, List.length_append, length_header] at hle

theorem length_le (h : piece ∈ p.pieces) : piece.data.length ≤ p.tableOffset := by
  obtain ⟨q, hq, rfl⟩ := exists_placed h
  exact Nat.le_trans (Nat.le_add_left _ _) (offset_le hq)

theorem nameAt_lt (hq : q ∈ p.placed) : q.nameAt < p.tableOffset := by
  have hplace := place_lt (mem_named hq)
  rw [stringTable_pieces] at hplace
  have hnames : p.namePiece.data.length ≤ p.tableOffset := length_le (by simp [pieces])
  exact Nat.lt_of_lt_of_le hplace hnames

theorem numbers_lt (hcount : p.headers.length < 2 ^ 16) (h : piece ∈ p.pieces) :
    piece.type < 2 ^ 32 ∧ piece.flags < 2 ^ 32 ∧ piece.address < 2 ^ 32 ∧ piece.link < 2 ^ 32 ∧
      piece.entrySize < 2 ^ 32 := by
  rcases mem_pieces h with ⟨s, -, rfl⟩ | ⟨m, -, rfl⟩ | ⟨-, rfl⟩ | rfl | rfl
  · have haddress : s.address.toNat < 2 ^ 32 := s.address.toNat_lt
    have hflags : (if s.executable then 6 else 2) < 2 ^ 32 := by split <;> decide
    simpa [SectionSource.piece, SectionHeader.typeProgram] using And.intro hflags haddress
  · simp [linePiece, SectionHeader.typeProgram]
  · have hleading : p.leading.length + 2 < 2 ^ 32 := by
      simp only [length_headers, pieces, front, List.length_append] at hcount
      omega
    simpa [symbolPiece, SectionHeader.typeSymbols] using hleading
  · simp [symbolNamePiece, typeStrings]
  · simp [namePiece, typeStrings]

theorem Valid.fields_lt (h : p.Valid) (hq : q ∈ p.placed) : ∀ n ∈ q.header.fields, n < 2 ^ 32 := by
  have hplace := offset_le hq
  have hname := nameAt_lt hq
  have hoffset := h.offset
  obtain ⟨htype, hflags, haddress, hlink, hentry⟩ :=
    numbers_lt h.count (mem_pieces_of_mem_placed hq)
  simp only [Placed.header, SectionHeader.fields, List.forall_mem_cons]
  refine ⟨by omega, htype, hflags, haddress, by omega, by omega, hlink, ?_, ?_, hentry, nofun⟩
  · split <;> decide
  · split <;> decide

theorem Valid.fits (h : p.Valid) : p.layout.Fits where
  type := (by decide : 2 < 2 ^ 16)
  machine := (by decide : machineRiscv < 2 ^ 16)
  entry := (by decide : 0 < 2 ^ 32)
  flags := (by decide : 0 < 2 ^ 32)
  tableOffset := ⟨Nat.lt_of_lt_of_le (by decide) (Nat.le_add_right headerSize _), h.offset⟩
  count := ⟨Nat.succ_pos _, h.count⟩
  namesIndex := by
    have hcount := h.count
    rw [length_headers] at hcount
    have hpieces : 0 < p.pieces.length := by simp [pieces]
    exact ⟨hpieces, by simp only [layout]; omega⟩
  sections := by
    refine List.forall_mem_cons.mpr ⟨by decide, fun s hs => ?_⟩
    obtain ⟨q, hq, rfl⟩ := List.mem_map.mp hs
    exact h.fields_lt hq

/-- The file of a program has the layout. -/
theorem Valid.describes (h : p.Valid) : p.layout.Describes p.encode where
  fits := h.fits
  header := by
    rw [encode, List.append_assoc]
    exact .start _ _
  table := by
    refine ⟨p.layout.header ++ p.contents, [], by rw [List.append_nil]; rfl, ?_⟩
    rw [List.length_append, length_header]
    rfl
  names := by
    have hlast : p.pieces[p.front.length]? = some p.namePiece := by
      simp [pieces]
    obtain ⟨q, hq, hpiece, hheader⟩ := exists_header hlast
    refine ⟨q.header, ?_, ?_⟩
    · rw [← hheader, layout, pieces, List.length_append, List.length_singleton]
    · have hheld := holds_placed hq
      rwa [hpiece] at hheld

end Program

end Retrace.Elf
