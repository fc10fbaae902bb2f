import Retrace.Proofs.Elf.Writing

/-!
# Programs are read back

From the file of a program, any reader that tells what stands in files gives its sections that are
not empty, its symbols with a visible name, and its line information.
-/

namespace Retrace.Elf

open Bytes Text

def Piece.isLoaded (piece : Piece) : Bool :=
  piece.flags.testBit 1 && piece.type = SectionHeader.typeProgram && piece.data.length ≠ 0

def Piece.loaded (piece : Piece) : Section :=
  ⟨piece.name, piece.address.toUInt64, piece.data, piece.flags.testBit 2⟩

def SectionSource.loaded (s : SectionSource) : Section :=
  ⟨s.name, s.address.toUInt64, s.data, s.executable⟩

def SymbolSource.symbol (s : SymbolSource) : Symbol :=
  ⟨s.name, s.address.toUInt64, s.size.toUInt64, s.isFunction⟩

variable {α β : Type} {p : Program} {q : Placed} {piece : Piece} {name : String} {names : Names}
  {r : Reader} {file : r.File}

theorem mapM_eq_some {f : α → Option β} {g : α → β} {as : List α} (h : ∀ a ∈ as, f a = some (g a)) :
    as.mapM f = some (as.map g) := by
  induction as with
  | nil => rfl
  | cons a as ih =>
      obtain ⟨ha, has⟩ := List.forall_mem_cons.mp h
      rw [List.mapM_cons, ha, ih has]
      rfl

/-! ## Symbols -/

theorem SymbolSource.kind_stored (s : SymbolSource × Nat) :
    (SymbolSource.stored s).entry.kind = if s.1.isFunction then 2 else 1 := by
  rw [StoredSymbol.entry, SymbolSource.stored]
  cases s.1.isFunction <;> simp

theorem SymbolSource.isRelevant_stored (s : SymbolSource × Nat) :
    (SymbolSource.stored s).entry.isRelevant = true := by
  rw [SymbolEntry.isRelevant, SymbolSource.kind_stored, StoredSymbol.entry, SymbolSource.stored]
  cases s.1.isFunction <;> simp [SymbolEntry.kindFunction]

theorem SymbolSource.symbol_stored (s : SymbolSource × Nat) :
    (⟨s.1.name, (SymbolSource.stored s).entry.value.toUInt64,
      (SymbolSource.stored s).entry.size.toUInt64,
      (SymbolSource.stored s).entry.kind = SymbolEntry.kindFunction⟩ : Symbol) = s.1.symbol := by
  rw [SymbolSource.kind_stored]
  simp only [SymbolSource.stored, StoredSymbol.entry, SymbolSource.symbol, Nat.toUInt64_eq,
    UInt64.ofNat_uInt32ToNat]
  cases s.1.isFunction <;> rfl

/-- Each entry of a symbol but the empty one gives the symbol. -/
theorem symbols_of_entries {symbols : List SymbolSource}
    (hnames : names.Of (stringTable SymbolSource.name symbols))
    (h : ∀ s ∈ symbols, '\x00' ∉ s.name.toList) :
    (((storedSymbols symbols).map StoredSymbol.entry).filter (·.isRelevant)).mapM
      (fun s => (names s.name).bind fun name =>
        some (⟨name, s.value.toUInt64, s.size.toUInt64, s.kind = SymbolEntry.kindFunction⟩ :
          Symbol)) = some (symbols.map SymbolSource.symbol) := by
  have hrelevant : ((storedSymbols symbols).map StoredSymbol.entry).filter (·.isRelevant) =
      (withNames SymbolSource.name 1 symbols).map (StoredSymbol.entry ∘ SymbolSource.stored) := by
    rw [storedSymbols, List.map_cons, List.map_map, List.filter_cons_of_neg (by decide)]
    refine List.filter_eq_self.mpr fun entry hentry => ?_
    obtain ⟨s, -, rfl⟩ := List.mem_map.mp hentry
    exact SymbolSource.isRelevant_stored s
  have hsymbols : (withNames SymbolSource.name 1 symbols).map (SymbolSource.symbol ∘ Prod.fst) =
      symbols.map SymbolSource.symbol := by
    rw [← List.map_map, map_fst_withNames]
  rw [hrelevant, List.mapM_map, ← hsymbols]
  refine mapM_eq_some fun s hs => ?_
  have hmem : s.1 ∈ symbols := by
    rw [← map_fst_withNames SymbolSource.name 1 symbols]
    exact List.mem_map_of_mem hs
  have hname : names (SymbolSource.stored s).entry.name = some s.1.name :=
    hnames _ _ (nameAt_of_mem hs (h s.1 hmem))
  simp only [Function.comp_apply]
  rw [hname, Option.bind_some, SymbolSource.symbol_stored]

namespace Program

/-! ## Loaded sections -/

theorem isLoaded_of_flags (h : piece.flags = 0) : piece.isLoaded = false := by
  simp [Piece.isLoaded, h]

theorem isLoaded_piece (s : SectionSource) : s.piece.isLoaded = decide (s.data ≠ []) := by
  have hflags : (if s.executable then 6 else 2 : Nat).testBit 1 = true := by
    cases s.executable <;> decide
  simp [SectionSource.piece, Piece.isLoaded, hflags]

theorem loaded_piece (s : SectionSource) : s.piece.loaded = s.loaded := by
  have hflags : (if s.executable then 6 else 2 : Nat).testBit 2 = s.executable := by
    cases s.executable <;> decide
  simp only [SectionSource.piece, Piece.loaded, SectionSource.loaded, hflags, Nat.toUInt64_eq,
    UInt64.ofNat_uInt32ToNat]

theorem filter_isLoaded (p : Program) :
    p.pieces.filter Piece.isLoaded = (p.sections.filter (·.data ≠ [])).map SectionSource.piece := by
  have hsections : (p.sections.map SectionSource.piece).filter Piece.isLoaded =
      (p.sections.filter (·.data ≠ [])).map SectionSource.piece := by
    rw [List.filter_map]
    exact congrArg _ (List.filter_congr fun s _ => isLoaded_piece s)
  have hlines : (p.lines?.toList.map linePiece).filter Piece.isLoaded = [] := by
    cases p.lines? with
    | none => rfl
    | some m => exact List.filter_cons_of_neg (by simp [isLoaded_of_flags, linePiece])
  have hsymbols : (if p.symbols.isEmpty then [] else
      [p.symbolPiece, p.symbolNamePiece]).filter Piece.isLoaded = [] := by
    split
    · rfl
    · simp [isLoaded_of_flags, symbolPiece, symbolNamePiece]
  have hnames : [p.namePiece].filter Piece.isLoaded = [] :=
    List.filter_cons_of_neg (by simp [isLoaded_of_flags, namePiece])
  simp only [pieces, front, leading, List.filter_append, hsections, hlines, hsymbols, hnames,
    List.append_nil]

theorem contents?_placed (ht : r.Tells p.layout p.encode file) (hq : q ∈ p.placed)
    (htype : q.piece.type ≠ SectionHeader.typeNoBits) (hflags : q.piece.flags.testBit 11 = false) :
    r.contents? file q.header = some (q.piece.data, false) :=
  ht.contents q.header q.piece.data htype hflags (holds_placed hq)

theorem contents?_of_isLoaded (ht : r.Tells p.layout p.encode file) (hq : q ∈ p.placed)
    (h : q.piece.isLoaded = true) : r.contents? file q.header = some (q.piece.data, false) := by
  have hmem : q.piece ∈ p.pieces.filter Piece.isLoaded :=
    List.mem_filter.mpr ⟨mem_pieces_of_mem_placed hq, h⟩
  rw [filter_isLoaded] at hmem
  obtain ⟨s, -, hs⟩ := List.mem_map.mp hmem
  refine contents?_placed ht hq ?_ ?_
  · rw [← hs]
    exact (by decide : SectionHeader.typeProgram ≠ SectionHeader.typeNoBits)
  · rw [← hs]
    show (if s.executable then 6 else 2 : Nat).testBit 11 = false
    cases s.executable <;> decide

/-- The sections are loaded that are not empty. -/
theorem Valid.loadedSections? (h : p.Valid) (ht : r.Tells p.layout p.encode file) :
    r.loadedSections? file =
      some ((p.sections.filter (·.data ≠ [])).map SectionSource.loaded) := by
  obtain ⟨names, hsections, hnames⟩ := ht.sections
  have hrelevant : (p.headers.filter fun h =>
      h.isAllocated && h.type = SectionHeader.typeProgram && h.size ≠ 0) =
      (p.placed.filter fun q => q.piece.isLoaded).map Placed.header := by
    rw [headers, List.filter_cons_of_neg (by decide), List.filter_map]
    rfl
  have hpieces : (p.placed.filter fun q => q.piece.isLoaded).map Placed.piece =
      (p.sections.filter (·.data ≠ [])).map SectionSource.piece := by
    rw [← filter_isLoaded, ← map_piece_placed, List.filter_map]
    rfl
  have hload : ∀ q ∈ p.placed.filter fun q => q.piece.isLoaded,
      r.load? file names q.header = some (some q.piece.loaded) := by
    intro q hq
    obtain ⟨hq, hloaded⟩ := List.mem_filter.mp hq
    have hname : names q.header.name = some q.piece.name := hnames _ _ (h.nameAt_placed hq)
    rw [Reader.load?, hname, contents?_of_isLoaded ht hq hloaded]
    rfl
  have hloaded : (p.placed.filter fun q => q.piece.isLoaded).map (fun q => q.piece.loaded) =
      (p.sections.filter (·.data ≠ [])).map SectionSource.loaded := by
    have hmap := congrArg (List.map Piece.loaded) hpieces
    rw [List.map_map, List.map_map, show Piece.loaded ∘ SectionSource.piece = _ from
      funext loaded_piece] at hmap
    exact hmap
  have hheaders : r.sections? file = some (some p.headers, some names) := hsections
  rw [Reader.loadedSections?, hheaders]
  simp only [Option.bind_eq_bind, Option.bind_some, hrelevant, List.mapM_map]
  refine (congrArg (Option.bind · _) (mapM_eq_some hload)).trans ?_
  rw [Option.bind_some, List.filterMap_map]
  exact congrArg some ((congrFun List.filterMap_eq_map _).trans hloaded)

/-! ## Visible symbols -/

theorem type_leading (h : piece ∈ p.leading) : piece.type = SectionHeader.typeProgram := by
  rcases List.mem_append.mp h with h | h
  · obtain ⟨s, -, rfl⟩ := List.mem_map.mp h
    rfl
  · obtain ⟨m, -, rfl⟩ := List.mem_map.mp h
    rfl

theorem find?_leading (p : Program) :
    p.leading.find? (·.type = SectionHeader.typeSymbols) = none :=
  List.find?_eq_none.mpr fun piece hpiece => by
    rw [type_leading hpiece]
    decide

theorem pieces_of_symbols (h : p.symbols ≠ []) :
    p.pieces = p.leading ++ [p.symbolPiece, p.symbolNamePiece, p.namePiece] := by
  rw [pieces, front, if_neg (by simpa using h), List.append_assoc]
  rfl

theorem find?_symbols (p : Program) :
    p.headers.find? (·.type = SectionHeader.typeSymbols) =
      (p.placed.find? (·.piece.type = SectionHeader.typeSymbols)).map Placed.header := by
  rw [headers, List.find?_cons_of_neg (by decide), List.find?_map]
  rfl

theorem map_find?_placed (p : Program) (f : Piece → Bool) :
    (p.placed.find? fun q => f q.piece).map Placed.piece = p.pieces.find? f := by
  rw [← map_piece_placed, List.find?_map]
  rfl

theorem find?_symbols_none (h : p.symbols = []) :
    p.headers.find? (·.type = SectionHeader.typeSymbols) = none := by
  have hnone : p.pieces.find? (·.type = SectionHeader.typeSymbols) = none := by
    rw [pieces, front, h, List.find?_append, List.find?_append, find?_leading]
    rfl
  rw [← map_find?_placed, Option.map_eq_none_iff] at hnone
  rw [find?_symbols, hnone, Option.map_none]

theorem find?_symbols_some (h : p.symbols ≠ []) :
    ∃ q ∈ p.placed, q.piece = p.symbolPiece ∧
      p.headers.find? (·.type = SectionHeader.typeSymbols) = some q.header := by
  have hsome : p.pieces.find? (·.type = SectionHeader.typeSymbols) = some p.symbolPiece := by
    rw [pieces_of_symbols h, List.find?_append, find?_leading]
    rfl
  rw [← map_find?_placed] at hsome
  obtain ⟨q, hq, hpiece⟩ := Option.map_eq_some_iff.mp hsome
  exact ⟨q, List.mem_of_find?_eq_some hq, hpiece, by rw [find?_symbols, hq, Option.map_some]⟩

/-- The symbol table leads to the strings of its names. -/
theorem exists_symbolNames (h : p.symbols ≠ []) :
    ∃ strings, p.headers[p.leading.length + 2]? = some strings ∧
      strings.Holds p.encode (stringTable SymbolSource.name p.symbols) := by
  have hindex : p.pieces[p.leading.length + 1]? = some p.symbolNamePiece := by
    rw [pieces_of_symbols h, List.getElem?_append_right (Nat.le_add_right _ _)]
    simp
  obtain ⟨q, hq, hpiece, hheader⟩ := exists_header hindex
  have hheld := holds_placed hq
  rw [hpiece] at hheld
  exact ⟨q.header, hheader, hheld⟩

theorem Valid.fits_storedSymbols (h : p.Valid) (hne : p.symbols ≠ []) :
    ∀ s ∈ storedSymbols p.symbols, s.Fits := by
  have hstrings : p.symbolNamePiece.data.length ≤ p.tableOffset :=
    length_le (by simp [pieces_of_symbols hne])
  refine List.forall_mem_cons.mpr ⟨⟨by decide, by decide, by decide, by decide⟩, ?_⟩
  rintro stored hstored
  obtain ⟨s, hs, rfl⟩ := List.mem_map.mp hstored
  have hname : s.2 < 2 ^ 32 :=
    Nat.lt_of_lt_of_le (place_lt hs) (Nat.le_trans hstrings h.offset.le)
  exact ⟨hname, s.1.address.toNat_lt, s.1.size.toNat_lt, by simp [SymbolSource.stored]⟩

/-- The symbols are given that have a visible name. -/
theorem Valid.visibleSymbols? (h : p.Valid) (ht : r.Tells p.layout p.encode file) :
    r.visibleSymbols? file =
      some ((p.symbols.map SymbolSource.symbol).filter (isVisibleName ·.name)) := by
  by_cases hne : p.symbols = []
  · rw [Reader.visibleSymbols?, ht.noSymbols (find?_symbols_none hne), hne]
    rfl
  · obtain ⟨q, hq, hpiece, hfind⟩ := find?_symbols_some hne
    obtain ⟨strings, hlink, htext⟩ := exists_symbolNames hne
    have hentrySize : q.header.entrySize = 16 := by
      rw [Placed.header, hpiece]
      rfl
    have hstrings : p.headers[q.header.link]? = some strings := by
      rw [Placed.header, hpiece]
      exact hlink
    have hdata := holds_placed hq
    rw [hpiece] at hdata
    obtain ⟨names, hsymbols, hnames⟩ := ht.symbols q.header strings (storedSymbols p.symbols)
      (stringTable SymbolSource.name p.symbols) hfind hentrySize (h.fits_storedSymbols hne) hdata
      hstrings htext
    rw [Reader.visibleSymbols?, hsymbols]
    exact congrArg (Option.bind · _) (symbols_of_entries hnames h.symbols)

/-! ## Line information -/

theorem Valid.sectionNamed?_eq (h : p.Valid) (ht : r.Tells p.layout p.encode file)
    (hne : name ≠ "") :
    r.sectionNamed? file name =
      some ((p.placed.find? (·.piece.name = name)).map Placed.header) := by
  have hnamed := ht.named ((emptyHeader, "") :: p.placed.map fun q => (q.header, q.piece.name))
    (by rw [List.map_cons, List.map_map]; rfl) ?_ name
  · rw [hnamed, List.find?_cons_of_neg (by simpa using hne.symm), List.find?_map,
      Option.map_map]
    rfl
  · refine List.forall_mem_cons.mpr ⟨nameAt_zero id p.names, fun s hs => ?_⟩
    obtain ⟨q, hq, rfl⟩ := List.mem_map.mp hs
    exact h.nameAt_placed hq

theorem Valid.debugData?_none (h : p.Valid) (ht : r.Tells p.layout p.encode file) (hne : name ≠ "")
    (hnone : p.pieces.find? (·.name = name) = none) : r.debugData? file name = some [] := by
  rw [← map_find?_placed p fun piece => piece.name = name, Option.map_eq_none_iff] at hnone
  rw [Reader.debugData?, h.sectionNamed?_eq ht hne, hnone]
  rfl

theorem Valid.debugData?_some (h : p.Valid) (ht : r.Tells p.layout p.encode file) (hne : name ≠ "")
    (hsome : p.pieces.find? (·.name = name) = some piece)
    (htype : piece.type ≠ SectionHeader.typeNoBits) (hflags : piece.flags.testBit 11 = false) :
    r.debugData? file name = some piece.data := by
  rw [← map_find?_placed p fun piece => piece.name = name] at hsome
  obtain ⟨q, hfind, rfl⟩ := Option.map_eq_some_iff.mp hsome
  have hcontents := contents?_placed ht (List.mem_of_find?_eq_some hfind) htype hflags
  rw [Reader.debugData?, h.sectionNamed?_eq ht hne, hfind]
  simp only [Option.map_some, Option.bind_eq_bind, Option.bind_some, hcontents]
  rfl

/-- Only the section of line information can have one of its names. -/
theorem Valid.find?_pieces (h : p.Valid)
    (hname : name ∈ [".debug_line", ".debug_str", ".debug_line_str"]) :
    p.pieces.find? (·.name = name) = (p.lines?.toList.map linePiece).find? (·.name = name) := by
  have hfixed : ∀ other ∈ [".symtab", ".strtab", ".shstrtab"], other ≠ name := by
    have hdistinct : ∀ name ∈ [".debug_line", ".debug_str", ".debug_line_str"],
        ∀ other ∈ [".symtab", ".strtab", ".shstrtab"], other ≠ name := by
      decide
    exact hdistinct name hname
  have hnone : ∀ pieces : List Piece, (∀ piece ∈ pieces, piece.name ≠ name) →
      pieces.find? (·.name = name) = none := by
    intro pieces h
    exact List.find?_eq_none.mpr fun piece hpiece => decide_eq_true_iff.not.mpr (h piece hpiece)
  have hsections : (p.sections.map SectionSource.piece).find? (·.name = name) = none := by
    refine hnone _ fun piece hpiece => ?_
    obtain ⟨s, hs, rfl⟩ := List.mem_map.mp hpiece
    exact fun heq : s.name = name => h.plain s hs (heq ▸ hname)
  have hsymbols : (if p.symbols.isEmpty then [] else [p.symbolPiece, p.symbolNamePiece]).find?
      (·.name = name) = none := by
    split
    · rfl
    · refine hnone _ (List.forall_mem_cons.mpr ⟨hfixed ".symtab" (by decide), ?_⟩)
      exact List.forall_mem_singleton.mpr (hfixed ".strtab" (by decide))
  have hnames : [p.namePiece].find? (·.name = name) = none :=
    hnone _ (List.forall_mem_singleton.mpr (hfixed ".shstrtab" (by decide)))
  simp only [pieces, front, leading, List.find?_append, hsections, hsymbols, hnames, Option.none_or,
    Option.or_none]

theorem Valid.debugData?_lines (h : p.Valid) (ht : r.Tells p.layout p.encode file) :
    r.debugData? file ".debug_line" = some (p.lines?.elim [] Dwarf.SourceMap.encode) := by
  have hname : ".debug_line" ∈ [".debug_line", ".debug_str", ".debug_line_str"] := by
    decide
  have hfind := h.find?_pieces hname
  cases hlines : p.lines? with
  | none =>
      rw [hlines] at hfind
      exact h.debugData?_none ht (by decide) hfind
  | some m =>
      rw [hlines] at hfind
      exact h.debugData?_some ht (by decide) hfind (by decide : 1 ≠ 8) (Nat.zero_testBit 11)

theorem Valid.debugData?_strings (h : p.Valid) (ht : r.Tells p.layout p.encode file)
    (hname : name ∈ [".debug_str", ".debug_line_str"]) : r.debugData? file name = some [] := by
  have hne : name ≠ "" ∧ ".debug_line" ≠ name := by
    revert hname name
    simp
  have hfind := h.find?_pieces (List.mem_cons_of_mem ".debug_line" hname)
  refine h.debugData?_none ht hne.1 (hfind.trans ?_)
  cases p.lines? with
  | none => rfl
  | some m => exact List.find?_cons_of_neg (decide_eq_true_iff.not.mpr hne.2)

end Program

end Retrace.Elf
