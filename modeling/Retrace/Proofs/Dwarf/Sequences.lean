import Mathlib.Data.List.Basic
import Retrace.Dwarf.LineProgram
import Retrace.Dwarf.Ranges
import Retrace.Proofs.Dwarf.LineMachine

/-!
# Ranges and sequences of rows

The rows of a line program come in sequences, some of them are dropped, and a range goes from a row
to the next one that is not. Both are rows of one sequence, unless the end of the sequence is
dropped: then the range goes on to the next sequence with a row.
-/

namespace Retrace.Dwarf

/-- The row tells the line of the code from its address on. -/
def Row.hasLine (row : Row) : Bool :=
  !(row.isEnd || row.line = 0)

def firstRow? (rows : List Row) (file : UInt64) : Option Row :=
  rows.find? fun row => row.hasLine && row.file = file

/-- Between two sequences, from the last row that is kept of one with a dropped end to the first row
behind it. -/
def Spans (qs : List (List Emitted)) (row next : Row) : Prop :=
  ∃ before q between q' after, qs = before ++ q :: (between ++ q' :: after) ∧
    (∃ e, q.getLast? = some e ∧ e.isDropped = true ∧ e.row.isEnd = true) ∧
    (yielded q).getLast? = some row ∧ (∀ b ∈ between, yielded b = []) ∧
    (yielded q').head? = some next

namespace Reader

/-- The rows of a program are those of its sequences that are not dropped. Each sequence but the
last one has an end, where the next one starts. -/
structure RunsSequences (r : Reader) (sequences : r.Program → List (List Emitted)) : Prop where
  rows : ∀ program rows, r.rows? program = some rows → rows = (sequences program).flatMap yielded
  ends : ∀ program, ∀ q ∈ sequences program, ∀ e ∈ q.dropLast, e.row.isEnd = false
  restarts : ∀ program, ∀ q ∈ (sequences program).dropLast,
    ∃ e, q.getLast? = some e ∧ e.row.isEnd = true

variable (r : Reader)

/-- The programs of the units from an offset on. -/
def programsFrom? (addressSize : Nat) (data : List UInt8) (offset : Nat) :
    Option (List r.Program) :=
  if offset < data.length then do
    let program ← r.program? data offset addressSize
    let size := r.unitLength program + initialLengthSize (r.is64 program)
    let later ← programsFrom? addressSize data (offset + size)
    return program :: later
  else some []
termination_by data.length - offset
decreasing_by
  simp only [initialLengthSize]
  split <;> omega

/-- The name of a file is that of its first row. -/
def nameIn (strings : Strings) (rows : List Row) (file : UInt64) : String :=
  ((firstRow? rows file).map fun row => r.fileName strings row.source?).getD ""

/-- The range from a row to the next one, if there is code between them that has a line. -/
def rangeBetween? (strings : Strings) (rows : List Row) (row next : Row) : Option LineRange :=
  if row.hasLine ∧ row.address < next.address then
    some ⟨row.address, next.address, r.nameIn strings rows row.file,
      (min maxLine row.line.toNat).toUInt32⟩
  else none

end Reader

variable {r : Reader} {strings : Strings} {data : List UInt8} {addressSize offset : Nat}
  {ranges : List LineRange}

/-! ## Rows of sequences -/

theorem exists_sequence_of_row {qs : List (List Emitted)} {before later : List Row} {row : Row}
    (h : qs.flatMap yielded = before ++ row :: later) :
    ∃ first q init tail after, qs = first ++ q :: after ∧ yielded q = init ++ row :: tail ∧
      before = first.flatMap yielded ++ init ∧ later = tail ++ after.flatMap yielded := by
  simp only [List.flatMap_def] at h ⊢
  rcases List.flatten_eq_append_iff.mp h with
    ⟨first, after, hrows, rfl, hlater⟩ | ⟨first, init, _, tail, after, hrows, rfl, hlater⟩
  · obtain ⟨empty, tail, after, rfl, hempty, rfl⟩ := List.flatten_eq_cons_iff.mp hlater.symm
    have hnone : empty.flatten = [] := List.flatten_eq_nil_iff.mpr hempty
    rw [← List.append_assoc] at hrows
    obtain ⟨first', _, rfl, hfirst, hlast⟩ := List.map_eq_append_iff.mp hrows
    obtain ⟨q, after, rfl, hq, rfl⟩ := List.map_eq_cons_iff.mp hlast
    exact ⟨first', q, [], tail, after, rfl, hq, by simp [hfirst, hnone], rfl⟩
  · obtain ⟨rfl, rfl⟩ := List.cons.inj hlater
    obtain ⟨first, _, rfl, rfl, hlast⟩ := List.map_eq_append_iff.mp hrows
    obtain ⟨q, after, rfl, hq, rfl⟩ := List.map_eq_cons_iff.mp hlast
    exact ⟨first, q, init, tail, after, rfl, hq, rfl, rfl⟩

/-- The last emitted row is the last one that is kept, unless it is dropped. -/
theorem getLast?_yielded {q : List Emitted} {e : Emitted} (h : q.getLast? = some e)
    (hkept : e.isDropped = false) : (yielded q).getLast? = some e.row := by
  obtain ⟨init, rfl⟩ := List.getLast?_eq_some_iff.mp h
  simp [yielded, hkept]

/-- Two rows in a row, of which the first one ends no sequence, are in one sequence, or the end of
the first one is dropped. -/
theorem infix_flatMap_iff {qs : List (List Emitted)} {row next : Row}
    (hqs : ∀ q ∈ qs.dropLast, ∃ e, q.getLast? = some e ∧ e.row.isEnd = true)
    (hrow : row.isEnd = false) :
    [row, next] <:+: qs.flatMap yielded ↔
      (∃ q ∈ qs, [row, next] <:+: yielded q) ∨ Spans qs row next := by
  constructor
  · rintro ⟨before, after, heq⟩
    rw [List.append_assoc, List.cons_append] at heq
    obtain ⟨first, q, init, tail, later, rfl, hq, -, hlater⟩ := exists_sequence_of_row heq.symm
    cases tail with
    | cons row' tail =>
        obtain ⟨rfl, -⟩ := List.cons.inj hlater
        refine .inl ⟨q, by simp, init, tail, ?_⟩
        rw [hq, List.append_assoc]
        rfl
    | nil =>
        have hnext : later.flatMap yielded = [] ++ next :: after := hlater.symm
        obtain ⟨between, q', init', tail', later, rfl, hq', hnone, -⟩ :=
          exists_sequence_of_row hnext
        obtain ⟨hbetween, rfl⟩ := List.append_eq_nil_iff.mp hnone.symm
        have hlast : (yielded q).getLast? = some row := by
          rw [hq, List.getLast?_concat]
        obtain ⟨e, he, hend⟩ := hqs q (by
          simp [List.dropLast_append_of_ne_nil, List.dropLast_cons_of_ne_nil])
        refine .inr ⟨first, q, between, q', later, rfl, ⟨e, he, ?_, hend⟩, hlast,
          List.flatMap_eq_nil_iff.mp hbetween, by rw [hq']; rfl⟩
        -- Otherwise the row would be the one that ends the sequence.
        by_contra hkept
        rw [getLast?_yielded he (by simpa using hkept)] at hlast
        cases hlast
        rw [hrow] at hend
        cases hend
  · rintro (⟨q, hq, hin⟩ | ⟨before, q, between, q', after, rfl, -, hlast, hempty, hhead⟩)
    · exact hin.trans (List.infix_of_mem_flatten (List.mem_map_of_mem hq))
    · obtain ⟨init, hinit⟩ := List.getLast?_eq_some_iff.mp hlast
      obtain ⟨tail, htail⟩ := List.head?_eq_some_iff.mp hhead
      have hnone : between.flatMap yielded = [] := List.flatMap_eq_nil_iff.mpr hempty
      refine ⟨before.flatMap yielded ++ init, tail ++ after.flatMap yielded, ?_⟩
      simp [hinit, htail, hnone]

/-! ## Ranges between rows -/

theorem firstRow?_append (before : List Row) (row : Row) (file : UInt64) :
    firstRow? (before ++ [row]) file =
      (firstRow? before file).or (if row.hasLine && row.file = file then some row else none) := by
  cases hrow : row.hasLine && row.file = file <;> simp [firstRow?, List.find?_append, hrow]

namespace Reader

/-- The range that a row starts. -/
def opening? (r : Reader) (strings : Strings) (rows : List Row) (row : Row) : Option OpenRange :=
  if row.hasLine then
    some ⟨row.address, r.nameIn strings rows row.file, (min maxLine row.line.toNat).toUInt32⟩
  else none

/-- The names list the files of the rows. -/
def Names (r : Reader) (strings : Strings) (names : List (UInt64 × String)) (rows : List Row) :
    Prop :=
  ∀ file, names.lookup file = (firstRow? rows file).map fun row => r.fileName strings row.source?

theorem nameIn_append {before : List Row} {file : UInt64} {name : String}
    (hname : ((firstRow? before file).map fun row => r.fileName strings row.source?) = some name)
    (after : List Row) : r.nameIn strings (before ++ after) file = name := by
  obtain ⟨row, hrow, rfl⟩ := Option.map_eq_some_iff.mp hname
  rw [firstRow?] at hrow
  rw [nameIn, firstRow?, List.find?_append, hrow]
  rfl

variable {names : List (UInt64 × String)} {rows before : List Row} {row : Row}

theorem Names.append_of_no_line (h : r.Names strings names rows) (hline : row.hasLine = false) :
    r.Names strings names (rows ++ [row]) := by
  intro file
  simp [firstRow?_append, hline, h file]

theorem Names.append_of_line (h : r.Names strings names rows) (hline : row.hasLine = true) :
    r.Names strings
      ((row.file, (names.lookup row.file).getD (r.fileName strings row.source?)) :: names)
      (rows ++ [row]) := by
  intro file
  rw [firstRow?_append, List.lookup_cons]
  by_cases hfile : file = row.file
  · rw [hfile, h row.file]
    cases firstRow? rows row.file <;> simp [hline]
  · rw [beq_false_of_ne hfile, h file]
    simp [Ne.symm hfile]

/-- The ranges from a row on. -/
def rangesBehind (r : Reader) (strings : Strings) (names : List (UInt64 × String)) (row : Row)
    (rest : List Row) : List LineRange :=
  if row.hasLine then
    let name := (names.lookup row.file).getD (r.fileName strings row.source?)
    r.rangesOfRows strings ((row.file, name) :: names)
      (some ⟨row.address, name, (min maxLine row.line.toNat).toUInt32⟩) rest
  else r.rangesOfRows strings names none rest

theorem rangesOfRows_cons (names : List (UInt64 × String)) (opened : Option OpenRange) (row : Row)
    (rest : List Row) :
    r.rangesOfRows strings names opened (row :: rest) =
      (opened.elim [] fun o =>
        if o.start < row.address then [⟨o.start, row.address, o.file, o.line⟩] else []) ++
      r.rangesBehind strings names row rest := by
  cases hline : row.isEnd || row.line = 0 <;> cases opened <;>
    simp [rangesOfRows, rangesBehind, Row.hasLine, hline]

theorem elim_opening? (rows : List Row) (row next : Row) :
    ((r.opening? strings rows row).elim [] fun o =>
      if o.start < next.address then [⟨o.start, next.address, o.file, o.line⟩] else []) =
    (r.rangeBetween? strings rows row next).toList := by
  by_cases hline : row.hasLine <;> by_cases hlt : row.address < next.address <;>
    simp [opening?, rangeBetween?, hline, hlt]

theorem Names.exists_behind (h : r.Names strings names before) (row : Row) (rest : List Row) :
    ∃ names', r.Names strings names' (before ++ [row]) ∧
      r.rangesBehind strings names row rest =
        r.rangesOfRows strings names' (r.opening? strings (before ++ row :: rest) row) rest := by
  cases hline : row.hasLine with
  | false => exact ⟨names, h.append_of_no_line hline, by simp [rangesBehind, opening?, hline]⟩
  | true =>
      have hnext := h.append_of_line hline
      have hfirst := hnext row.file
      rw [List.lookup_cons_self] at hfirst
      have hname := nameIn_append hfirst.symm rest
      rw [← List.append_cons] at hname
      exact ⟨_, hnext, by simp [rangesBehind, opening?, hline, hname]⟩

theorem Names.rangesBehind_eq (h : r.Names strings names before) (row : Row) (rest : List Row) :
    r.rangesBehind strings names row rest =
      ((row :: rest).zip rest).filterMap fun p =>
        r.rangeBetween? strings (before ++ row :: rest) p.1 p.2 := by
  induction rest generalizing before row names with
  | nil =>
      obtain ⟨names', -, heq⟩ := h.exists_behind row []
      rw [heq]
      rfl
  | cons next rest ih =>
      obtain ⟨names', hnames, heq⟩ := h.exists_behind row (next :: rest)
      rw [heq, rangesOfRows_cons, elim_opening?, ih hnames next, ← List.append_cons,
        List.zip_cons_cons, List.filterMap_cons]
      cases r.rangeBetween? strings (before ++ row :: next :: rest) row next <;> rfl

/-- The ranges of rows are those from each one to the next. -/
theorem rangesOfRows_eq (rows : List Row) :
    r.rangesOfRows strings [] none rows =
      (rows.zip rows.tail).filterMap fun p => r.rangeBetween? strings rows p.1 p.2 := by
  cases rows with
  | nil => rfl
  | cons row rest =>
      have hnames : r.Names strings [] [] := fun file => rfl
      rw [rangesOfRows_cons, hnames.rangesBehind_eq]
      rfl

end Reader

theorem mem_zip_tail_iff {α : Type} {xs : List α} {a b : α} :
    (a, b) ∈ xs.zip xs.tail ↔ [a, b] <:+: xs := by
  induction xs with
  | nil => simp
  | cons x xs ih =>
      cases xs with
      | nil => simpa using fun hin : [a, b] <:+: [x] => by simpa using hin.length_le
      | cons y ys =>
          simp only [List.tail_cons, List.zip_cons_cons, List.mem_cons, Prod.mk.injEq] at ih ⊢
          simp [ih, List.infix_cons_iff]

namespace Reader

variable {sequences : r.Program → List (List Emitted)} {program : r.Program} {range : LineRange}
  {rows : List Row}

theorem mem_rangesOfRows_iff :
    range ∈ r.rangesOfRows strings [] none rows ↔
      ∃ row next, [row, next] <:+: rows ∧ r.rangeBetween? strings rows row next = some range := by
  rw [rangesOfRows_eq, List.mem_filterMap]
  constructor
  · rintro ⟨⟨row, next⟩, hmem, hrange⟩
    exact ⟨row, next, mem_zip_tail_iff.mp hmem, hrange⟩
  · rintro ⟨row, next, hin, hrange⟩
    exact ⟨(row, next), mem_zip_tail_iff.mpr hin, hrange⟩

theorem isEnd_of_rangeBetween? {row next : Row}
    (h : r.rangeBetween? strings rows row next = some range) : row.isEnd = false := by
  by_contra hend
  simp [rangeBetween?, Row.hasLine, hend] at h

theorem RunsSequences.mem_rangesOfRows_iff (hr : r.RunsSequences sequences) (program : r.Program) :
    range ∈ r.rangesOfRows strings [] none ((sequences program).flatMap yielded) ↔
      ∃ row next,
        r.rangeBetween? strings ((sequences program).flatMap yielded) row next = some range ∧
        ((∃ q ∈ sequences program, [row, next] <:+: yielded q) ∨
          Spans (sequences program) row next) := by
  rw [Reader.mem_rangesOfRows_iff]
  refine exists_congr fun row => exists_congr fun next => ?_
  rw [and_comm]
  refine and_congr_right fun hrange => ?_
  exact infix_flatMap_iff (hr.restarts program) (isEnd_of_rangeBetween? hrange)

/-! ## Units -/

theorem exists_programs (h : r.rangesFrom? strings addressSize data offset = some ranges) :
    ∃ programs, r.programsFrom? addressSize data offset = some programs ∧
      (∀ program ∈ programs, (r.rows? program).isSome = true) ∧
      ∀ range, range ∈ ranges ↔ ∃ program ∈ programs, ∃ rows, r.rows? program = some rows ∧
        range ∈ r.rangesOfRows strings [] none rows := by
  fun_induction programsFrom? r addressSize data offset generalizing ranges with
  | case1 offset hlt ih =>
      rw [rangesFrom?, if_pos hlt] at h
      obtain ⟨program, hprogram, h⟩ := Option.bind_eq_some_iff.mp h
      obtain ⟨rows, hrows, h⟩ := Option.bind_eq_some_iff.mp h
      obtain ⟨later, hlater, h⟩ := Option.bind_eq_some_iff.mp h
      cases h
      obtain ⟨programs, hprograms, hsome, hmem⟩ := ih program hlater
      refine ⟨program :: programs, ?_, ?_, fun range => ?_⟩
      · simp [hprogram, hprograms]
      · exact List.forall_mem_cons.mpr ⟨by rw [hrows]; rfl, hsome⟩
      · simp [hrows, hmem]
  | case2 offset hge =>
      rw [rangesFrom?, if_neg hge] at h
      cases h
      exact ⟨[], rfl, by simp, by simp⟩

/-- A range goes from a row with a line to the next row that is not dropped. This is a row of the
same sequence, or the first one behind a sequence the end of which is dropped. -/
theorem ranges_lie_in_sequences (hr : r.RunsSequences sequences)
    (h : r.ranges? strings addressSize data = some ranges) :
    ∃ programs, r.programsFrom? addressSize data 0 = some programs ∧
      (∀ program ∈ programs, (r.rows? program).isSome = true) ∧
      ∀ range, range ∈ ranges ↔ ∃ program ∈ programs, ∃ row next,
        r.rangeBetween? strings ((sequences program).flatMap yielded) row next = some range ∧
          ((∃ q ∈ sequences program, [row, next] <:+: yielded q) ∨
            Spans (sequences program) row next) := by
  obtain ⟨programs, hprograms, hsome, hmem⟩ := exists_programs h
  refine ⟨programs, hprograms, hsome, fun range => (hmem range).trans ?_⟩
  refine exists_congr fun program => and_congr_right fun hprogram => ?_
  obtain ⟨rows, hrows⟩ := Option.isSome_iff_exists.mp (hsome program hprogram)
  rw [← hr.mem_rangesOfRows_iff, ← hr.rows program rows hrows, hrows]
  simp

end Reader

/-! ## The sequences of the reader -/

/-- Emitted rows up to each one that ends a sequence. -/
def sequencesOf : List Emitted → List (List Emitted)
  | [] => []
  | e :: es =>
    if e.row.isEnd then [e] :: sequencesOf es
    else
      match sequencesOf es with
      | [] => [[e]]
      | q :: qs => (e :: q) :: qs

def LineUnit.sequences (u : LineUnit) : List (List Emitted) :=
  sequencesOf (u.emitted?.getD [])

theorem flatten_sequencesOf (es : List Emitted) : (sequencesOf es).flatten = es := by
  fun_induction sequencesOf es with
  | case1 => rfl
  | case2 e es hend ih => rw [List.flatten_cons, ih, List.singleton_append]
  | case3 e es hend hnil ih => rw [← ih, hnil, List.flatten_singleton, List.flatten_nil]
  | case4 e es hend q qs hcons ih => rw [← ih, hcons, List.flatten_cons, List.cons_append,
      List.flatten_cons]

theorem ne_nil_of_mem_sequencesOf {es q : List Emitted} (hq : q ∈ sequencesOf es) : q ≠ [] := by
  fun_induction sequencesOf es generalizing q with
  | case1 => cases hq
  | case2 e es hend ih =>
      rcases List.mem_cons.mp hq with rfl | hq
      · exact List.cons_ne_nil _ _
      · exact ih hq
  | case3 e es hend hnil ih =>
      obtain rfl := List.mem_singleton.mp hq
      exact List.cons_ne_nil _ _
  | case4 e es hend q' qs hcons ih =>
      rcases List.mem_cons.mp hq with rfl | hq
      · exact List.cons_ne_nil _ _
      · exact ih (hcons ▸ List.mem_cons_of_mem _ hq)

theorem isEnd_of_mem_dropLast {es q : List Emitted} {e : Emitted} (hq : q ∈ sequencesOf es)
    (he : e ∈ q.dropLast) : e.row.isEnd = false := by
  fun_induction sequencesOf es generalizing q with
  | case1 => cases hq
  | case2 e' es hend ih =>
      rcases List.mem_cons.mp hq with rfl | hq
      · cases he
      · exact ih hq he
  | case3 e' es hend hnil ih =>
      obtain rfl := List.mem_singleton.mp hq
      cases he
  | case4 e' es hend q' qs hcons ih =>
      rw [hcons] at ih
      rcases List.mem_cons.mp hq with rfl | hq
      · have hne : q' ≠ [] := ne_nil_of_mem_sequencesOf (hcons ▸ List.mem_cons_self)
        rw [List.dropLast_cons_of_ne_nil hne] at he
        rcases List.mem_cons.mp he with rfl | he
        · simpa using hend
        · exact ih List.mem_cons_self he
      · exact ih (List.mem_cons_of_mem _ hq) he

theorem exists_end_of_mem_dropLast {es q : List Emitted} (hq : q ∈ (sequencesOf es).dropLast) :
    ∃ e, q.getLast? = some e ∧ e.row.isEnd = true := by
  fun_induction sequencesOf es generalizing q with
  | case1 => cases hq
  | case2 e es hend ih =>
      cases hqs : sequencesOf es with
      | nil => simp [hqs] at hq
      | cons q' qs =>
          rw [hqs, List.dropLast_cons_of_ne_nil (List.cons_ne_nil _ _)] at hq
          rcases List.mem_cons.mp hq with rfl | hq
          · exact ⟨e, rfl, hend⟩
          · exact ih (hqs ▸ hq)
  | case3 e es hend hnil ih => cases hq
  | case4 e es hend q' qs hcons ih =>
      rw [hcons] at ih
      cases qs with
      | nil => cases hq
      | cons q'' qs =>
          rw [List.dropLast_cons_of_ne_nil (List.cons_ne_nil _ _)] at ih hq
          rcases List.mem_cons.mp hq with rfl | hq
          · obtain ⟨last, hlast, hend⟩ := ih List.mem_cons_self
            exact ⟨last, by rw [List.getLast?_cons, hlast]; rfl, hend⟩
          · exact ih (List.mem_cons_of_mem _ hq)

theorem flatMap_yielded (qs : List (List Emitted)) : qs.flatMap yielded = yielded qs.flatten := by
  induction qs with
  | nil => rfl
  | cons q qs ih => simp [ih, yielded]

/-- The reader runs programs sequence by sequence. -/
theorem reader_runsSequences : reader.RunsSequences LineUnit.sequences where
  rows := by
    intro (u : LineUnit) rows hrows
    obtain ⟨es, hes, rfl⟩ := Option.map_eq_some_iff.mp hrows
    rw [flatMap_yielded, LineUnit.sequences, hes, Option.getD_some, flatten_sequencesOf]
  ends := fun _ _ hq _ => isEnd_of_mem_dropLast hq
  restarts := fun _ _ => exists_end_of_mem_dropLast

/-- Line information of two sequences. The first one has a row at `0x100` and an end that is dropped
behind an address that marks removed code, the second one goes from `0x108` to `0x10c`. -/
def spannedBytes : List UInt8 :=
  [63, 0, 0, 0, 3, 0, 26, 0, 0, 0, 1, 1, 251, 14, 13, 0, 1, 1, 1, 1, 0, 0, 0, 1, 0, 0, 1,
    0, 97, 46, 99, 0, 0, 0, 0, 0,
    0, 5, 2, 0, 1, 0, 0, 1, 0, 5, 2, 255, 255, 255, 255, 0, 1, 1,
    0, 5, 2, 8, 1, 0, 0, 1, 2, 4, 0, 1, 1]

theorem ranges_of_spannedBytes :
    reader.ranges? ⟨[], []⟩ 4 spannedBytes =
      some [⟨0x100, 0x108, "a.c", 1⟩, ⟨0x108, 0x10c, "a.c", 1⟩] := by
  decide +kernel

def spannedSequences : List (List Emitted) :=
  [[⟨rowAt [97, 46, 99] 0x100 1 false, false⟩, ⟨rowAt [97, 46, 99] 0x100 1 true, true⟩],
    [⟨rowAt [97, 46, 99] 0x108 1 false, false⟩, ⟨rowAt [97, 46, 99] 0x10c 1 true, false⟩]]

theorem sequences_of_spannedBytes {programs : List LineUnit}
    (h : reader.programsFrom? 4 spannedBytes 0 = some programs) :
    ∀ u ∈ programs, u.sequences = spannedSequences := by
  have hall : (reader.programsFrom? 4 spannedBytes 0).all (List.all · fun u : LineUnit =>
      u.sequences = spannedSequences) = true := by
    decide +kernel
  rw [h, Option.all_some, List.all_eq_true] at hall
  exact fun u hu => of_decide_eq_true (hall u hu)

theorem spannedBytes_ranges_lie :
    reader.RunsSequences LineUnit.sequences ∧
      reader.ranges? ⟨[], []⟩ 4 spannedBytes =
        some [⟨0x100, 0x108, "a.c", 1⟩, ⟨0x108, 0x10c, "a.c", 1⟩] ∧
      ∃ row next, reader.rangeBetween? ⟨[], []⟩ (spannedSequences.flatMap yielded) row next =
          some ⟨0x100, 0x108, "a.c", 1⟩ ∧
        ((∃ q ∈ spannedSequences, [row, next] <:+: yielded q) ∨
          Spans spannedSequences row next) := by
  refine ⟨reader_runsSequences, ranges_of_spannedBytes, ?_⟩
  obtain ⟨programs, hprograms, -, hmem⟩ :=
    Reader.ranges_lie_in_sequences reader_runsSequences ranges_of_spannedBytes
  obtain ⟨u, hu, hranges⟩ := (hmem ⟨0x100, 0x108, "a.c", 1⟩).mp List.mem_cons_self
  rwa [sequences_of_spannedBytes hprograms u hu] at hranges

/-- A range may go from a row to one of another sequence. -/
theorem range_leaves_sequence :
    ¬∀ (r : Reader) (sequences : r.Program → List (List Emitted)), r.RunsSequences sequences →
      ∀ (strings : Strings) (data : List UInt8) (ranges : List LineRange),
      r.ranges? strings 4 data = some ranges → ∀ range ∈ ranges,
        ∃ programs, r.programsFrom? 4 data 0 = some programs ∧ ∃ program ∈ programs,
          ∃ q ∈ sequences program, ∃ row next, [row, next] <:+: yielded q ∧
            range.start = row.address ∧ range.stop = next.address := by
  intro h
  obtain ⟨programs, hprograms, u, hu, q, hq, row, next, hin, hstart, hstop⟩ :=
    h reader LineUnit.sequences reader_runsSequences ⟨[], []⟩ spannedBytes _
      ranges_of_spannedBytes _ List.mem_cons_self
  rw [sequences_of_spannedBytes hprograms u hu] at hq
  have hnone : ∀ q ∈ spannedSequences, ∀ p ∈ (yielded q).zip (yielded q).tail,
      p.1.address ≠ 0x100 ∨ p.2.address ≠ 0x108 := by
    decide
  rcases hnone q hq (row, next) (mem_zip_tail_iff.mpr hin) with hne | hne
  · exact hne hstart.symm
  · exact hne hstop.symm

end Retrace.Dwarf
