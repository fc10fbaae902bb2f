import Retrace.Dwarf.Ranges
import Retrace.Proofs.Dwarf.LineMachine
import Retrace.Proofs.Text.Utf8

/-!
# Rows of written line programs

Rows of one file are written as a line program: the first one with its address, each later one with
its distance from the one before. The program emits these rows, and their ranges are those from each
row to the next.
-/

namespace Retrace.Dwarf

open Bytes Text

/-- The line that the code is of from an address on. -/
structure Mark where
  address : UInt32
  line : UInt32
  deriving DecidableEq, Repr

/-- The lines of a file that code is of. -/
structure SourceMap where
  file : String
  marks : List Mark
  /-- The address behind the code. -/
  stop : UInt32
  deriving DecidableEq, Repr

/-- The instructions of a row, given the address and line of the one before. -/
def markBytes (address? : Option UInt32) (line : Int) (m : Mark) : List UInt8 :=
  (match address? with
    | none => [0, 5, 2] ++ littleEndian 4 m.address.toNat
    | some address => 2 :: Leb128.encodeUnsigned (m.address.toNat - address.toNat)) ++
  3 :: Leb128.encodeSigned (m.line.toNat - line) ++ [1]

/-- The instructions of rows and of the end of their sequence. -/
def programBytes (stop : UInt32) (address? : Option UInt32) (line : Int) : List Mark → List UInt8
  | [] => 2 :: Leb128.encodeUnsigned (stop.toNat - (address?.getD stop).toNat) ++ [0, 1, 1]
  | m :: ms => markBytes address? line m ++ programBytes stop (some m.address) m.line.toNat ms

/-- The ranges from each row to the next. -/
def rangesOfMarks (file : String) (stop : UInt32) : List Mark → List LineRange
  | [] => []
  | m :: ms =>
    ⟨m.address.toUInt64, (ms.head?.elim stop Mark.address).toUInt64, file, m.line⟩ ::
      rangesOfMarks file stop ms

def SourceMap.ranges (m : SourceMap) : List LineRange :=
  rangesOfMarks m.file m.stop m.marks

/-- What rows must meet to be written: they ascend from an address that does not mark removed code,
and lines start with one. -/
structure SourceMap.Valid (m : SourceMap) : Prop where
  named : m.file ≠ ""
  plain : '\x00' ∉ m.file.toList
  ascending : (m.marks.map Mark.address ++ [m.stop]).Pairwise (· ≤ ·)
  first : ∀ mark ∈ m.marks.head?, mark.address < 0xfffffffe
  lines : ∀ mark ∈ m.marks, mark.line ≠ 0

def SourceMap.unit (m : SourceMap) : UnitLayout :=
  ⟨1, 251, 14, Utf8.encode m.file, programBytes m.stop none 1 m.marks⟩

def SourceMap.encode (m : SourceMap) : List UInt8 :=
  m.unit.bytes

def Mark.row (file : List UInt8) (m : Mark) : Row :=
  rowAt file m.address.toNat m.line.toNat false

variable {file : List UInt8} {bytes rest : List UInt8} {rows : List Row}

/-! ## Rows -/

theorem emits_advance {a b : UInt32} (hle : a ≤ b) {line : Nat}
    (h : Emits file b.toNat line rest rows) :
    Emits file a.toNat line (2 :: (Leb128.encodeUnsigned (b.toNat - a.toNat) ++ rest)) rows := by
  have hle : a.toNat ≤ b.toNat := UInt32.le_iff_toNat_le.mp hle
  have hlt := b.toNat_lt
  have hsum : a.toNat + (b.toNat - a.toNat) = b.toNat := by omega
  have hlength := Leb128.length_encodeUnsigned (n := b.toNat - a.toNat) 4 (by omega)
  exact .advanceAddress (Leb128.unsigned_encode _) (by omega) (by omega) (by rwa [hsum])

/-- The line is moved to that of the row, which is emitted then. -/
theorem emits_mark (m : Mark) {line : Nat} (hline : line < 2 ^ 32)
    (h : Emits file m.address.toNat m.line.toNat rest rows) :
    Emits file m.address.toNat line
      (3 :: (Leb128.encodeSigned ((m.line.toNat : Int) - line) ++ (1 :: rest)))
      (m.row file :: rows) := by
  have hlt := m.line.toNat_lt
  have hlength :=
    Leb128.length_encodeSigned (n := (m.line.toNat : Int) - line) 4 (by omega) (by omega)
  exact .advanceLine (Leb128.signed_encode _) (by omega) (by omega) (by omega) (.copy h)

theorem emits_end (address line : Nat) :
    Emits file address line [0, 1, 1] [rowAt file address line true] :=
  .endSequence .stop

/-- Behind a row, the program emits the later ones and the end of the sequence. -/
theorem emits_later (stop : UInt32) (last : Mark) (ms : List Mark)
    (h : (last.address :: (ms.map Mark.address ++ [stop])).Pairwise (· ≤ ·)) :
    ∃ line, Emits file last.address.toNat last.line.toNat
      (programBytes stop (some last.address) last.line.toNat ms)
      (ms.map (Mark.row file) ++ [rowAt file stop.toNat line true]) := by
  induction ms generalizing last with
  | nil =>
      have hstop : last.address ≤ stop := by simpa using h
      exact ⟨last.line.toNat, emits_advance hstop (emits_end _ _)⟩
  | cons m ms ih =>
      obtain ⟨hlast, hrest⟩ := List.pairwise_cons.mp h
      have hstep : last.address ≤ m.address := hlast _ (by simp)
      obtain ⟨line, hrows⟩ := ih m hrest
      refine ⟨line, ?_⟩
      have hbytes : programBytes stop (some last.address) last.line.toNat (m :: ms) =
          2 :: (Leb128.encodeUnsigned (m.address.toNat - last.address.toNat) ++
            (3 :: (Leb128.encodeSigned ((m.line.toNat : Int) - last.line.toNat) ++
              (1 :: programBytes stop (some m.address) m.line.toNat ms)))) := by
        simp [programBytes, markBytes]
      rw [hbytes]
      exact emits_advance hstep (emits_mark m last.line.toNat_lt hrows)

theorem emits_first (stop : UInt32) {m : Mark} (hm : m.address < 0xfffffffe) (ms : List Mark)
    (h : (m.address :: (ms.map Mark.address ++ [stop])).Pairwise (· ≤ ·)) :
    ∃ line, Emits file 0 1 (programBytes stop none 1 (m :: ms))
      ((m :: ms).map (Mark.row file) ++ [rowAt file stop.toNat line true]) := by
  obtain ⟨line, hrows⟩ := emits_later stop m ms h
  refine ⟨line, ?_⟩
  have hbytes : programBytes stop none 1 (m :: ms) =
      [0, 5, 2] ++ littleEndian 4 m.address.toNat ++
        (3 :: (Leb128.encodeSigned ((m.line.toNat : Int) - (1 : Nat)) ++
          (1 :: programBytes stop (some m.address) m.line.toNat ms))) := by
    simp [programBytes, markBytes]
  rw [hbytes]
  exact .setAddress (Nat.zero_le _) (UInt32.lt_iff_toNat_lt.mp hm)
    (emits_mark m (by decide) hrows)

theorem emits_none (stop : UInt32) :
    Emits file 0 1 (programBytes stop none 1 []) [rowAt file 0 1 true] := by
  have hbytes : programBytes stop none 1 [] =
      2 :: (Leb128.encodeUnsigned ((0 : UInt32).toNat - (0 : UInt32).toNat) ++ [0, 1, 1]) := by
    simp [programBytes]
  rw [hbytes]
  exact emits_advance (UInt32.le_refl 0) (emits_end 0 1)

/-! ## Ranges -/

namespace Reader

variable {r : Reader} {strings : Strings} {name : String}

theorem fileName_text (r : Reader) (strings : Strings) (name : String) :
    r.fileName strings (some ⟨.text (Utf8.encode name), none⟩) = name :=
  Utf8.decodeLossy_encode name

theorem rangesOfRows_row (names : List (UInt64 × String))
    (hnames : (names.lookup 1).getD name = name) (opened : Option OpenRange) {m : Mark}
    (hm : m.line ≠ 0) (rows : List Row) :
    r.rangesOfRows strings names opened (m.row (Utf8.encode name) :: rows) =
      (opened.elim [] fun o =>
        if o.start < m.address.toUInt64 then [⟨o.start, m.address.toUInt64, o.file, o.line⟩]
        else []) ++
      r.rangesOfRows strings ((1, name) :: names) (some ⟨m.address.toUInt64, name, m.line⟩)
        rows := by
  have hlt := m.line.toNat_lt
  have hline : m.line.toUInt64 ≠ 0 := by
    intro hzero
    refine hm (UInt32.toNat_inj.mp ?_)
    rw [← UInt32.toNat_toUInt64, hzero]
    rfl
  have hnumber : (min maxLine m.line.toUInt64.toNat).toUInt32 = m.line := by
    have hmax : m.line.toNat ≤ maxLine := Nat.le_of_lt_succ hlt
    rw [UInt32.toNat_toUInt64, Nat.min_eq_right hmax]
    exact UInt32.ofNat_toNat
  simp only [rangesOfRows, Mark.row, rowAt, fileName_text, Nat.toUInt64_eq,
    UInt64.ofNat_uInt32ToNat, Bool.false_or, hline, decide_false, Bool.false_eq_true, if_false,
    hnames, hnumber]
  cases opened <;> rfl

/-- The ranges of rows are those between them that are not empty. -/
theorem rangesOfRows_rows (stop : UInt32) (line : Nat) (m : Mark) (ms : List Mark)
    (h : ∀ mark ∈ ms, mark.line ≠ 0) (names : List (UInt64 × String)) :
    r.rangesOfRows strings ((1, name) :: names) (some ⟨m.address.toUInt64, name, m.line⟩)
        (ms.map (Mark.row (Utf8.encode name)) ++
          [rowAt (Utf8.encode name) stop.toNat line true]) =
      (rangesOfMarks name stop (m :: ms)).filter fun r => r.start < r.stop := by
  induction ms generalizing m names with
  | nil =>
      simp only [List.map_nil, List.nil_append, rangesOfRows, rowAt, rangesOfMarks,
        List.filter_cons, List.head?_nil, Option.elim_none, Bool.true_or, if_true, List.append_nil,
        List.filter_nil, decide_eq_true_eq, Nat.toUInt64_eq, UInt64.ofNat_uInt32ToNat]
  | cons next ms ih =>
      obtain ⟨hnext, hms⟩ := List.forall_mem_cons.mp h
      have hmarks : rangesOfMarks name stop (m :: next :: ms) =
          ⟨m.address.toUInt64, next.address.toUInt64, name, m.line⟩ ::
            rangesOfMarks name stop (next :: ms) := rfl
      rw [List.map_cons, List.cons_append, rangesOfRows_row _ (by simp) _ hnext, ih next hms,
        hmarks, List.filter_cons]
      simp only [Option.elim_some, decide_eq_true_eq]
      split <;> rfl

end Reader

namespace SourceMap.Valid

variable {m : SourceMap} {r : Reader}

/-- The program of a source map emits rows, and its ranges that are not empty are those of the
rows. -/
theorem emits (h : m.Valid) :
    ∃ rows, Emits m.unit.file 0 1 m.unit.program rows ∧ ∀ (r : Reader) (strings : Strings),
      r.rangesOfRows strings [] none rows = m.ranges.filter fun r => r.start < r.stop := by
  obtain ⟨-, -, hascending, hfirst, hlines⟩ := h
  unfold SourceMap.ranges
  simp only [unit]
  cases hmarks : m.marks with
  | nil => exact ⟨_, emits_none m.stop, fun _ _ => rfl⟩
  | cons mark marks =>
      rw [hmarks] at hascending hfirst hlines
      obtain ⟨hline, hlines⟩ := List.forall_mem_cons.mp hlines
      obtain ⟨line, hrows⟩ := emits_first m.stop (hfirst mark rfl) marks hascending
      refine ⟨_, hrows, fun r strings => ?_⟩
      rw [List.map_cons, List.cons_append, Reader.rangesOfRows_row [] rfl none hline]
      exact Reader.rangesOfRows_rows m.stop line mark marks hlines []

theorem fits (h : m.Valid) (hsize : m.unit.body.length < 0xfffffff0) : m.unit.Fits where
  named := fun hname => h.named (Utf8.encode_eq_nil hname)
  plain := Utf8.encode_ne_zero h.plain
  lineRange := (by decide : (14 : UInt8) ≠ 0)
  length := hsize

/-- Of the line information of a source map, any reader leads to the ranges that are not empty. -/
theorem ranges? (h : m.Valid) (hsize : m.unit.body.length < 0xfffffff0) (hr : r.RunsPrograms)
    (strings : Strings) :
    r.ranges? strings 4 m.encode = some (m.ranges.filter fun r => r.start < r.stop) := by
  have hat : At m.encode 0 m.unit.bytes := ⟨[], [], by simp [encode], rfl⟩
  obtain ⟨program, hprogram, hlength, hoffsets, hrun⟩ := hr m.unit m.encode 0 (h.fits hsize) hat
  obtain ⟨rows, hemits, hranges⟩ := h.emits
  have hfilled : 0 < m.encode.length := by
    simp [encode, UnitLayout.bytes]
  have hend :
      m.encode.length ≤ 0 + (r.unitLength program + initialLengthSize (r.is64 program)) := by
    rw [hlength, hoffsets]
    simp [encode, UnitLayout.bytes, initialLengthSize]
    omega
  rw [Reader.ranges?, Reader.rangesFrom?, if_pos hfilled, hprogram, Option.bind_eq_bind,
    Option.bind_some, hrun rows hemits, Option.bind_eq_bind, Option.bind_some]
  simp only
  rw [Reader.rangesFrom?, if_neg (Nat.not_lt.mpr hend), hranges r strings]
  exact congrArg some (List.append_nil _)

end SourceMap.Valid

end Retrace.Dwarf
