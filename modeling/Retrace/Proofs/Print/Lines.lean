import Mathlib.Logic.Basic
import Retrace.Message.Expansion
import Retrace.Proofs.Print.Streams

/-!
# Lines do not depend on how they were written

The lines of a stream are the bytes that were written to it, cut at newlines and NULs, wherever
one write ends and the next one starts.
-/

namespace Retrace

/-- The pieces of bytes behind a part of a line, and whether a newline or NUL ends each. A newline
belongs to its piece, a NUL does not. -/
def cut (part : List UInt8) : List UInt8 → List (List UInt8 × Bool)
  | [] => [(part, false)]
  | b :: rest =>
    if b = 10 then (part ++ [b], true) :: cut [] rest
    else if b = 0 then (part, true) :: cut [] rest
    else cut (part ++ [b]) rest

/-- The pieces that are lines. -/
def linesOf (part bytes : List UInt8) : List (List UInt8 × Bool) :=
  (cut part bytes).filter (·.1 ≠ [])

/-- All pieces are shorter than the limit. -/
def Within (limit : Nat) (part bytes : List UInt8) : Prop :=
  ∀ piece ∈ cut part bytes, piece.1.length < limit

def Fragment.piece (f : Fragment) : List UInt8 × Bool :=
  (f.data, f.terminator)

def PrintLine.piece (l : PrintLine) : List UInt8 × Bool :=
  (l.data, l.complete)

/-- The line that ends with a piece behind a part of a line, and the part that is open then. -/
def joinPiece (limit : Nat) (part : List UInt8) (piece : List UInt8 × Bool) :
    List (List UInt8 × Bool) × List UInt8 :=
  let line := part ++ piece.1
  if line = [] then ([], [])
  else if piece.2 || limit ≤ line.length then ([(line, piece.2)], [])
  else ([], line)

def joinPieces (limit : Nat) (part : List UInt8) :
    List (List UInt8 × Bool) → List (List UInt8 × Bool) × List UInt8
  | [] => ([], part)
  | piece :: rest =>
    let joined := joinPiece limit part piece
    let more := joinPieces limit joined.2 rest
    (joined.1 ++ more.1, more.2)

namespace Assembler

/-- The bytes of the line that is open on the stream. -/
def openPart (a : Assembler) (stream : PrintStream) : List UInt8 :=
  (a.lines[stream]?).elim [] OpenLine.data

/-- Lines that are open have bytes. -/
def Filled (a : Assembler) : Prop :=
  ∀ (stream : PrintStream) (line : OpenLine), a.lines[stream]? = some line → line.data ≠ []

/-- The lines that end with fragments, and the assembler then. -/
def feedAll (a : Assembler) : List Fragment → List PrintLine × Assembler
  | [] => ([], a)
  | f :: fs => ((a.feed f).1.toList ++ ((a.feed f).2.feedAll fs).1, ((a.feed f).2.feedAll fs).2)

/-- The lines that end with fragments and those that are open then. -/
def assembled (a : Assembler) (fs : List Fragment) : List PrintLine :=
  (a.feedAll fs).1 ++ (a.feedAll fs).2.drain.1

end Assembler

variable {limit : Nat} {part bytes : List UInt8}

/-! ## Pieces of one write -/

theorem exists_cut_of_part (part bytes : List UInt8) :
    ∃ piece ∈ cut part bytes, part.length ≤ piece.1.length := by
  fun_induction cut part bytes with
  | case1 part => exact ⟨_, List.mem_singleton_self _, Nat.le_refl _⟩
  | case2 part rest => exact ⟨_, List.mem_cons_self, by simp⟩
  | case3 part rest => exact ⟨_, List.mem_cons_self, Nat.le_refl _⟩
  | case4 part b rest hnewline hnul ih =>
      obtain ⟨piece, hpiece, hlength⟩ := ih
      exact ⟨piece, hpiece, Nat.le_trans (by simp) hlength⟩

namespace Within

theorem part_lt (h : Within limit part bytes) : part.length < limit := by
  obtain ⟨piece, hpiece, hlength⟩ := exists_cut_of_part part bytes
  exact Nat.lt_of_le_of_lt hlength (h piece hpiece)

theorem newline (h : Within limit part (10 :: bytes)) :
    (part ++ [10]).length < limit ∧ Within limit [] bytes :=
  List.forall_mem_cons.mp h

theorem nul (h : Within limit part (0 :: bytes)) : Within limit [] bytes :=
  (List.forall_mem_cons.mp h).2

end Within

theorem joinPiece_of_nil {piece : List UInt8 × Bool} (h : part ++ piece.1 = []) :
    joinPiece limit part piece = ([], []) :=
  if_pos h

theorem joinPiece_of_line {piece : List UInt8 × Bool} (h : part ++ piece.1 ≠ []) :
    joinPiece limit part piece =
      if piece.2 || limit ≤ (part ++ piece.1).length then ([(part ++ piece.1, piece.2)], [])
      else ([], part ++ piece.1) :=
  if_neg h

theorem joinPiece_end {line : List UInt8} (h : part ++ line ≠ []) :
    joinPiece limit part (line, true) = ([(part ++ line, true)], []) :=
  joinPiece_of_line h

/-- What one write adds to the lines is what its bytes add. -/
theorem joinPieces_pieces (part pending : List UInt8) (terminated : Bool) (rest : List UInt8)
    (hterminated : terminated = true → part ++ pending = [])
    (h : Within limit (part ++ pending) (bytes ++ rest)) :
    let joined := joinPieces limit part (pieces pending terminated bytes)
    joined.1 ++ linesOf joined.2 rest = linesOf (part ++ pending) (bytes ++ rest) ∧
      Within limit joined.2 rest := by
  fun_induction pieces pending terminated bytes generalizing part with
  | case1 pending terminated hempty =>
      obtain rfl := List.isEmpty_iff.mp hempty
      rw [List.append_nil] at h ⊢
      exact ⟨rfl, h⟩
  | case2 pending terminated hempty =>
      have hline : part ++ pending ≠ [] := by simp_all
      have hlength : ¬ limit ≤ (part ++ pending).length := Nat.not_le.mpr h.part_lt
      rw [joinPieces, joinPiece_of_line hline, if_neg (by simpa using hlength)]
      exact ⟨rfl, h⟩
  | case3 pending terminated rest' ih =>
      have hline : part ++ (pending ++ [10]) ≠ [] := by simp
      obtain ⟨hlines, hwithin⟩ := ih [] (fun _ => rfl) h.newline.2
      rw [joinPieces, joinPiece_end hline]
      refine ⟨?_, hwithin⟩
      rw [List.append_assoc, hlines, ← List.append_assoc part]
      simp [linesOf, cut]
  | case4 pending rest' hne ih =>
      obtain ⟨rfl, rfl⟩ := List.append_eq_nil_iff.mp (hterminated rfl)
      obtain ⟨hlines, hwithin⟩ := ih [] (fun _ => rfl) h.nul
      refine ⟨?_, hwithin⟩
      rw [hlines]
      simp [linesOf, cut]
  | case5 pending terminated rest' hne hnot ih =>
      obtain ⟨hlines, hwithin⟩ := ih [] (fun _ => rfl) h.nul
      rw [joinPieces]
      by_cases hline : part ++ pending = []
      · rw [joinPiece_of_nil hline]
        refine ⟨?_, hwithin⟩
        rw [List.append_assoc, hlines, hline]
        simp [linesOf, cut]
      · rw [joinPiece_end hline]
        refine ⟨?_, hwithin⟩
        rw [List.append_assoc, hlines]
        simp [linesOf, cut, List.append_eq_nil_iff.not.mp hline]
  | case6 pending terminated b rest' hnewline hnul ih =>
      have hcut : cut (part ++ pending) (b :: rest' ++ rest) =
          cut (part ++ (pending ++ [b])) (rest' ++ rest) := by
        rw [List.cons_append, cut, if_neg hnewline, if_neg hnul, List.append_assoc]
      rw [Within, hcut] at h
      rw [linesOf, hcut]
      exact ih part nofun h

/-! ## Writes -/

theorem joinPieces_append (limit : Nat) (part : List UInt8) (ps qs : List (List UInt8 × Bool)) :
    joinPieces limit part (ps ++ qs) =
      ((joinPieces limit part ps).1 ++ (joinPieces limit (joinPieces limit part ps).2 qs).1,
        (joinPieces limit (joinPieces limit part ps).2 qs).2) := by
  induction ps generalizing part with
  | nil => rfl
  | cons piece ps ih => simp only [List.cons_append, joinPieces, ih, List.append_assoc]

/-- What writes add to the lines is what all their bytes add. -/
theorem joinPieces_writes (writes : List (List UInt8)) (h : Within limit part writes.flatten) :
    let joined := joinPieces limit part (writes.flatMap (pieces [] false))
    joined.1 ++ linesOf joined.2 [] = linesOf part writes.flatten := by
  induction writes generalizing part with
  | nil => rfl
  | cons bytes writes ih =>
      obtain ⟨hlines, hwithin⟩ := joinPieces_pieces part [] false writes.flatten
        nofun (by rwa [List.append_nil])
      rw [List.append_nil] at hlines
      simp only [List.flatMap_cons, joinPieces_append, List.append_assoc, ih hwithin]
      exact hlines

/-! ## Assemblers -/

namespace Assembler

variable {a : Assembler} {f : Fragment} {stream : PrintStream}

theorem filled_start (limit : Nat) : (start limit).Filled := by
  intro stream line h
  simp [start] at h

theorem openPart_start (limit : Nat) (stream : PrintStream) :
    (start limit).openPart stream = [] := by
  simp [openPart, start]

theorem openPart_feed_of_ne (h : stream ≠ f.stream) :
    (a.feed f).2.openPart stream = a.openPart stream := by
  rw [openPart, openPart, lines_feed_of_ne h]

theorem Filled.cases (h : a.Filled) (f : Fragment) :
    (a.openPart f.stream ++ f.data = [] ∧ a.feed f = (none, a)) ∨
      ∃ line : OpenLine, line.data = a.openPart f.stream ++ f.data ∧ line.data ≠ [] ∧
        a.feed f =
          if f.terminator || a.limit ≤ line.data.length then
            (some (line.close f.stream f.terminator), { a with lines := a.lines.erase f.stream })
          else (none, { a with lines := a.lines.insert f.stream line }) := by
  unfold feed openPart
  cases hl : a.lines[f.stream]? with
  | none =>
      by_cases hdata : f.data = []
      · simp [OpenLine.ofFragment?, hdata]
      · refine .inr ⟨⟨f.data, f.timestamp, f.timestamp⟩, rfl, hdata, ?_⟩
        simp [OpenLine.ofFragment?, hdata]
  | some line => exact .inr ⟨line.extend f, rfl, by simp [OpenLine.extend, h _ _ hl], rfl⟩

theorem Filled.erase (h : a.Filled) (stream : PrintStream) :
    Filled { a with lines := a.lines.erase stream } := by
  intro stream' line hline
  rw [Std.TreeMap.getElem?_erase] at hline
  split at hline
  · cases hline
  · exact h stream' line hline

theorem Filled.insert {line : OpenLine} (h : a.Filled) (stream : PrintStream)
    (hline : line.data ≠ []) : Filled { a with lines := a.lines.insert stream line } := by
  intro stream' line' hline'
  rw [Std.TreeMap.getElem?_insert] at hline'
  split at hline'
  · cases hline'
    exact hline
  · exact h stream' line' hline'

/-- A fragment is joined to what is open on its stream. -/
theorem Filled.feed (h : a.Filled) (f : Fragment) :
    (a.feed f).2.Filled ∧
      (a.feed f).1.toList.map PrintLine.piece =
        (joinPiece a.limit (a.openPart f.stream) f.piece).1 ∧
      (a.feed f).2.openPart f.stream = (joinPiece a.limit (a.openPart f.stream) f.piece).2 := by
  rcases h.cases f with ⟨hnone, hfeed⟩ | ⟨line, hdata, hne, hfeed⟩
  · rw [hfeed, joinPiece_of_nil (by exact hnone)]
    exact ⟨h, rfl, (List.append_eq_nil_iff.mp hnone).1⟩
  · rw [hfeed, joinPiece_of_line (by rwa [hdata] at hne), Fragment.piece, ← hdata]
    split
    · exact ⟨h.erase _, rfl, by simp [openPart]⟩
    · exact ⟨h.insert _ hne, rfl, by simp [openPart]⟩

/-- On each stream, its fragments are joined to its lines. -/
theorem Filled.feedAll (h : a.Filled) (fs : List Fragment) (stream : PrintStream) :
    let joined := joinPieces a.limit (a.openPart stream)
      ((fs.filter (·.stream = stream)).map Fragment.piece)
    (a.feedAll fs).2.Filled ∧
      ((a.feedAll fs).1.filter (·.stream = stream)).map PrintLine.piece = joined.1 ∧
      (a.feedAll fs).2.openPart stream = joined.2 := by
  induction fs generalizing a with
  | nil => exact ⟨h, rfl, rfl⟩
  | cons f fs ih =>
      obtain ⟨hfilled, hlines, hpart⟩ := h.feed f
      obtain ⟨hfilled, hmore, hend⟩ := ih hfilled
      rw [limit_feed] at hmore hend
      rw [Assembler.feedAll, List.filter_append, List.map_append, hmore, hend]
      refine ⟨hfilled, ?_⟩
      by_cases heq : f.stream = stream
      · subst heq
        have hown : (a.feed f).1.toList.filter (·.stream = f.stream) = (a.feed f).1.toList :=
          List.filter_eq_self.mpr fun line hmem => by
            simpa using stream_feed (Option.mem_toList.mp hmem)
        rw [hown, hlines, hpart, List.filter_cons_of_pos (by simp), List.map_cons, joinPieces]
        exact ⟨rfl, rfl⟩
      · have hnone : (a.feed f).1.toList.filter (·.stream = stream) = [] :=
          List.filter_eq_nil_iff.mpr fun line hmem => by
            simpa [stream_feed (Option.mem_toList.mp hmem)] using heq
        rw [hnone, List.filter_cons_of_neg (by simpa using heq), openPart_feed_of_ne (Ne.symm heq)]
        exact ⟨rfl, rfl⟩

theorem Filled.drain (h : a.Filled) (stream : PrintStream) :
    (a.drain.1.filter (·.stream = stream)).map PrintLine.piece =
      linesOf (a.openPart stream) [] := by
  rw [drain_filter, openPart]
  cases hl : a.lines[stream]? with
  | none => rfl
  | some line =>
      have hdata := h stream line hl
      simp [linesOf, cut, hdata, PrintLine.piece, OpenLine.close]

/-- On a stream whose lines stay below the limit, the lines are its bytes, cut. -/
theorem assembled_filter (fs : List Fragment) (writes : List (List UInt8))
    (hfs : (fs.filter (·.stream = stream)).map Fragment.piece = writes.flatMap (pieces [] false))
    (h : Within limit [] writes.flatten) :
    (((start limit).assembled fs).filter (·.stream = stream)).map PrintLine.piece =
      linesOf [] writes.flatten := by
  have hlimit : (start limit).limit = limit := Nat.max_eq_left h.part_lt
  obtain ⟨hfilled, hlines, hpart⟩ := (filled_start limit).feedAll fs stream
  rw [hlimit, openPart_start, hfs] at hlines hpart
  rw [assembled, List.filter_append, List.map_append, hlines, hfilled.drain, hpart]
  exact joinPieces_writes writes h

end Assembler

end Retrace
