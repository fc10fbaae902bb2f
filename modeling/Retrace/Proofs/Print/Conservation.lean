import Mathlib.Data.List.DropRight
import Mathlib.Data.List.Find
import Retrace.Proofs.Print.Lines

/-!
# No text is lost between fragments and lines

The lines of a stream are its fragments joined in order, whatever the limit is. Each line begins
and ends with the fragments that it is joined from, and stays close to the limit.
-/

namespace Retrace

/-- The line that is open behind fragments of one stream, if they have bytes. -/
def OpenLine.ofFragments? (fs : List Fragment) : Option OpenLine :=
  match fs.find? (·.data ≠ []), fs.getLast? with
  | some first, some last => some ⟨fs.flatMap Fragment.data, first.timestamp, last.timestamp⟩
  | _, _ => none

namespace Assembler

/-- Fragments, each with the line that ends with it. -/
def calls (a : Assembler) : List Fragment → List (Fragment × Option PrintLine)
  | [] => []
  | f :: fs => (f, (a.feed f).1) :: (a.feed f).2.calls fs

/-- The fragments of the stream behind its last line. -/
def waiting (told : List (Fragment × Option PrintLine)) (stream : PrintStream) : List Fragment :=
  ((told.filter (·.1.stream = stream)).rtakeWhile (·.2.isNone)).map Prod.fst

end Assembler

/-- The line that ends with the fragment `f` is joined from it and the fragments that wait. -/
structure PrintLine.EndsWith (limit : Nat) (waiting : List Fragment) (f : Fragment)
    (line : PrintLine) : Prop where
  stream : line.stream = f.stream
  data : line.data = (waiting ++ [f]).flatMap Fragment.data
  ne_nil : line.data ≠ []
  start : ((waiting ++ [f]).find? (·.data ≠ [])).map Fragment.timestamp = some line.start
  stop : line.stop = f.timestamp
  complete : line.complete = f.terminator
  full : line.complete = false → max limit 1 ≤ line.data.length
  excess : line.data.length ≤ max limit 1 - 1 + f.data.length

/-- A line that no fragment ends is joined from the fragments that wait. -/
structure PrintLine.Rests (limit : Nat) (waiting : List Fragment) (line : PrintLine) : Prop where
  data : line.data = waiting.flatMap Fragment.data
  ne_nil : line.data ≠ []
  start : (waiting.find? (·.data ≠ [])).map Fragment.timestamp = some line.start
  stop : waiting.getLast?.map Fragment.timestamp = some line.stop
  incomplete : line.complete = false
  length_lt : line.data.length < max limit 1

/-- The lines are those that fragments have left open: one for each stream where bytes wait, in
the order of the streams. -/
structure Assembler.Leftover (told : List (Fragment × Option PrintLine))
    (lines : List PrintLine) : Prop where
  opened : ∀ stream : PrintStream, lines.filter (·.stream = stream) =
    ((OpenLine.ofFragments? (waiting told stream)).map (·.close stream false)).toList
  ordered : (lines.map PrintLine.stream).Pairwise fun s s' =>
    s.core < s'.core ∨ s.core = s'.core ∧ s.channel < s'.channel

variable {fs : List Fragment} {f : Fragment} {line : OpenLine} {stream : PrintStream}

/-! ## Lines of fragments -/

namespace OpenLine

theorem flatMap_data_eq_nil (h : fs.find? (·.data ≠ []) = none) :
    fs.flatMap Fragment.data = [] := by
  rw [List.flatMap_eq_nil_iff]
  intro f hf
  simpa using List.find?_eq_none.mp h f hf

theorem ofFragments?_append (fs : List Fragment) (f : Fragment) :
    ofFragments? (fs ++ [f]) =
      match ofFragments? fs with
      | none => ofFragment? f
      | some line => some (line.extend f) := by
  unfold ofFragments?
  rw [List.find?_append, List.getLast?_concat, List.flatMap_append]
  cases hfirst : fs.find? (·.data ≠ []) with
  | none =>
      rw [flatMap_data_eq_nil hfirst]
      by_cases hdata : f.data = [] <;> simp [ofFragment?, hdata]
  | some first =>
      have hne : fs ≠ [] := List.ne_nil_of_mem (List.mem_of_find?_eq_some hfirst)
      rw [List.getLast?_eq_some_getLast hne]
      simp [extend]

theorem ofFragments?_eq_none (h : ofFragments? fs = none) : fs.flatMap Fragment.data = [] := by
  cases hfirst : fs.find? (·.data ≠ []) with
  | none => exact flatMap_data_eq_nil hfirst
  | some first =>
      have hne : fs ≠ [] := List.ne_nil_of_mem (List.mem_of_find?_eq_some hfirst)
      rw [ofFragments?, hfirst, List.getLast?_eq_some_getLast hne] at h
      cases h

theorem ofFragments?_eq_some (h : ofFragments? fs = some line) :
    line.data = fs.flatMap Fragment.data ∧ line.data ≠ [] ∧
      (fs.find? (·.data ≠ [])).map Fragment.timestamp = some line.start ∧
      fs.getLast?.map Fragment.timestamp = some line.last := by
  unfold ofFragments? at h
  split at h
  case h_1 first last hfirst hlast =>
    cases h
    refine ⟨rfl, ?_, by rw [hfirst]; rfl, by rw [hlast]; rfl⟩
    have hdata := List.find?_some hfirst
    intro hnil
    rw [List.flatMap_eq_nil_iff] at hnil
    simp [hnil first (List.mem_of_find?_eq_some hfirst)] at hdata
  case h_2 => cases h

end OpenLine

namespace Assembler

variable {a : Assembler} {told : List (Fragment × Option PrintLine)}

/-! ## What waits for its end -/

theorem waiting_told (told : List (Fragment × Option PrintLine)) (f : Fragment)
    (line? : Option PrintLine) :
    waiting (told ++ [(f, line?)]) f.stream =
      if line?.isSome then [] else waiting told f.stream ++ [f] := by
  cases line? <;> simp [waiting, List.filter_append]

theorem waiting_told_of_ne (line? : Option PrintLine) (h : stream ≠ f.stream) :
    waiting (told ++ [(f, line?)]) stream = waiting told stream := by
  rw [waiting, List.filter_append, List.filter_cons_of_neg (by simpa using Ne.symm h)]
  simp [waiting]

/-- The open lines are those of the fragments that wait, and stay below the limit. -/
structure Holds (a : Assembler) (told : List (Fragment × Option PrintLine)) : Prop where
  lines : ∀ stream : PrintStream, a.lines[stream]? = OpenLine.ofFragments? (waiting told stream)
  below : ∀ (stream : PrintStream) (line : OpenLine), a.lines[stream]? = some line →
    line.data.length < a.limit

theorem holds_start (limit : Nat) : (start limit).Holds [] :=
  ⟨fun stream => by simp [start, waiting, OpenLine.ofFragments?],
    fun stream line h => by simp [start] at h⟩

theorem Holds.cases (h : a.Holds told) (f : Fragment) :
    (OpenLine.ofFragments? (waiting told f.stream ++ [f]) = none ∧ a.lines[f.stream]? = none ∧
      a.feed f = (none, a)) ∨
    ∃ line : OpenLine, OpenLine.ofFragments? (waiting told f.stream ++ [f]) = some line ∧
      ((f.terminator = true ∨ a.limit ≤ line.data.length) ∧
        a.feed f =
          (some (line.close f.stream f.terminator), { a with lines := a.lines.erase f.stream }) ∨
      line.data.length < a.limit ∧
        a.feed f = (none, { a with lines := a.lines.insert f.stream line })) := by
  have hfeed : a.feed f =
      match OpenLine.ofFragments? (waiting told f.stream ++ [f]) with
      | none => (none, a)
      | some line =>
        if f.terminator || a.limit ≤ line.data.length then
          (some (line.close f.stream f.terminator), { a with lines := a.lines.erase f.stream })
        else (none, { a with lines := a.lines.insert f.stream line }) := by
    rw [OpenLine.ofFragments?_append, ← h.lines]
    rfl
  cases hline : OpenLine.ofFragments? (waiting told f.stream ++ [f]) with
  | none =>
      rw [hline] at hfeed
      rw [OpenLine.ofFragments?_append, ← h.lines] at hline
      cases hopen : a.lines[f.stream]? with
      | none => exact .inl ⟨rfl, rfl, hfeed⟩
      | some line => simp [hopen] at hline
  | some line =>
      simp only [hline, Bool.or_eq_true, decide_eq_true_eq] at hfeed
      refine .inr ⟨line, rfl, ?_⟩
      by_cases hend : f.terminator = true ∨ a.limit ≤ line.data.length
      · exact .inl ⟨hend, hfeed.trans (if_pos hend)⟩
      · exact .inr ⟨Nat.lt_of_not_le fun hle => hend (.inr hle), hfeed.trans (if_neg hend)⟩

theorem Holds.feed (h : a.Holds told) (f : Fragment) :
    (a.feed f).2.Holds (told ++ [(f, (a.feed f).1)]) := by
  -- The lines of other streams stay as they are.
  suffices hself : (a.feed f).2.lines[f.stream]? =
        OpenLine.ofFragments? (waiting (told ++ [(f, (a.feed f).1)]) f.stream) ∧
      ∀ line : OpenLine, (a.feed f).2.lines[f.stream]? = some line → line.data.length < a.limit by
    refine ⟨fun stream => ?_, fun stream line hline => ?_⟩
    · by_cases heq : stream = f.stream
      · rw [heq]
        exact hself.1
      · rw [lines_feed_of_ne heq, waiting_told_of_ne _ heq]
        exact h.lines stream
    · rw [limit_feed]
      by_cases heq : stream = f.stream
      · rw [heq] at hline
        exact hself.2 line hline
      · rw [lines_feed_of_ne heq] at hline
        exact h.below stream line hline
  rw [waiting_told]
  rcases h.cases f with ⟨hnone, hopen, hfeed⟩ | ⟨line, hline, ⟨-, hfeed⟩ | ⟨hlength, hfeed⟩⟩
  · rw [hfeed]
    exact ⟨hopen.trans hnone.symm, h.below f.stream⟩
  · rw [hfeed]
    simp [OpenLine.ofFragments?]
  · rw [hfeed]
    refine ⟨by simp [hline], fun line' hline' => ?_⟩
    obtain rfl : line = line' := by simpa using hline'
    exact hlength

theorem Holds.feedAll (h : a.Holds told) (fs : List Fragment) :
    (a.feedAll fs).2.Holds (told ++ a.calls fs) := by
  induction fs generalizing a told with
  | nil => rwa [calls, List.append_nil]
  | cons f fs ih =>
      have hrest := ih (h.feed f)
      rwa [List.append_assoc] at hrest

/-- The lines that end are those that fragments end. -/
theorem feedAll_calls (a : Assembler) (fs : List Fragment) :
    (a.feedAll fs).1 = (a.calls fs).filterMap Prod.snd := by
  induction fs generalizing a with
  | nil => rfl
  | cons f fs ih =>
      rw [Assembler.feedAll, calls, List.filterMap_cons, ih]
      cases (a.feed f).1 <;> rfl

theorem feedAll_append (a : Assembler) (fs fs' : List Fragment) :
    a.feedAll (fs ++ fs') =
      ((a.feedAll fs).1 ++ ((a.feedAll fs).2.feedAll fs').1, ((a.feedAll fs).2.feedAll fs').2) := by
  induction fs generalizing a with
  | nil => rfl
  | cons f fs ih => simp only [List.cons_append, Assembler.feedAll, ih, List.append_assoc]

theorem limit_feedAll (a : Assembler) (fs : List Fragment) : (a.feedAll fs).2.limit = a.limit := by
  induction fs generalizing a with
  | nil => rfl
  | cons f fs ih => exact (ih (a.feed f).2).trans (limit_feed a f)

theorem Holds.openPart (h : a.Holds told) (stream : PrintStream) :
    a.openPart stream = (waiting told stream).flatMap Fragment.data := by
  rw [Assembler.openPart, h.lines]
  cases hline : OpenLine.ofFragments? (waiting told stream) with
  | none => exact (OpenLine.ofFragments?_eq_none hline).symm
  | some line => exact (OpenLine.ofFragments?_eq_some hline).1

theorem Holds.openPart_lt (h : a.Holds told) (hlimit : 0 < a.limit) (stream : PrintStream) :
    (a.openPart stream).length < a.limit := by
  rw [Assembler.openPart]
  cases hline : a.lines[stream]? with
  | none => exact hlimit
  | some line => exact h.below stream line hline

theorem Holds.endsWith {limit : Nat} {line : PrintLine} (h : a.Holds told)
    (hlimit : a.limit = max limit 1) (hline : (a.feed f).1 = some line) :
    line.EndsWith limit (waiting told f.stream) f := by
  rcases h.cases f with ⟨-, -, hfeed⟩ | ⟨joined, hjoined, ⟨hend, hfeed⟩ | ⟨-, hfeed⟩⟩
  · rw [hfeed] at hline
    cases hline
  · rw [hfeed] at hline
    cases hline
    obtain ⟨hdata, hne, hstart, hlast⟩ := OpenLine.ofFragments?_eq_some hjoined
    have hpart : (a.openPart f.stream).length < a.limit :=
      h.openPart_lt (by omega) f.stream
    refine ⟨rfl, hdata, hne, hstart, ?_, rfl, fun hincomplete => ?_, ?_⟩
    · rw [List.getLast?_concat] at hlast
      exact (Option.some.inj hlast).symm
    · rw [← hlimit]
      exact hend.resolve_left (by simpa [OpenLine.close] using hincomplete)
    · rw [OpenLine.close, hdata, List.flatMap_append, ← h.openPart, List.length_append]
      simp
      omega
  · rw [hfeed] at hline
    cases hline

theorem Holds.rests {limit : Nat} {line : PrintLine} (h : a.Holds told)
    (hlimit : a.limit = max limit 1) (hline : line ∈ a.drain.1) :
    line.Rests limit (waiting told line.stream) := by
  obtain ⟨⟨stream, opened⟩, hmem, rfl⟩ := List.mem_map.mp hline
  have hopened := Std.TreeMap.mem_toList_iff_getElem?_eq_some.mp hmem
  have hbelow := h.below stream opened hopened
  rw [h.lines] at hopened
  obtain ⟨hdata, hne, hstart, hlast⟩ := OpenLine.ofFragments?_eq_some hopened
  rw [hlimit] at hbelow
  exact ⟨hdata, hne, hstart, hlast, rfl, hbelow⟩

/-- The streams of the lines that are given at the end are in order, each there once. -/
theorem streams_drain (a : Assembler) :
    (a.drain.1.map PrintLine.stream).Pairwise fun s s' =>
      s.core < s'.core ∨ s.core = s'.core ∧ s.channel < s'.channel := by
  rw [drain, List.map_map, List.pairwise_map]
  refine a.lines.ordered_keys_toList.imp fun {p q} hlt => ?_
  replace hlt : (compare p.1.core q.1.core).then (compare p.1.channel q.1.channel) = .lt := hlt
  rcases Ordering.then_eq_lt.mp hlt with hcore | ⟨hcore, hchannel⟩
  · exact .inl (Std.compare_eq_lt.mp hcore)
  · exact .inr ⟨Std.LawfulEqCmp.eq_of_compare hcore, Std.compare_eq_lt.mp hchannel⟩

theorem Holds.leftover (h : a.Holds told) : Leftover told a.drain.1 where
  opened stream := by
    rw [drain_filter, h.lines, Option.toList_map]
  ordered := a.streams_drain

theorem isEmpty_drain (a : Assembler) : a.drain.2.isEmpty = true := by
  simp [drain, isEmpty]

end Assembler

/-! ## Text -/

theorem joinPiece_data (limit : Nat) (part : List UInt8) (piece : List UInt8 × Bool) :
    (joinPiece limit part piece).1.flatMap Prod.fst ++ (joinPiece limit part piece).2 =
      part ++ piece.1 := by
  by_cases hline : part ++ piece.1 = []
  · rw [joinPiece_of_nil hline, hline]
    rfl
  · rw [joinPiece_of_line hline]
    split <;> simp

theorem joinPieces_data (limit : Nat) (part : List UInt8) (ps : List (List UInt8 × Bool)) :
    (joinPieces limit part ps).1.flatMap Prod.fst ++ (joinPieces limit part ps).2 =
      part ++ ps.flatMap Prod.fst := by
  induction ps generalizing part with
  | nil => simp [joinPieces]
  | cons piece ps ih =>
      rw [joinPieces, List.flatMap_append, List.append_assoc, ih, ← List.append_assoc,
        joinPiece_data, List.flatMap_cons, List.append_assoc]

theorem linesOf_nil_data (part : List UInt8) : (linesOf part []).flatMap Prod.fst = part := by
  by_cases hpart : part = [] <;> simp [linesOf, cut, hpart]

namespace Assembler

variable {a : Assembler}

theorem Filled.assembled_data (h : a.Filled) (fs : List Fragment) (stream : PrintStream) :
    ((a.assembled fs).filter (·.stream = stream)).flatMap PrintLine.data =
      a.openPart stream ++ (fs.filter (·.stream = stream)).flatMap Fragment.data := by
  obtain ⟨hfilled, hlines, hpart⟩ := h.feedAll fs stream
  have hdata (lines : List PrintLine) :
      lines.flatMap PrintLine.data = (lines.map PrintLine.piece).flatMap Prod.fst := by
    rw [List.flatMap_map]
    rfl
  rw [assembled, List.filter_append, List.flatMap_append, hdata, hdata, hlines,
    hfilled.drain, linesOf_nil_data, hpart, joinPieces_data, List.flatMap_map]
  rfl

/-- Under any limit, the lines of each stream hold its text, and each line is joined from the
fragments since the line before. -/
theorem text_is_conserved (limit : Nat) (fs : List Fragment) :
    let told := (start limit).calls fs
    let a := ((start limit).feedAll fs).2
    (∀ stream, (((start limit).assembled fs).filter (·.stream = stream)).flatMap PrintLine.data =
      (fs.filter (·.stream = stream)).flatMap Fragment.data) ∧
    (∀ stream, (a.openPart stream).length < max limit 1) ∧
    (∀ f, ∀ line ∈ (a.feed f).1, line.EndsWith limit (waiting told f.stream) f) ∧
    (∀ line ∈ a.drain.1, line.Rests limit (waiting told line.stream)) ∧
    ((a.drain.1.map PrintLine.stream).Pairwise fun s s' =>
      s.core < s'.core ∨ s.core = s'.core ∧ s.channel < s'.channel) ∧
    a.drain.2.isEmpty = true := by
  intro told a
  have hholds : a.Holds told := (holds_start limit).feedAll fs
  have hlimit : a.limit = max limit 1 := limit_feedAll (start limit) fs
  refine ⟨fun stream => ?_, fun stream => ?_, fun f line hline => hholds.endsWith hlimit hline,
    fun line hline => hholds.rests hlimit hline, streams_drain a, isEmpty_drain a⟩
  · rw [(filled_start limit).assembled_data, openPart_start, List.nil_append]
  · rw [← hlimit]
    exact hholds.openPart_lt (by omega) stream

/-- Two fragments without a terminator reach the limit together. -/
theorem fragments_reach_limit :
    let first : Fragment := ⟨0, 0, [97, 98], false, 5⟩
    let second : Fragment := ⟨0, 0, [99, 100], false, 9⟩
    let line : PrintLine := ⟨⟨0, 0⟩, [97, 98, 99, 100], 5, 9, false⟩
    line ∈ (((start 3).feedAll [first]).2.feed second).1 ∧ line.EndsWith 3 [first] second := by
  intro first second line
  have hline : line ∈ (((start 3).feedAll [first]).2.feed second).1 := rfl
  obtain ⟨-, -, hends, -⟩ := text_is_conserved 3 [first]
  exact ⟨hline, hends second line hline⟩

end Assembler

end Retrace
