import Retrace.Print.Assembler

/-!
# Streams do not depend on each other

What fragments of one stream are joined to depends on that stream alone.
-/

namespace Retrace

namespace PrintStream

instance : Std.TransOrd PrintStream :=
  inferInstanceAs (Std.TransCmp (compareLex (compareOn core) (compareOn channel)))

instance : Std.LawfulEqOrd PrintStream where
  eq_of_compare {a b} h := by
    obtain ⟨hcore, hchannel⟩ := compareLex_eq_eq.mp h
    obtain ⟨core, channel⟩ := a
    obtain ⟨core', channel'⟩ := b
    exact (PrintStream.mk.injEq ..).mpr
      ⟨Std.LawfulEqCmp.eq_of_compare hcore, Std.LawfulEqCmp.eq_of_compare hchannel⟩

end PrintStream

namespace Assembler

/-- The assemblers know the same of the streams of the core. -/
structure Agree (id : UInt16) (a a' : Assembler) : Prop where
  limit : a'.limit = a.limit
  lines : ∀ stream : PrintStream, stream.core = id → a'.lines[stream]? = a.lines[stream]?

variable {a a' : Assembler} {f : Fragment} {id : UInt16} {stream : PrintStream}

theorem stream_feed {line : PrintLine} (h : (a.feed f).1 = some line) : line.stream = f.stream := by
  simp only [feed] at h
  split at h
  · cases h
  · split at h
    · cases h
      rfl
    · cases h

theorem limit_feed (a : Assembler) (f : Fragment) : (a.feed f).2.limit = a.limit := by
  simp only [feed]
  split
  · rfl
  · split <;> rfl

theorem lines_feed_of_ne (h : stream ≠ f.stream) :
    (a.feed f).2.lines[stream]? = a.lines[stream]? := by
  have hne : compare f.stream stream ≠ .eq := fun he => h (Std.LawfulEqCmp.eq_of_compare he).symm
  simp only [feed]
  split
  · rfl
  · split
    · simp [Std.TreeMap.getElem?_erase, hne]
    · simp [Std.TreeMap.getElem?_insert, hne]

/-- A fragment is joined to the line of its stream. -/
theorem Agree.feed (h : a.Agree f.core a') :
    (a'.feed f).1 = (a.feed f).1 ∧ (a.feed f).2.Agree f.core (a'.feed f).2 := by
  have hself : a'.lines[f.stream]? = a.lines[f.stream]? := h.lines _ rfl
  have hline : (a'.feed f).1 = (a.feed f).1 ∧
      (a'.feed f).2.lines[f.stream]? = (a.feed f).2.lines[f.stream]? := by
    simp only [Assembler.feed, hself, h.limit]
    split
    · exact ⟨rfl, hself⟩
    · split
      · exact ⟨rfl, by simp⟩
      · exact ⟨rfl, by simp⟩
  refine ⟨hline.1, by rw [limit_feed, limit_feed, h.limit], fun stream hs => ?_⟩
  by_cases heq : stream = f.stream
  · rw [heq]
    exact hline.2
  · rw [lines_feed_of_ne heq, lines_feed_of_ne heq, h.lines stream hs]

theorem Agree.feed_of_ne (h : a.Agree id a') (hid : f.core ≠ id) : (a.feed f).2.Agree id a' := by
  refine ⟨by rw [limit_feed, h.limit], fun stream hs => ?_⟩
  have hne : stream ≠ f.stream := by
    rintro rfl
    exact hid hs
  rw [lines_feed_of_ne hne, h.lines stream hs]

theorem toList_filter (lines : Std.TreeMap PrintStream OpenLine) (stream : PrintStream) :
    lines.toList.filter (·.1 = stream) = (lines[stream]?).toList.map (stream, ·) := by
  cases hl : lines[stream]? with
  | none =>
      refine List.filter_eq_nil_iff.mpr fun ⟨stream', line⟩ hmem heq => ?_
      obtain rfl : stream' = stream := by simpa using heq
      rw [Std.TreeMap.mem_toList_iff_getElem?_eq_some, hl] at hmem
      cases hmem
  | some line =>
      obtain ⟨before, after, heq⟩ :=
        List.append_of_mem (Std.TreeMap.mem_toList_iff_getElem?_eq_some.mpr hl)
      have hdistinct := lines.distinct_keys_toList
      rw [heq, List.pairwise_append] at hdistinct
      obtain ⟨-, hafter, hbefore⟩ := hdistinct
      -- No other line is one of the stream.
      have hnone : ∀ p ∈ before ++ after, p.1 ≠ stream := by
        rintro p hp rfl
        rcases List.mem_append.mp hp with hp | hp
        · exact hbefore p hp _ List.mem_cons_self Std.ReflCmp.compare_self
        · exact (List.pairwise_cons.mp hafter).1 p hp Std.ReflCmp.compare_self
      have hfilter : (before ++ after).filter (·.1 = stream) = [] :=
        List.filter_eq_nil_iff.mpr fun p hp => by simpa using hnone p hp
      rw [List.filter_append, List.append_eq_nil_iff] at hfilter
      rw [heq, List.filter_append, List.filter_cons_of_pos (by simp), hfilter.1, hfilter.2]
      rfl

/-- The line of a stream that has not ended is given at the end. -/
theorem drain_filter (a : Assembler) (stream : PrintStream) :
    a.drain.1.filter (·.stream = stream) =
      (a.lines[stream]?).toList.map (·.close stream false) := by
  have hfilter := congrArg (List.map fun p => OpenLine.close p.2 p.1 false)
    (toList_filter a.lines stream)
  rw [List.map_map] at hfilter
  rw [drain, List.filter_map]
  exact hfilter

end Assembler

end Retrace
