import Retrace.Proofs.Print.Conservation
import Retrace.Proofs.Session.Printing

/-!
# The accounts of a session

Records that are given and those that are kept are all that were reconstructed, in that order, and
the statistics count those that are given. The same holds of printed lines that end, and these with
the lines that have not ended hold all text that was printed.
-/

namespace Retrace

open Wire

namespace Session

/-- What was given so far, with what is kept, is all that came up, and the statistics tell so. -/
structure Balanced (s : Session) (returned executed : List Record)
    (taken finalized : List PrintLine) : Prop where
  records : returned ++ s.tracer.undelivered = executed
  counted : s.statistics.Accounts returned
  lines : taken ++ s.lines = finalized
  printed : s.statistics.printLines = finalized.length
  ascending : s.statistics.messages.Ascending

/-- The printed fragments that a call reads, of channels that are selected. -/
def printed (s : Session) : Call → List Fragment
  | .advance => ((s.upcoming?.bind printed?).filter (s.configuration.selects ·.channel)).toList
  | .takeLines => []

/-- The fragments were joined to lines from the start on: those that have ended, and those that the
assembler has open. -/
structure Joins (s : Session) (c : Configuration) (fs : List Fragment) (ended : List PrintLine) :
    Prop where
  configuration : s.configuration = c
  fed : (Assembler.start c.printBufferLimit).feedAll fs = (ended, s.assembler)

/-- Nothing is read any more, and nothing is kept. -/
structure Drained (s : Session) : Prop where
  reads : s.upcoming? = none
  kept : s.tracer.undelivered = []

variable {s : Session} {x : Except PacketError Message} {reader : Reader}
  {rs rs' : List Record} {ls ls' : List PrintLine} {c : Configuration} {fs : List Fragment}

/-! ## Steps -/

theorem records_consume (s : Session) (x : Except PacketError Message) :
    given [(s.consume x).1] ++ (s.consume x).2.tracer.undelivered =
      s.tracer.undelivered ++ s.tracer.executed x := by
  have hstep := s.consume_eq x
  rw [← Tracer.gains_executed]
  cases hx : s.tracer.failure? x with
  | none =>
      rw [hx] at hstep
      simp only [hstep.1, hstep.2, given, List.flatMap_singleton, List.append_nil]
  | some e =>
      rw [hx] at hstep
      simp only [hstep.1, hstep.2, given, List.flatMap_singleton, List.nil_append]

namespace Balanced

theorem takeLines (h : s.Balanced rs rs' ls ls') :
    s.takeLines.2.Balanced rs rs' (ls ++ s.lines) ls' where
  records := h.records
  counted := h.counted
  lines := (List.append_nil _).trans h.lines
  printed := h.printed
  ascending := h.ascending

theorem advance (h : s.Balanced rs rs' ls ls') :
    s.advance.2.Balanced (rs ++ s.returned .advance) (rs' ++ s.executed .advance) ls
      (ls' ++ s.finalized .advance) := by
  have hascending := ascending_advance h.ascending
  have hadvances := s.advances
  unfold returned executed finalized
  generalize s.advance = r at hascending hadvances
  cases hadvances with
  | stopped hf =>
      rw [upcoming?_of_finished hf]
      simpa [given] using h
  | @read x reader hf hn =>
      obtain ⟨faults, timestamps?, hstatistics⟩ := s.statistics_consume x
      obtain ⟨-, -, hlines⟩ := s.consume_joined x
      rw [upcoming?_of_next hf hn]
      refine ⟨?_, ?_, ?_, ?_, hascending⟩
      · rw [← h.records, List.append_assoc, List.append_assoc]
        exact congrArg (rs ++ ·) (s.records_consume x)
      · rw [hstatistics]
        exact ((h.counted.addCounter _).addRecords _).frame _ _ _
      · rw [← h.lines, List.append_assoc]
        exact congrArg (ls ++ ·) hlines
      · rw [List.length_append, ← h.printed, hstatistics]
        rfl
  | @leftover reader hf hn hu =>
      rw [upcoming?_of_next hf hn]
      refine ⟨?_, ?_, ?_, ?_, hascending⟩
      · simpa [given, Tracer.takeUndelivered] using h.records
      · simpa [given] using h.counted.addRecords s.tracer.undelivered
      · simpa using h.lines
      · simp only [Option.elim_none, List.append_nil]
        exact (Statistics.addRecords_keeps _ _).2.2.1.trans h.printed
  | @ended reader hf hn hu =>
      rw [upcoming?_of_next hf hn]
      refine ⟨?_, ?_, ?_, ?_, hascending⟩
      · simpa [given] using h.records
      · simpa [given] using h.counted.addMessage .endOfTrace
      · simpa using h.lines
      · simp only [Option.elim_none, List.append_nil]
        exact h.printed

theorem perform (h : s.Balanced rs rs' ls ls') (c : Call) :
    (s.perform c).Balanced (rs ++ s.returned c) (rs' ++ s.executed c) (ls ++ s.taken c)
      (ls' ++ s.finalized c) := by
  cases c with
  | advance =>
      rw [taken, List.append_nil]
      exact h.advance
  | takeLines =>
      simp only [returned, executed, finalized, List.append_nil]
      exact h.takeLines

theorem performAll (h : s.Balanced rs rs' ls ls') (calls : List Call) :
    (s.performAll calls).Balanced (rs ++ s.gather returned calls) (rs' ++ s.gather executed calls)
      (ls ++ s.gather taken calls) (ls' ++ s.gather finalized calls) := by
  induction calls generalizing s rs rs' ls ls' with
  | nil =>
      simp only [gather, List.append_nil]
      exact h
  | cons c cs ih =>
      have hrest := ih (h.perform c)
      simp only [List.append_assoc] at hrest
      exact hrest

end Balanced

theorem balanced_start {image : Image} {trace : List UInt8} {c : Configuration}
    (h : start image trace c = .ok s) : s.Balanced [] [] [] [] := by
  rw [eq_of_start h]
  exact ⟨rfl, .empty, rfl, rfl, .nil⟩

/-! ## Text -/

namespace Joins

/-- A step joins the fragment that it reads, and no other. -/
theorem advance (h : s.Joins c fs ls) :
    s.advance.2.Joins c (fs ++ s.printed .advance) (ls ++ s.finalized .advance) := by
  have hadvances := s.advances
  unfold printed finalized
  generalize s.advance = r at hadvances
  cases hadvances with
  | stopped hf =>
      rw [upcoming?_of_finished hf]
      simpa using h
  | @read x reader hf hn =>
      obtain ⟨hconfiguration, hassembler, -⟩ := s.consume_joined x
      rw [upcoming?_of_next hf hn, Option.bind_some, Option.elim_some]
      refine ⟨hconfiguration.trans h.configuration, ?_⟩
      rw [Assembler.feedAll_append, h.fed]
      change _ = (_, (s.consume x).2.assembler)
      rw [hassembler, joined_eq]
      cases (printed? x).filter (s.configuration.selects ·.channel) with
      | none => rfl
      | some f => simp [Assembler.feedAll]
  | leftover hf hn hu | ended hf hn hu =>
      rw [upcoming?_of_next hf hn]
      simp only [Option.bind_none, Option.filter_none, Option.toList_none, Option.elim_none,
        List.append_nil]
      exact ⟨h.configuration, h.fed⟩

theorem perform (h : s.Joins c fs ls) (call : Call) :
    (s.perform call).Joins c (fs ++ s.printed call) (ls ++ s.finalized call) := by
  cases call with
  | advance => exact h.advance
  | takeLines =>
      rw [printed, finalized, List.append_nil, List.append_nil]
      exact ⟨h.configuration, h.fed⟩

theorem performAll (h : s.Joins c fs ls) (calls : List Call) :
    (s.performAll calls).Joins c (fs ++ s.gather printed calls)
      (ls ++ s.gather finalized calls) := by
  induction calls generalizing s fs ls with
  | nil =>
      simp only [gather, List.append_nil]
      exact h
  | cons call calls ih =>
      have hrest := ih (h.perform call)
      simp only [List.append_assoc] at hrest
      exact hrest

/-- The lines that have ended and the open ones are the lines of the fragments. -/
theorem assembled (h : s.Joins c fs ls) :
    ls ++ s.assembler.drain.1 = (Assembler.start c.printBufferLimit).assembled fs := by
  rw [Assembler.assembled, h.fed]

/-- The lines that the assembler has open are what the fragments have left. -/
theorem leftover (h : s.Joins c fs ls) :
    Assembler.Leftover ((Assembler.start c.printBufferLimit).calls fs) s.assembler.drain.1 := by
  have hholds := (Assembler.holds_start c.printBufferLimit).feedAll fs
  rw [h.fed] at hholds
  exact hholds.leftover

end Joins

theorem joins_start {image : Image} {trace : List UInt8} (h : start image trace c = .ok s) :
    s.Joins c [] [] := by
  rw [eq_of_start h]
  exact ⟨rfl, rfl⟩

/-! ## Records that are left at the end of the trace -/

namespace Drained

theorem perform (h : s.Drained) (c : Call) : (s.perform c).Drained := by
  cases c with
  | takeLines => exact ⟨h.reads, h.kept⟩
  | advance =>
      obtain ⟨hreads, hkept⟩ := h
      have hadvances := s.advances
      unfold Session.perform
      generalize s.advance = r at hadvances
      cases hadvances with
      | stopped hf => exact ⟨hreads, hkept⟩
      | read hf hn =>
          rw [upcoming?_of_next hf hn] at hreads
          cases hreads
      | leftover hf hn hu => exact absurd hkept hu
      | ended hf hn hu => exact ⟨upcoming?_of_finished rfl, hu⟩

theorem performAll (h : s.Drained) (calls : List Call) : (s.performAll calls).Drained := by
  induction calls generalizing s with
  | nil => exact h
  | cons c cs ih => exact ih (h.perform c)

end Drained

theorem HandsOut.drained (h : s.HandsOut) : s.advance.2.Drained := by
  obtain ⟨hreads, hkept, houtcome, -⟩ := h
  have hadvances := s.advances
  generalize s.advance = r at houtcome hadvances
  cases hadvances with
  | stopped => cases houtcome
  | ended => cases houtcome
  | read hf hn =>
      rw [upcoming?_of_next hf hn] at hreads
      cases hreads
  | leftover hf hn hu =>
      obtain ⟨reader, hn'⟩ := Reader.next_of_no_readings (Reader.readings_at_end hn)
      exact ⟨upcoming?_of_next hf hn', rfl⟩

/-- Records that are left at the end of the trace are handed out once. -/
theorem HandsOut.once (h : s.HandsOut) (calls : List Call) :
    ¬ (s.advance.2.performAll calls).HandsOut :=
  fun hagain => hagain.kept (h.drained.performAll calls).kept

/-! ## The end of a session -/

/-- Closing gives what is kept and the lines that have not ended, and counts both. -/
theorem Balanced.close (h : s.Balanced rs rs' ls ls') :
    s.close.records = s.tracer.undelivered ∧ s.close.lines = s.lines ++ s.assembler.drain.1 ∧
      s.close.statistics.Accounts rs' ∧
      s.close.statistics.printLines = (ls ++ s.close.lines).length := by
  have hrecords : s.close.records = s.tracer.undelivered := List.append_nil _
  refine ⟨hrecords, rfl, ?_, ?_⟩
  · rw [← h.records, ← hrecords]
    exact (h.counted.frame _ _ _).addRecords s.close.records
  · refine (Statistics.addRecords_keeps _ _).2.2.1.trans ?_
    change s.statistics.printLines + _ = (ls ++ (s.lines ++ s.assembler.drain.1)).length
    rw [← List.append_assoc, h.lines, List.length_append, h.printed]

/-- Whatever the calls, and whether they fail: what they gave and what is kept are all records that
were reconstructed, in that order, and the statistics count those that they gave. Each step counts
its reading, unless it is the one that hands out what is left. Closing gives the rest: the records
that are kept and the lines that printed fragments have left open, so that no text is lost. -/
theorem accounts_balance (image : Image) (c : Configuration) (trace : List UInt8)
    (hc : c.invalid? = none) :
    ∃ s, start image trace c = .ok s ∧ ∀ calls,
      let s' := s.performAll calls
      let fragments := s.gather printed calls
      let told := (Assembler.start c.printBufferLimit).calls fragments
      s'.Balanced (s.gather returned calls) (s.gather executed calls) (s.gather taken calls)
        (s.gather finalized calls) ∧
      s'.statistics.resolved + s'.statistics.unresolved = s'.statistics.executed ∧
      (s'.advance.1 = none ∨ (∃ x, s'.upcoming? = some x ∧ s'.Counts (.ofReading x)) ∨
        s'.HandsOut ∧ ∀ more, ¬ (s'.advance.2.performAll more).HandsOut) ∧
      s.gather finalized calls = told.filterMap Prod.snd ∧
      s'.close.records = s'.tracer.undelivered ∧
      (∃ unfinished, s'.close.lines = s'.lines ++ unfinished ∧
        Assembler.Leftover told unfinished) ∧
      (∀ stream : PrintStream, ((s.gather taken calls ++ s'.close.lines).filter
          (·.stream = stream)).flatMap PrintLine.data =
        (fragments.filter (·.stream = stream)).flatMap Fragment.data) ∧
      s'.close.statistics.Accounts (s.gather executed calls) ∧
      s'.close.statistics.printLines = (s.gather taken calls ++ s'.close.lines).length := by
  obtain ⟨s, hs, -⟩ := start_of_valid image trace hc
  refine ⟨s, hs, fun calls => ?_⟩
  have hbalanced := (balanced_start hs).performAll calls
  have hjoins := (joins_start hs).performAll calls
  obtain ⟨hrecords, hlines, haccounts, hprinted⟩ := hbalanced.close
  refine ⟨hbalanced, ?_, ?_, ?_, hrecords, ⟨_, hlines, hjoins.leftover⟩, fun stream => ?_,
    haccounts, hprinted⟩
  · rw [hbalanced.counted.sources, hbalanced.counted.executed]
  · rcases advance_counts hbalanced.ascending with ⟨x, hx, -, hcounts⟩ | hout | ⟨hend, -⟩
    · exact .inr (.inl ⟨x, hx, hcounts⟩)
    · exact .inr (.inr ⟨hout, hout.once⟩)
    · exact .inl hend
  · exact (congrArg Prod.fst hjoins.fed).symm.trans (Assembler.feedAll_calls _ _)
  · have hall := hjoins.assembled
    have htaken := hbalanced.lines
    simp only [List.nil_append] at hall htaken
    rw [hlines, ← List.append_assoc, htaken, hall, (Assembler.filled_start _).assembled_data,
      Assembler.openPart_start, List.nil_append]

/-- The call in front of a return that is one instruction too many is given at the close, and so is
the text that no newline has ended by then. -/
theorem balance_behind_limit :
    let c : Configuration := { maxRun := 1 }
    let trace := transmit 0 [(0, ⟨.dataAcquisition, 0, [6, 0x6261]⟩),
      (0, ⟨.dataAcquisition, 0, [5, 0x0a6463]⟩), (0, ⟨.dataAcquisition, 0, [6, 0x6665]⟩),
      (0, ⟨.sync, 0, [0, 0, 0x800]⟩)]
    let calls : List Call := [.advance, .advance, .advance, .takeLines, .advance]
    let call : Record := ⟨⟨0x1000, ⟨.bits32 0x008000ef, .jal ⟨1, 4⟩⟩, none, none, .call⟩, 0, 0⟩
    ∃ s, start callAndReturn trace c = .ok s ∧
      let summary := (s.performAll calls).close
      s.gather executed calls = [call] ∧ s.gather returned calls = [] ∧ summary.records = [call] ∧
      ((s.gather printed calls).filter (·.stream = ⟨0, 1⟩)).flatMap Fragment.data =
        [97, 98, 99, 100, 10, 101, 102] ∧
      s.gather taken calls = [⟨⟨0, 1⟩, [97, 98, 99, 100, 10], 0, 0, true⟩] ∧
      summary.lines = [⟨⟨0, 1⟩, [101, 102], 0, 0, false⟩] ∧
      summary.statistics.executed = 1 ∧ summary.statistics.printLines = 2 := by
  intro c trace calls call
  obtain ⟨s, hs, hcalls⟩ := accounts_balance callAndReturn c trace rfl
  obtain ⟨hbalanced, -, -, -, hkept, -, htext, haccounts, hcount⟩ := hcalls calls
  have hrun : (start callAndReturn trace c).toOption.map (fun s =>
      (s.gather returned calls, s.gather taken calls, (s.performAll calls).close.records,
        (s.performAll calls).close.lines)) =
      some ([], [⟨⟨0, 1⟩, [97, 98, 99, 100, 10], 0, 0, true⟩], [call],
        [⟨⟨0, 1⟩, [101, 102], 0, 0, false⟩]) := by
    decide +kernel
  rw [hs] at hrun
  obtain ⟨hreturned, htaken, hrecords, hlines⟩ :
      s.gather returned calls = [] ∧
        s.gather taken calls = [⟨⟨0, 1⟩, [97, 98, 99, 100, 10], 0, 0, true⟩] ∧
        (s.performAll calls).close.records = [call] ∧
        (s.performAll calls).close.lines = [⟨⟨0, 1⟩, [101, 102], 0, 0, false⟩] := by
    simpa only [Except.toOption, Option.map_some, Option.some.injEq, Prod.mk.injEq] using hrun
  have hexecuted : s.gather executed calls = [call] := by
    rw [← hbalanced.records, hreturned, ← hkept, hrecords]
    rfl
  have htold := htext ⟨0, 1⟩
  rw [htaken, hlines] at htold hcount
  exact ⟨s, hs, hexecuted, hreturned, hrecords, htold.symm, htaken, hlines,
    haccounts.executed.trans (congrArg List.length hexecuted), hcount⟩

end Session

end Retrace
