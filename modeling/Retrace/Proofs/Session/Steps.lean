import Retrace.Proofs.Message.Readings
import Retrace.Proofs.Trace.Independence
import Retrace.Session.Replay

/-!
# Steps of a session

A session takes one reading at each step. No record is lost: those that are given and those that
are kept are the ones that the messages lead to.
-/

namespace Retrace

open Wire

/-- The piece of printed output that a message is. -/
def Message.fragment? (m : Message) : Option Fragment :=
  match m.payload with
  | .print f => some f
  | _ => none

/-- What a reading does to the tracer. -/
def Tracer.reads (t : Tracer) : Except PacketError Message → Tracer
  | .ok m =>
    match m.fragment? with
    | some _ => t
    | none => (t.process m).2
  | .error (.unsupported ..) => t
  | .error e => (t.fault e.core?).2

/-- Why the step with a reading fails, if it does. -/
def Tracer.failure? (t : Tracer) : Except PacketError Message → Option Error
  | .ok m =>
    match m.fragment? with
    | some _ => none
    | none => (t.answer m).1.map .unexpectedEncoding
  | .error e => some (.ofPacketError e)

/-- The records that a reading leads to. -/
def Tracer.gains (t : Tracer) : Except PacketError Message → List Record
  | .ok m =>
    match m.fragment? with
    | some _ => []
    | none => t.reconstructed m
  | .error _ => []

namespace Session

/-- What a step does with its reading. -/
def consume (s : Session) : Except PacketError Message → Except Error (List Record) × Session
  | .ok m => s.take m
  | .error e => (.error (.ofPacketError e), s.skip e)

/-- The outcomes of steps with the readings. -/
def outcomes (s : Session) : List (Except PacketError Message) → List (Except Error (List Record))
  | [] => []
  | x :: xs => (s.consume x).1 :: (s.consume x).2.outcomes xs

def through (s : Session) (xs : List (Except PacketError Message)) : Session :=
  xs.foldl (fun s x => (s.consume x).2) s

/-- The records that the readings lead to. -/
def gained (s : Session) : List (Except PacketError Message) → List Record
  | [] => []
  | x :: xs => s.tracer.gains x ++ (s.consume x).2.gained xs

/-- The outcomes of all steps up to the end of the trace, and the session then. -/
def finish (s : Session) : List (Except Error (List Record)) × Session :=
  match h : s.advance with
  | (none, s') => ([], s')
  | (some outcome, s') =>
    have := remaining_of_advance h
    (outcome :: s'.finish.1, s'.finish.2)
termination_by s.remaining
decreasing_by all_goals exact this

end Session

/-- The records that steps give. -/
def given (outcomes : List (Except Error (List Record))) : List Record :=
  outcomes.flatMap fun
    | .ok records => records
    | .error _ => []

variable {s : Session} {t : Tracer} {m : Message} {x : Except PacketError Message}
  {xs : List (Except PacketError Message)} {reader : Reader}

/-! ## Records that are given and kept -/

namespace Tracer

theorem fault_undelivered (t : Tracer) (id? : Option UInt16) :
    (t.fault id?).2 = { (t.fault id?).2 with undelivered := t.undelivered } := by
  obtain ⟨cores, h⟩ := t.fault_eq id?
  rw [h]

theorem image_reads (t : Tracer) (x : Except PacketError Message) :
    (t.reads x).image = t.image ∧ (t.reads x).options = t.options := by
  cases x with
  | error e =>
      have hfault : ∀ id?, (t.fault id?).2.image = t.image ∧ (t.fault id?).2.options = t.options :=
        fun id? => by
          obtain ⟨cores, h⟩ := t.fault_eq id?
          rw [h]
          exact ⟨rfl, rfl⟩
      cases e with
      | unsupported type core => exact ⟨rfl, rfl⟩
      | malformed position core cause => exact hfault core
      | truncated | reservedMarker | unknownType => exact hfault none
  | ok m =>
      rw [reads]
      cases m.fragment? with
      | some f => exact ⟨rfl, rfl⟩
      | none => exact ⟨image_process, options_process⟩

end Tracer

namespace Session

@[simp]
theorem tracer_print (s : Session) (f : Fragment) : (s.print f).tracer = s.tracer := by
  unfold print
  split <;> rfl

theorem take_eq (s : Session) (m : Message) :
    s.take m =
      match m.fragment? with
      | some f => ((s.note m).print f).succeed []
      | none => (s.note m).reconstruct m := by
  unfold take Message.fragment?
  cases m.payload <;> rfl

/-- A step gives what was kept and what its reading leads to, or keeps both if it fails. -/
theorem consume_eq (s : Session) (x : Except PacketError Message) :
    match s.tracer.failure? x with
    | none => (s.consume x).1 = .ok (s.tracer.undelivered ++ s.tracer.gains x) ∧
        (s.consume x).2.tracer = { s.tracer.reads x with undelivered := [] }
    | some e => (s.consume x).1 = .error e ∧ (s.consume x).2.tracer =
        { s.tracer.reads x with undelivered := s.tracer.undelivered ++ s.tracer.gains x } := by
  cases x with
  | error e =>
      simp only [Tracer.failure?, Tracer.gains, List.append_nil, consume, true_and]
      cases e with
      | unsupported type core => rfl
      | malformed position core cause => exact s.tracer.fault_undelivered core
      | truncated | reservedMarker | unknownType => exact s.tracer.fault_undelivered none
  | ok m =>
      rw [consume, take_eq, Tracer.failure?, Tracer.gains, Tracer.reads]
      cases m.fragment? with
      | some f =>
          simp only [succeed, deliver, tracer_print, List.append_nil]
          exact ⟨rfl, rfl⟩
      | none =>
          have hanswer := s.tracer.process_answer m
          have hkept := s.tracer.process_undelivered m
          simp only [reconstruct, note]
          cases hp : s.tracer.process m with
          | mk r t =>
              rw [hp] at hanswer hkept
              cases ha : (s.tracer.answer m).1 with
              | none =>
                  rw [ha] at hanswer
                  subst hanswer
                  obtain ⟨hrecords, hkept⟩ := hkept
                  rw [← hrecords, ← hkept]
                  exact ⟨rfl, rfl⟩
              | some e =>
                  rw [ha] at hanswer
                  subst hanswer
                  exact ⟨rfl, by rw [← hkept]⟩

theorem tracer_consume (s : Session) (x : Except PacketError Message) :
    ∃ undelivered, (s.consume x).2.tracer = { s.tracer.reads x with undelivered } := by
  have hstep := s.consume_eq x
  cases hx : s.tracer.failure? x with
  | none =>
      rw [hx] at hstep
      exact ⟨_, hstep.2⟩
  | some e =>
      rw [hx] at hstep
      exact ⟨_, hstep.2⟩

/-- What steps give and what is kept then are the records that their readings lead to. -/
theorem given_outcomes (s : Session) (xs : List (Except PacketError Message)) :
    given (s.outcomes xs) ++ (s.through xs).tracer.undelivered =
      s.tracer.undelivered ++ s.gained xs := by
  induction xs generalizing s with
  | nil => simp [outcomes, through, gained, given]
  | cons x xs ih =>
      have hstep := s.consume_eq x
      have hrest := ih (s.consume x).2
      simp only [outcomes, gained, given, List.flatMap_cons, List.append_assoc] at hrest ⊢
      change _ ++ (_ ++ ((s.consume x).2.through xs).tracer.undelivered) = _
      rw [hrest]
      cases hx : s.tracer.failure? x with
      | none =>
          rw [hx] at hstep
          simp only [hstep.1, hstep.2, List.nil_append, List.append_assoc]
      | some e =>
          rw [hx] at hstep
          simp only [hstep.1, hstep.2, List.nil_append, List.append_assoc]

/-! ## Steps and readings -/

theorem print_reader (s : Session) (reader : Reader) (f : Fragment) :
    print { s with reader } f = { s.print f with reader } := by
  unfold print
  split <;> rfl

theorem reconstruct_reader (s : Session) (reader : Reader) (m : Message) :
    reconstruct { s with reader } m =
      ((s.reconstruct m).1, { (s.reconstruct m).2 with reader }) := by
  simp only [reconstruct]
  cases s.tracer.process m with
  | mk r t => cases r <;> rfl

theorem consume_reader (s : Session) (reader : Reader) (x : Except PacketError Message) :
    consume { s with reader } x = ((s.consume x).1, { (s.consume x).2 with reader }) := by
  cases x with
  | error e => cases e <;> rfl
  | ok m =>
      rw [consume, consume, take_eq, take_eq]
      cases m.fragment? with
      | some f => exact congrArg (succeed · []) (print_reader (s.note m) reader f)
      | none => exact reconstruct_reader (s.note m) reader m

@[simp]
theorem finished_consume (s : Session) (x : Except PacketError Message) :
    (s.consume x).2.finished = s.finished := by
  cases x with
  | error e => cases e <;> rfl
  | ok m =>
      rw [consume, take_eq]
      cases m.fragment? with
      | some f =>
          simp only [succeed, deliver, print]
          split <;> rfl
      | none =>
          simp only [reconstruct, note]
          cases s.tracer.process m with
          | mk r t => cases r <;> rfl

theorem outcomes_reader (s : Session) (reader : Reader) (xs : List (Except PacketError Message)) :
    outcomes { s with reader } xs = s.outcomes xs := by
  induction xs generalizing s with
  | nil => rfl
  | cons x xs ih => rw [outcomes, outcomes, consume_reader, ih]

theorem through_reader (s : Session) (reader : Reader) (xs : List (Except PacketError Message)) :
    through { s with reader } xs = { s.through xs with reader } := by
  induction xs generalizing s with
  | nil => rfl
  | cons x xs ih =>
      change through (consume { s with reader } x).2 xs = _
      rw [consume_reader, ih]
      rfl

theorem advance_of_next (hf : s.finished = false) (hn : s.reader.next = (some x, reader)) :
    s.advance = (some (s.consume x).1, { (s.consume x).2 with reader }) := by
  have hadvance : s.advance = Prod.map some id (consume { s with reader } x) := by
    rw [advance, hf, hn]
    cases x <;> rfl
  rw [hadvance, consume_reader]
  rfl

theorem advance_of_finished (hf : s.finished = true) : s.advance = (none, s) := by
  simp [advance, hf]

theorem advance_of_leftover (hf : s.finished = false) (hn : s.reader.next = (none, reader))
    (hu : s.tracer.undelivered ≠ []) :
    s.advance = (some (.ok s.tracer.undelivered), { s with
      reader
      tracer := s.tracer.takeUndelivered.2
      statistics := s.statistics.addRecords s.tracer.undelivered }) := by
  simp [advance, hf, hn, hu, succeed, deliver]

theorem advance_of_end (hf : s.finished = false) (hn : s.reader.next = (none, reader))
    (hu : s.tracer.undelivered = []) :
    s.advance = (none, { s with
      reader, statistics := s.statistics.addMessage .endOfTrace, finished := true }) := by
  simp [advance, hf, hn, hu]

/-! ## Up to the end of the trace -/

theorem finish_of_end {s' : Session} (h : s.advance = (none, s')) : s.finish = ([], s') := by
  rw [finish]
  split
  · rename_i hn
    rw [h] at hn
    cases hn
    rfl
  · rename_i hn
    rw [h] at hn
    cases hn

theorem finish_of_step {s' : Session} {outcome : Except Error (List Record)}
    (h : s.advance = (some outcome, s')) : s.finish = (outcome :: s'.finish.1, s'.finish.2) := by
  rw [finish]
  split
  · rename_i hn
    rw [h] at hn
    cases hn
  · rename_i hn
    rw [h] at hn
    cases hn
    rfl

theorem finish_of_none_kept (hf : s.finished = false) (hn : s.reader.next = (none, reader))
    (hu : s.tracer.undelivered = []) :
    s.finish = ([], { s with
      reader, statistics := s.statistics.addMessage .endOfTrace, finished := true }) :=
  finish_of_end (advance_of_end hf hn hu)

theorem finish_at_end (hf : s.finished = false) (hr : s.reader.readings = []) :
    ∃ outcomes, given outcomes = s.tracer.undelivered ∧ s.finish.1 = outcomes ∧
      s.finish.2.tracer = { s.tracer with undelivered := [] } ∧
      s.finish.2.assembler = s.assembler ∧ s.finish.2.lines = s.lines := by
  obtain ⟨reader, hn⟩ := Reader.next_of_no_readings hr
  by_cases hu : s.tracer.undelivered = []
  · rw [finish_of_none_kept hf hn hu]
    exact ⟨[], hu.symm, rfl, by rw [← hu], rfl, rfl⟩
  · -- There is still nothing to read, and now nothing is kept.
    obtain ⟨reader', hn'⟩ := Reader.next_of_no_readings (Reader.readings_at_end hn)
    rw [finish_of_step (advance_of_leftover hf hn hu),
      finish_of_none_kept (by exact hf) hn' rfl]
    exact ⟨_, by simp [given], rfl, rfl, rfl, rfl⟩

/-- All steps to the end of the trace are those with its readings and one for what is kept then. -/
theorem finish_eq (hf : s.finished = false) :
    ∃ outcomes, s.finish.1 = s.outcomes s.reader.readings ++ outcomes ∧
      given outcomes = (s.through s.reader.readings).tracer.undelivered ∧
      s.finish.2.tracer = { (s.through s.reader.readings).tracer with undelivered := [] } ∧
      s.finish.2.assembler = (s.through s.reader.readings).assembler ∧
      s.finish.2.lines = (s.through s.reader.readings).lines := by
  induction hr : s.reader.readings generalizing s with
  | nil =>
      obtain ⟨outcomes, hgiven, hfinish, hend⟩ := finish_at_end hf hr
      exact ⟨outcomes, hfinish, hgiven, hend⟩
  | cons x xs ih =>
      obtain ⟨reader, hn, hrest⟩ := Reader.next_of_readings hr
      have hstep := advance_of_next hf hn
      obtain ⟨outcomes, hfinish, hend⟩ :=
        ih (s := { (s.consume x).2 with reader }) (by simp [hf]) hrest
      rw [finish_of_step hstep]
      simp only [outcomes_reader, through_reader] at hfinish hend
      exact ⟨outcomes, by simp only [hfinish]; rfl, hend⟩

/-- All records that a session gives are those that its readings lead to. -/
theorem given_finish (hf : s.finished = false) :
    given s.finish.1 ++ s.finish.2.close.records =
      s.tracer.undelivered ++ s.gained s.reader.readings := by
  obtain ⟨outcomes, hfinish, hgiven, htracer, -⟩ := finish_eq hf
  have hclose : s.finish.2.close.records = [] := by
    simp only [close, deliver, htracer, List.append_nil]
  rw [hclose, List.append_nil, ← given_outcomes, hfinish, ← hgiven]
  simp only [given, List.flatMap_append]

end Session

end Retrace
