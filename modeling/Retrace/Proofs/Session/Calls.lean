import Retrace.Proofs.Session.Counting

/-!
# Calls of a session

What a step does, and what calls in any order give.
-/

namespace Retrace

open Wire

/-- The records of all instructions that a reading leads through. -/
def Tracer.executed (t : Tracer) : Except PacketError Message → List Record
  | .ok m =>
    match m.fragment? with
    | some _ => []
    | none => (t.answer m).2.map (Record.of m)
  | .error _ => []

theorem Tracer.gains_executed (t : Tracer) (x : Except PacketError Message) :
    t.gains x = t.executed x := by
  cases x with
  | error e => rfl
  | ok m =>
      rw [Tracer.gains, Tracer.executed]
      cases m.fragment? with
      | some f => rfl
      | none => exact t.reconstructed_answer m

namespace Session

/-- What a step gives and leads to. -/
inductive Advance (s : Session) : Option (Except Error (List Record)) × Session → Prop
  | stopped : s.finished = true → Advance s (none, s)
  | read {x reader} : s.finished = false → s.reader.next = (some x, reader) →
      Advance s (some (s.consume x).1, { (s.consume x).2 with reader })
  | leftover {reader} : s.finished = false → s.reader.next = (none, reader) →
      s.tracer.undelivered ≠ [] →
      Advance s (some (.ok s.tracer.undelivered), { s with
        reader
        tracer := s.tracer.takeUndelivered.2
        statistics := s.statistics.addRecords s.tracer.undelivered })
  | ended {reader} : s.finished = false → s.reader.next = (none, reader) →
      s.tracer.undelivered = [] →
      Advance s (none, { s with
        reader, statistics := s.statistics.addMessage .endOfTrace, finished := true })

/-- The steps of a session, and taking its printed lines between them. -/
inductive Call where
  | advance
  | takeLines
  deriving DecidableEq

def perform (s : Session) : Call → Session
  | .advance => s.advance.2
  | .takeLines => s.takeLines.2

def performAll (s : Session) (calls : List Call) : Session :=
  calls.foldl perform s

/-- What the calls give, each a part of it. -/
def gather {α : Type} (part : Session → Call → List α) (s : Session) : List Call → List α
  | [] => []
  | c :: cs => part s c ++ (s.perform c).gather part cs

/-- What the next step reads, if it reads anything. -/
def upcoming? (s : Session) : Option (Except PacketError Message) :=
  if s.finished then none else s.reader.next.1

/-- The records that a call gives. -/
def returned (s : Session) : Call → List Record
  | .advance => given s.advance.1.toList
  | .takeLines => []

/-- The records of all instructions that are reconstructed in a call. -/
def executed (s : Session) : Call → List Record
  | .advance => s.upcoming?.elim [] s.tracer.executed
  | .takeLines => []

/-- The printed lines that a call gives. -/
def taken (s : Session) : Call → List PrintLine
  | .advance => []
  | .takeLines => s.takeLines.1

/-- The printed lines that end in a call. -/
def finalized (s : Session) : Call → List PrintLine
  | .advance => s.upcoming?.elim [] fun x => (s.joined x).1.toList
  | .takeLines => []

/-- The next step counts as one of these, and as nothing else. -/
def Counts (s : Session) (c : Counter) : Prop :=
  ∀ c', s.advance.2.statistics.counted c' = s.statistics.counted c' + if c' = c then 1 else 0

/-- The next step reads nothing and gives the records that are left. -/
structure HandsOut (s : Session) : Prop where
  reads : s.upcoming? = none
  kept : s.tracer.undelivered ≠ []
  outcome : s.advance.1 = some (.ok s.tracer.undelivered)
  counted : s.advance.2.statistics.counted = s.statistics.counted

variable {s s' : Session} {x : Except PacketError Message} {reader : Reader}

theorem statistics_of_start {image : Image} {trace : List UInt8} {c : Configuration}
    (h : start image trace c = .ok s) : s.statistics = {} := by
  rw [eq_of_start h]

/-! ## Steps -/

theorem advances (s : Session) : s.Advance s.advance := by
  cases hf : s.finished with
  | true =>
      rw [advance_of_finished hf]
      exact .stopped hf
  | false =>
      cases hn : s.reader.next with
      | mk x? reader =>
          cases x? with
          | some x =>
              rw [advance_of_next hf hn]
              exact .read hf hn
          | none =>
              by_cases hu : s.tracer.undelivered = []
              · rw [advance_of_end hf hn hu]
                exact .ended hf hn hu
              · rw [advance_of_leftover hf hn hu]
                exact .leftover hf hn hu

theorem upcoming?_of_finished (hf : s.finished = true) : s.upcoming? = none := by
  simp [upcoming?, hf]

theorem upcoming?_of_next {x? : Option (Except PacketError Message)} (hf : s.finished = false)
    (hn : s.reader.next = (x?, reader)) : s.upcoming? = x? := by
  simp [upcoming?, hf, hn]

theorem finished_of_end (h : s.advance.1 = none) : s.advance.2.finished = true := by
  have hadvances := s.advances
  generalize s.advance = r at h hadvances
  cases hadvances with
  | stopped hf => exact hf
  | ended => rfl
  | read => cases h
  | leftover => cases h

theorem ofReading_ne_end (x : Except PacketError Message) :
    Counter.ofReading x ≠ .message .endOfTrace := by
  cases x with
  | error e => cases e <;> exact nofun
  | ok m =>
      have hkind : m.kind ≠ .endOfTrace := by
        unfold Message.kind
        cases m.payload <;> exact nofun
      exact fun h => hkind (Counter.message.inj h)

/-- A step counts its reading, hands out the records that are left, or is the end. -/
theorem advance_counts (hm : s.statistics.messages.Ascending) :
    (∃ x, s.upcoming? = some x ∧ s.advance.1 = some (s.consume x).1 ∧
        s.Counts (.ofReading x)) ∨
      s.HandsOut ∨ s.advance.1 = none ∧ (s.finished = false → s.Counts (.message .endOfTrace)) := by
  have hadvances := s.advances
  unfold Counts
  generalize hr : s.advance = r at hadvances
  cases hadvances with
  | stopped hf => exact .inr (.inr ⟨rfl, fun hf' => by rw [hf'] at hf; cases hf⟩)
  | read hf hn =>
      rename_i x reader
      obtain ⟨faults, timestamps?, hstatistics⟩ := s.statistics_consume x
      have hframe (c' : Counter) : (s.consume x).2.statistics.counted c' =
          ((s.statistics.addCounter (.ofReading x)).addRecords
            (given [(s.consume x).1])).counted c' := by
        rw [hstatistics]
        cases c' <;> rfl
      refine .inl ⟨x, upcoming?_of_next hf hn, rfl, fun c' => (hframe c').trans ?_⟩
      rw [(Statistics.addRecords_keeps _ _).1]
      exact Statistics.counted_addCounter hm _ c'
  | leftover hf hn hu =>
      refine .inr (.inl ⟨upcoming?_of_next hf hn, hu, by rw [hr], ?_⟩)
      rw [hr]
      exact (Statistics.addRecords_keeps _ _).1
  | ended hf hn hu =>
      exact .inr (.inr ⟨rfl, fun _ c' =>
        Statistics.counted_addCounter hm (.message .endOfTrace) c'⟩)

theorem ascending_advance (hm : s.statistics.messages.Ascending) :
    s.advance.2.statistics.messages.Ascending := by
  have hadvances := s.advances
  generalize s.advance = r at hadvances
  cases hadvances with
  | stopped hf => exact hm
  | read hf hn =>
      rename_i x reader
      obtain ⟨faults, timestamps?, hstatistics⟩ := s.statistics_consume x
      simp only [hstatistics]
      rw [(Statistics.addRecords_keeps _ _).2.1]
      exact Statistics.ascending_addCounter hm _
  | leftover hf hn hu =>
      simp only
      rwa [(Statistics.addRecords_keeps _ _).2.1]
  | ended hf hn hu => exact hm.add .endOfTrace

/-! ## Printed lines -/

theorem print_lines (s : Session) (lines : List PrintLine) (f : Fragment) :
    ∃ lines', print { s with lines } f = { s.print f with lines := lines' } := by
  unfold print
  split <;> exact ⟨_, rfl⟩

theorem reconstruct_lines (s : Session) (lines : List PrintLine) (m : Message) :
    reconstruct { s with lines } m = ((s.reconstruct m).1, { (s.reconstruct m).2 with lines }) := by
  simp only [reconstruct]
  cases s.tracer.process m with
  | mk r t => cases r <;> rfl

theorem consume_lines (s : Session) (lines : List PrintLine) (x : Except PacketError Message) :
    ∃ lines', consume { s with lines } x =
      ((s.consume x).1, { (s.consume x).2 with lines := lines' }) := by
  cases x with
  | error e => cases e <;> exact ⟨lines, rfl⟩
  | ok m =>
      rw [consume, consume, take_eq, take_eq]
      cases m.fragment? with
      | some f =>
          obtain ⟨lines', hprint⟩ := (s.note m).print_lines lines f
          exact ⟨lines', congrArg (succeed · []) hprint⟩
      | none => exact ⟨lines, reconstruct_lines (s.note m) lines m⟩

/-- Lines that are not taken change nothing else. -/
theorem advance_lines (s : Session) (lines : List PrintLine) :
    ∃ lines', advance { s with lines } = (s.advance.1, { s.advance.2 with lines := lines' }) := by
  have hadvances := s.advances
  generalize s.advance = r at hadvances
  cases hadvances with
  | stopped hf => exact ⟨lines, advance_of_finished (s := { s with lines }) hf⟩
  | @read x reader hf hn =>
      obtain ⟨lines', hconsume⟩ := s.consume_lines lines x
      refine ⟨lines', (advance_of_next (s := { s with lines }) hf hn).trans ?_⟩
      rw [hconsume]
  | leftover hf hn hu => exact ⟨lines, advance_of_leftover (s := { s with lines }) hf hn hu⟩
  | ended hf hn hu => exact ⟨lines, advance_of_end (s := { s with lines }) hf hn hu⟩

end Session

end Retrace
