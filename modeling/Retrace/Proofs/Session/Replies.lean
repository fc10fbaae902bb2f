import Retrace.Proofs.Session.Steps
import Mathlib.Logic.Function.Iterate

/-!
# Replies to readings

The outcomes of the steps of a session, from what each reading leads to. Records that are kept as a
step fails come with the next step that gives any.
-/

namespace Retrace

open Wire

/-- What a reading leads to: why its step fails, if it does, and records. -/
structure Reply where
  failure? : Option Error
  records : List Record

def Record.untimed (r : Record) : Record :=
  { r with timestamp := 0 }

def Reply.untimed (r : Reply) : Reply :=
  ⟨r.failure?, r.records.map Record.untimed⟩

/-- The outcomes of steps with such replies, and the records that are kept after them, given those
that were kept before. -/
def delivered (kept : List Record) : List Reply → List (Except Error (List Record)) × List Record
  | [] => ([], kept)
  | ⟨none, records⟩ :: rs => (.ok (kept ++ records) :: (delivered [] rs).1, (delivered [] rs).2)
  | ⟨some e, records⟩ :: rs =>
    (.error e :: (delivered (kept ++ records) rs).1, (delivered (kept ++ records) rs).2)

def Tracer.reply (t : Tracer) (x : Except PacketError Message) : Reply :=
  ⟨t.failure? x, t.gains x⟩

namespace Session

def replies (s : Session) : List (Except PacketError Message) → List Reply
  | [] => []
  | x :: xs => s.tracer.reply x :: (s.consume x).2.replies xs

/-- The session after a number of steps. -/
def after (n : Nat) (s : Session) : Session :=
  (fun s => s.advance.2)^[n] s

/-- The steps with what is left of the trace give what is kept and the records of the replies. -/
structure Gives (s : Session) (rs : List Reply) : Prop where
  outcomes : calls advance rs.length s = (delivered s.tracer.undelivered rs).1.map some
  kept : (s.after rs.length).tracer.undelivered = (delivered s.tracer.undelivered rs).2
  readings : (s.after rs.length).reader.readings = []

variable {s s' : Session} {x : Except PacketError Message}
  {xs ys : List (Except PacketError Message)}

/-- The outcomes of steps follow from the replies to their readings. -/
theorem delivered_replies (s : Session) (xs : List (Except PacketError Message)) :
    delivered s.tracer.undelivered (s.replies xs) =
      (s.outcomes xs, (s.through xs).tracer.undelivered) := by
  induction xs generalizing s with
  | nil => rfl
  | cons x xs ih =>
      have hstep := s.consume_eq x
      have hrest := ih (s.consume x).2
      rw [replies, Tracer.reply, outcomes]
      cases hx : s.tracer.failure? x with
      | none =>
          rw [hx] at hstep
          rw [hstep.2] at hrest
          rw [delivered, hrest, hstep.1]
          rfl
      | some e =>
          rw [hx] at hstep
          rw [hstep.2] at hrest
          rw [delivered, hrest, hstep.1]
          rfl

theorem consume_congr (h : s'.tracer = s.tracer) (x : Except PacketError Message) :
    (s'.consume x).1 = (s.consume x).1 ∧ (s'.consume x).2.tracer = (s.consume x).2.tracer := by
  have hstep := s.consume_eq x
  have hstep' := s'.consume_eq x
  rw [h] at hstep'
  cases hx : s.tracer.failure? x with
  | none =>
      rw [hx] at hstep hstep'
      exact ⟨hstep'.1.trans hstep.1.symm, hstep'.2.trans hstep.2.symm⟩
  | some e =>
      rw [hx] at hstep hstep'
      exact ⟨hstep'.1.trans hstep.1.symm, hstep'.2.trans hstep.2.symm⟩

theorem tracer_through (h : s'.tracer = s.tracer) (xs : List (Except PacketError Message)) :
    (s'.through xs).tracer = (s.through xs).tracer := by
  induction xs generalizing s s' with
  | nil => exact h
  | cons x xs ih => exact ih (consume_congr h x).2

/-! ## Steps with a part of the trace -/

theorem after_readings (hf : s.finished = false) (h : s.reader.readings = xs ++ ys) :
    calls advance xs.length s = (s.outcomes xs).map some ∧
      ∃ reader, reader.readings = ys ∧ s.after xs.length = { s.through xs with reader } := by
  induction xs generalizing s with
  | nil => exact ⟨rfl, s.reader, h, rfl⟩
  | cons x xs ih =>
      obtain ⟨reader, hn, hrest⟩ := Reader.next_of_readings h
      have hstep := advance_of_next hf hn
      obtain ⟨houtcomes, reader', hys, hafter⟩ :=
        ih (s := { (s.consume x).2 with reader }) (by simp [hf]) hrest
      rw [outcomes_reader] at houtcomes
      refine ⟨?_, reader', hys, ?_⟩
      · rw [List.length_cons, calls_of_eq hstep, houtcomes]
        rfl
      · rw [through_reader] at hafter
        rw [List.length_cons, after, Function.iterate_succ_apply, hstep]
        exact hafter

/-- The steps with what is left of the trace give what the replies to its readings tell. -/
theorem gives_replies (hf : s.finished = false) : s.Gives (s.replies s.reader.readings) := by
  have hlen : ∀ (s : Session) xs, (s.replies xs).length = xs.length := by
    intro s xs
    induction xs generalizing s with
    | nil => rfl
    | cons x xs ih => exact congrArg (· + 1) (ih _)
  obtain ⟨houtcomes, reader, hend, hafter⟩ :=
    after_readings hf (List.append_nil s.reader.readings).symm
  have hdelivered := s.delivered_replies s.reader.readings
  constructor
  · rw [hlen, hdelivered, houtcomes]
  · rw [hlen, hdelivered, hafter]
  · rw [hlen, hafter, hend]

end Session

end Retrace
