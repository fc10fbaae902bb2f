import Retrace.Session.Basic

/-!
# Replaying a trace

All steps of a session up to the end of its trace. A session ends, since each step that is not
the end leaves less to read or fewer records to give.
-/

namespace Retrace

namespace Session

/-- What is left to read and to give. -/
def remaining (s : Session) : (Nat × Nat) × Nat :=
  (s.reader.remaining, s.tracer.undelivered.length)

/-- Giving what is left at the end of the trace leaves less. -/
theorem remaining_of_leftover {s : Session} {reader : Reader} (h : s.reader.next = (none, reader))
    (hu : 0 < s.tracer.undelivered.length) :
    Prod.Lex (Prod.Lex (· < ·) (· < ·)) (· < ·) ({ s with reader }.succeed []).2.remaining
      s.remaining := by
  change Prod.Lex _ _ (reader.remaining, 0) (s.reader.remaining, _)
  rw [Reader.remaining_of_end h]
  rcases hr : s.reader.remaining with ⟨n, m⟩
  rcases Nat.eq_zero_or_pos n with rfl | hn
  · rcases Nat.eq_zero_or_pos m with rfl | hm
    · exact Prod.Lex.right _ hu
    · exact Prod.Lex.left _ _ (Prod.Lex.right _ hm)
  · exact Prod.Lex.left _ _ (Prod.Lex.left _ _ hn)

@[simp]
theorem reader_print (s : Session) (f : Fragment) : (s.print f).reader = s.reader := by
  unfold print
  split <;> rfl

@[simp]
theorem reader_reconstruct (s : Session) (m : Message) :
    (s.reconstruct m).2.reader = s.reader := by
  unfold reconstruct
  split <;> rfl

@[simp]
theorem reader_take (s : Session) (m : Message) : (s.take m).2.reader = s.reader := by
  unfold take
  split
  · exact reader_print (s.note m) _
  · exact reader_reconstruct (s.note m) m

@[simp]
theorem reader_skip (s : Session) (e : Wire.PacketError) : (s.skip e).reader = s.reader := by
  unfold skip
  split <;> rfl

theorem remaining_of_advance {s s' : Session} {result : Except Error (List Record)}
    (h : s.advance = (some result, s')) :
    Prod.Lex (Prod.Lex (· < ·) (· < ·)) (· < ·) s'.remaining s.remaining := by
  unfold advance at h
  split at h
  · simp at h
  · split at h
    · rename_i m reader hn
      obtain rfl : _ = s' := congrArg Prod.snd h
      refine Prod.Lex.left _ _ ?_
      rw [Prod.map_snd, id, reader_take]
      exact Reader.remaining_of_next hn
    · rename_i e reader hn
      obtain rfl : _ = s' := congrArg Prod.snd h
      refine Prod.Lex.left _ _ ?_
      rw [reader_skip]
      exact Reader.remaining_of_next hn
    · rename_i reader hn
      split at h
      · simp at h
      · rename_i hu
        obtain rfl : _ = s' := congrArg Prod.snd h
        exact remaining_of_leftover hn (List.length_pos_iff.2 (by simpa using hu))

/-- Takes all steps up to the end of the trace, from the result of each and the printed lines
that ended with it. -/
def fold {α : Type} (f : α → Except Error (List Record) → List PrintLine → α) (a : α)
    (s : Session) : α × Session :=
  match h : s.advance with
  | (none, s) => (a, s)
  | (some result, s') =>
    have := remaining_of_advance h
    fold f (f a result s'.takeLines.1) s'.takeLines.2
termination_by s.remaining
decreasing_by exact this

end Session

end Retrace
