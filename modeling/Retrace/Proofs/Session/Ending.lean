import Retrace.Proofs.Message.Volume
import Retrace.Proofs.Session.Calls
import Retrace.Proofs.Session.Replies

/-!
# The end of a session

A session takes one step for each reading, at most one for the records that are left then, and one
that tells the end. From then on it stays as it is.
-/

namespace Retrace

open Wire

namespace Session

/-- The step behind this number of others is the first that gives nothing. -/
structure EndsAt (s : Session) (k : Nat) : Prop where
  gives : ∀ i < k, (s.after i).advance.1 ≠ none
  running : (s.after k).finished = false
  ends : (s.after k).advance.1 = none

variable {s s' : Session} {k i : Nat} {reader : Reader}

theorem after_advance (s : Session) (n : Nat) : s.after (n + 1) = s.advance.2.after n :=
  Function.iterate_succ_apply _ n s

theorem after_succ (s : Session) (n : Nat) : s.after (n + 1) = (s.after n).advance.2 :=
  Function.iterate_succ_apply' _ n s

theorem after_lines (s : Session) (lines : List PrintLine) (n : Nat) :
    ∃ lines', after n { s with lines } = { s.after n with lines := lines' } := by
  induction n with
  | zero => exact ⟨lines, rfl⟩
  | succ n ih =>
      obtain ⟨lines', hafter⟩ := ih
      obtain ⟨lines', hadvance⟩ := (s.after n).advance_lines lines'
      exact ⟨lines', by rw [after_succ, after_succ, hafter, hadvance]⟩

/-- Taking lines between the steps makes no difference but to the lines. -/
theorem performAll_eq (s : Session) (calls : List Call) :
    ∃ lines, s.performAll calls = { s.after (calls.count .advance) with lines } := by
  induction calls generalizing s with
  | nil => exact ⟨s.lines, rfl⟩
  | cons c cs ih =>
      obtain ⟨lines, hrest⟩ := ih (s.perform c)
      cases c with
      | advance =>
          rw [List.count_cons_self, after_advance]
          exact ⟨lines, hrest⟩
      | takeLines =>
          obtain ⟨lines', hafter⟩ := s.after_lines [] (cs.count .advance)
          rw [List.count_cons_of_ne (by decide)]
          exact ⟨lines, hrest.trans (congrArg (fun s => { s with lines }) hafter)⟩

/-! ## The number of steps -/

namespace EndsAt

theorem of_end (hf : s.finished = false) (h : s.advance.1 = none) : s.EndsAt 0 :=
  ⟨fun _ hi => absurd hi (Nat.not_lt_zero _), hf, h⟩

theorem of_step (h : s.advance.1 ≠ none) (hrest : s.advance.2.EndsAt k) : s.EndsAt (k + 1) where
  gives i hi := by
    cases i with
    | zero => exact h
    | succ i =>
        rw [after_advance]
        exact hrest.gives i (Nat.lt_of_succ_lt_succ hi)
  running := by
    rw [after_advance]
    exact hrest.running
  ends := by
    rw [after_advance]
    exact hrest.ends

end EndsAt

theorem endsAt_of_no_readings (hf : s.finished = false) (hr : s.reader.readings = []) :
    ∃ k ≤ 1, s.EndsAt k := by
  obtain ⟨reader, hn⟩ := Reader.next_of_no_readings hr
  by_cases hu : s.tracer.undelivered = []
  · exact ⟨0, Nat.zero_le _, .of_end hf (by rw [advance_of_end hf hn hu])⟩
  · -- There is still nothing to read, and now nothing is kept.
    obtain ⟨reader', hn'⟩ := Reader.next_of_no_readings (Reader.readings_at_end hn)
    have hstep := advance_of_leftover hf hn hu
    refine ⟨1, Nat.le_refl _, .of_step (by rw [hstep]; exact nofun) ?_⟩
    rw [hstep]
    exact .of_end hf (by rw [advance_of_end (by exact hf) hn' rfl])

theorem endsAt (hf : s.finished = false) : ∃ k ≤ s.reader.readings.length + 1, s.EndsAt k := by
  induction hr : s.reader.readings generalizing s with
  | nil => exact endsAt_of_no_readings hf hr
  | cons x xs ih =>
      obtain ⟨reader, hn, hrest⟩ := Reader.next_of_readings hr
      have hstep := advance_of_next hf hn
      obtain ⟨k, hk, hends⟩ := ih (s := { (s.consume x).2 with reader }) (by simp [hf]) hrest
      exact ⟨k + 1, Nat.succ_le_succ hk, .of_step (by rw [hstep]; exact nofun) (by rwa [hstep])⟩

/-! ## What comes behind -/

namespace EndsAt

theorem finished_after (h : s.EndsAt k) (hi : k < i) : (s.after i).finished = true := by
  induction hi with
  | refl =>
      rw [after_succ]
      exact finished_of_end h.ends
  | step _ ih => rwa [after_succ, advance_of_finished ih]

theorem ends_iff (h : s.EndsAt k) (i : Nat) : (s.after i).advance.1 = none ↔ k ≤ i := by
  constructor
  · intro hend
    by_contra hlt
    exact h.gives i (Nat.lt_of_not_le hlt) hend
  · intro hle
    rcases Nat.eq_or_lt_of_le hle with rfl | hlt
    · exact h.ends
    · rw [advance_of_finished (h.finished_after hlt)]

end EndsAt

/-! ## The message of the end -/

theorem count_end_of_gives (hm : s.statistics.messages.Ascending) (h : s.advance.1 ≠ none) :
    s.advance.2.statistics.messages.count .endOfTrace =
      s.statistics.messages.count .endOfTrace := by
  rcases advance_counts hm with ⟨x, -, -, hcounts⟩ | hout | ⟨hend, -⟩
  · have hcount := hcounts (.message .endOfTrace)
    rwa [if_neg (ofReading_ne_end x).symm] at hcount
  · exact congrFun hout.counted (.message .endOfTrace)
  · exact absurd hend h

theorem count_end_of_ends (hm : s.statistics.messages.Ascending) (hf : s.finished = false)
    (h : s.advance.1 = none) :
    s.advance.2.statistics.messages.count .endOfTrace =
      s.statistics.messages.count .endOfTrace + 1 := by
  rcases advance_counts hm with ⟨x, -, hgives, -⟩ | hout | ⟨-, hcounts⟩
  · rw [hgives] at h
    cases h
  · rw [hout.outcome] at h
    cases h
  · have hcount := hcounts hf (.message .endOfTrace)
    rwa [if_pos rfl] at hcount

theorem EndsAt.count_end (h : s.EndsAt k) (hm : s.statistics.messages.Ascending)
    (hnone : s.statistics.messages.count .endOfTrace = 0) (i : Nat) :
    (s.after i).statistics.messages.Ascending ∧
      (s.after i).statistics.messages.count .endOfTrace = if i ≤ k then 0 else 1 := by
  induction i with
  | zero => exact ⟨hm, by rw [if_pos (Nat.zero_le k)]; exact hnone⟩
  | succ i ih =>
      obtain ⟨hm, hcount⟩ := ih
      rw [after_succ]
      refine ⟨ascending_advance hm, ?_⟩
      rcases Nat.lt_trichotomy i k with hlt | rfl | hlt
      · rw [count_end_of_gives hm (h.gives i hlt), hcount, if_pos hlt.le,
          if_pos (Nat.succ_le_of_lt hlt)]
      · rw [count_end_of_ends hm h.running h.ends, hcount, if_pos (Nat.le_refl i),
          if_neg (Nat.not_succ_le_self i)]
      · rw [advance_of_finished (h.finished_after hlt), hcount, if_neg (Nat.not_le.mpr hlt),
          if_neg (Nat.not_le.mpr (Nat.lt_succ_of_lt hlt))]

/-! ## Traces -/

/-- At most 64 steps for each byte of a trace, one for records that are left and one for the end:
every session ends, whenever lines are taken from it. From then on steps leave it as it is, and it
has counted its end once. -/
theorem sessions_end (image : Image) (c : Configuration) (trace : List UInt8)
    (hc : c.invalid? = none) :
    ∃ s k, start image trace c = .ok s ∧ k < 64 * trace.length + 2 ∧ ∀ calls : List Call,
      let s' := s.performAll calls
      let n := calls.count .advance
      (s'.advance.1 = none ↔ k ≤ n) ∧ (k < n → s'.advance = (none, s')) ∧
      s'.statistics.messages.count .endOfTrace = if n ≤ k then 0 else 1 := by
  obtain ⟨s, hs, -, hreader, -, -, -, hf⟩ := start_of_valid image trace hc
  obtain ⟨k, hk, hends⟩ := endsAt hf
  refine ⟨s, k, hs, ?_, fun calls => ?_⟩
  · have hreadings := Reader.length_readings c.readerOptions trace
    rw [hreader] at hk
    omega
  · obtain ⟨lines, hafter⟩ := s.performAll_eq calls
    obtain ⟨lines', hadvance⟩ := (s.after (calls.count .advance)).advance_lines lines
    have hstatistics := statistics_of_start hs
    simp only [hafter, hadvance]
    refine ⟨hends.ends_iff _, fun hlt => ?_, (hends.count_end ?_ ?_ _).2⟩
    · rw [← hadvance]
      exact advance_of_finished (hends.finished_after hlt)
    · rw [hstatistics]
      exact .nil
    · rw [hstatistics]
      rfl

/-- A session whose only message leads past its limit ends behind what that has left. -/
theorem ends_behind_limit :
    let c : Configuration := { maxRun := 1 }
    let trace := transmit 0 [(0, ⟨.sync, 0, [0, 0, 0x800]⟩)]
    ∃ s k, start callAndReturn trace c = .ok s ∧ k < 64 * trace.length + 2 ∧
      ∀ calls : List Call, (s.performAll calls).advance.1 = none ↔ k ≤ calls.count .advance := by
  intro c trace
  obtain ⟨s, k, hs, hk, hcalls⟩ := sessions_end callAndReturn c trace rfl
  exact ⟨s, k, hs, hk, fun calls => (hcalls calls).1⟩

end Session

end Retrace
