import Mathlib.Order.Nat
import Retrace.Proofs.Trace.Independence
import Retrace.Proofs.Trace.Requests

/-!
# The work for a message

Walks take turns: they look at one instruction after the other, and go on from where they are parked
as long as a count is not reached. The code may lead around for ever and the count may be as large
as it likes, but every other turn uses up some of the budget of the message.
-/

namespace Retrace

/-- Where a walk stands: it is about to visit an address, it is parked, or it cannot go on. -/
inductive Stand where
  | before (address : UInt64) (w : Walk)
  | parked (s : Stop) (w : Walk)
  | stuck (e : Disagreement) (w : Walk)

namespace Stand

def ofOutcome : Outcome → Stand
  | (.ok s, w) => parked s w
  | (.error e, w) => stuck e w

/-- What one turn leads to. At the end there is none. -/
def turn? (t : Terrain) (count : Nat) : Stand → Option Stand
  | before a w =>
    if w.budget = 0 then some (stuck ⟨a, .conflict (.runLimit t.maxRun)⟩ w)
    else
      match w.cache.fetch t.image a with
      | (.error obstacle, cache) => some (stuck ⟨a, obstacle⟩ { w with cache })
      | (.ok site, cache) =>
        let visited := { w with cache }.visit t a site
        match t.continuation? ⟨a, site.instruction⟩ w.stack with
        | some next => some (before next visited)
        | none => some (parked ⟨a, site.instruction⟩ visited)
  | parked s w =>
    if w.retired < count then s.silent?.map fun a => before (t.truncate a) w else none
  | stuck .. => none

/-- So many turns lead from one stand to the other. -/
inductive Turns (t : Terrain) (count : Nat) : Nat → Stand → Stand → Prop
  | none (p : Stand) : Turns t count 0 p p
  | more {n : Nat} {p p' p'' : Stand} : p.turn? t count = some p' → Turns t count n p' p'' →
      Turns t count (n + 1) p p''

/-- After so many turns there is no other one, and this is what they give. -/
def Ends (t : Terrain) (count n : Nat) (p : Stand) (o : Outcome) : Prop :=
  Turns t count n p (ofOutcome o) ∧ (ofOutcome o).turn? t count = none

/-- How many turns there may still be. -/
def patience : Stand → Nat
  | before _ w => 2 * w.budget + 1
  | parked _ w => 2 * w.budget + 2
  | stuck .. => 0

variable {t : Terrain} {count n n' : Nat} {p p' p'' : Stand} {w : Walk} {a : UInt64}
  {site : Site} {cache : SiteCache}

/-! ## Turns -/

theorem turn?_of_budget (h : w.budget = 0) :
    (before a w).turn? t count = some (ofOutcome (w.conflict a (.runLimit t.maxRun))) := by
  simp only [turn?, h, if_true]
  rfl

theorem turn?_of_obstacle {obstacle : Obstacle} (hb : w.budget ≠ 0)
    (hf : w.cache.fetch t.image a = (.error obstacle, cache)) :
    (before a w).turn? t count = some (stuck ⟨a, obstacle⟩ { w with cache }) := by
  simp only [turn?, hb, if_false, hf]

theorem turn?_of_site (hb : w.budget ≠ 0) (hf : w.cache.fetch t.image a = (.ok site, cache)) :
    (before a w).turn? t count =
      let visited := { w with cache }.visit t a site
      some ((t.continuation? ⟨a, site.instruction⟩ w.stack).elim
        (parked ⟨a, site.instruction⟩ visited) (before · visited)) := by
  simp only [turn?, hb, if_false, hf]
  cases t.continuation? ⟨a, site.instruction⟩ w.stack <;> rfl

/-- A visit uses up some of the budget, and a walk that is parked goes on to a visit. -/
theorem patience_turn? (h : p.turn? t count = some p') : p'.patience < p.patience := by
  cases p with
  | stuck e w => cases h
  | parked s w =>
      simp only [turn?] at h
      split at h
      · obtain ⟨a, -, rfl⟩ := Option.map_eq_some_iff.mp h
        simp only [patience]
        omega
      · cases h
  | before a w =>
      by_cases hb : w.budget = 0
      · rw [turn?_of_budget hb, Option.some.injEq] at h
        rw [← h]
        exact Nat.succ_pos _
      · cases hf : w.cache.fetch t.image a with
        | mk r cache =>
            cases r with
            | error obstacle =>
                rw [turn?_of_obstacle hb hf, Option.some.injEq] at h
                rw [← h]
                exact Nat.succ_pos _
            | ok site =>
                rw [turn?_of_site hb hf, Option.some.injEq] at h
                rw [← h]
                cases t.continuation? ⟨a, site.instruction⟩ w.stack with
                | none =>
                    simp only [Option.elim_none, patience, Walk.visit]
                    omega
                | some next =>
                    simp only [Option.elim_some, patience, Walk.visit]
                    omega

theorem Turns.patience_le (h : Turns t count n p p') : n + p'.patience ≤ p.patience := by
  induction h with
  | none => exact Nat.le_of_eq (Nat.zero_add _)
  | more hturn _ ih =>
      have hless := patience_turn? hturn
      omega

theorem Turns.trans (h : Turns t count n p p') (h' : Turns t count n' p' p'') :
    Turns t count (n + n') p p'' := by
  induction h with
  | none => rwa [Nat.zero_add]
  | more hturn _ ih =>
      rw [Nat.add_right_comm]
      exact .more hturn (ih h')

/-! ## The turns of a run and of a count -/

theorem turns_run (w : Walk) (t : Terrain) (count : Nat) (a : UInt64) :
    ∃ n, Turns t count n (before a w) (ofOutcome (w.run t a)) := by
  fun_induction Walk.run w t a with
  | case1 w a hb => exact ⟨1, .more (turn?_of_budget hb) (.none _)⟩
  | case2 w a hb obstacle cache hf => exact ⟨1, .more (turn?_of_obstacle hb hf) (.none _)⟩
  | case3 w a hb site cache hf s visited next hn ih =>
      obtain ⟨n, hrest⟩ := ih
      refine ⟨n + 1, .more (turn?_of_site hb hf) ?_⟩
      rw [hn]
      exact hrest
  | case4 w a hb site cache hf s visited hn =>
      refine ⟨1, .more (turn?_of_site hb hf) ?_⟩
      rw [hn]
      exact .none _

/-- Without a count, the turns are over where a run ends. -/
theorem ends_run (w : Walk) (t : Terrain) (a : UInt64) :
    ∃ n ≤ 2 * w.budget + 1, Ends t 0 n (before a w) (w.run t a) := by
  obtain ⟨n, hturns⟩ := turns_run w t 0 a
  refine ⟨n, (Nat.le_add_right _ _).trans hturns.patience_le, hturns, ?_⟩
  cases w.run t a with
  | mk r w' => cases r <;> rfl

theorem turns_catchUp (w : Walk) (t : Terrain) (count : Nat) (s : Stop) :
    ∃ n, Ends t count n (parked s w) (w.catchUp t count s) := by
  fun_induction Walk.catchUp w t count s with
  | case1 w s hlt hs => exact ⟨0, .none _, by simp [ofOutcome, turn?, hs]⟩
  | case2 w s hlt a hs e w' hrun =>
      obtain ⟨n, hturns⟩ := turns_run w t count (t.truncate a)
      rw [hrun] at hturns
      exact ⟨n + 1, .more (by simp [turn?, hlt, hs]) hturns, rfl⟩
  | case3 w s hlt a hs s' w' hrun hb ih =>
      obtain ⟨n, hturns⟩ := turns_run w t count (t.truncate a)
      obtain ⟨n', hrest, hend⟩ := ih
      rw [hrun] at hturns
      exact ⟨n + n' + 1, .more (by simp [turn?, hlt, hs]) (hturns.trans hrest), hend⟩
  | case4 w s hlt => exact ⟨0, .none _, by simp [ofOutcome, turn?, hlt]⟩

theorem ends_catchUp (w : Walk) (t : Terrain) (count : Nat) (s : Stop) :
    ∃ n ≤ 2 * w.budget + 2, Ends t count n (parked s w) (w.catchUp t count s) := by
  obtain ⟨n, hends⟩ := turns_catchUp w t count s
  exact ⟨n, (Nat.le_add_right _ _).trans hends.1.patience_le, hends⟩

end Stand

/-! ## Records -/

theorem Core.length_visits_step (c : Core) (t : Terrain) (cache : SiteCache) (payload : Payload) :
    (c.step t cache payload).visits.length ≤ t.maxRun := by
  by_cases hp : ∃ code, payload = .error code
  · obtain ⟨code, rfl⟩ := hp
    exact Nat.zero_le _
  · have hp : ∀ code, payload ≠ .error code := fun code hcode => hp ⟨code, hcode⟩
    cases ho : c.outcome? t cache payload with
    | none =>
        rw [step_of_none ho hp]
        exact Nat.zero_le _
    | some o =>
        have hkept := outcome?_keeps (Walk.kept_budget t t.maxRun) (Nat.zero_add t.maxRun) ho
        rw [step_of_some ho hp, Effect.visits_ofOutcome, List.length_reverse]
        omega

namespace Tracer

theorem length_reconstructed (t : Tracer) (m : Message) :
    (t.reconstructed m).length ≤ t.options.maxRun := by
  cases hs : t.selects m.core with
  | false =>
      rw [reconstructed_of_not_selects hs]
      exact Nat.zero_le _
  | true =>
      rw [reconstructed_of_selects hs, List.length_map]
      exact (t.core m.core).length_visits_step t.terrain t.cache m.payload

/-- However the code leads around, and however great the count, the turns for a message are over
after a number that its limit determines: those up to the end of the count from any place that its
core may be parked at, and those of the run behind it. A message leads to no more records than the
limit, whether it gives them or fails and they are kept; if it fails, no other core changes. -/
theorem work_is_bounded (t : Tracer) (m : Message) :
    let limit := t.options.maxRun
    let w := (t.core m.core).walk t.terrain t.cache
    (∀ s, ∃ n ≤ 2 * limit + 2,
      Stand.Ends t.terrain m.count n (.parked s w) (w.catchUp t.terrain m.count s)) ∧
    (∀ w' : Walk, w'.budget ≤ limit → ∀ a, ∃ n ≤ 2 * limit + 1,
      Stand.Ends t.terrain 0 n (.before a w') (w'.run t.terrain a)) ∧
    match t.process m with
    | (.ok records, t') => records.length ≤ limit ∧ t'.undelivered = t.undelivered
    | (.error _, t') => (∃ records, records.length ≤ limit ∧
        t'.undelivered = t.undelivered ++ records) ∧
        ∀ id, id ≠ m.core → t'.cores[id]? = t.cores[id]? := by
  intro limit w
  refine ⟨fun s => Stand.ends_catchUp w t.terrain m.count s, fun w' hw' a => ?_, ?_⟩
  · obtain ⟨n, hn, hends⟩ := Stand.ends_run w' t.terrain a
    exact ⟨n, by omega, hends⟩
  · have hlength := t.length_reconstructed m
    have hkept := t.process_undelivered m
    have hcores (id : UInt16) (hid : id ≠ m.core) := cores_process_of_ne (t := t) (Ne.symm hid)
    cases hp : t.process m with
    | mk r t' =>
        rw [hp] at hkept hcores
        cases r with
        | ok records =>
            obtain ⟨rfl, hundelivered⟩ := hkept
            exact ⟨hlength, hundelivered⟩
        | error e => exact ⟨⟨_, hlength, hkept⟩, hcores⟩

end Tracer

end Retrace
