import Retrace.Proofs.Trace.Exits
import Retrace.Proofs.Trace.Sites

/-!
# Runs

What walks do as long as their budget lasts, as relations: `Runs` from an address to the next
instruction that the core parks at, `Coasts` from there on without a message. A walk that meets a
run or a coast passes exactly its instructions.
-/

namespace Retrace

open Isa

/-! ## Passing instructions -/

def Stop.halves (s : Stop) : Nat :=
  s.instruction.halves

def halvesOf (ss : List Stop) : Nat :=
  (ss.map Stop.halves).sum

theorem Stop.halves_pos (s : Stop) : 0 < s.halves := by
  obtain ⟨a, ⟨e, op⟩⟩ := s
  cases e <;> simp [Stop.halves, Instruction.halves, Instruction.size, Encoding.size]

@[simp]
theorem halvesOf_nil : halvesOf [] = 0 := rfl

@[simp]
theorem halvesOf_cons (s : Stop) (ss : List Stop) :
    halvesOf (s :: ss) = s.halves + halvesOf ss := by
  simp [halvesOf]

@[simp]
theorem halvesOf_append (ss ss' : List Stop) :
    halvesOf (ss ++ ss') = halvesOf ss + halvesOf ss' := by
  simp [halvesOf]

def Image.visitAt (image : Image) (s : Stop) : Visit :=
  .ofSite s.address ⟨s.instruction, image.lookup s.address⟩

def Terrain.stackAfterAll (t : Terrain) (ss : List Stop) (stack : ReturnStack) : ReturnStack :=
  ss.foldl (fun stack s => t.stackAfter s stack) stack

/-- The walk after visits of instructions of the image, with some cache. -/
def Walk.pass (w : Walk) (t : Terrain) (ss : List Stop) (cache : SiteCache) : Walk where
  retired := w.retired + halvesOf ss
  stack := t.stackAfterAll ss w.stack
  cache := cache
  visited := (ss.map t.image.visitAt).reverse ++ w.visited
  budget := w.budget - ss.length

theorem Walk.pass_nil (w : Walk) (t : Terrain) : w.pass t [] w.cache = w := rfl

theorem Walk.pass_append (w : Walk) (t : Terrain) (ss ss' : List Stop) (cache cache' : SiteCache) :
    (w.pass t ss cache).pass t ss' cache' = w.pass t (ss ++ ss') cache' := by
  simp only [pass, Terrain.stackAfterAll, halvesOf_append, List.foldl_append, List.map_append,
    List.reverse_append, List.append_assoc, List.length_append, Walk.mk.injEq, true_and]
  omega

variable {t : Terrain} {w : Walk} {stack : ReturnStack} {s p : Stop} {a : UInt64}
  {before ss : List Stop}

theorem Walk.visit_fetch (h : w.cache.Valid t.image) {i : Instruction}
    (hi : t.image.instructionAt a = .ok i) :
    ∃ cache, cache.Valid t.image ∧
      w.cache.fetch t.image a = (.ok ⟨i, t.image.lookup a⟩, cache) ∧
      { w with cache }.visit t a ⟨i, t.image.lookup a⟩ = w.pass t [⟨a, i⟩] cache := by
  obtain ⟨hf, hv⟩ := h.fetch a
  have hs : t.image.siteAt a = .ok ⟨i, t.image.lookup a⟩ := Image.siteAt_eq_ok.mpr ⟨hi, rfl⟩
  exact ⟨_, hv, Prod.ext (hf.trans hs) rfl, by
    simp [visit, pass, Terrain.stackAfterAll, Stop.halves, Image.visitAt]⟩

/-! ## Runs -/

/-- From the address, execution passes the instructions `before` and comes to one that only a
message leads on from. -/
inductive Runs (t : Terrain) : ReturnStack → UInt64 → List Stop → Stop → Prop
  | parks {stack : ReturnStack} {a : UInt64} {i : Instruction} :
      t.image.instructionAt a = .ok i → t.continuation? ⟨a, i⟩ stack = none →
      Runs t stack a [] ⟨a, i⟩
  | goes {stack : ReturnStack} {a : UInt64} {i : Instruction} {next : UInt64}
      {before : List Stop} {p : Stop} : t.image.instructionAt a = .ok i →
      t.continuation? ⟨a, i⟩ stack = some next →
      Runs t (t.stackAfter ⟨a, i⟩ stack) next before p → Runs t stack a (⟨a, i⟩ :: before) p

theorem Runs.unique {before' : List Stop} {p' : Stop} (h : Runs t stack a before p)
    (h' : Runs t stack a before' p') : before = before' ∧ p = p' := by
  induction h generalizing before' p' with
  | parks hi hc =>
      cases h' with
      | parks hi' _ => rw [hi] at hi'; cases hi'; exact ⟨rfl, rfl⟩
      | goes hi' hc' _ => rw [hi] at hi'; cases hi'; rw [hc] at hc'; cases hc'
  | goes hi hc _ ih =>
      cases h' with
      | parks hi' hc' => rw [hi] at hi'; cases hi'; rw [hc] at hc'; cases hc'
      | goes hi' hc' hr' =>
          rw [hi] at hi'; cases hi'
          rw [hc] at hc'; cases hc'
          obtain ⟨rfl, rfl⟩ := ih hr'
          exact ⟨rfl, rfl⟩

theorem Walk.run_of_runs (h : Runs t w.stack a before p) (hv : w.cache.Valid t.image)
    (hb : before.length < w.budget) :
    ∃ cache, cache.Valid t.image ∧ w.run t a = (.ok p, w.pass t (before ++ [p]) cache) := by
  generalize hst : w.stack = stack at h
  induction h generalizing w with
  | @parks _ a i hi hc =>
      subst hst
      obtain ⟨cache, hv', hf, hvis⟩ := visit_fetch hv hi
      refine ⟨cache, hv', ?_⟩
      rw [run, dif_neg (by omega)]
      simp only [hf, hvis, hc]
      rfl
  | @goes _ a i next before p hi hc _ ih =>
      subst hst
      obtain ⟨cache, hv', hf, hvis⟩ := visit_fetch hv hi
      simp only [List.length_cons] at hb
      obtain ⟨cache', hv'', hrun⟩ := ih (w := w.pass t [⟨a, i⟩] cache) hv'
        (by simp only [pass, List.length_singleton]; omega) rfl
      refine ⟨cache', hv'', ?_⟩
      rw [run, dif_neg (by omega)]
      simp only [hf, hvis, hc, hrun, pass_append]
      rfl

/-! ## Coasting -/

/-- From where a core is parked, it passes the instructions `ss` without a message and is parked at
the last of them, or where it was if there are none. -/
inductive Coasts (t : Terrain) : ReturnStack → Stop → List Stop → Stop → Prop
  | rests {stack : ReturnStack} {s : Stop} : Coasts t stack s [] s
  | goes {stack : ReturnStack} {s : Stop} {a : UInt64} {before : List Stop} {p : Stop}
      {ss : List Stop} {s' : Stop} : s.silent? = some a → Runs t stack (t.truncate a) before p →
      Coasts t (t.stackAfterAll (before ++ [p]) stack) p ss s' →
      Coasts t stack s (before ++ p :: ss) s'

theorem Walk.catchUp_eq (w : Walk) (t : Terrain) (count : Nat) (s : Stop) :
    w.catchUp t count s =
      if w.retired < count then
        match s.silent? with
        | none => (.ok s, w)
        | some a => (w.run t (t.truncate a)).andThen fun s w => w.catchUp t count s
      else (.ok s, w) := by
  rw [catchUp]
  split
  · cases s.silent? with
    | none => rfl
    | some a =>
        simp only
        split
        · rename_i h
          rw [h, Outcome.andThen]
        · rename_i h
          rw [h, Outcome.andThen]
  · rfl

theorem Walk.catchUp_of_coasts {count : Nat} (h : Coasts t w.stack s ss p)
    (hv : w.cache.Valid t.image) (hb : ss.length ≤ w.budget)
    (hc : w.retired + halvesOf ss = count) :
    ∃ cache, cache.Valid t.image ∧ w.catchUp t count s = (.ok p, w.pass t ss cache) := by
  generalize hst : w.stack = stack at h
  induction h generalizing w with
  | rests =>
      refine ⟨w.cache, hv, ?_⟩
      rw [catchUp_eq, if_neg (by simp at hc; omega), pass_nil]
  | @goes _ s a before p ss s' hs hr _ ih =>
      subst hst
      simp only [halvesOf_append, halvesOf_cons, List.length_append, List.length_cons] at hc hb
      -- Every run has an instruction, so the count is not reached before the last one.
      have hp := p.halves_pos
      obtain ⟨cache, hv', hrun⟩ := run_of_runs hr hv (by omega)
      obtain ⟨cache', hv'', hcatch⟩ := ih (w := w.pass t (before ++ [p]) cache) hv'
        (by simp only [pass, List.length_append, List.length_singleton]; omega)
        (by simp only [pass, halvesOf_append, halvesOf_cons, halvesOf_nil]; omega) rfl
      refine ⟨cache', hv'', ?_⟩
      rw [catchUp_eq, if_pos (by omega)]
      simp only [hs, hrun, Outcome.andThen, hcatch, pass_append]
      simp

/-- A count that ends where coasting leads is met. -/
theorem Walk.retire_of_coasts {count : Nat} (h : Coasts t w.stack s ss p)
    (hv : w.cache.Valid t.image) (hb : ss.length ≤ w.budget)
    (hc : w.retired + halvesOf ss = count) (hpos : 0 < count) :
    ∃ cache, cache.Valid t.image ∧ w.retire t count s = (.ok p, w.pass t ss cache) := by
  obtain ⟨cache, hv', hcatch⟩ := catchUp_of_coasts h hv hb hc
  refine ⟨cache, hv', ?_⟩
  rw [retire, if_neg (by omega), hcatch, Outcome.andThen]
  exact if_pos hc

end Retrace
