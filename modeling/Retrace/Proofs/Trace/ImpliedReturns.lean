import Mathlib.Data.Nat.SuccPred
import Retrace.Proofs.Trace.Completeness

/-!
# Returns that are not reported

A return that goes back to the latest return address need not be reported. A tracer that knows as
many return addresses leads along the same path without these reports as one that knows none does
with all of them. What comes behind the path need not be the same: a run from the target of the
exception that closes it passes the returns that only one of them has to be told of.
-/

namespace Retrace

open Isa

/-- With so many visits left, a run from the address visits the instructions. Then it is parked at
the last of them, or it cannot go on. -/
inductive Proceeds (t : Terrain) :
    Nat → ReturnStack → UInt64 → List Stop → Option Disagreement → Prop
  | spent {stack : ReturnStack} {a : UInt64} :
      Proceeds t 0 stack a [] (some ⟨a, .conflict (.runLimit t.maxRun)⟩)
  | blocked {n : Nat} {stack : ReturnStack} {a : UInt64} {o : Obstacle} :
      t.image.instructionAt a = .error o → Proceeds t (n + 1) stack a [] (some ⟨a, o⟩)
  | parks {n : Nat} {stack : ReturnStack} {a : UInt64} {i : Instruction} :
      t.image.instructionAt a = .ok i → t.continuation? ⟨a, i⟩ stack = none →
      Proceeds t (n + 1) stack a [⟨a, i⟩] none
  | goes {n : Nat} {stack : ReturnStack} {a next : UInt64} {i : Instruction} {ss : List Stop}
      {r : Option Disagreement} : t.image.instructionAt a = .ok i →
      t.continuation? ⟨a, i⟩ stack = some next →
      Proceeds t n (t.stackAfter ⟨a, i⟩ stack) next ss r →
      Proceeds t (n + 1) stack a (⟨a, i⟩ :: ss) r

/-- Why a tracer has no records of a message. -/
def Tracer.refusal? (t : Tracer) (m : Message) : Option Disagreement :=
  match (t.process m).1 with
  | .ok _ => none
  | .error e => some e

/-- The messages are accepted and lead along the path, and the count of the exception `m` behind
them ends where the path does. Whatever else comes of the exception is the run from its target with
the return addresses of the path. -/
structure Tracer.Closes (T : Terrain) (t : Tracer) (ms : List Message) (m : Message)
    (path : List Stop) (stack : ReturnStack) (target : UInt64) : Prop where
  accepts : t.Accepts ms
  counted : ∀ e ∈ (t.feed ms).refusal? m, ∀ count retired,
    e.obstacle ≠ .conflict (.countMismatch count retired)
  proceeds : ∃ n ss, T.maxRun ≤ n + path.length ∧
    Proceeds T n (T.stackAfterAll path stack) (T.truncate target) ss ((t.feed ms).refusal? m) ∧
    (t.records (ms ++ [m])).map (·.stop) = path ++ ss

/-- A path that obeys as many return addresses as the options have, the messages that report it
without return addresses, and those that report it with them, which lack the implied returns. An
exception closes the path. -/
structure Reported (image : Image) (options : TracerOptions) (id : UInt16) (address target : UInt64)
    (count depth : Nat) (steps : List (Stop × Exit)) (last : Stop) (ms ms' : List Message)
    (m m' : Message) : Prop where
  selected : options.coreMask.contains id.toNat = true
  depth_eq : min options.returnStack maxReturnStack = depth
  path : Path image (image.base.truncate address) steps last
  parks : Parks image.base last
  obeys : Obeys image.base depth [] steps
  unknown : last.implied? ((stopsOf steps).foldl (returnsAfter image.base depth) []) = none
  bounded : steps.length < options.maxRun
  core : ∀ x ∈ m :: m' :: (ms ++ ms'), x.core = id
  reports : ms.map (·.payload) = .sync address count :: counted 0 steps
  reports' : ms'.map (·.payload) =
    .sync address count :: counted 0 (implying image.base depth [] steps)
  closes : m.payload = .exception target (sinceReport 0 steps + last.halves)
  closes' : m'.payload =
    .exception target (sinceReport 0 (implying image.base depth [] steps) + last.halves)

variable {T : Terrain} {w : Walk} {stack : ReturnStack} {a : UInt64} {n : Nat} {ss : List Stop}
  {r : Option Disagreement}

/-! ## Runs that may fail -/

/-- What is visited and why a run fails do not depend on the cache. -/
theorem Walk.proceeds_run (hv : w.cache.Valid T.image) :
    ∃ ss, Proceeds T w.budget w.stack a ss (Effect.ofOutcome (w.run T a)).failure? ∧
      (w.run T a).2.visited = (ss.map T.image.visitAt).reverse ++ w.visited := by
  fun_induction Walk.run w T a with
  | case1 w a hb =>
      rw [hb]
      exact ⟨[], .spent, rfl⟩
  | case2 w a hb o cache hf =>
      obtain ⟨n, hn⟩ := Nat.exists_eq_succ_of_ne_zero hb
      have hsite : T.image.siteAt a = .error o := by rw [← (hv.fetch a).1, hf]
      rw [hn]
      refine ⟨[], .blocked ?_, rfl⟩
      unfold Image.siteAt at hsite
      split at hsite
      · cases hsite
      · cases hsite
        assumption
  | case3 w a hb site cache hf s visited next hnext ih =>
      obtain ⟨n, hn⟩ := Nat.exists_eq_succ_of_ne_zero hb
      have hfetch := hv.fetch a
      rw [hf] at hfetch
      obtain ⟨hi, hlookup⟩ := Image.siteAt_eq_ok.mp hfetch.1.symm
      obtain ⟨ss, hproceeds, hvisited⟩ := ih hfetch.2
      have hbudget : visited.budget = n := by
        change w.budget - 1 = n
        omega
      rw [hbudget] at hproceeds
      rw [hn]
      refine ⟨s :: ss, .goes hi hnext hproceeds, hvisited.trans ?_⟩
      simp [visited, visit, s, Image.visitAt, ← hlookup]
  | case4 w a hb site cache hf s visited hnext =>
      obtain ⟨n, hn⟩ := Nat.exists_eq_succ_of_ne_zero hb
      have hfetch := hv.fetch a
      rw [hf] at hfetch
      obtain ⟨hi, hlookup⟩ := Image.siteAt_eq_ok.mp hfetch.1.symm
      rw [hn]
      refine ⟨[s], .parks hi hnext, ?_⟩
      simp [visited, visit, s, Image.visitAt, ← hlookup]

theorem instructionAt_ne_conflict {image : Image} {c : TraceConflict} :
    image.instructionAt a ≠ .error (.conflict c) := by
  unfold Image.instructionAt
  simp only
  split
  · simp
  · split <;> simp

/-- A run does not fail because of a count. -/
theorem Proceeds.counted (h : Proceeds T n stack a ss r) :
    ∀ e ∈ r, ∀ count retired, e.obstacle ≠ .conflict (.countMismatch count retired) := by
  induction h with
  | spent => rintro e ⟨⟩ count retired ⟨⟩
  | blocked hi =>
      rintro e ⟨⟩ count retired rfl
      exact instructionAt_ne_conflict hi
  | parks => rintro e ⟨⟩
  | goes _ _ _ ih => exact ih

namespace Tracer

variable {t : Tracer} {m : Message} {depth : Nat}

theorem refusal?_of_selects (h : t.selects m.core = true) :
    t.refusal? m = (t.effect m).failure? := by
  simp only [refusal?, process_of_selects h]
  cases (t.effect m).failure? <;> rfl

theorem records_append (ms : List Message) (m : Message) :
    t.records (ms ++ [m]) = t.records ms ++ (t.feed ms).reconstructed m := by
  induction ms generalizing t with
  | nil => simp [records, feed]
  | cons x ms ih => rw [List.cons_append, records, ih, records, List.append_assoc]; rfl

theorem accepts_append (ms : List Message) (m : Message) :
    t.Accepts (ms ++ [m]) ↔ t.Accepts ms ∧ ∃ records, ((t.feed ms).process m).1 = .ok records := by
  induction ms generalizing t with
  | nil => simp [Accepts, feed]
  | cons x ms ih => rw [List.cons_append, Accepts, ih, Accepts, and_assoc]; rfl

/-- An exception whose count covers the rest of the way is a run from its target. -/
theorem Nears.proceeds {passed all : List Stop} {last : Stop} {count : Nat}
    (h : t.Nears T m.core passed count all last stack) (hm : m.payload = .exception a count)
    (hb : all.length ≤ T.maxRun) :
    ∃ n ss, T.maxRun ≤ n + all.length ∧
      Proceeds T n (T.stackAfterAll all stack) (T.truncate a) ss (t.refusal? m) ∧
      passed ++ (t.reconstructed m).map (·.stop) = all ++ ss := by
  obtain ⟨p, k, rest, hp, hk, hcoasts, rfl, rfl⟩ := h
  rw [List.length_append] at hb
  have hrest : rest.length ≤ T.maxRun := by omega
  have hcount : 0 < k + halvesOf rest := by omega
  -- The count covers the coast that is left, and behind it the walk starts from the target.
  obtain ⟨cache, hv, hret⟩ := Walk.retire_of_coasts
    (w := ⟨k, T.stackAfterAll passed stack, t.cache, [], T.maxRun⟩)
    hcoasts hp.sites hrest rfl hcount
  let w : Walk := ⟨0, T.stackAfterAll rest (T.stackAfterAll passed stack), cache,
    (rest.map T.image.visitAt).reverse, T.maxRun - rest.length⟩
  have ho : (Walk.mk k (T.stackAfterAll passed stack) t.cache [] T.maxRun).follow T p m.payload =
      some (w.run T (T.truncate a)) := by
    simp only [hm, Walk.follow, hret, Outcome.andThen, Walk.restart, Walk.pass, List.append_nil, w]
  obtain ⟨ss, hproceeds, hvisited⟩ := Walk.proceeds_run (w := w) (a := T.truncate a) hv
  refine ⟨w.budget, ss, ?_, ?_, ?_⟩
  · rw [List.length_append]
    change T.maxRun ≤ T.maxRun - rest.length + _
    omega
  · rw [refusal?_of_selects hp.selects, hp.effect_eq ho, Terrain.stackAfterAll_append]
    exact hproceeds
  · rw [reconstructed_of_selects hp.selects, hp.effect_eq ho, Effect.visits_ofOutcome, hvisited]
    simp only [w, List.reverse_append, List.reverse_reverse, List.map_append, List.map_map,
      List.append_assoc]
    exact congrArg (passed ++ ·) (congrArg₂ (· ++ ·) (List.map_id rest) (List.map_id ss))

/-- The reports of a path that obeys the return addresses lead a tracer that knows them along it. -/
theorem follows_obeying (image : Image) (options : TracerOptions) (slots : Nat) {id : UInt16}
    {address : UInt64} {count : Nat} {steps : List (Stop × Exit)} {last : Stop} {ms : List Message}
    (hmask : options.coreMask.contains id.toNat = true)
    (hpath : Path image (image.base.truncate address) steps last) (hlast : Parks image.base last)
    (hrun : steps.length < options.maxRun)
    (hdepth : min options.returnStack maxReturnStack = depth)
    (hobeys : Obeys image.base depth [] steps)
    (hfound : last.implied? ((stopsOf steps).foldl (returnsAfter image.base depth) []) = none)
    (hid : ∀ m ∈ ms, m.core = id)
    (hms : ms.map (·.payload) =
      .sync address count :: counted 0 (implying image.base depth [] steps)) :
    let t := start image options (.empty slots)
    t.Accepts ms ∧
      (t.feed ms).Nears ⟨image, options.maxRun⟩ id ((t.records ms).map (·.stop))
        (sinceReport 0 (implying image.base depth [] steps) + last.halves)
        (stopsOf steps ++ [last]) last (.empty depth) := by
  intro t
  let T : Terrain := ⟨image, options.maxRun⟩
  have hway : Way T (.empty depth) (T.truncate address) (implying image.base depth [] steps) last :=
    Path.way_of_obeys (T := T) (.empty depth) hpath rfl hobeys hlast hfound
  obtain ⟨before, p, after, hr, heq⟩ := hway.runs
  have hlen := length_of_stops heq
  rw [length_implying] at hlen
  obtain ⟨m, ms, rfl, hm, hms⟩ := List.map_eq_cons_iff.mp hms
  obtain rfl := hid m List.mem_cons_self
  have hcore : t.core m.core = .start depth := hdepth ▸ Std.TreeMap.getD_emptyc
  obtain ⟨hok, hrec, hnext⟩ := reaches_sync (t := t) (T := T) rfl hmask hcore
    (SiteCache.valid_empty image slots) hm hr (Nat.lt_of_le_of_lt (by omega) hrun)
  obtain ⟨haccepts, -, hnears⟩ := hnext.follows_way hr
    (show Way T _ _ ([] ++ implying image.base depth [] steps) last from hway) silent_nil
    (by simpa using hrun) (fun m hm => hid m (List.mem_cons_of_mem _ hm)) hms
  refine ⟨⟨hok, haccepts⟩, ?_⟩
  rw [records, List.map_append, hrec]
  rwa [List.nil_append, stopsOf_implying] at hnears

theorem Nears.closes {ms : List Message} {path : List Stop} {last : Stop} {count : Nat}
    (haccepts : t.Accepts ms)
    (h : (t.feed ms).Nears T m.core ((t.records ms).map (·.stop)) count path last stack)
    (hm : m.payload = .exception a count) (hb : path.length ≤ T.maxRun) :
    t.Closes T ms m path stack a := by
  obtain ⟨n, ss, hn, hproceeds, hstops⟩ := h.proceeds hm hb
  exact ⟨haccepts, hproceeds.counted, n, ss, hn, hproceeds,
    by rw [records_append, List.map_append, hstops]⟩

end Tracer

namespace Tracer

variable {image : Image} {options : TracerOptions} {id : UInt16} {address target : UInt64}
  {count depth : Nat} {steps : List (Stop × Exit)} {last : Stop} {ms ms' : List Message}
  {m m' : Message}

/-- Of a path that obeys the return addresses which a tracer knows, the reports without those of
implied returns lead along the same instructions as all reports do without return addresses, and the
count of the exception behind them is met. What follows is the run from its target, which the return
addresses are part of; if it is the same one with and without them, then so are all records. -/
theorem implied_returns_agree (slots : Nat)
    (h : Reported image options id address target count depth steps last ms ms' m m') :
    let T : Terrain := ⟨image, options.maxRun⟩
    let t := start image { options with returnStack := 0 } (.empty slots)
    let t' := start image options (.empty slots)
    let path := stopsOf steps ++ [last]
    t.Closes T ms m path (.empty 0) target ∧ t'.Closes T ms' m' path (.empty depth) target ∧
      ∀ before p, Runs T (.empty 0) (T.truncate target) before p →
        Runs T (T.stackAfterAll path (.empty depth)) (T.truncate target) before p →
        path.length + before.length < options.maxRun →
        t.Accepts (ms ++ [m]) ∧ t'.Accepts (ms' ++ [m']) ∧
          (t.records (ms ++ [m])).map (·.stop) = path ++ (before ++ [p]) ∧
          (t'.records (ms' ++ [m'])).map (·.stop) = path ++ (before ++ [p]) := by
  intro T t t' path
  obtain ⟨hcore, hcore', hid⟩ : m.core = id ∧ m'.core = id ∧ ∀ x ∈ ms ++ ms', x.core = id := by
    simpa only [List.forall_mem_cons] using h.core
  subst hcore
  obtain ⟨haccepts, hnears⟩ := follows_obeying image { options with returnStack := 0 }
    slots h.selected h.path h.parks h.bounded (Nat.zero_min _) (obeys_zero _ _) (by simp)
    (fun x hx => hid x (List.mem_append_left _ hx)) (by simpa using h.reports)
  obtain ⟨haccepts', hnears'⟩ := follows_obeying image options slots h.selected h.path h.parks
    h.bounded h.depth_eq h.obeys h.unknown (fun x hx => hid x (List.mem_append_right _ hx))
    h.reports'
  rw [implying_zero] at hnears
  rw [← hcore'] at hnears'
  have hlen : path.length ≤ T.maxRun := by simpa [path] using h.bounded
  refine ⟨hnears.closes haccepts h.closes hlen, hnears'.closes haccepts' h.closes' hlen,
    fun before p hr hr' hb => ?_⟩
  rw [← Terrain.stackAfterAll_empty T path] at hr
  obtain ⟨hok, hstops⟩ := hnears.exception h.closes hr hb
  obtain ⟨hok', hstops'⟩ := hnears'.exception h.closes' hr' hb
  exact ⟨(accepts_append ms m).mpr ⟨haccepts, hok⟩, (accepts_append ms' m').mpr ⟨haccepts', hok'⟩,
    by rw [records_append, List.map_append, hstops],
    by rw [records_append, List.map_append, hstops']⟩

/-- The first return finds the address after the call, the second one finds none. -/
theorem reported_callAndReturnTwice (target : UInt64) :
    Reported callAndReturn { returnStack := 1 } 0 0x1000 target 0 1 callAndReturnTwice branchStop
      [⟨0, 0, .sync 0x1000 0⟩, ⟨0, 1, .indirectBranch 0x1004 3⟩, ⟨0, 2, .indirectBranch 0x1004 3⟩]
      [⟨0, 0, .sync 0x1000 0⟩, ⟨0, 2, .indirectBranch 0x1004 6⟩]
      ⟨0, 3, .exception target 2⟩ ⟨0, 3, .exception target 2⟩ where
  selected := by decide +kernel
  depth_eq := rfl
  path := .callAndReturnTwice
  parks := .inl rfl
  obeys := by
    refine ⟨?_, fun r hr => ⟨0x1004, rfl, Option.some.inj hr⟩, ?_, ?_, trivial⟩
    · rintro r ⟨⟩
    · rintro r ⟨⟩
    · rintro r ⟨⟩
  unknown := rfl
  bounded := by decide
  core := by simp
  reports := rfl
  reports' := rfl
  closes := rfl
  closes' := rfl

theorem first_return_implied :
    let t := start callAndReturn {} (.empty 1)
    let t' := start callAndReturn { returnStack := 1 } (.empty 1)
    let ms : List Message := [⟨0, 0, .sync 0x1000 0⟩, ⟨0, 1, .indirectBranch 0x1004 3⟩,
      ⟨0, 2, .indirectBranch 0x1004 3⟩]
    let ms' : List Message := [⟨0, 0, .sync 0x1000 0⟩, ⟨0, 2, .indirectBranch 0x1004 6⟩]
    let closing : Message := ⟨0, 3, .exception 0x1004 2⟩
    Reported callAndReturn { returnStack := 1 } 0 0x1000 0x1004 0 1 callAndReturnTwice branchStop
        ms ms' closing closing ∧
      t.Accepts (ms ++ [closing]) ∧ t'.Accepts (ms' ++ [closing]) ∧
      (t.records (ms ++ [closing])).map (·.stop) =
        [callStop, returnStop, branchStop, returnStop, branchStop, branchStop] ∧
      (t'.records (ms' ++ [closing])).map (·.stop) =
        [callStop, returnStop, branchStop, returnStop, branchStop, branchStop] := by
  intro t t' ms ms' closing
  have hreported := reported_callAndReturnTwice 0x1004
  have hbranch : callAndReturn.instructionAt 0x1004 = .ok branchStop.instruction := by
    decide +kernel
  exact ⟨hreported, (implied_returns_agree 1 hreported).2.2 [] branchStop (.parks hbranch rfl)
    (.parks hbranch rfl) (by decide)⟩

/-- If the exception leads to a call, then a tracer without return addresses waits at the return
from it, which one that knows the address behind the call goes on from. -/
theorem exception_target_tells_apart :
    ¬∀ (image : Image) (options : TracerOptions) (id : UInt16) (address target : UInt64)
      (count depth : Nat) (steps : List (Stop × Exit)) (last : Stop) (ms ms' : List Message)
      (m m' : Message) (slots : Nat), 1 ≤ depth →
      Reported image options id address target count depth steps last ms ms' m m' →
      let t := start image { options with returnStack := 0 } (.empty slots)
      let t' := start image options (.empty slots)
      t.Accepts (ms ++ [m]) ∧ t'.Accepts (ms' ++ [m']) ∧
        (t.records (ms ++ [m])).map (·.address) = (t'.records (ms' ++ [m'])).map (·.address) := by
  intro h
  have hagree :=
    (h _ _ _ _ _ _ _ _ _ _ _ _ _ 1 (Nat.le_refl 1) (reported_callAndReturnTwice 0x1000)).2.2
  -- The tracer that goes on behind the call has one record more.
  have hlengths := congrArg List.length hagree
  revert hlengths
  decide +kernel

end Tracer

end Retrace
