import Retrace.Proofs.Trace.Returns
import Retrace.Proofs.Trace.Successors

/-!
# Ways with return addresses

Ways through the code as walks see them, which know return addresses: a return that finds one is not
reported. What is reported of a way leads a core along it.
-/

namespace Retrace

open Isa

/-- With the return addresses, execution takes steps from the address and comes to an instruction
that walks park at. Walks go the only way or back to a return address; every other step is from
where they park. -/
inductive Way (t : Terrain) : ReturnStack → UInt64 → List (Stop × Exit) → Stop → Prop
  | parks {stack : ReturnStack} {a : UInt64} {i : Instruction} :
      t.image.instructionAt a = .ok i → t.continuation? ⟨a, i⟩ stack = none →
      Way t stack a [] ⟨a, i⟩
  | goes {stack : ReturnStack} {a : UInt64} {i : Instruction} {next : UInt64}
      {steps : List (Stop × Exit)} {last : Stop} : t.image.instructionAt a = .ok i →
      t.continuation? ⟨a, i⟩ stack = some next →
      Way t (t.stackAfter ⟨a, i⟩ stack) next steps last →
      Way t stack a ((⟨a, i⟩, .onward) :: steps) last
  | leaves {stack : ReturnStack} {a : UInt64} {i : Instruction} {e : Exit} {next : UInt64}
      {steps : List (Stop × Exit)} {last : Stop} : t.image.instructionAt a = .ok i →
      t.continuation? ⟨a, i⟩ stack = none → Leads t.image.base ⟨a, i⟩ e next →
      Way t (t.stackAfter ⟨a, i⟩ stack) next steps last → Way t stack a ((⟨a, i⟩, e) :: steps) last

/-- The instructions that reports with counts lead to with the return addresses: those up to the
first one that walks park at and after which nothing is reported. -/
def Terrain.reach (t : Terrain) : ReturnStack → List (Stop × Exit) → Stop → List Stop
  | _, [], last => [last]
  | stack, (s, e) :: steps, last =>
    if t.continuation? s stack = none ∧ Silent ((s, e) :: steps) then [s]
    else s :: t.reach (t.stackAfter s stack) steps last

/-- The core is parked, has executed the number of half-words since the last counted message, and
has the return addresses. -/
structure Tracer.Parked (T : Terrain) (id : UInt16) (p : Stop) (n : Nat) (stack : ReturnStack)
    (t : Tracer) : Prop where
  terrain : t.terrain = T
  selects : t.selects id = true
  sites : t.cache.Valid T.image
  core : t.core id = ⟨.parked p, n, stack⟩

/-- The message is accepted, leads to the records of the instructions and then parks the core. -/
structure Tracer.Reaches (T : Terrain) (t : Tracer) (m : Message) (ss : List Stop) (p : Stop)
    (n : Nat) (stack : ReturnStack) : Prop where
  accepts : ∃ records, (t.process m).1 = .ok records
  stops : (t.reconstructed m).map (·.stop) = ss
  parked : (t.process m).2.Parked T m.core p n stack

variable {T : Terrain} {t : Tracer} {m : Message} {id : UInt16} {w w' : Walk} {a next : UInt64}
  {s p p' last : Stop} {ss before : List Stop} {pre steps : List (Stop × Exit)} {e : Exit} {n : Nat}
  {stack : ReturnStack} {depth : Nat}

/-! ## Ways are runs and coasts -/

@[simp]
theorem Terrain.stackAfterAll_nil (t : Terrain) (stack : ReturnStack) :
    t.stackAfterAll [] stack = stack := rfl

@[simp]
theorem Terrain.stackAfterAll_cons (t : Terrain) (s : Stop) (ss : List Stop) (stack : ReturnStack) :
    t.stackAfterAll (s :: ss) stack = t.stackAfterAll ss (t.stackAfter s stack) := rfl

@[simp]
theorem Terrain.stackAfterAll_append (t : Terrain) (ss ss' : List Stop) (stack : ReturnStack) :
    t.stackAfterAll (ss ++ ss') stack = t.stackAfterAll ss' (t.stackAfterAll ss stack) :=
  List.foldl_append

/-- The way up to a report comes to the instruction that is reported, and goes on from there. -/
theorem Way.split (h : Way T stack a (pre ++ (s, e) :: steps) last) (he : e.isSilent = false) :
    Way T stack a pre s ∧ ∃ next, Leads T.image.base s e next ∧
      Way T (T.stackAfterAll (stopsOf pre ++ [s]) stack) next steps last := by
  induction pre generalizing stack a with
  | nil =>
      cases h with
      | goes => cases he
      | leaves hi hc hl hw => exact ⟨.parks hi hc, _, hl, hw⟩
  | cons x pre ih =>
      cases h with
      | goes hi hc hw =>
          obtain ⟨hpre, hrest⟩ := ih hw
          exact ⟨.goes hi hc hpre, hrest⟩
      | leaves hi hc hl hw =>
          obtain ⟨hpre, hrest⟩ := ih hw
          exact ⟨.leaves hi hc hl hpre, hrest⟩

theorem Way.runs (h : Way T stack a steps last) :
    ∃ before p after, Runs T stack a before p ∧
      before ++ p :: after = stopsOf steps ++ [last] := by
  induction h with
  | parks hi hc => exact ⟨[], _, [], .parks hi hc, rfl⟩
  | goes hi hc _ ih =>
      obtain ⟨before, p, after, hr, heq⟩ := ih
      exact ⟨_ :: before, p, after, .goes hi hc hr, by simp [heq]⟩
  | leaves hi hc _ _ _ => exact ⟨[], _, _, .parks hi hc, rfl⟩

/-- A way that nothing is reported of is a run, and then the core coasts. -/
theorem Way.coasts (h : Way T stack a steps last) (hs : Silent steps) :
    ∃ before p ss, Runs T stack a before p ∧
      Coasts T (T.stackAfterAll (before ++ [p]) stack) p ss last ∧
      before ++ p :: ss = stopsOf steps ++ [last] := by
  induction h with
  | parks hi hc => exact ⟨[], _, [], .parks hi hc, .rests, rfl⟩
  | goes hi hc _ ih =>
      obtain ⟨before, p, ss, hr, hcoast, heq⟩ := ih (silent_cons.mp hs).2
      exact ⟨_ :: before, p, ss, .goes hi hc hr, hcoast, by simp [heq]⟩
  | leaves hi hc hl _ ih =>
      obtain ⟨he, hs⟩ := silent_cons.mp hs
      obtain ⟨before, p, ss, hr, hcoast, heq⟩ := ih hs
      obtain ⟨b, hb, htr⟩ := Option.map_eq_some_iff.mp
        ((Terrain.silent?_eq_some (Terrain.parks_of_continuation? hc)).mpr ⟨_, he, hl⟩)
      exact ⟨[], _, before ++ p :: ss, .parks hi hc, .goes hb (htr ▸ hr) hcoast, by simp [heq]⟩

theorem Way.reach_of_silent (h : Way T stack a steps last) (hs : Silent steps)
    (hr : Runs T stack a before p) : T.reach stack steps last = before ++ [p] := by
  induction h generalizing before with
  | parks hi hc =>
      obtain ⟨rfl, rfl⟩ := hr.unique (.parks hi hc)
      rfl
  | goes hi hc hw ih =>
      cases hr with
      | parks hi' hc' =>
          rw [hi] at hi'; cases hi'
          rw [hc] at hc'; cases hc'
      | goes hi' hc' hr =>
          rw [hi] at hi'; cases hi'
          rw [hc] at hc'; cases hc'
          rw [Terrain.reach, if_neg (by simp [hc]), ih (silent_cons.mp hs).2 hr, List.cons_append]
  | leaves hi hc =>
      obtain ⟨rfl, rfl⟩ := hr.unique (.parks hi hc)
      rw [Terrain.reach, if_pos ⟨hc, hs⟩, List.nil_append]

theorem Terrain.reach_append (he : e.isSilent = false) :
    T.reach stack (pre ++ (s, e) :: steps) last =
      stopsOf pre ++ s :: T.reach (T.stackAfterAll (stopsOf pre ++ [s]) stack) steps last := by
  have hns : ∀ pre : List (Stop × Exit), ¬Silent (pre ++ (s, e) :: steps) := by
    intro pre h
    simp [silent_append, silent_cons, he] at h
  induction pre generalizing stack with
  -- Something is reported, so there is no instruction to stop at.
  | nil => exact if_neg fun h => hns [] h.2
  | cons x pre ih =>
      obtain ⟨s', e'⟩ := x
      rw [List.cons_append, reach, if_neg fun h => hns ((s', e') :: pre) h.2, ih]
      rfl

theorem length_of_stops {before after : List Stop}
    (h : before ++ p :: after = stopsOf steps ++ [last]) :
    before.length + after.length = steps.length := by
  have hlen := congrArg List.length h
  simp only [List.length_append, List.length_cons, List.length_nil, length_stopsOf] at hlen
  omega

/-! ## Paths are ways -/

/-- Walks that know the return addresses which a path obeys see it as a way. -/
theorem Path.way_of_obeys (stack : ReturnStack) (h : Path T.image a steps last)
    (hlim : stack.limit = depth)
    (hobeys : Obeys T.image.base depth stack.toList steps) (hlast : Parks T.image.base last)
    (hfound : last.implied?
      ((stopsOf steps).foldl (returnsAfter T.image.base depth) stack.toList) = none) :
    Way T stack a (implying T.image.base depth stack.toList steps) last := by
  induction h generalizing stack with
  | last hi =>
      exact .parks hi (by rw [Terrain.continuation?_of_not_implied hfound, if_pos hlast])
  | @step a i e next steps last hi hl _ ih =>
      obtain ⟨hback, hobeys⟩ := hobeys
      have hafter : (T.stackAfter ⟨a, i⟩ stack).toList =
          returnsAfter T.image.base depth stack.toList ⟨a, i⟩ := by
        rw [Terrain.toList_stackAfter, hlim]
      have hway := ih (T.stackAfter ⟨a, i⟩ stack) (by simpa using hlim) (hafter ▸ hobeys) hlast
        (hafter ▸ hfound)
      rw [hafter] at hway
      rw [implying]
      cases himp : Stop.implied? ⟨a, i⟩ stack.toList with
      | some r =>
          obtain ⟨b, rfl, rfl⟩ := hback r himp
          cases hl
          refine .goes hi ?_ hway
          rw [Terrain.continuation?_of_implied himp, Terrain.truncate, BaseSet.truncate_truncate]
      | none =>
          have hc := Terrain.continuation?_of_not_implied (T := T) himp
          by_cases hpark : Parks T.image.base ⟨a, i⟩
          · exact .leaves hi (hc.trans (if_pos hpark)) hl hway
          · obtain ⟨rfl, rfl⟩ := hl.next_of_not_parks hpark
            exact .goes hi (hc.trans (if_neg hpark)) hway

theorem Path.way (h : Path T.image a steps last) (hp : Parks T.image.base last) :
    Way T (.empty 0) a steps last := by
  have hway : Way T (.empty 0) a (implying T.image.base 0 [] steps) last :=
    h.way_of_obeys (.empty 0) rfl (obeys_zero _ _) hp (by simp)
  rwa [implying_zero] at hway

theorem Path.runs (h : Path T.image a steps last) (hp : Parks T.image.base last) :
    ∃ before p after, Runs T (.empty 0) a before p ∧
      before ++ p :: after = stopsOf steps ++ [last] :=
  (h.way hp).runs

theorem Terrain.reach_empty (T : Terrain) (steps : List (Stop × Exit)) (last : Stop) :
    T.reach (.empty 0) steps last = Retrace.reach T.image steps last := by
  induction steps with
  | nil => rfl
  | cons x steps ih =>
      obtain ⟨s, e⟩ := x
      have hc : T.continuation? s (.empty 0) = none ↔ Parks T.image.base s :=
        ⟨parks_of_continuation?, continuation?_of_parks⟩
      rw [reach, Retrace.reach, stackAfter_empty, ih]
      simp only [hc]

/-! ## What a message leads to -/

theorem Walk.follow_directBranch {taken : Bool} {count : Nat}
    (hr : w.retire T count p = (.ok s, w')) (hl : Leads T.image.base s (.outcome taken) next) :
    w.follow T p (.directBranch taken count) =
      some (if count = 0 then w'.run T next else { w' with retired := 0 }.run T next) := by
  obtain ⟨b, hb, htr⟩ := Option.map_eq_some_iff.mp (Terrain.outcome?_eq_some.mpr hl)
  simp only [follow, hr, Outcome.andThen, hb, Walk.restart, htr]

theorem Walk.follow_indirectBranch {target : UInt64} {count : Nat}
    (hr : w.retire T count p = (.ok s, w')) (hl : Leads T.image.base s (.target target) next) :
    w.follow T p (.indirectBranch target count) = some ({ w' with retired := 0 }.run T next) := by
  obtain ⟨b, hb, htr⟩ := Option.map_eq_some_iff.mp (Terrain.jump?_eq_some.mpr hl)
  simp only [follow, hr, Outcome.andThen, hb, Walk.restart, htr]

theorem Walk.follow_report {count : Nat} (hr : w.retire T count p = (.ok s, w'))
    (hl : Leads T.image.base s e next) (he : e.isSilent = false) (hc : 0 < count) :
    w.follow T p (e.report count) = some ({ w' with retired := 0 }.run T next) := by
  cases e with
  | outcome taken => rw [Exit.report, follow_directBranch hr hl, if_neg (by omega)]
  | target b => exact follow_indirectBranch hr hl
  | onward => cases he

@[simp]
theorem Visit.stop_visitAt (image : Image) (s : Stop) : (image.visitAt s).stop = s := rfl

/-- What a message leads to that starts a run after some visits. -/
theorem Tracer.reaches_of_run (hT : t.terrain = T) (hs : t.selects m.core = true)
    (he : t.effect m = .ofOutcome (w.run T a)) (hr : Runs T w.stack a before p)
    (hw : w.cache.Valid T.image) (hvis : w.visited = (ss.map T.image.visitAt).reverse)
    (hb : before.length < w.budget) :
    t.Reaches T m (ss ++ (before ++ [p])) p (w.retired + halvesOf (before ++ [p]))
      (T.stackAfterAll (before ++ [p]) w.stack) := by
  obtain ⟨cache, hv, hrun⟩ := Walk.run_of_runs hr hw hb
  rw [hrun, Effect.ofOutcome] at he
  refine ⟨(accepted_iff hs).mpr (by rw [he]), ?_, terrain_process.trans hT,
    (selects_process _).trans hs, ?_, ?_⟩
  · rw [reconstructed_of_selects hs, he, List.map_map]
    simp only [Walk.pass, hvis, ← List.reverse_append, ← List.map_append, List.reverse_reverse,
      List.map_map]
    exact List.map_id _
  · rw [cache_process hs, he]
    exact hv
  · rw [core_process_self hs, he]
    rfl

/-- A sync leads a core whose place is not known to the end of the run from its address. -/
theorem Tracer.reaches_sync {depth count : Nat} (hT : t.terrain = T) (hs : t.selects m.core = true)
    (hc : t.core m.core = .start depth) (hv : t.cache.Valid T.image)
    (hm : m.payload = .sync a count) (hr : Runs T (.empty depth) (T.truncate a) before p)
    (hb : before.length < T.maxRun) :
    t.Reaches T m (before ++ [p]) p (halvesOf (before ++ [p]))
      (T.stackAfterAll (before ++ [p]) (.empty depth)) := by
  have he : t.effect m =
      .ofOutcome ((Walk.mk 0 (.empty depth) t.cache [] T.maxRun).run T (T.truncate a)) := by
    rw [effect, hc, hT, hm]
    rfl
  have h : t.Reaches T m ([] ++ (before ++ [p])) p (0 + halvesOf (before ++ [p]))
      (T.stackAfterAll (before ++ [p]) (.empty depth)) :=
    reaches_of_run hT hs he hr hv rfl hb
  rwa [List.nil_append, Nat.zero_add] at h

namespace Tracer.Parked

theorem effect_eq {o : Outcome} (h : t.Parked T m.core p n stack)
    (ho : (Walk.mk n stack t.cache [] T.maxRun).follow T p m.payload = some o) :
    t.effect m = .ofOutcome o := by
  rw [effect, h.core, h.terrain]
  exact Core.step_of_follow rfl ho

/-- What a message leads to that is followed with a new count behind what its count covers. -/
theorem reaches_of_count {count : Nat} (h : t.Parked T m.core p n stack)
    (hc : Coasts T stack p ss s) (hcount : n + halvesOf ss = count) (hpos : 0 < n)
    (hf : ∀ w w' : Walk, w.retire T count p = (.ok s, w') →
      w.follow T p m.payload = some ({ w' with retired := 0 }.run T next))
    (hr : Runs T (T.stackAfterAll ss stack) next before p')
    (hb : ss.length + before.length < T.maxRun) :
    t.Reaches T m (ss ++ (before ++ [p'])) p' (halvesOf (before ++ [p']))
      (T.stackAfterAll (ss ++ (before ++ [p'])) stack) := by
  have hss : ss.length ≤ T.maxRun := by omega
  obtain ⟨cache, hv, hret⟩ := Walk.retire_of_coasts
    (w := ⟨n, stack, t.cache, [], T.maxRun⟩) hc h.sites hss hcount (by omega)
  have hreach : t.Reaches T m (ss ++ (before ++ [p'])) p' (0 + halvesOf (before ++ [p']))
      (T.stackAfterAll (before ++ [p']) (T.stackAfterAll ss stack)) :=
    reaches_of_run h.terrain h.selects (h.effect_eq (hf _ _ hret)) hr hv (by simp [Walk.pass])
      (by simp only [Walk.pass]; omega)
  rwa [Nat.zero_add, ← Terrain.stackAfterAll_append] at hreach

theorem reaches_report (h : t.Parked T m.core p n stack) (hc : Coasts T stack p ss s)
    (hl : Leads T.image.base s e next) (he : e.isSilent = false)
    (hm : m.payload = e.report (n + halvesOf ss)) (hpos : 0 < n)
    (hr : Runs T (T.stackAfterAll ss stack) next before p')
    (hb : ss.length + before.length < T.maxRun) :
    t.Reaches T m (ss ++ (before ++ [p'])) p' (halvesOf (before ++ [p']))
      (T.stackAfterAll (ss ++ (before ++ [p'])) stack) :=
  h.reaches_of_count hc rfl hpos
    (fun _ _ hret => hm ▸ Walk.follow_report hret hl he (by omega)) hr hb

theorem reaches_exception (h : t.Parked T m.core p n stack) (hc : Coasts T stack p ss s)
    (hm : m.payload = .exception a (n + halvesOf ss)) (hpos : 0 < n)
    (hr : Runs T (T.stackAfterAll ss stack) (T.truncate a) before p')
    (hb : ss.length + before.length < T.maxRun) :
    t.Reaches T m (ss ++ (before ++ [p'])) p' (halvesOf (before ++ [p']))
      (T.stackAfterAll (ss ++ (before ++ [p'])) stack) :=
  h.reaches_of_count hc rfl hpos
    (fun _ _ hret => by simp only [hm, Walk.follow, hret, Outcome.andThen, Walk.restart]) hr hb

end Tracer.Parked

/-! ## Ways from their reports -/

/-- Where reports of a way leave a core: it only coasts from there to the end of the way, whose
last instruction the count of the next message has to cover. -/
def Tracer.Nears (T : Terrain) (t : Tracer) (id : UInt16) (passed : List Stop) (count : Nat)
    (all : List Stop) (last : Stop) (stack : ReturnStack) : Prop :=
  ∃ p n ss, t.Parked T id p n (T.stackAfterAll passed stack) ∧ 0 < n ∧
    Coasts T (T.stackAfterAll passed stack) p ss last ∧ n + halvesOf ss = count ∧
    passed ++ ss = all

theorem Tracer.Nears.append_left {passed all : List Stop} {count : Nat} (ss : List Stop)
    (h : t.Nears T id passed count all last (T.stackAfterAll ss stack)) :
    t.Nears T id (ss ++ passed) count (ss ++ all) last stack := by
  obtain ⟨p, n, rest, hp, hn, hc, hcount, rfl⟩ := h
  rw [← Terrain.stackAfterAll_append] at hp hc
  exact ⟨p, n, rest, hp, hn, hc, hcount, List.append_assoc _ _ _⟩

namespace Tracer.Parked

/-- From the end of a run, the core only coasts over silent steps. -/
theorem nears
    (h : t.Parked T id p (halvesOf (before ++ [p])) (T.stackAfterAll (before ++ [p]) stack))
    (hr : Runs T stack a before p) (hway : Way T stack a pre last) (hs : Silent pre) :
    t.Nears T id (before ++ [p]) (halvesOf (stopsOf pre) + last.halves) (stopsOf pre ++ [last]) last
      stack := by
  obtain ⟨before', p', ss, hr', hc, heq⟩ := hway.coasts hs
  obtain ⟨rfl, rfl⟩ := hr.unique hr'
  have hhalves := congrArg halvesOf heq
  have hp := p.halves_pos
  simp only [halvesOf_append, halvesOf_cons, halvesOf_nil] at hhalves
  refine ⟨p, _, ss, h, ?_, hc, ?_, ?_⟩
  · simp only [halvesOf_append, halvesOf_cons]
    omega
  · simp only [halvesOf_append, halvesOf_cons, halvesOf_nil]
    omega
  · rw [← heq]
    exact (List.append_cons _ _ _).symm

/-- A report with its count leads the core on from a run that silent steps have come from, to the
end of the run behind the report. -/
theorem follows_report
    (h : t.Parked T m.core p (halvesOf (before ++ [p])) (T.stackAfterAll (before ++ [p]) stack))
    (hr : Runs T stack a before p) (hway : Way T stack a (pre ++ (s, e) :: steps) last)
    (hs : Silent pre) (he : e.isSilent = false) (hb : (pre ++ (s, e) :: steps).length < T.maxRun)
    (hm : m.payload = e.report (halvesOf (stopsOf pre) + s.halves)) :
    (∃ records, (t.process m).1 = .ok records) ∧ ∃ next before' p',
      Way T (T.stackAfterAll (stopsOf pre ++ [s]) stack) next steps last ∧
        Runs T (T.stackAfterAll (stopsOf pre ++ [s]) stack) next before' p' ∧
        before ++ [p] ++ (t.reconstructed m).map (·.stop) =
          stopsOf pre ++ s :: (before' ++ [p']) ∧
        (t.process m).2.Parked T m.core p' (halvesOf (before' ++ [p']))
          (T.stackAfterAll (before' ++ [p']) (T.stackAfterAll (stopsOf pre ++ [s]) stack)) := by
  -- The silent steps are a run, which the core is at the end of, and a coast, which the count of
  -- the report covers.
  obtain ⟨hpre, next, hl, hrest⟩ := hway.split he
  obtain ⟨before₀, p₀, ss, hr₀, hc, heq⟩ := hpre.coasts hs
  obtain ⟨rfl, rfl⟩ := hr.unique hr₀
  obtain ⟨before', p', after, hr', heq'⟩ := hrest.runs
  have hlen := length_of_stops heq
  have hlen' := length_of_stops heq'
  rw [List.length_append, List.length_cons] at hb
  have hp := p.halves_pos
  have hhalves : halvesOf (before ++ [p]) + halvesOf ss = halvesOf (stopsOf pre) + s.halves := by
    have hall := congrArg halvesOf heq
    simp only [halvesOf_append, halvesOf_cons, halvesOf_nil] at hall ⊢
    omega
  have hstack : T.stackAfterAll ss (T.stackAfterAll (before ++ [p]) stack) =
      T.stackAfterAll (stopsOf pre ++ [s]) stack := by
    rw [← heq]
    simp
  obtain ⟨hok, hrec, hnext⟩ := h.reaches_report hc hl he (hhalves ▸ hm)
    (by simp only [halvesOf_append, halvesOf_cons]; omega) (hstack ▸ hr') (by omega)
  rw [Terrain.stackAfterAll_append, hstack] at hnext
  refine ⟨hok, next, before', p', hrest, hr', ?_, hnext⟩
  have hjoin := congrArg (· ++ (before' ++ [p'])) heq
  rw [hrec]
  simpa using hjoin

/-- Reports with counts lead the core on from a run that silent steps have come from, and to where
it only coasts to the end of the way. -/
theorem follows_way {ms : List Message}
    (h : t.Parked T id p (halvesOf (before ++ [p])) (T.stackAfterAll (before ++ [p]) stack))
    (hr : Runs T stack a before p) (hway : Way T stack a (pre ++ steps) last) (hs : Silent pre)
    (hb : (pre ++ steps).length < T.maxRun) (hid : ∀ m ∈ ms, m.core = id)
    (hms : ms.map (·.payload) = counted (halvesOf (stopsOf pre)) steps) :
    t.Accepts ms ∧
      before ++ [p] ++ (t.records ms).map (·.stop) = T.reach stack (pre ++ steps) last ∧
      (t.feed ms).Nears T id (before ++ [p] ++ (t.records ms).map (·.stop))
        (sinceReport (halvesOf (stopsOf pre)) steps + last.halves)
        (stopsOf (pre ++ steps) ++ [last]) last stack := by
  induction steps generalizing t stack a before p pre ms with
  | nil =>
      obtain rfl : ms = [] := List.map_eq_nil_iff.mp hms
      rw [List.append_nil] at hway ⊢
      have hpassed : before ++ [p] ++ (t.records []).map (·.stop) = before ++ [p] :=
        List.append_nil _
      rw [hpassed, hway.reach_of_silent hs hr]
      exact ⟨trivial, rfl, h.nears hr hway hs⟩
  | cons x steps ih =>
      obtain ⟨s, e⟩ := x
      by_cases he : e.isSilent = true
      -- A silent step only adds to those since the run started.
      · have hpre : Silent (pre ++ [(s, e)]) :=
          silent_append.mpr ⟨hs, silent_cons.mpr ⟨he, silent_nil⟩⟩
        have hhalves : halvesOf (stopsOf pre) + s.halves =
            halvesOf (stopsOf (pre ++ [(s, e)])) := by
          simp
        have happ : pre ++ (s, e) :: steps = pre ++ [(s, e)] ++ steps := List.append_cons _ _ _
        rw [happ] at hway hb ⊢
        rw [counted, if_pos he, hhalves] at hms
        rw [sinceReport, if_pos he, hhalves]
        exact ih h hr hway hpre hb hid hms
      · have he : e.isSilent = false := by simpa using he
        rw [counted, if_neg (by simp [he])] at hms
        obtain ⟨m, ms, rfl, hm, hms⟩ := List.map_eq_cons_iff.mp hms
        obtain rfl := hid m List.mem_cons_self
        obtain ⟨hok, next, before', p', hrest, hr', hstops, hnext⟩ :=
          h.follows_report hr hway hs he hb hm
        obtain ⟨haccepts, hreach, hnears⟩ :=
          ih hnext hr' (show Way T _ _ ([] ++ steps) last from hrest) silent_nil
            (by rw [List.length_append, List.length_cons] at hb; rw [List.nil_append]; omega)
            (fun m hm => hid m (List.mem_cons_of_mem _ hm)) hms
        have hpassed : before ++ [p] ++ (t.records (m :: ms)).map (·.stop) =
            stopsOf pre ++ s :: (before' ++ [p'] ++
              ((t.process m).2.records ms).map (·.stop)) := by
          rw [records, List.map_append, ← List.append_assoc, hstops]
          simp
        rw [sinceReport, if_neg (by simp [he]), hpassed]
        refine ⟨⟨hok, haccepts⟩, ?_, ?_⟩
        · rw [Terrain.reach_append he, hreach, List.nil_append]
        · have hall := hnears.append_left (stopsOf pre ++ [s])
          change ((t.process m).2.feed ms).Nears _ _ _ _ _ _ _
          rw [List.nil_append] at hall
          simpa using hall

end Tracer.Parked

namespace Tracer.Nears

variable {passed all : List Stop} {count : Nat}

/-- An exception leads to the rest of the way and to the run from its address. -/
theorem exception (h : t.Nears T m.core passed count all last stack)
    (hm : m.payload = .exception a count)
    (hr : Runs T (T.stackAfterAll all stack) (T.truncate a) before p)
    (hb : all.length + before.length < T.maxRun) :
    (∃ records, (t.process m).1 = .ok records) ∧
      passed ++ (t.reconstructed m).map (·.stop) = all ++ (before ++ [p]) := by
  obtain ⟨p', n, ss, hp, hn, hc, rfl, hall⟩ := h
  have hss : ss.length + before.length < T.maxRun := by
    rw [← hall, List.length_append] at hb
    omega
  rw [← hall, Terrain.stackAfterAll_append] at hr
  obtain ⟨hok, hstops, -⟩ := hp.reaches_exception hc hm hn hr hss
  exact ⟨hok, by rw [hstops, ← hall, List.append_assoc]⟩

end Tracer.Nears

end Retrace
