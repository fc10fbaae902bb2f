import Mathlib.Tactic.ByContra
import Mathlib.Tactic.SplitIfs
import Retrace.Proofs.Trace.States
import Retrace.Trace.Fields

/-!
# Separate fields fit together

A core that is kept field by field goes through the same instructions and failures, and the fields
that are reached are those of a place that is lost, or of a parked instruction.
-/

namespace Retrace

open Isa

/-! ## Fields that fit together -/

namespace CoreFields

/-- The fields are those of a core parked at an instruction. -/
structure Parked (c : CoreFields) (s : Stop) : Prop where
  pc : c.pc = s.address
  pending : c.pending? = some s.instruction
  state : c.state = if s.needsEvidence then .branching else .synced

/-- The fields tell the phase. -/
def Tells (c : CoreFields) : Phase → Prop
  | .unsynced => c.state = .unsynced ∧ c.pending? = none
  | .faulted => c.state = .faulted ∧ c.pending? = none
  | .parked s => c.Parked s

/-- The state, the place and the pending instruction fit together: the core waits at an instruction
of the image, or it knows nothing. -/
structure Sound (image : Image) (depth : Nat) (c : CoreFields) : Prop where
  branching : c.state = .branching → ∃ i, c.pending? = some i ∧ image.instructionAt c.pc = .ok i ∧
    (i.operation.isBranch = true ∨ i.operation.isUninferable = true)
  synced : c.state = .synced → ∃ i target, c.pending? = some i ∧
    image.instructionAt c.pc = .ok i ∧ i.operation.inferableTarget? = some target ∧
      Stop.landing image.base ⟨c.pc, i⟩ target = c.pc
  unplaced : c.state = .unsynced ∨ c.state = .faulted →
    c.pending? = none ∧ c.retired = 0 ∧ c.stack.toList = []
  address : c.pending? ≠ none → c.pc.toNat < 2 ^ image.base.addressBits
  depth : c.stack.toList.length ≤ depth

/-- Both tell the same of a core. -/
structure Shows (c : CoreFields) (core : Core) : Prop where
  phase : c.Tells core.phase
  retired : c.retired = core.retired
  stack : c.stack = core.stack

end CoreFields

/-- The walk without the fields of the place. -/
def FieldWalk.walk (t : Terrain) (w : FieldWalk) : Walk :=
  ⟨w.core.retired, w.core.stack, w.cache, w.visited, t.maxRun - w.visited.length⟩

/-- Both outcomes are the same. -/
def FieldOutcome.Meets (t : Terrain) (o : FieldOutcome) (o' : Outcome) : Prop :=
  o.2.walk t = o'.2 ∧
    match o.1, o'.1 with
    | .ok (), .ok s => o.2.core.Parked s
    | .error e, .error e' => e = e'
    | _, _ => False

variable {t : Terrain} {w : FieldWalk} {o : FieldOutcome} {o' : Outcome} {s : Stop} {c : CoreFields}
  {core : Core} {cache : SiteCache} {count depth : Nat} {pc address : UInt64} {image : Image}

/-! ## Parked cores -/

namespace CoreFields.Parked

theorem silent?_eq (h : c.Parked s) : c.silent? = s.silent? := by
  obtain ⟨hpc, hpending, hstate⟩ := h
  rw [silent?, Stop.silent?, hpending, hstate, hpc]
  cases hneeds : s.needsEvidence with
  | true => rfl
  | false =>
      have hbranch : ¬ s.instruction.operation.isBranch = true := by
        intro hbranch
        simp [Stop.needsEvidence, Operation.needsEvidence, hbranch] at hneeds
      rw [if_neg hbranch]
      rfl

theorem branch?_eq (h : c.Parked s) (taken : Bool) :
    c.branch? taken = s.outcome? taken := by
  obtain ⟨hpc, hpending, hstate⟩ := h
  rw [branch?, Stop.outcome?, hpending, hstate, hpc]
  cases hneeds : s.needsEvidence with
  | true => rfl
  | false =>
      obtain ⟨hbranch, -⟩ := Bool.or_eq_false_iff.mp hneeds
      have hoffset : s.instruction.operation.branchOffset? = none := by
        simpa [Operation.isBranch] using hbranch
      rw [hoffset]
      rfl

theorem jump?_eq (h : c.Parked s) (target : UInt64) : c.jump? target = s.jump? target := by
  obtain ⟨-, hpending, hstate⟩ := h
  rw [jump?, Stop.jump?, hpending, hstate]
  cases hneeds : s.needsEvidence with
  | true => cases hjump : s.instruction.operation.isUninferable <;> simp [hjump]
  | false =>
      obtain ⟨-, hjump⟩ := Bool.or_eq_false_iff.mp hneeds
      simp [hjump]

theorem outcome?_eq (h : c.Parked s) (t : Terrain) (cache : SiteCache) (payload : Payload) :
    c.outcome? t cache payload = FieldWalk.follow ⟨c, cache, []⟩ t payload := by
  have hstate := h.state
  cases hneeds : s.needsEvidence <;> rw [hneeds] at hstate <;>
    cases payload <;> simp [outcome?, hstate]

end CoreFields.Parked

/-! ## Walks -/

theorem FieldOutcome.Meets.andThen {f : FieldWalk → FieldOutcome} {g : Stop → Walk → Outcome}
    (h : o.Meets t o') (hf : ∀ s, o.2.core.Parked s → (f o.2).Meets t (g s (o.2.walk t))) :
    (o.andThen f).Meets t (o'.andThen g) := by
  obtain ⟨r, w⟩ := o
  obtain ⟨r', w'⟩ := o'
  obtain ⟨rfl, h⟩ := h
  cases r with
  | ok u =>
      cases r' with
      | ok s => exact hf s h
      | error e => exact h.elim
  | error e =>
      cases r' with
      | ok s => exact h.elim
      | error e' => exact ⟨rfl, h⟩

theorem FieldOutcome.Meets.andThen_of_error {e : Disagreement} (h : o.Meets t o')
    (he : o.1 = .error e) (g : Stop → Walk → Outcome) : o.Meets t (o'.andThen g) := by
  obtain ⟨r, w⟩ := o
  obtain ⟨r', w'⟩ := o'
  cases he
  cases r' with
  | ok s => exact h.2.elim
  | error e' => exact h

namespace FieldWalk

theorem meets_conflict (address : UInt64) (c : TraceConflict) :
    (w.conflict address c).Meets t ((w.walk t).conflict address c) :=
  ⟨rfl, rfl⟩

/-- One visit of a walk, with the address that was taken off the stack. -/
theorem run_walk {site : Site} {cache : SiteCache} (hb : ¬ t.maxRun ≤ w.visited.length)
    (hf : w.cache.fetch t.image pc = (.ok site, cache)) (popped : Option UInt64 × ReturnStack)
    (hp : popped = if site.instruction.operation.isReturn || site.instruction.operation.isSwap
      then w.core.stack.pop else (none, w.core.stack)) :
    let i := site.instruction
    let s : Stop := ⟨pc, i⟩
    let stack := if i.operation.isCall || i.operation.isSwap then popped.2.push (t.after s)
      else popped.2
    let visited : Walk := ⟨w.core.retired + i.halves, stack, cache, .ofSite pc site :: w.visited,
      t.maxRun - (w.visited.length + 1)⟩
    (w.walk t).run t pc =
      match popped.1 with
      | some target => visited.run t (t.truncate target)
      | none =>
        if i.operation.needsEvidence || t.next s = pc then (.ok s, visited)
        else visited.run t (t.next s) := by
  have hbudget : ¬ (w.walk t).budget = 0 := Nat.sub_ne_zero_of_lt (Nat.lt_of_not_le hb)
  have hfetch : (w.walk t).cache.fetch t.image pc = (.ok site, cache) := hf
  rw [Walk.run, dif_neg hbudget, hfetch]
  simp only [Walk.visit, Terrain.continuation?, Terrain.stackAfter, walk, hp, Nat.sub_sub]
  -- Only a return or a swap looks at the stack.
  by_cases hpops : (site.instruction.operation.isReturn || site.instruction.operation.isSwap) = true
  · simp only [hpops, if_true]
    cases w.core.stack.pop.1 with
    | some target => rfl
    | none =>
        simp only
        split_ifs <;> rfl
  · simp only [hpops, Bool.false_eq_true, if_false]
    split_ifs <;> rfl

theorem meets_run (w : FieldWalk) (t : Terrain) (pc : UInt64) :
    (w.run t pc).Meets t ((w.walk t).run t pc) := by
  fun_induction run w t pc with
  | case1 w pc hb =>
      have hbudget : (w.walk t).budget = 0 := Nat.sub_eq_zero_of_le hb
      rw [Walk.run, dif_pos hbudget]
      exact meets_conflict _ _
  | case2 w pc hb obstacle cache hf =>
      have hbudget : ¬ (w.walk t).budget = 0 := Nat.sub_ne_zero_of_lt (Nat.lt_of_not_le hb)
      have hfetch : (w.walk t).cache.fetch t.image pc = (.error obstacle, cache) := hf
      rw [Walk.run, dif_neg hbudget, hfetch]
      exact ⟨rfl, rfl⟩
  | case3 w pc hb site cache hf i op after popped stack core visited target hp ih =>
      rw [run_walk hb hf popped rfl, hp]
      exact ih
  | case4 w pc hb site cache hf i op after popped stack core visited hp he =>
      have hneeds : site.instruction.operation.needsEvidence = true := he
      rw [run_walk hb hf popped rfl, hp]
      simp only [hneeds, Bool.true_or, if_true]
      exact ⟨rfl, rfl, rfl, (if_pos hneeds).symm⟩
  | case5 w pc hb site cache hf i op after popped stack core visited hp he next hn =>
      have hneeds : ¬ site.instruction.operation.needsEvidence = true := he
      have hnext : t.next ⟨pc, site.instruction⟩ = pc := hn
      rw [run_walk hb hf popped rfl, hp]
      simp only [hneeds, hnext, decide_true, Bool.or_true, if_true]
      exact ⟨rfl, rfl, rfl, (if_neg hneeds).symm⟩
  | case6 w pc hb site cache hf i op after popped stack core visited hp he next hn ih =>
      have hneeds : ¬ site.instruction.operation.needsEvidence = true := he
      have hnext : ¬ t.next ⟨pc, site.instruction⟩ = pc := hn
      rw [run_walk hb hf popped rfl, hp]
      simp only [hneeds, hnext, decide_false, Bool.or_false]
      exact ih

theorem meets_catchUp (w : FieldWalk) (t : Terrain) (count : Nat) (h : w.core.Parked s) :
    (w.catchUp t count).Meets t ((w.walk t).catchUp t count s) := by
  rw [Walk.catchUp_eq]
  fun_induction catchUp w t count generalizing s with
  | case1 w hlt hsilent =>
      rw [if_pos (show (w.walk t).retired < count from hlt), ← h.silent?_eq, hsilent]
      exact ⟨rfl, h⟩
  | case2 w hlt address hsilent e w' hrun =>
      have hmeets := meets_run w t (t.truncate address)
      rw [hrun] at hmeets
      rw [if_pos (show (w.walk t).retired < count from hlt), ← h.silent?_eq, hsilent]
      exact hmeets.andThen_of_error rfl _
  | case3 w hlt address hsilent w' hrun hlength ih =>
      have hmeets := meets_run w t (t.truncate address)
      rw [hrun] at hmeets
      rw [if_pos (show (w.walk t).retired < count from hlt), ← h.silent?_eq, hsilent]
      refine hmeets.andThen (f := (catchUp · t count)) fun s' hs' => ?_
      rw [Walk.catchUp_eq]
      exact ih hs'
  | case4 w hlt =>
      rw [if_neg (show ¬ (w.walk t).retired < count from hlt)]
      exact ⟨rfl, h⟩

theorem meets_retire (w : FieldWalk) (t : Terrain) (count : Nat) (h : w.core.Parked s) :
    (w.retire t count).Meets t ((w.walk t).retire t count s) := by
  rw [retire, Walk.retire]
  split
  · exact ⟨rfl, h⟩
  · refine (meets_catchUp w t count h).andThen fun s' hs' => ?_
    have hretired : ((w.catchUp t count).2.walk t).retired = (w.catchUp t count).2.core.retired :=
      rfl
    rw [hretired]
    split
    · exact ⟨rfl, hs'⟩
    · rw [← hs'.pc]
      exact meets_conflict _ _

theorem meets_restart (w : FieldWalk) (t : Terrain) (address : UInt64) :
    (w.restart t address).Meets t ((w.walk t).restart t address) :=
  meets_run { w with core := { w.core with retired := 0 } } t (t.truncate address)

theorem meets_unexpected (h : w.core.Parked s) (kind : MessageKind) :
    (w.unexpected kind).Meets t ((w.walk t).unexpected s kind) := by
  have hname : w.core.pendingName = s.instruction.mnemonic := by
    rw [CoreFields.pendingName, h.pending, Option.elim_some]
  rw [unexpected, Walk.unexpected, hname, h.pc]
  exact meets_conflict _ _

/-- A message leads on from where the core is parked. -/
theorem meets_follow (h : w.core.Parked s) (payload : Payload) :
    Option.Rel (FieldOutcome.Meets t) (w.follow t payload) ((w.walk t).follow t s payload) := by
  have hretire (count : Nat) := meets_retire w t count h
  cases payload with
  | sync address count =>
      -- A sync starts anew whether or not its count is met.
      rw [follow, Walk.follow, ← (hretire count).1]
      exact .some (meets_restart _ t address)
  | exception address count =>
      exact .some ((hretire count).andThen fun _ _ => meets_restart _ t address)
  | directBranch taken count =>
      refine .some ((hretire count).andThen fun s' hs' => ?_)
      rw [hs'.branch?_eq]
      cases s'.outcome? taken with
      | none => exact meets_unexpected hs' _
      | some address =>
          simp only
          split
          · exact meets_run _ t _
          · exact meets_restart _ t address
  | indirectBranch target count =>
      refine .some ((hretire count).andThen fun s' hs' => ?_)
      rw [hs'.jump?_eq]
      cases s'.jump? target with
      | none => exact meets_unexpected hs' _
      | some address => exact meets_restart _ t address
  | print fragment => exact .none
  | timestamp => exact .none
  | error code => exact .none

end FieldWalk

/-! ## Messages -/

/-- Both effects are the same. -/
structure FieldEffect.Shows (e : FieldEffect) (e' : Effect) : Prop where
  core : e.core.Shows e'.core
  cache : e.cache = e'.cache
  visits : e.visits = e'.visits
  failure : e.failure? = e'.failure?

theorem FieldOutcome.Meets.shows (h : o.Meets t o') :
    (FieldEffect.ofOutcome o).Shows (.ofOutcome o') := by
  obtain ⟨r, w⟩ := o
  obtain ⟨r', w'⟩ := o'
  obtain ⟨rfl, h⟩ := h
  cases r with
  | ok u =>
      cases r' with
      | ok s => exact ⟨⟨h, rfl, rfl⟩, rfl, rfl, rfl⟩
      | error e => exact h.elim
  | error e =>
      cases r' with
      | ok s => exact h.elim
      | error e' => exact ⟨⟨⟨rfl, rfl⟩, rfl, rfl⟩, rfl, rfl, congrArg some h⟩

namespace CoreFields.Shows

theorem start (depth : Nat) : (start depth).Shows (.start depth) :=
  ⟨⟨rfl, rfl⟩, rfl, rfl⟩

theorem fault (h : c.Shows core) : c.fault.Shows core.fault :=
  ⟨⟨rfl, rfl⟩, rfl, congrArg ReturnStack.clear h.stack⟩

theorem walk_eq (h : c.Shows core) (t : Terrain) (cache : SiteCache) :
    FieldWalk.walk t ⟨c, cache, []⟩ = ⟨core.retired, core.stack, cache, [], t.maxRun⟩ := by
  rw [FieldWalk.walk, h.retired, h.stack]
  rfl

theorem meets_outcome? (h : c.Shows core) (t : Terrain) (cache : SiteCache) (payload : Payload) :
    Option.Rel (FieldOutcome.Meets t) (c.outcome? t cache payload)
      (core.outcome? t cache payload) := by
  have hrestart (address : UInt64) := FieldWalk.meets_restart ⟨c, cache, []⟩ t address
  have hfollow (s : Stop) (hs : c.Parked s) :=
    FieldWalk.meets_follow (w := ⟨c, cache, []⟩) (t := t) hs payload
  rw [h.walk_eq] at hrestart hfollow
  have hphase := h.phase
  cases hcore : core.phase with
  | parked s =>
      rw [hcore] at hphase
      simp only [Parked.outcome?_eq hphase, Core.outcome?, hcore]
      exact hfollow s hphase
  | _ =>
      -- The place is lost, so there is nothing but a sync to follow.
      rw [hcore] at hphase
      cases payload with
      | sync address count =>
          simp only [CoreFields.outcome?, Core.outcome?, hcore, hphase.1]
          exact .some (hrestart address)
      | _ =>
          simp only [CoreFields.outcome?, Core.outcome?, hcore, hphase.1]
          exact .none

/-- A message tells both the same. -/
theorem step (h : c.Shows core) (t : Terrain) (cache : SiteCache) (payload : Payload) :
    (c.step t cache payload).Shows (core.step t cache payload) := by
  have houtcome := h.meets_outcome? t cache payload
  unfold CoreFields.step
  rw [Core.step_eq]
  generalize c.outcome? t cache payload = o?, core.outcome? t cache payload = o?' at houtcome
  cases payload with
  | error code =>
      rw [h.stack]
      exact ⟨.start _, rfl, rfl, rfl⟩
  | _ =>
      cases houtcome with
      | none => exact ⟨h, rfl, rfl, rfl⟩
      | some hmeets => exact hmeets.shows

end CoreFields.Shows

/-! ## Tracers -/

namespace Tracer

theorem core_process_eq (t : Tracer) (m : Message) (id : UInt16) :
    (t.process m).2.core id =
      if m.core = id && t.selects id then (t.effect m).core else t.core id := by
  by_cases hid : m.core = id
  · subst hid
    cases hs : t.selects m.core with
    | false => simp [process_of_not_selects hs]
    | true => simp [core_process_self hs]
  · simp [core_process_of_ne hid, hid]

theorem core_faultCore_eq (t : Tracer) (id' id : UInt16) :
    (t.faultCore id').2.core id =
      if id' = id && t.selects id then (t.core id).fault else t.core id := by
  by_cases hid : id' = id
  · subst hid
    cases hs : t.selects id' with
    | false => simp [faultCore, hs]
    | true => simp [core_faultCore_self hs]
  · simp [core_faultCore_of_ne hid, hid]

theorem core_faultAll_eq (t : Tracer) (id : UInt16) :
    t.faultAll.2.core id = if t.cores.contains id then (t.core id).fault else t.core id := by
  simp only [faultAll, core, Std.TreeMap.getD_eq_getD_getElem?, Std.TreeMap.getElem?_map,
    Std.TreeMap.contains_eq_isSome_getElem?]
  cases t.cores[id]? <;> rfl

end Tracer

/-- What a request tells a core, given all that is known when it is made. -/
def CoreFields.perform (t : Tracer) (id : UInt16) (c : CoreFields) : Tracer.Request → CoreFields
  | .process m =>
    if m.core = id && t.selects id then (c.step t.terrain t.cache m.payload).core else c
  | .takeUndelivered => c
  | .fault (some id') => if id' = id && t.selects id then c.fault else c
  | .fault none => if t.cores.contains id then c.fault else c
  | .reset => start t.options.returnStack

/-- What is known about a core after requests to a tracer. -/
def CoreFields.performAll (t : Tracer) (id : UInt16) (c : CoreFields) :
    List Tracer.Request → CoreFields
  | [] => c
  | q :: qs => (c.perform t id q).performAll (t.perform q).2 id qs

namespace CoreFields.Shows

variable {t : Tracer} {id : UInt16}

theorem perform (h : c.Shows (t.core id)) (q : Tracer.Request) :
    (c.perform t id q).Shows ((t.perform q).2.core id) := by
  cases q with
  | process m =>
      rw [CoreFields.perform, Tracer.perform, Tracer.core_process_eq]
      split
      · rename_i hid
        obtain ⟨rfl, -⟩ : m.core = id ∧ t.selects id = true := by simpa using hid
        exact (h.step t.terrain t.cache m.payload).core
      · exact h
  | takeUndelivered => exact h
  | fault id? =>
      cases id? with
      | none =>
          rw [CoreFields.perform, Tracer.perform, Tracer.fault, Tracer.core_faultAll_eq]
          split
          · exact h.fault
          · exact h
      | some id' =>
          rw [CoreFields.perform, Tracer.perform, Tracer.fault, Tracer.core_faultCore_eq]
          split
          · exact h.fault
          · exact h
  | reset =>
      have hcore : t.reset.core id = .start t.options.returnStack := Std.TreeMap.getD_emptyc
      exact hcore ▸ .start _

theorem performAll (h : c.Shows (t.core id)) (qs : List Tracer.Request) :
    (c.performAll t id qs).Shows ((t.performAll qs).core id) := by
  induction qs generalizing t c with
  | nil => exact h
  | cons q qs ih => exact ih (h.perform q)

/-- The fields of a core that waits at an instruction. -/
theorem sound_of_parked (h : c.Shows core) (hcore : core.phase = .parked s)
    (hc : core.Sound image depth) : c.Sound image depth := by
  obtain ⟨haddress, hinstruction, hbranching, hsynced⟩ := hc.parked s hcore
  have hphase := h.phase
  rw [hcore] at hphase
  obtain ⟨hpc, hpending, hstate⟩ := hphase
  refine ⟨fun hb => ?_, fun hs => ?_, fun hu => ?_, fun _ => hpc ▸ haddress, ?_⟩
  · have hneeds : s.needsEvidence = true := by
      by_contra hneeds
      simp [hstate, hneeds] at hb
    exact ⟨_, hpending, hpc ▸ hinstruction, hbranching hneeds⟩
  · have hneeds : s.needsEvidence = false := by
      by_contra hneeds
      simp [hstate, hneeds] at hs
    obtain ⟨target, htarget, hlanding⟩ := hsynced hneeds
    rw [hpc]
    exact ⟨_, target, hpending, hinstruction, htarget, hlanding⟩
  · rw [hstate] at hu
    cases hneeds : s.needsEvidence <;> simp [hneeds] at hu
  · rw [h.stack]
    exact hc.depth

theorem sound (h : c.Shows core) (hc : core.Sound image depth) : c.Sound image depth := by
  have hphase := h.phase
  cases hcore : core.phase with
  | parked s => exact h.sound_of_parked hcore hc
  | _ =>
      obtain ⟨hretired, hstack⟩ := hc.unplaced (by simp [hcore])
      rw [hcore] at hphase
      obtain ⟨hstate, hpending⟩ := hphase
      refine ⟨by simp [hstate], by simp [hstate], fun _ => ?_, fun hne => absurd hpending hne, ?_⟩
      · exact ⟨hpending, h.retired.trans hretired, h.stack ▸ hstack⟩
      · rw [h.stack]
        exact hc.depth

end CoreFields.Shows

/-- Whatever was asked of a tracer, the fields of each core fit together. -/
theorem CoreFields.sound_performAll (image : Image) (options : TracerOptions)
    (hcache : cache.Valid image) (qs : List Tracer.Request) (id : UInt16) :
    let depth := min options.returnStack maxReturnStack
    ((start depth).performAll (.start image options cache) id qs).Sound image depth := by
  intro depth
  have hconsistent := (Tracer.Consistent.start image options hcache).performAll qs
  have hsound := hconsistent.sound id
  rw [Tracer.image_performAll, Tracer.options_performAll] at hsound
  have hcore : (Tracer.start image options cache).core id = .start depth :=
    Std.TreeMap.getD_emptyc
  exact (Shows.performAll (hcore ▸ .start depth) qs).sound hsound

end Retrace
