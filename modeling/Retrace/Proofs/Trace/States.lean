import Retrace.Proofs.Trace.Lost
import Retrace.Proofs.Trace.Requests
import Retrace.Proofs.Trace.Successors

/-!
# What is known of a core fits together

Whatever is asked of a tracer, a core that is parked waits at an instruction of the image, and a
core whose place is lost knows nothing and learns nothing but by a sync.
-/

namespace Retrace

open Isa

/-- Where a jump leads whose target the instruction determines. -/
def Stop.landing (base : BaseSet) (s : Stop) : JumpTarget → UInt64
  | .relative offset => base.truncate (s.relative offset)
  | .absolute address => base.truncate (UInt64.ofInt address &&& ~~~1)

/-- The image holds the instruction at the address, and execution waits there. -/
structure Stop.Sound (image : Image) (s : Stop) : Prop where
  address : s.address.toNat < 2 ^ image.base.addressBits
  instruction : image.instructionAt s.address = .ok s.instruction
  branching : s.needsEvidence = true →
    s.instruction.operation.isBranch = true ∨ s.instruction.operation.isUninferable = true
  synced : s.needsEvidence = false → ∃ target,
    s.instruction.operation.inferableTarget? = some target ∧
      s.landing image.base target = s.address

structure Core.Sound (image : Image) (depth : Nat) (c : Core) : Prop where
  parked : ∀ s, c.phase = .parked s → s.Sound image
  unplaced : (∀ s, c.phase ≠ .parked s) → c.retired = 0 ∧ c.stack.toList = []
  depth : c.stack.toList.length ≤ depth

namespace Tracer

/-- The request tells the place of the core, or that it is not known. -/
def Request.Recovers (id : UInt16) : Request → Prop
  | .process m => m.core = id ∧ (m.kind = .sync ∨ m.kind = .error)
  | .reset => True
  | .takeUndelivered | .fault _ => False

/-- What every request keeps. -/
structure Consistent (t : Tracer) : Prop where
  settled : t.Settled
  tracked : ∃ es, t.Tracked es
  selected : ∀ id, t.selects id = false → t.cores[id]? = none

end Tracer

variable {image : Image} {base : BaseSet} {s : Stop} {c : Core} {cache : SiteCache} {depth : Nat}
  {es : List Hop} {t : Tracer} {m : Message} {id : UInt16}

/-! ## Cores -/

/-- No instruction is as long as the address space. -/
theorem Stop.truncate_after_ne (base : BaseSet) (s : Stop) : base.truncate s.after ≠ s.address := by
  obtain ⟨a, ⟨e, op⟩⟩ := s
  intro h
  have hnat := congrArg UInt64.toNat h
  simp only [BaseSet.toNat_truncate, after, UInt64.toNat_add, Instruction.size] at hnat
  cases base <;> cases e <;> simp [BaseSet.addressBits, Encoding.size] at hnat <;> omega

theorem Stop.landing_of_leads (h : Leads base s .onward s.address) : ∃ target,
    s.instruction.operation.inferableTarget? = some target ∧ s.landing base target = s.address := by
  generalize ha : s.address = a at h
  cases h with
  | jump hd => exact ⟨_, hd, rfl⟩
  | absolute hd => exact ⟨_, hd, rfl⟩
  | fallThrough => exact absurd ha.symm (s.truncate_after_ne base)

theorem Core.Tracked.sound (h : c.Tracked image es cache) (hs : c.phase = .parked s) :
    s.Sound image := by
  obtain ⟨hlatest, hparks⟩ := h.rests s hs
  cases es with
  | nil => cases hlatest
  | cons r es =>
      obtain ⟨haddress, hinstruction⟩ := h.known.trail.2.1
      obtain rfl : r.stop = s := Option.some.inj hlatest
      refine ⟨?_, hinstruction, ?_, ?_⟩
      · have hlt := BaseSet.toNat_truncate_lt image.base r.record.address
        rwa [haddress] at hlt
      · intro he
        simpa [Stop.needsEvidence, Operation.needsEvidence] using he
      · intro he
        rcases hparks with hneeds | hleads
        · rw [Stop.needsEvidence, hneeds] at he
          cases he
        · exact Stop.landing_of_leads hleads

theorem Core.Tracked.fault (h : c.Tracked image es cache) : c.fault.Tracked image es cache :=
  ⟨⟨h.known.trail, by simp [Core.fault], h.known.sites⟩, by simp [Core.fault]⟩

theorem Core.Tracked.sound_of_settled (h : c.Tracked image es cache) (hc : c.Settled depth) :
    c.Sound image depth where
  parked _ hs := h.sound hs
  unplaced hu := by
    rw [hc.unplaced hu]
    exact ⟨rfl, rfl⟩
  depth := by
    rw [ReturnStack.length_toList, ← hc.limit]
    exact c.stack.depth_le_limit

/-! ## What requests keep -/

namespace Tracer

theorem phase_of_absent (h : t.cores[id]? = none) : t.phase id = .unsynced := by
  simp [phase, core, Std.TreeMap.getD_eq_getD_getElem?, h, Core.start]

theorem absent_process (hs : t.selects id = false) (h : t.cores[id]? = none) :
    (t.process m).2.cores[id]? = none := by
  by_cases hid : m.core = id
  · rwa [process_of_not_selects (hid ▸ hs)]
  · rwa [cores_process_of_ne hid]

theorem absent_fault (hs : t.selects id = false) (h : t.cores[id]? = none)
    (id? : Option UInt16) : (t.fault id?).2.cores[id]? = none := by
  cases id? with
  | none => simp [fault, faultAll, Std.TreeMap.getElem?_map, h]
  | some id' =>
      by_cases hid : id' = id
      · simpa [fault, faultCore, hid, hs] using h
      · exact (cores_faultCore_of_ne hid).trans h

theorem options_perform (t : Tracer) (q : Request) : (t.perform q).2.options = t.options := by
  cases q with
  | process m => exact options_process
  | fault id? =>
      obtain ⟨cores, h⟩ := t.fault_eq id?
      rw [perform, h]
  | takeUndelivered | reset => rfl

namespace Consistent

theorem start (image : Image) (options : TracerOptions) (hcache : cache.Valid image) :
    (start image options cache).Consistent := by
  have hcore (id : UInt16) : (Tracer.start image options cache).core id =
      .start (min options.returnStack maxReturnStack) := Std.TreeMap.getD_emptyc
  refine ⟨⟨fun id => ?_, hcache⟩, ⟨fun _ => [], fun id => ?_⟩,
    fun id _ => Std.TreeMap.getElem?_emptyc⟩
  · rw [hcore]
    exact Core.settled_start _
  · rw [hcore]
    exact ⟨⟨trivial, by simp [Core.start], hcache⟩, by simp [Core.start]⟩

theorem process (h : t.Consistent) (m : Message) : (t.process m).2.Consistent := by
  obtain ⟨es, htracked⟩ := h.tracked
  refine ⟨h.settled.process m, ⟨_, tracked_process htracked m⟩, fun id hid => ?_⟩
  rw [selects_process] at hid
  exact absent_process hid (h.selected id hid)

theorem fault (h : t.Consistent) (id? : Option UInt16) : (t.fault id?).2.Consistent := by
  obtain ⟨es, htracked⟩ := h.tracked
  obtain ⟨cores, hfault⟩ := t.fault_eq id?
  refine ⟨h.settled.fault id?, ⟨es, fun id => ?_⟩, fun id hid => ?_⟩
  · have himage : (t.fault id?).2.image = t.image := by rw [hfault]
    have hcache : (t.fault id?).2.cache = t.cache := by rw [hfault]
    rw [himage, hcache]
    rcases t.core_fault id? id with hc | hc
    · rw [hc]
      exact htracked id
    · rw [hc]
      exact (htracked id).fault
  · have hselects : (t.fault id?).2.selects id = t.selects id := by rw [hfault]; rfl
    rw [hselects] at hid
    exact absent_fault hid (h.selected id hid) id?

theorem reset (h : t.Consistent) : t.reset.Consistent := by
  have hcore (id : UInt16) : t.reset.core id = .start t.options.returnStack :=
    Std.TreeMap.getD_emptyc
  refine ⟨⟨fun id => ?_, h.settled.sites⟩, ⟨fun _ => [], fun id => ?_⟩,
    fun id _ => Std.TreeMap.getElem?_emptyc⟩
  · rw [hcore]
    exact Core.settled_start _
  · rw [hcore]
    exact ⟨⟨trivial, by simp [Core.start], h.settled.sites⟩, by simp [Core.start]⟩

theorem perform (h : t.Consistent) (q : Request) : (t.perform q).2.Consistent := by
  cases q with
  | process m => exact h.process m
  | takeUndelivered => exact ⟨h.settled.undelivered [], h.tracked, h.selected⟩
  | fault id? => exact h.fault id?
  | reset => exact h.reset

theorem performAll (h : t.Consistent) (qs : List Request) : (t.performAll qs).Consistent := by
  induction qs generalizing t with
  | nil => exact h
  | cons q qs ih => exact ih (h.perform q)

theorem sound (h : t.Consistent) (id : UInt16) :
    (t.core id).Sound t.image t.options.returnStack := by
  obtain ⟨es, htracked⟩ := h.tracked
  exact (htracked id).sound_of_settled (h.settled.cores id)

end Consistent

theorem image_performAll (t : Tracer) (qs : List Request) : (t.performAll qs).image = t.image := by
  induction qs generalizing t with
  | nil => rfl
  | cons q qs ih => exact (ih _).trans (t.image_perform q)

theorem options_performAll (t : Tracer) (qs : List Request) :
    (t.performAll qs).options = t.options := by
  induction qs generalizing t with
  | nil => rfl
  | cons q qs ih => exact (ih _).trans (t.options_perform q)

/-! ## Cores whose place is lost -/

/-- A core whose place is not known learns nothing but by a sync, and forgets nothing but by lost
messages. -/
theorem process_of_unplaced (h : ∀ s, t.phase m.core ≠ .parked s) (hsync : m.kind ≠ .sync)
    (herror : m.kind ≠ .error) :
    (t.process m).1 = .ok [] ∧ ∀ id, (t.process m).2.core id = t.core id := by
  cases hs : t.selects m.core with
  | false =>
      rw [process_of_not_selects hs]
      exact ⟨rfl, fun _ => rfl⟩
  | true =>
      have heffect : t.effect m = ⟨t.core m.core, t.cache, [], none⟩ := by
        have hnone : (t.core m.core).outcome? t.terrain t.cache m.payload = none := by
          rw [Core.outcome?_of_unplaced h]
          cases hp : m.payload with
          | sync address count => exact absurd (congrArg Payload.kind hp) hsync
          | _ => rfl
        exact Core.step_of_none hnone fun code hp => herror (congrArg Payload.kind hp)
      refine ⟨by rw [process_of_selects hs, heffect]; rfl, fun id => ?_⟩
      rcases t.core_process m id with hc | ⟨rfl, hc⟩
      · exact hc
      · rw [hc, heffect]

/-- A core stays faulted until its place is told, or all are forgotten. -/
theorem phase_perform_of_faulted (h : t.phase id = .faulted) {q : Request}
    (hq : ¬ q.Recovers id) : (t.perform q).2.phase id = .faulted := by
  cases q with
  | process m =>
      by_cases hid : m.core = id
      · subst hid
        have hunplaced : ∀ s, t.phase m.core ≠ .parked s := by simp [h]
        have hkind : m.kind ≠ .sync ∧ m.kind ≠ .error :=
          ⟨fun hk => hq ⟨rfl, .inl hk⟩, fun hk => hq ⟨rfl, .inr hk⟩⟩
        have hkept := (process_of_unplaced hunplaced hkind.1 hkind.2).2 m.core
        exact (congrArg Core.phase hkept).trans h
      · exact (congrArg Core.phase (core_process_of_ne hid)).trans h
  | takeUndelivered => exact h
  | fault id? =>
      rcases t.core_fault id? id with hc | hc
      · exact (congrArg Core.phase hc).trans h
      · exact congrArg Core.phase hc
  | reset => exact absurd trivial hq

/-! ## Tracers -/

/-- Whatever was asked of a tracer, each core is parked at an instruction of the image that a
message has to lead on from, or at a jump to itself, or nothing is known of it, and return stacks
have their depth. A core that is not selected is never synced. Until a sync, other messages tell a
core whose place is not known nothing, and they do not bring a faulted one back. -/
theorem cores_stay_sound (image : Image) (options : TracerOptions) (hcache : cache.Valid image)
    (qs : List Request) :
    let t := (start image options cache).performAll qs
    let depth := min options.returnStack maxReturnStack
    depth ≤ 4096 ∧ (∀ id, (t.core id).Sound image depth) ∧
      (∀ id, t.selects id = false → t.phase id = .unsynced) ∧
      (∀ m, (∀ s, t.phase m.core ≠ .parked s) → m.kind ≠ .sync → m.kind ≠ .error →
        (t.process m).1 = .ok [] ∧ ∀ id, (t.process m).2.core id = t.core id) ∧
      ∀ id q, t.phase id = .faulted → ¬ q.Recovers id → (t.perform q).2.phase id = .faulted := by
  intro t depth
  have hconsistent : t.Consistent := (Consistent.start image options hcache).performAll qs
  have himage : t.image = image := image_performAll _ qs
  have hoptions : t.options.returnStack = depth :=
    congrArg TracerOptions.returnStack (options_performAll _ qs)
  refine ⟨Nat.min_le_right _ _, fun id => ?_, fun id hid => ?_, ?_, ?_⟩
  · rw [← himage, ← hoptions]
    exact hconsistent.sound id
  · exact phase_of_absent (hconsistent.selected id hid)
  · exact fun m hm hsync herror => process_of_unplaced hm hsync herror
  · exact fun id q hid hq => phase_perform_of_faulted hid hq

/-- A branch behind a return waits for its outcome, and an outcome tells a faulted core nothing. -/
theorem branch_and_fault_are_sound :
    let t := (start callAndReturn { returnStack := 1 } (.empty 1)).performAll
      [.process ⟨0, 0, .sync 0x1000 0⟩, .fault (some 1)]
    (t.phase 0).text = "branching" ∧ t.phase 1 = .faulted ∧ (t.core 0).Sound callAndReturn 1 ∧
      (t.process ⟨1, 0, .directBranch true 0⟩).1 = .ok [] := by
  intro t
  have hbranching : (t.phase 0).text = "branching" := by decide +kernel +revert
  have hphase : t.phase 1 = .faulted := by decide +kernel +revert
  obtain ⟨-, hsound, -, hunplaced, -⟩ := cores_stay_sound callAndReturn { returnStack := 1 }
    (SiteCache.valid_empty callAndReturn 1) [.process ⟨0, 0, .sync 0x1000 0⟩, .fault (some 1)]
  have hlost : ∀ s, t.phase 1 ≠ .parked s := by simp [hphase]
  exact ⟨hbranching, hphase, hsound 0,
    (hunplaced ⟨1, 0, .directBranch true 0⟩ hlost (by decide) (by decide)).1⟩

end Tracer

end Retrace
