import Retrace.Proofs.Trace.Independence

/-!
# Cores whose place is lost

A core whose place is not known learns nothing until a sync tells it. What a sync leads to then
does not depend on the time before, nor on its count.
-/

namespace Retrace

variable {t t' : Tracer} {m m' : Message} {id : UInt16}

theorem Core.outcome?_of_unplaced {t : Terrain} {cache : SiteCache} {c : Core} {payload : Payload}
    (h : ∀ s, c.phase ≠ .parked s) :
    c.outcome? t cache payload =
      match payload with
      | .sync address _ => some ((c.walk t cache).restart t address)
      | _ => none := by
  cases hp : c.phase with
  | parked s => exact absurd hp (h s)
  | _ => cases payload <;> simp [outcome?, hp]

namespace Tracer

/-- All cores are settled, and the cache holds only what the image gives. -/
structure Settled (t : Tracer) : Prop where
  cores : ∀ id, (t.core id).Settled t.options.returnStack
  sites : t.cache.Valid t.image

/-- The place of the core is not known. -/
structure Lost (id : UInt16) (t : Tracer) : Prop where
  settled : t.Settled
  unplaced : ∀ s, t.phase id ≠ .parked s

/-- The tracers know the same of the core, if it is reconstructed. -/
structure Rejoined (id : UInt16) (t t' : Tracer) : Prop where
  options : t'.options = t.options
  agree : t.selects id = true → t.Agree id t'

/-! ## What every message and every fault keeps -/

theorem settled_start (image : Image) (options : TracerOptions) (slots : Nat) :
    (start image options (.empty slots)).Settled where
  cores id := by
    have hc : (start image options (.empty slots)).core id =
        .start (min options.returnStack maxReturnStack) := Std.TreeMap.getD_emptyc
    rw [hc]
    exact Core.settled_start _
  sites := SiteCache.valid_empty image slots

theorem core_faultCore (t : Tracer) (id id' : UInt16) :
    (t.faultCore id).2.core id' = t.core id' ∨
      (t.faultCore id).2.core id' = (t.core id').fault := by
  by_cases hid : id = id'
  · subst hid
    cases hs : t.selects id with
    | false => exact .inl (by simp [faultCore, hs])
    | true => exact .inr (core_faultCore_self hs)
  · exact .inl (core_faultCore_of_ne hid)

theorem core_faultAll (t : Tracer) (id : UInt16) :
    t.faultAll.2.core id = t.core id ∨ t.faultAll.2.core id = (t.core id).fault := by
  simp only [faultAll, core, Std.TreeMap.getD_eq_getD_getElem?, Std.TreeMap.getElem?_map]
  cases t.cores[id]? with
  | none => exact .inl rfl
  | some c => exact .inr rfl

theorem core_fault (t : Tracer) (id? : Option UInt16) (id : UInt16) :
    (t.fault id?).2.core id = t.core id ∨ (t.fault id?).2.core id = (t.core id).fault := by
  cases id? with
  | none => exact t.core_faultAll id
  | some id' => exact t.core_faultCore id' id

namespace Settled

theorem undelivered (h : t.Settled) (kept : List Record) :
    Settled { t with undelivered := kept } :=
  ⟨h.cores, h.sites⟩

theorem process (h : t.Settled) (m : Message) : (t.process m).2.Settled := by
  refine ⟨fun id => ?_, by rw [image_process]; exact sites_process h.sites m⟩
  rw [options_process]
  rcases t.core_process m id with hc | ⟨rfl, hc⟩
  · rw [hc]
    exact h.cores id
  · rw [hc]
    exact (h.cores m.core).step

theorem fault (h : t.Settled) (id? : Option UInt16) : (t.fault id?).2.Settled := by
  obtain ⟨cores, hfault⟩ := t.fault_eq id?
  refine ⟨fun id => ?_, by rw [hfault]; exact h.sites⟩
  have hoptions : (t.fault id?).2.options = t.options := by rw [hfault]
  rw [hoptions]
  rcases t.core_fault id? id with hc | hc
  · rw [hc]
    exact h.cores id
  · rw [hc]
    exact (h.cores id).fault

end Settled

/-! ## What messages tell of a core whose place is lost -/

namespace Lost

theorem outcome? (h : t.Lost id) (cache : SiteCache) (payload : Payload) :
    (t.core id).outcome? t.terrain cache payload =
      match payload with
      | .sync address _ => some (((t.core id).walk t.terrain cache).restart t.terrain address)
      | _ => none :=
  Core.outcome?_of_unplaced h.unplaced

theorem answer (h : t.Lost m.core) (hm : ∀ address count, m.payload ≠ .sync address count) :
    t.answer m = (none, []) ∧ (t.process m).2.Lost m.core := by
  have heffect : (t.effect m).failure? = none ∧ (t.effect m).visits = [] ∧
      ∀ s, (t.effect m).core.phase ≠ .parked s := by
    by_cases hp : ∃ code, m.payload = .error code
    · obtain ⟨code, hcode⟩ := hp
      rw [effect, hcode, Core.step_error]
      exact ⟨rfl, rfl, by simp [Core.start]⟩
    · have hnone : (t.core m.core).outcome? t.terrain t.cache m.payload = none := by
        rw [h.outcome?]
        cases hpayload : m.payload with
        | sync address count => exact absurd hpayload (hm address count)
        | _ => rfl
      rw [effect, Core.step_of_none hnone fun code hcode => hp ⟨code, hcode⟩]
      exact ⟨rfl, rfl, h.unplaced⟩
  obtain ⟨hfailure, hvisits, hphase⟩ := heffect
  refine ⟨by rw [Tracer.answer, hfailure, hvisits, ite_self], h.settled.process m, ?_⟩
  cases hs : t.selects m.core with
  | false =>
      rw [process_of_not_selects hs]
      exact h.unplaced
  | true =>
      rw [phase, core_process_self hs]
      exact hphase

theorem effect_sync {address : UInt64} {count : Nat} (h : t.Lost m.core)
    (hm : m.payload = .sync address count) :
    t.effect m =
      .ofOutcome (((t.core m.core).walk t.terrain t.cache).restart t.terrain address) := by
  rw [effect, hm]
  exact Core.step_of_some (h.outcome? t.cache _) (by simp)

/-- A sync leads to the same whatever was known before, and whatever its count. -/
theorem sync {address : UInt64} {count count' : Nat} (h : t.Lost m.core) (h' : t'.Lost m.core)
    (himage : t'.image = t.image) (hoptions : t'.options = t.options) (hcore : m'.core = m.core)
    (hm : m.payload = .sync address count) (hm' : m'.payload = .sync address count') :
    t'.answer m' = t.answer m ∧ (t.process m).2.Rejoined m.core (t'.process m').2 := by
  have hterrain : t'.terrain = t.terrain := by rw [terrain, himage, hoptions, terrain]
  have hselects : t'.selects m'.core = t.selects m.core := by
    rw [hcore, selects, hoptions, selects]
  -- Neither core has return addresses or counts half-words, so only the caches of the walks differ.
  have hwalk : ((t.core m.core).walk t.terrain t.cache).Alike t.terrain.image
      ((t'.core m'.core).walk t.terrain t'.cache) := by
    have hsites' : t'.cache.Valid t.image := himage ▸ h'.settled.sites
    rw [hcore, (h.settled.cores m.core).unplaced h.unplaced,
      (h'.settled.cores m.core).unplaced h'.unplaced, hoptions]
    exact ⟨rfl, h.settled.sites, hsites'⟩
  have heffect : (t.effect m).Alike t.image (t'.effect m') := by
    rw [h.effect_sync hm, effect_sync (hcore ▸ h') hm', hterrain]
    exact Effect.alike_ofOutcome hwalk.restart
  refine ⟨by rw [Tracer.answer, Tracer.answer, hselects, heffect.failure?, heffect.visits],
    by simp [hoptions], fun hs => ⟨by simp [himage], by simp [hoptions], ?_, ?_, ?_⟩⟩
  · rw [selects_process] at hs
    rw [core_process_self hs, ← hcore, core_process_self (hselects.trans hs), heffect.core]
  · rw [image_process]
    exact sites_process h.settled.sites m
  · rw [image_process, ← himage]
    exact sites_process h'.settled.sites m'

end Lost

namespace Rejoined

theorem undelivered (h : t.Rejoined id t') (kept kept' : List Record) :
    Rejoined id { t with undelivered := kept } { t' with undelivered := kept' } :=
  ⟨h.options, fun hs => (h.agree hs).undelivered kept kept'⟩

theorem answer (h : t.Rejoined m.core t') (hcore : m'.core = m.core)
    (hpayload : m'.payload = m.payload) :
    t'.answer m' = t.answer m ∧ (t.process m).2.Rejoined m.core (t'.process m').2 := by
  refine ⟨?_, by simp [h.options], fun hs => ?_⟩
  · cases hs : t.selects m.core with
    | false =>
        have hs' : t'.selects m'.core = false := by rw [hcore, selects, h.options]; exact hs
        simp [Tracer.answer, hs, hs']
    | true => exact (h.agree hs).answer hcore hpayload
  · rw [selects_process] at hs
    exact (h.agree hs).process hcore hpayload

end Rejoined

end Tracer

end Retrace
