import Retrace.Proofs.Trace.Effects

/-!
# Cores do not depend on each other

What messages lead to on one core depends on what is known of that core and on nothing else: not on
the cache, and not on messages of other cores.
-/

namespace Retrace

namespace Tracer

/-- Why a message fails, if it does, and what its core executes. -/
def answer (t : Tracer) (m : Message) : Option Disagreement × List Visit :=
  if t.selects m.core then ((t.effect m).failure?, (t.effect m).visits) else (none, [])

/-- The tracers know the same of the core, and their caches hold only what the image gives. -/
structure Agree (id : UInt16) (t t' : Tracer) : Prop where
  image : t'.image = t.image
  options : t'.options = t.options
  core : t'.core id = t.core id
  sites : t.cache.Valid t.image
  sites' : t'.cache.Valid t.image

variable {t t' : Tracer} {m m' : Message} {id : UInt16}

theorem process_answer (t : Tracer) (m : Message) :
    (t.process m).1 =
      match (t.answer m).1 with
      | none => .ok ((t.answer m).2.map (Record.of m))
      | some e => .error e := by
  cases hs : t.selects m.core with
  | false => simp [answer, hs, process_of_not_selects hs]
  | true =>
      rw [process_of_selects hs, answer, if_pos hs]
      cases (t.effect m).failure? <;> rfl

theorem reconstructed_answer (t : Tracer) (m : Message) :
    t.reconstructed m = (t.answer m).2.map (Record.of m) := by
  cases hs : t.selects m.core with
  | false => simp [answer, hs, reconstructed_of_not_selects hs]
  | true => simp [answer, hs, reconstructed_of_selects hs]

namespace Agree

theorem selects (h : t.Agree id t') (id' : UInt16) : t'.selects id' = t.selects id' := by
  rw [Tracer.selects, h.options, Tracer.selects]

theorem terrain (h : t.Agree id t') : t'.terrain = t.terrain := by
  rw [Tracer.terrain, h.image, h.options, Tracer.terrain]

theorem effect (h : t.Agree m.core t') (hcore : m'.core = m.core)
    (hpayload : m'.payload = m.payload) : (t.effect m).Alike t.image (t'.effect m') := by
  rw [Tracer.effect, Tracer.effect, h.terrain, hcore, h.core, hpayload]
  exact (t.core m.core).alike_step (t := t.terrain) m.payload h.sites h.sites'

/-- A message of the core leads to the same with both, whenever it was sent. -/
theorem answer (h : t.Agree m.core t') (hcore : m'.core = m.core)
    (hpayload : m'.payload = m.payload) : t'.answer m' = t.answer m := by
  have heffect := h.effect hcore hpayload
  rw [Tracer.answer, Tracer.answer, hcore, h.selects, heffect.failure?, heffect.visits]

theorem process (h : t.Agree m.core t') (hcore : m'.core = m.core)
    (hpayload : m'.payload = m.payload) : (t.process m).2.Agree m.core (t'.process m').2 := by
  refine ⟨by simp [h.image], by simp [h.options], ?_, ?_, ?_⟩
  · cases hs : t.selects m.core with
    | false =>
        have hs' : t'.selects m'.core = false := by rw [hcore, h.selects, hs]
        rw [process_of_not_selects hs, process_of_not_selects hs', h.core]
    | true =>
        have hs' : t'.selects m'.core = true := by rw [hcore, h.selects, hs]
        have hcore' := core_process_self hs'
        rw [hcore] at hcore'
        rw [hcore', core_process_self hs, (h.effect hcore hpayload).core]
  · rw [image_process]
    exact sites_process h.sites m
  · rw [image_process, ← h.image]
    exact sites_process (h.image ▸ h.sites') m'

/-- A message of another core tells nothing of the core. -/
theorem process_of_ne (h : t.Agree id t') (hid : m.core ≠ id) : (t.process m).2.Agree id t' :=
  ⟨by simp [h.image], by simp [h.options], by rw [h.core, core_process_of_ne hid],
    by rw [image_process]; exact sites_process h.sites m, by rw [image_process]; exact h.sites'⟩

/-- Records that are kept do not matter. -/
theorem undelivered (h : t.Agree id t') (kept kept' : List Record) :
    Agree id { t with undelivered := kept } { t' with undelivered := kept' } :=
  ⟨h.image, h.options, h.core, h.sites, h.sites'⟩

end Agree

end Tracer

end Retrace
