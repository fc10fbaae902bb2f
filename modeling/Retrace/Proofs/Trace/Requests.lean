import Retrace.Proofs.Trace.Effects

/-!
# Whatever is asked of a tracer

A tracer that looks up the same addresses again and again answers like one that keeps no site. The
records it gives tell what the image tells about their addresses.
-/

namespace Retrace

/-- What may be asked of a tracer. -/
inductive Tracer.Request where
  | process (m : Message)
  | takeUndelivered
  | fault (id? : Option UInt16)
  | reset

inductive Tracer.Response where
  | processed (result : Except Disagreement (List Record))
  | taken (records : List Record)
  | faulted (count : Nat)
  | done

/-- The visit tells what the image tells about its address. -/
structure Visit.Faithful (image : Image) (v : Visit) : Prop where
  instruction : image.instructionAt v.address = .ok v.instruction
  correlation : v.correlation = image.lookup v.address
  flow : v.flow = .of v.instruction.operation

namespace Tracer

def perform (t : Tracer) : Request → Response × Tracer
  | .process m => (.processed (t.process m).1, (t.process m).2)
  | .takeUndelivered => (.taken t.takeUndelivered.1, t.takeUndelivered.2)
  | .fault id? => (.faulted (t.fault id?).1, (t.fault id?).2)
  | .reset => (.done, t.reset)

def responses (t : Tracer) : List Request → List Response
  | [] => []
  | q :: qs => (t.perform q).1 :: (t.perform q).2.responses qs

def performAll (t : Tracer) (qs : List Request) : Tracer :=
  qs.foldl (fun t q => (t.perform q).2) t

/-- The records that are reconstructed on requests, whether they are given, kept or dropped. -/
def rebuilt (t : Tracer) : List Request → List Record
  | [] => []
  | .process m :: qs => t.reconstructed m ++ (t.perform (.process m)).2.rebuilt qs
  | q :: qs => (t.perform q).2.rebuilt qs

/-- The tracers differ in their caches alone, which hold only what the image gives. -/
structure Alike (t t' : Tracer) : Prop where
  eq : t' = { t with cache := t'.cache }
  sites : t.cache.Valid t.image
  sites' : t'.cache.Valid t.image

end Tracer

variable {t t' : Tracer} {image : Image}

/-! ## Tracers with different caches -/

namespace Tracer.Alike

theorem effect (h : t.Alike t') (m : Message) : (t.effect m).Alike t.image (t'.effect m) := by
  rw [h.eq]
  exact (t.core m.core).alike_step (t := t.terrain) m.payload h.sites h.sites'

theorem process (h : t.Alike t') (m : Message) :
    (t'.process m).1 = (t.process m).1 ∧ t'.reconstructed m = t.reconstructed m ∧
      (t.process m).2.Alike (t'.process m).2 := by
  have heffect := h.effect m
  have hselects : t'.selects m.core = t.selects m.core := by rw [h.eq]; rfl
  cases hs : t.selects m.core with
  | false =>
      rw [hs] at hselects
      rw [process_of_not_selects hs, process_of_not_selects hselects,
        reconstructed_of_not_selects hs, reconstructed_of_not_selects hselects]
      exact ⟨rfl, rfl, h⟩
  | true =>
      rw [hs] at hselects
      have hcores : t'.cores = t.cores := by rw [h.eq]
      have hkept : t'.undelivered = t.undelivered := by rw [h.eq]
      rw [process_of_selects hs, process_of_selects hselects, reconstructed_of_selects hs,
        reconstructed_of_selects hselects, heffect.failure?, heffect.visits, heffect.core, hcores,
        hkept]
      cases (t.effect m).failure? with
      | none => exact ⟨rfl, rfl, by rw [h.eq], heffect.sites, heffect.sites'⟩
      | some e => exact ⟨rfl, rfl, by rw [h.eq], heffect.sites, heffect.sites'⟩

theorem fault (h : t.Alike t') (id? : Option UInt16) :
    (t'.fault id?).1 = (t.fault id?).1 ∧ (t.fault id?).2.Alike (t'.fault id?).2 := by
  obtain ⟨heq, hs, hs'⟩ := h
  rw [heq]
  cases id? with
  | none => exact ⟨rfl, rfl, hs, hs'⟩
  | some id =>
      cases hid : t.options.coreMask.contains id.toNat with
      | true =>
          simp only [Tracer.fault, faultCore, selects, hid, ite_true]
          exact ⟨rfl, rfl, hs, hs'⟩
      | false =>
          simp only [Tracer.fault, faultCore, selects, hid, Bool.false_eq_true, ite_false,
            Bool.toNat_false, true_and]
          exact ⟨rfl, hs, hs'⟩

theorem perform (h : t.Alike t') (q : Request) :
    (t'.perform q).1 = (t.perform q).1 ∧ (t.perform q).2.Alike (t'.perform q).2 := by
  cases q with
  | process m =>
      obtain ⟨hresult, -, halike⟩ := h.process m
      exact ⟨congrArg Response.processed hresult, halike⟩
  | takeUndelivered =>
      refine ⟨?_, ?_, h.sites, h.sites'⟩
      · rw [h.eq]; rfl
      · rw [h.eq]; rfl
  | fault id? =>
      obtain ⟨hcount, halike⟩ := h.fault id?
      exact ⟨congrArg Response.faulted hcount, halike⟩
  | reset => exact ⟨rfl, by rw [h.eq]; rfl, h.sites, h.sites'⟩

theorem performAll (h : t.Alike t') (qs : List Request) :
    t'.responses qs = t.responses qs ∧ t'.rebuilt qs = t.rebuilt qs ∧
      (t.performAll qs).Alike (t'.performAll qs) := by
  induction qs generalizing t t' with
  | nil => exact ⟨rfl, rfl, h⟩
  | cons q qs ih =>
      obtain ⟨hresponse, hperform⟩ := h.perform q
      obtain ⟨hresponses, hrebuilt, halike⟩ := ih hperform
      refine ⟨by rw [responses, responses, hresponse, hresponses], ?_, halike⟩
      cases q with
      | process m => rw [rebuilt, rebuilt, (h.process m).2.1, hrebuilt]
      | _ => exact hrebuilt

end Tracer.Alike

/-! ## What records tell -/

theorem Visit.faithful_ofSite {a : UInt64} {site : Site} (h : image.siteAt a = .ok site) :
    (ofSite a site).Faithful image := by
  obtain ⟨hi, hc⟩ := Image.siteAt_eq_ok.mp h
  refine ⟨hi, ?_, rfl⟩
  simp only [correlation, ofSite, hc]
  rfl

theorem Walk.kept_faithful (t : Terrain) :
    Kept t fun w => w.cache.Valid t.image ∧ ∀ v ∈ w.visited, v.Faithful t.image where
  obstacle w a o cache hf hw := by
    have hv := (hw.1.fetch a).2
    rw [hf] at hv
    exact ⟨hv, hw.2⟩
  visit w a site cache _ hf hw := by
    obtain ⟨hs, hv⟩ := hw.1.fetch a
    rw [hf] at hs hv
    exact ⟨hv, List.forall_mem_cons.mpr ⟨Visit.faithful_ofSite hs.symm, hw.2⟩⟩
  count _ hw := hw

theorem Core.faithful_step {t : Terrain} {cache : SiteCache} (c : Core) (payload : Payload)
    (h : cache.Valid t.image) : ∀ v ∈ (c.step t cache payload).visits, v.Faithful t.image := by
  by_cases hp : ∃ code, payload = .error code
  · obtain ⟨code, rfl⟩ := hp
    rw [step_error]
    exact List.forall_mem_nil _
  · have hp : ∀ code, payload ≠ .error code := fun code hcode => hp ⟨code, hcode⟩
    cases ho : c.outcome? t cache payload with
    | none =>
        rw [step_of_none ho hp]
        exact List.forall_mem_nil _
    | some o =>
        have hkept := outcome?_keeps (Walk.kept_faithful t) ⟨h, List.forall_mem_nil _⟩ ho
        rw [step_of_some ho hp, Effect.visits_ofOutcome]
        exact fun v hv => hkept.2 v (List.mem_reverse.mp hv)

namespace Tracer

theorem faithful_reconstructed (h : t.cache.Valid t.image) (m : Message) :
    ∀ r ∈ t.reconstructed m, r.Faithful t.image := by
  cases hs : t.selects m.core with
  | false =>
      rw [reconstructed_of_not_selects hs]
      exact List.forall_mem_nil _
  | true =>
      rw [reconstructed_of_selects hs]
      intro r hr
      obtain ⟨v, hv, rfl⟩ := List.mem_map.mp hr
      exact (t.core m.core).faithful_step (t := t.terrain) m.payload h v hv

theorem image_perform (t : Tracer) (q : Request) : (t.perform q).2.image = t.image := by
  cases q with
  | process m => exact image_process
  | fault id? =>
      obtain ⟨cores, h⟩ := t.fault_eq id?
      rw [perform, h]
  | takeUndelivered | reset => rfl

theorem faithful_rebuilt (h : t.cache.Valid t.image) (qs : List Request) :
    ∀ r ∈ t.rebuilt qs, r.Faithful t.image := by
  induction qs generalizing t with
  | nil => exact List.forall_mem_nil _
  | cons q qs ih =>
      have halike : t.Alike t := ⟨rfl, h, h⟩
      have hrest := ih (halike.perform q).2.sites
      rw [image_perform] at hrest
      cases q with
      | process m =>
          intro r hr
          rcases List.mem_append.mp hr with hr | hr
          · exact faithful_reconstructed h m r hr
          · exact hrest r hr
      | _ => exact hrest

/-- Whatever is asked of it, a tracer with a cache of any size gives the same responses as one that
keeps no sites, and knows the same of all cores then. All of its records, those of failing requests
included, tell what the image tells about their addresses. -/
theorem caches_are_transparent (image : Image) (options : TracerOptions) (slots : Nat)
    (qs : List Request) :
    let cached := start image options (.empty slots)
    let uncached := start image options .disabled
    cached.responses qs = uncached.responses qs ∧
      (∀ id, (cached.performAll qs).phase id = (uncached.performAll qs).phase id ∧
        (cached.performAll qs).stackDepth id = (uncached.performAll qs).stackDepth id) ∧
      cached.rebuilt qs = uncached.rebuilt qs ∧ ∀ r ∈ cached.rebuilt qs, r.Faithful image := by
  intro cached uncached
  have hsites : cached.cache.Valid image := SiteCache.valid_empty image slots
  have halike : uncached.Alike cached := ⟨rfl, trivial, hsites⟩
  obtain ⟨hresponses, hrebuilt, hend⟩ := halike.performAll qs
  refine ⟨hresponses, fun id => ?_, hrebuilt, faithful_rebuilt hsites qs⟩
  rw [hend.eq]
  exact ⟨rfl, rfl⟩

end Tracer

end Retrace
