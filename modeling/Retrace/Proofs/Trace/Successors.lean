import Retrace.Proofs.Trace.Exits
import Retrace.Proofs.Trace.Reconstruction
import Retrace.Proofs.Trace.Sites

/-!
# Records follow the code

Whatever the messages of a trace say, reconstruction invents no way through the code: a record
comes after the one before it on the same core by an exit of that instruction or by a return to
the address after an earlier call, unless a message seeded a new run with it.
-/

namespace Retrace

open Isa

def Visit.stop (v : Visit) : Stop :=
  ⟨v.address, v.instruction⟩

/-- The address that execution continues at whatever was executed before. -/
def Payload.seed? : Payload → Option UInt64
  | .sync address _ | .exception address _ => some address
  | _ => none

/-- A record on the way of a core through the code. -/
structure Hop where
  record : Record
  /-- The message that the record is reconstructed for. -/
  message : Message
  /-- A run that the message seeds starts with the record. -/
  seeded : Bool
  deriving DecidableEq

namespace Hop

def stop (h : Hop) : Stop :=
  h.record.stop

/-- The records of one run for a message. -/
def run (m : Message) (seeded : Bool) : List Record → List Hop
  | [] => []
  | r :: rs => ⟨r, m, seeded⟩ :: rs.map (⟨·, m, false⟩)

/-- The records for a message, whose count covers the first `covered` of them. -/
def ofRecords (m : Message) (covered : Nat) (records : List Record) : List Hop :=
  run m false (records.take covered) ++ run m m.payload.seed?.isSome (records.drop covered)

end Hop

/-- The records of a core, each with the message that it is reconstructed for. -/
def Tracer.hops (id : UInt16) (t : Tracer) : List Message → List Hop
  | [] => []
  | m :: ms =>
    (if m.core = id then Hop.ofRecords m (t.covered m) (t.reconstructed m) else []) ++
      (t.process m).2.hops id ms

/-! ## Successors -/

/-- Execution may continue at the address after a record that comes after `earlier` ones, if the
message tells so where only a message can tell. -/
inductive Successor (base : BaseSet) (earlier : List Hop) (r : Hop) (m : Message) (a : UInt64) :
    Prop
  | exit {e} : Leads base r.stop e a →
      (∀ b, e = .target b → ∃ count, m.payload = .indirectBranch b count) →
      Successor base earlier r m a
  | return {c} : (r.record.instruction.operation.isReturn ||
        r.record.instruction.operation.isSwap) = true →
      c ∈ earlier → (c.record.instruction.operation.isCall ||
        c.record.instruction.operation.isSwap) = true →
      a = base.truncate c.stop.after → Successor base earlier r m a

/-- A run enters the code at the address: it is seeded there or continues after the latest record.
-/
def Entered (base : BaseSet) (es : List Hop) (m : Message) (seeded : Bool) (a : UInt64) : Prop :=
  (seeded = true ∧ ∃ b, m.payload.seed? = some b ∧ a = base.truncate b) ∨
    ∃ r earlier, es = r :: earlier ∧ Successor base earlier r m a

def Hop.Placed (image : Image) (h : Hop) : Prop :=
  image.base.truncate h.record.address = h.record.address ∧
    image.instructionAt h.record.address = .ok h.record.instruction

/-- The records of a core, the latest first, follow the code. -/
def Trail (image : Image) : List Hop → Prop
  | [] => True
  | h :: es => Entered image.base es h.message h.seeded h.record.address ∧ h.Placed image ∧
      Trail image es

/-- What walks rely on: the trail holds the calls of all return addresses, and sites are those of
the image. -/
structure Known (image : Image) (es : List Hop) (stack : ReturnStack) (cache : SiteCache) :
    Prop where
  trail : Trail image es
  returns : ∀ a ∈ stack.toList, ∃ c ∈ es, (c.record.instruction.operation.isCall ||
    c.record.instruction.operation.isSwap) = true ∧ a = image.base.truncate c.stop.after
  sites : cache.Valid image

/-- The latest record is that of the instruction that the core is parked at. -/
def Rests (image : Image) (es : List Hop) (s : Stop) : Prop :=
  es.head?.map Hop.stop = some s ∧ Parks image.base s

/-- The visits that a walk adds extend the trail by one run. -/
def Extends (t : Terrain) (m : Message) (seeded : Bool) (es : List Hop) (w : Walk) (o : Outcome) :
    Prop :=
  ∃ new : List Visit, o.2.visited = new.reverse ++ w.visited ∧
    Known t.image ((Hop.run m seeded (new.map (Record.of m))).reverse ++ es) o.2.stack o.2.cache ∧
    ∀ s, o.1 = .ok s → Rests t.image ((Hop.run m seeded (new.map (Record.of m))).reverse ++ es) s

variable {image : Image} {t : Terrain} {m : Message} {seeded : Bool} {es : List Hop} {w : Walk}
  {s : Stop} {a : UInt64}

/-! ## Runs -/

@[simp]
theorem Hop.run_false (m : Message) (rs : List Record) :
    run m false rs = rs.map (⟨·, m, false⟩) := by
  cases rs <;> rfl

@[simp]
theorem Hop.ofRecords_nil (m : Message) (covered : Nat) : ofRecords m covered [] = [] := by
  simp only [ofRecords, List.take_nil, List.drop_nil]
  rfl

theorem Hop.run_cons (m : Message) (seeded : Bool) (r : Record) (rs : List Record) :
    run m seeded (r :: rs) = ⟨r, m, seeded⟩ :: run m false rs := by
  rw [run_false]
  rfl

theorem Terrain.mem_stackAfter {stack : ReturnStack} (h : a ∈ (t.stackAfter s stack).toList) :
    a ∈ stack.toList ∨
      (s.instruction.operation.isCall || s.instruction.operation.isSwap) = true ∧
        a = t.after s := by
  have hpop : ∀ b : Bool, ∀ a ∈ (if b then stack.pop.2 else stack).toList, a ∈ stack.toList := by
    intro b a ha
    cases b with
    | false => exact ha
    | true =>
        simp only [ite_true, ReturnStack.toList_pop] at ha
        exact List.mem_of_mem_tail ha
  simp only [stackAfter] at h
  split at h
  · rename_i hc
    rw [ReturnStack.toList_push] at h
    rcases List.mem_cons.mp (List.mem_of_mem_take h) with rfl | h
    · exact .inr ⟨hc, rfl⟩
    · exact .inl (hpop _ _ h)
  · exact .inl (hpop _ _ h)

theorem Known.visit {cache : SiteCache} {site : Site} (h : Known t.image es w.stack w.cache)
    (ha : t.image.base.truncate a = a) (he : Entered t.image.base es m seeded a)
    (hc : cache.Valid t.image) (hs : t.image.siteAt a = .ok site) :
    Known t.image (⟨.of m (.ofSite a site), m, seeded⟩ :: es)
      (t.stackAfter ⟨a, site.instruction⟩ w.stack) cache where
  trail := ⟨he, ⟨ha, (Image.siteAt_eq_ok.mp hs).1⟩, h.trail⟩
  returns := by
    intro r hr
    rcases Terrain.mem_stackAfter hr with hr | ⟨hcall, rfl⟩
    · obtain ⟨c, hc, hcall⟩ := h.returns r hr
      exact ⟨c, List.mem_cons_of_mem _ hc, hcall⟩
    · exact ⟨_, List.mem_cons_self, hcall, rfl⟩
  sites := hc

theorem Known.successor {cache : SiteCache} {h : Hop} (hk : Known t.image es w.stack cache)
    (hn : t.continuation? h.stop w.stack = some a) : Successor t.image.base es h m a := by
  rcases Terrain.leads_of_continuation? hn with hl | ⟨hr, r, hmem, rfl⟩
  · exact .exit hl (by intro b hb; cases hb)
  · obtain ⟨c, hc, hcall, rfl⟩ := hk.returns r hmem
    exact .return hr hc hcall (BaseSet.truncate_truncate _ _)

theorem Walk.run_extends (h : Known t.image es w.stack w.cache)
    (ha : t.image.base.truncate a = a) (he : Entered t.image.base es m seeded a) :
    Extends t m seeded es w (w.run t a) := by
  fun_induction Walk.run w t a generalizing es seeded with
  | case1 w a hb => exact ⟨[], rfl, h, by simp [conflict]⟩
  | case2 w a hb o cache hf =>
      have hv := (h.sites.fetch a).2
      rw [hf] at hv
      exact ⟨[], rfl, ⟨h.trail, h.returns, hv⟩, by simp⟩
  | case3 w a hb site cache hf s visited next =>
      rename_i hn ih
      obtain ⟨hs, hv⟩ := h.sites.fetch a
      rw [hf] at hs hv
      have hk := h.visit ha he hv hs.symm
      -- Behind its first visit, the run is one that no message seeds.
      have hnext : t.image.base.truncate next = next := by
        rcases Terrain.leads_of_continuation? hn with hl | ⟨-, r, -, rfl⟩
        · exact hl.truncate_eq
        · exact BaseSet.truncate_truncate _ _
      have hent : Entered t.image.base (⟨.of m (.ofSite a site), m, seeded⟩ :: es) m false next :=
        .inr ⟨_, _, rfl, h.successor hn⟩
      obtain ⟨new, hvis, hnew, hrest⟩ := ih hk hnext hent
      have happ :
          (Hop.run m seeded ((Visit.ofSite a site :: new).map (Record.of m))).reverse ++ es =
            (Hop.run m false (new.map (Record.of m))).reverse ++
              ⟨.of m (.ofSite a site), m, seeded⟩ :: es := by
        simp [Hop.run_cons]
      exact ⟨.ofSite a site :: new, by rw [hvis]; simp [visited, visit], happ ▸ hnew, happ ▸ hrest⟩
  | case4 w a hb site cache hf =>
      rename_i hn
      obtain ⟨hs, hv⟩ := h.sites.fetch a
      rw [hf] at hs hv
      refine ⟨[.ofSite a site], rfl, h.visit ha he hv hs.symm, ?_⟩
      rintro s' ⟨⟩
      exact ⟨rfl, Terrain.parks_of_continuation? hn⟩

/-! ## Walks for a message -/

theorem Extends.trans {w' : Walk} {o : Outcome}
    (h : Extends t m false es w (.ok s, w'))
    (ho : ∀ es', Known t.image es' w'.stack w'.cache → Rests t.image es' s →
      Extends t m false es' w' o) : Extends t m false es w o := by
  obtain ⟨new, hvis, hk, hr⟩ := h
  obtain ⟨new', hvis', hk', hr'⟩ := ho _ hk (hr s rfl)
  refine ⟨new ++ new', ?_, ?_, ?_⟩
  · rw [hvis', hvis]
    simp
  · simpa using hk'
  · simpa using hr'

theorem Extends.refl {o : Except Disagreement Stop} (h : Known t.image es w.stack w.cache)
    (hr : ∀ s, o = .ok s → Rests t.image es s) : Extends t m false es w (o, w) :=
  ⟨[], rfl, by simpa using h, by simpa using hr⟩

theorem Rests.entered {e : Exit} (h : Rests t.image es s) (hl : Leads t.image.base s e a)
    (he : ∀ b, e = .target b → ∃ count, m.payload = .indirectBranch b count) :
    Entered t.image.base es m seeded a := by
  obtain ⟨hs, -⟩ := h
  cases es with
  | nil => simp at hs
  | cons r es =>
      obtain rfl : r.stop = s := by simpa using hs
      exact .inr ⟨r, es, rfl, .exit hl he⟩

theorem Walk.catchUp_extends {count : Nat} (h : Known t.image es w.stack w.cache)
    (hr : Rests t.image es s) : Extends t m false es w (w.catchUp t count s) := by
  fun_induction Walk.catchUp w t count s generalizing es with
  | case1 => exact .refl h (by rintro _ ⟨⟩; exact hr)
  | case2 w s hlt a hs e w' hrun =>
      obtain ⟨exit, hsil, hl⟩ := (Terrain.silent?_eq_some hr.2).mp (congrArg _ hs)
      rw [← hrun]
      exact run_extends h hl.truncate_eq (hr.entered hl (by rintro b rfl; cases hsil))
  | case3 w s hlt a hs s' w' hrun hb =>
      rename_i ih
      obtain ⟨exit, hsil, hl⟩ := (Terrain.silent?_eq_some hr.2).mp (congrArg _ hs)
      have hext : Extends t m false es w (w.run t (t.truncate a)) :=
        run_extends h hl.truncate_eq (hr.entered hl (by rintro b rfl; cases hsil))
      rw [hrun] at hext
      exact hext.trans fun es' hk hr' => ih hk hr'
  | case4 => exact .refl h (by rintro _ ⟨⟩; exact hr)

theorem Walk.retire_extends {count : Nat} (h : Known t.image es w.stack w.cache)
    (hr : Rests t.image es s) : Extends t m false es w (w.retire t count s) := by
  unfold retire
  split
  · exact .refl h (by rintro _ ⟨⟩; exact hr)
  · have hext : Extends t m false es w (w.catchUp t count s) := catchUp_extends h hr
    cases hc : w.catchUp t count s with
    | mk result w' =>
        rw [hc] at hext
        cases result with
        | error e => exact hext
        | ok s' =>
            simp only [Outcome.andThen]
            refine hext.trans fun es' hk hr' => ?_
            split
            · exact .refl hk (by rintro _ ⟨⟩; exact hr')
            · exact .refl hk (by simp)

theorem Walk.restart_extends (h : Known t.image es w.stack w.cache)
    (he : Entered t.image.base es m seeded (t.truncate a)) :
    Extends t m seeded es w (w.restart t a) :=
  run_extends (w := { w with retired := 0 }) h (BaseSet.truncate_truncate _ _) he

theorem Extends.conflict {e : Disagreement} (h : Known t.image es w.stack w.cache) :
    Extends t m seeded es w (.error e, w) :=
  ⟨[], rfl, h, by simp⟩

theorem Extends.andThen {o : Outcome} {f : Stop → Walk → Outcome}
    (h : Known t.image es o.2.stack o.2.cache) (hr : ∀ s, o.1 = .ok s → Rests t.image es s)
    (hf : ∀ s, Rests t.image es s → Extends t m seeded es o.2 (f s o.2)) :
    Extends t m seeded es o.2 (o.andThen f) := by
  rcases o with ⟨e | s, w⟩
  · exact .conflict h
  · exact hf s (hr s rfl)

/-- A message adds the visits that its count covers and then a run, which it seeds or leads to. -/
theorem Walk.follow_extends {o : Outcome} (h : Known t.image es w.stack w.cache)
    (hr : Rests t.image es s) (ho : w.follow t s m.payload = some o) :
    ∃ covered : List Visit,
      (w.retire t m.count s).2.visited = covered.reverse ++ w.visited ∧
      Extends t m m.payload.seed?.isSome
        ((Hop.run m false (covered.map (Record.of m))).reverse ++ es)
        (w.retire t m.count s).2 o := by
  obtain ⟨covered, hvis, hk, hrest⟩ : Extends t m false es w (w.retire t m.count s) :=
    retire_extends h hr
  refine ⟨covered, hvis, ?_⟩
  -- How the trail came to the end of the count does not matter for what comes next.
  generalize (Hop.run m false (covered.map (Record.of m))).reverse ++ es = es' at hk hrest
  rw [Message.count] at hk hrest ⊢
  cases hp : m.payload with
  | sync address count =>
      rw [hp] at ho hk
      rw [← Option.some.inj ho]
      exact restart_extends hk (.inl ⟨rfl, address, by rw [hp]; rfl, rfl⟩)
  | exception address count =>
      rw [hp] at ho hk hrest
      rw [← Option.some.inj ho]
      exact .andThen hk hrest fun _ _ =>
        restart_extends hk (.inl ⟨rfl, address, by rw [hp]; rfl, rfl⟩)
  | directBranch taken count =>
      rw [hp] at ho hk hrest
      rw [← Option.some.inj ho]
      refine .andThen hk hrest fun s' hs' => ?_
      cases hout : s'.outcome? taken with
      | none => exact .conflict hk
      | some address =>
          have hl := Terrain.outcome?_eq_some.mp (congrArg (Option.map t.truncate) hout)
          have hent : Entered t.image.base es' m false (t.truncate address) :=
            hs'.entered hl (by rintro b ⟨⟩)
          simp only
          split
          · exact run_extends hk hl.truncate_eq hent
          · exact restart_extends hk hent
  | indirectBranch target count =>
      rw [hp] at ho hk hrest
      rw [← Option.some.inj ho]
      refine .andThen hk hrest fun s' hs' => ?_
      cases hout : s'.jump? target with
      | none => exact .conflict hk
      | some address =>
          have hl := Terrain.jump?_eq_some.mp (congrArg (Option.map t.truncate) hout)
          exact restart_extends hk (hs'.entered hl (by rintro b ⟨⟩; exact ⟨_, hp⟩))
  | print f => simp [hp, follow] at ho
  | timestamp => simp [hp, follow] at ho
  | error code => simp [hp, follow] at ho

/-! ## Messages -/

/-- What is known of a core agrees with its records, the latest first. -/
structure Core.Tracked (image : Image) (es : List Hop) (cache : SiteCache) (c : Core) : Prop where
  known : Known image es c.stack cache
  rests : ∀ s, c.phase = .parked s → Rests image es s

theorem Effect.tracked_ofOutcome {o : Outcome} (h : Known t.image es o.2.stack o.2.cache)
    (hr : ∀ s, o.1 = .ok s → Rests t.image es s) :
    (ofOutcome o).core.Tracked t.image es (ofOutcome o).cache := by
  rcases o with ⟨e | s, w⟩
  · exact ⟨⟨h.trail, by simp [ofOutcome], h.sites⟩, by simp [ofOutcome]⟩
  · exact ⟨h, by rintro s' ⟨⟩; exact hr s rfl⟩

/-- A message keeps what is known of its core in agreement with the records. -/
theorem Core.step_tracked {cache : SiteCache} {c : Core} (h : c.Tracked t.image es cache) :
    (c.step t cache m.payload).core.Tracked t.image
      ((Hop.ofRecords m (c.covered t cache m.count)
        ((c.step t cache m.payload).visits.map (Record.of m))).reverse ++ es)
      (c.step t cache m.payload).cache := by
  obtain ⟨hk, hr⟩ := h
  rcases c.step_cases t cache m.payload with
    ⟨code, -, he⟩ | he | ⟨s, o, hs, ho, he⟩ | ⟨address, count, hm, hcov, he⟩
  · simp only [he, List.map_nil, Hop.ofRecords_nil, List.reverse_nil, List.nil_append]
    exact ⟨⟨hk.trail, by simp [start], hk.sites⟩, by simp [start]⟩
  · simp only [he, List.map_nil, Hop.ofRecords_nil, List.reverse_nil, List.nil_append]
    exact ⟨hk, hr⟩
  · obtain ⟨covering, hcov, followed, hvis, hk', hr'⟩ :=
      Walk.follow_extends (w := c.walk t cache) hk (hr s hs) ho
    have hrecords : (c.step t cache m.payload).visits.map (Record.of m) =
        covering.map (Record.of m) ++ followed.map (Record.of m) := by
      rw [he, Effect.visits_ofOutcome, hvis, hcov]
      simp [walk]
    have hcount : c.covered t cache m.count = (covering.map (Record.of m)).length := by
      simp only [covered, covering?, hs, hcov]
      simp [walk]
    rw [hrecords, hcount, Hop.ofRecords, List.take_left, List.drop_left, List.reverse_append,
      List.append_assoc, he]
    exact Effect.tracked_ofOutcome hk' hr'
  -- The core was not parked, so the count of the sync covers nothing.
  · have hm' : m.count = count := by rw [Message.count, hm]; rfl
    have hent : Entered t.image.base es m true (t.truncate address) :=
      .inl ⟨rfl, address, by rw [hm]; rfl, rfl⟩
    obtain ⟨new, hvis, hk', hr'⟩ := Walk.restart_extends (w := c.walk t cache) hk hent
    have hrecords : (c.step t cache m.payload).visits = new := by
      rw [he, Effect.visits_ofOutcome, hvis]
      simp [walk]
    have hcount : c.covered t cache m.count = 0 := by
      simp only [covered, hm', hcov]
    rw [hrecords, hcount, he, Hop.ofRecords, List.take_zero, List.drop_zero, hm]
    exact Effect.tracked_ofOutcome hk' hr'

/-! ## Traces -/

def Tracer.Tracked (es : UInt16 → List Hop) (t : Tracer) : Prop :=
  ∀ id, (t.core id).Tracked t.image (es id) t.cache

theorem Tracer.tracked_start (image : Image) (options : TracerOptions) (slots : Nat) :
    (start image options (.empty slots)).Tracked fun _ => [] := by
  intro id
  have hc : (start image options (.empty slots)).core id =
      .start (start image options (.empty slots)).options.returnStack :=
    Std.TreeMap.getD_emptyc
  rw [hc]
  exact ⟨⟨trivial, by simp [Core.start], SiteCache.valid_empty image slots⟩, by simp [Core.start]⟩

theorem Tracer.tracked_process {es : UInt16 → List Hop} {t : Tracer} (h : t.Tracked es)
    (m : Message) :
    (t.process m).2.Tracked fun id => (t.hops id [m]).reverse ++ es id := by
  intro id
  by_cases hs : t.selects m.core = true
  · have hstep := Core.step_tracked (t := t.terrain) (m := m) (h m.core)
    by_cases hid : m.core = id
    · subst hid
      rw [core_process_self hs, image_process, cache_process hs]
      simp only [hops, ite_true, List.append_nil, reconstructed_of_selects hs]
      exact hstep
    · have hc := h id
      rw [core_process_of_ne hid, image_process, cache_process hs]
      simp only [hops, hid, ite_false, List.append_nil, List.reverse_nil, List.nil_append]
      exact ⟨⟨hc.known.trail, hc.known.returns, hstep.known.sites⟩, hc.rests⟩
  · have hs' : t.selects m.core = false := by simpa using hs
    simp only [process_of_not_selects hs', hops, reconstructed_of_not_selects hs',
      Hop.ofRecords_nil, ite_self, List.append_nil, List.reverse_nil, List.nil_append]
    exact h id

theorem Tracer.tracked_feed {es : UInt16 → List Hop} {t : Tracer} (h : t.Tracked es)
    (ms : List Message) : (t.feed ms).Tracked fun id => (t.hops id ms).reverse ++ es id := by
  induction ms generalizing t es with
  | nil => exact h
  | cons m ms ih =>
      have hm := ih (tracked_process h m)
      simpa [feed, hops] using hm

/-! ## What a trail says of the records -/

theorem Trail.of_append {es es' : List Hop} (h : Trail image (es ++ es')) : Trail image es' := by
  induction es with
  | nil => exact h
  | cons e es ih => exact ih h.2.2

theorem Trail.placed {h : Hop} (ht : Trail image es) (hm : h ∈ es) : h.Placed image := by
  induction es with
  | nil => cases hm
  | cons e es ih =>
      rcases List.mem_cons.mp hm with rfl | hm
      · exact ht.2.1
      · exact ih ht.2.2 hm

theorem Successor.of_mem {base : BaseSet} {es es' : List Hop} {r : Hop}
    (h : Successor base es r m a) (hm : ∀ c ∈ es, c ∈ es') : Successor base es' r m a := by
  cases h with
  | exit hl ht => exact .exit hl ht
  | «return» hr hc hcall ha => exact .return hr (hm _ hc) hcall ha

/-- The link between two neighbours on a trail, given in the order of reconstruction. -/
theorem Trail.entered {before after : List Hop} {r s : Hop}
    (h : Trail image (before ++ r :: s :: after).reverse) :
    (s.seeded = true ∧ ∃ b, s.message.payload.seed? = some b ∧
        s.record.address = image.base.truncate b) ∨
      Successor image.base before r s.message s.record.address := by
  have hs : Trail image (s :: r :: before.reverse) := by
    have happ : (before ++ r :: s :: after).reverse =
        after.reverse ++ s :: r :: before.reverse := by
      simp
    exact Trail.of_append (happ ▸ h)
  rcases hs.1 with hseed | ⟨_, _, heq, hsucc⟩
  · exact .inl hseed
  · obtain ⟨rfl, rfl⟩ := List.cons.inj heq
    exact .inr (hsucc.of_mem fun c hc => List.mem_reverse.mp hc)

theorem Hop.map_record_ofRecords (m : Message) (covered : Nat) (rs : List Record) :
    (ofRecords m covered rs).map record = rs := by
  have hrun : ∀ seeded rs, (run m seeded rs).map record = rs := by
    intro seeded rs
    cases rs with
    | nil => rfl
    | cons r rs => simp [run, Function.comp_def]
  rw [ofRecords, List.map_append, hrun, hrun, List.take_append_drop]

theorem Tracer.core_of_mem_reconstructed {t : Tracer} {r : Record}
    (h : r ∈ t.reconstructed m) : r.core = m.core := by
  by_cases hs : t.selects m.core = true
  · rw [reconstructed_of_selects hs] at h
    obtain ⟨v, -, rfl⟩ := List.mem_map.mp h
    rfl
  · rw [reconstructed_of_not_selects (by simpa using hs)] at h
    cases h

theorem Tracer.map_record_hops (id : UInt16) (t : Tracer) (ms : List Message) :
    (t.hops id ms).map Hop.record = (t.records ms).filter (·.core = id) := by
  induction ms generalizing t with
  | nil => rfl
  | cons m ms ih =>
      simp only [hops, records, List.map_append, List.filter_append, ih]
      congr 1
      by_cases hid : m.core = id
      · rw [if_pos hid, Hop.map_record_ofRecords, List.filter_eq_self.mpr]
        intro r hr
        simp [core_of_mem_reconstructed hr, hid]
      · rw [if_neg hid, List.map_nil, eq_comm, List.filter_eq_nil_iff]
        intro r hr
        simp [core_of_mem_reconstructed hr, hid]

/-- All records are instructions of the image at addresses of its base set. Of two records of a core
in a row, the second starts a run that a message seeded or is a successor of the first. -/
theorem Tracer.consecutive_records_follow_code (image : Image) (options : TracerOptions)
    (slots : Nat) (ms : List Message) (id : UInt16) :
    let hops := (start image options (.empty slots)).hops id ms
    hops.map Hop.record =
        ((start image options (.empty slots)).records ms).filter (·.core = id) ∧
      (∀ h ∈ hops, h.record.address.toNat < 2 ^ image.base.addressBits ∧
        image.instructionAt h.record.address = .ok h.record.instruction) ∧
      ∀ before r s after, hops = before ++ r :: s :: after →
        (s.seeded = true ∧ ∃ b, s.message.payload.seed? = some b ∧
            s.record.address = image.base.truncate b) ∨
          Successor image.base before r s.message s.record.address := by
  have htrail : Trail image ((start image options (.empty slots)).hops id ms).reverse := by
    have h := (tracked_feed (tracked_start image options slots) ms id).known.trail
    simp only [List.append_nil, image_feed] at h
    exact h
  refine ⟨map_record_hops id _ ms, ?_, ?_⟩
  · intro h hm
    obtain ⟨ha, hi⟩ := htrail.placed (List.mem_reverse.mpr hm)
    exact ⟨ha ▸ BaseSet.toNat_truncate_lt _ _, hi⟩
  · intro before r s after hops
    exact Trail.entered (hops ▸ htrail)

/-- A call of a function that returns at once, and a branch after it. -/
def callAndReturn : Image :=
  .ofParts .rv32 [⟨".text", 0x1000,
    [0xef, 0x00, 0x80, 0x00, 0x63, 0x00, 0x00, 0x00, 0x82, 0x80], true⟩] [] []

/-- The record after a return is a successor by the call before it. -/
theorem Tracer.record_after_return :
    let hops := (start callAndReturn { returnStack := 1 } (.empty 1)).hops 0
      [⟨0, 0, .sync 0x1000 0⟩]
    ∃ call r s, hops = [call] ++ r :: s :: [] ∧
      r.record.address = 0x1008 ∧ s.record.address = 0x1004 ∧
      ((s.seeded = true ∧ ∃ b, s.message.payload.seed? = some b ∧
          s.record.address = callAndReturn.base.truncate b) ∨
        Successor callAndReturn.base [call] r s.message s.record.address) := by
  intro hops
  have hlen : hops.length = 3 := by decide +kernel
  have heq : hops = [hops[0]] ++ hops[1] :: hops[2] :: [] := by decide +kernel +revert
  exact ⟨_, _, _, heq, by decide +kernel +revert, by decide +kernel +revert,
    (consecutive_records_follow_code callAndReturn { returnStack := 1 } 1 [⟨0, 0, .sync 0x1000 0⟩]
      0).2.2 _ _ _ _ heq⟩

end Retrace
