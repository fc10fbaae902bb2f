import Retrace.Proofs.Trace.Reconstruction
import Retrace.Proofs.Trace.Walks

/-!
# What messages do to a core

The effect of a message does not depend on the cache, and a core whose place is not known remembers
nothing of the time before.
-/

namespace Retrace

@[simp]
theorem ReturnStack.limit_push (s : ReturnStack) (a : UInt64) : (s.push a).limit = s.limit := by
  unfold push
  split <;> rfl

@[simp]
theorem ReturnStack.limit_pop (s : ReturnStack) : s.pop.2.limit = s.limit := by
  unfold pop
  split <;> rfl

@[simp]
theorem Terrain.limit_stackAfter (t : Terrain) (s : Stop) (stack : ReturnStack) :
    (t.stackAfter s stack).limit = stack.limit := by
  simp only [stackAfter]
  split <;> split <;> simp

/-! ## Walks for a message -/

/-- The walk that a message leads the core on, if it does. -/
def Core.outcome? (t : Terrain) (cache : SiteCache) (c : Core) (payload : Payload) :
    Option Outcome :=
  match c.phase, payload with
  | .parked s, payload => (c.walk t cache).follow t s payload
  | _, .sync address _ => some ((c.walk t cache).restart t address)
  | _, _ => none

/-- The effects differ in the caches alone, which hold only what the image gives. -/
structure Effect.Alike (image : Image) (e e' : Effect) : Prop where
  core : e'.core = e.core
  visits : e'.visits = e.visits
  failure? : e'.failure? = e.failure?
  sites : e.cache.Valid image
  sites' : e'.cache.Valid image

/-- The return stack has the depth, and a core whose place is not known has nothing else to tell. -/
structure Core.Settled (depth : Nat) (c : Core) : Prop where
  limit : c.stack.limit = depth
  unplaced : (∀ s, c.phase ≠ .parked s) → c = ⟨c.phase, 0, .empty depth⟩

variable {t : Terrain} {cache cache' : SiteCache} {c : Core} {payload : Payload} {o o' : Outcome}
  {depth : Nat}

theorem Effect.alike_ofOutcome {image : Image} (h : o.Alike image o') :
    (ofOutcome o).Alike image (ofOutcome o') := by
  obtain ⟨r, w⟩ := o
  obtain ⟨r', w'⟩ := o'
  obtain ⟨hr, hw⟩ : r = r' ∧ w.Alike image w' := ⟨h.result, h.walk⟩
  subst hr
  cases r with
  | error e =>
      exact ⟨by simp [ofOutcome, hw.stack], by simp [ofOutcome, hw.visited], rfl, hw.sites,
        hw.sites'⟩
  | ok s =>
      exact ⟨by simp [ofOutcome, hw.stack, hw.retired], by simp [ofOutcome, hw.visited], rfl,
        hw.sites, hw.sites'⟩

namespace Core

theorem step_eq (c : Core) (t : Terrain) (cache : SiteCache) (payload : Payload) :
    c.step t cache payload =
      match payload, c.outcome? t cache payload with
      | .error _, _ => ⟨start c.stack.limit, cache, [], none⟩
      | _, none => ⟨c, cache, [], none⟩
      | _, some o => .ofOutcome o :=
  rfl

theorem step_error (code : UInt64) :
    c.step t cache (.error code) = ⟨start c.stack.limit, cache, [], none⟩ :=
  rfl

theorem step_of_none (h : c.outcome? t cache payload = none) (hp : ∀ code, payload ≠ .error code) :
    c.step t cache payload = ⟨c, cache, [], none⟩ := by
  rw [step_eq, h]
  cases payload with
  | error code => exact absurd rfl (hp code)
  | _ => rfl

theorem step_of_some (h : c.outcome? t cache payload = some o)
    (hp : ∀ code, payload ≠ .error code) : c.step t cache payload = .ofOutcome o := by
  rw [step_eq, h]
  cases payload with
  | error code => exact absurd rfl (hp code)
  | _ => rfl

/-! ## Caches do not matter -/

theorem alike_walk (c : Core) (h : cache.Valid t.image) (h' : cache'.Valid t.image) :
    (c.walk t cache).Alike t.image (c.walk t cache') :=
  ⟨rfl, h, h'⟩

theorem alike_outcome? (c : Core) (payload : Payload) (h : cache.Valid t.image)
    (h' : cache'.Valid t.image) :
    Option.Rel (Outcome.Alike t.image) (c.outcome? t cache payload)
      (c.outcome? t cache' payload) := by
  have hw := c.alike_walk (t := t) h h'
  cases hp : c.phase with
  | parked s =>
      simp only [outcome?, hp]
      exact hw.follow
  | _ =>
      cases payload with
      | sync address count =>
          simp only [outcome?, hp]
          exact .some hw.restart
      | _ =>
          simp only [outcome?, hp]
          exact .none

/-- What a message does to a core does not depend on the cache. -/
theorem alike_step (c : Core) (payload : Payload) (h : cache.Valid t.image)
    (h' : cache'.Valid t.image) :
    (c.step t cache payload).Alike t.image (c.step t cache' payload) := by
  by_cases hp : ∃ code, payload = .error code
  · obtain ⟨code, rfl⟩ := hp
    exact ⟨rfl, rfl, rfl, h, h'⟩
  · have hp : ∀ code, payload ≠ .error code := fun code hcode => hp ⟨code, hcode⟩
    have hrel := c.alike_outcome? payload h h'
    cases ho : c.outcome? t cache payload with
    | none =>
        rw [ho] at hrel
        cases ho' : c.outcome? t cache' payload with
        | none =>
            rw [step_of_none ho hp, step_of_none ho' hp]
            exact ⟨rfl, rfl, rfl, h, h'⟩
        | some o' =>
            rw [ho'] at hrel
            cases hrel
    | some o =>
        rw [ho] at hrel
        cases ho' : c.outcome? t cache' payload with
        | none =>
            rw [ho'] at hrel
            cases hrel
        | some o' =>
            rw [ho'] at hrel
            cases hrel with
            | some halike =>
                rw [step_of_some ho hp, step_of_some ho' hp]
                exact Effect.alike_ofOutcome halike

/-! ## What every message keeps -/

theorem outcome?_keeps {P : Walk → Prop} (h : Walk.Kept t P) (hw : P (c.walk t cache))
    (ho : c.outcome? t cache payload = some o) : P o.2 := by
  cases hp : c.phase with
  | parked s =>
      simp only [outcome?, hp] at ho
      exact h.follow hw ho
  | _ =>
      cases payload with
      | sync address count =>
          simp only [outcome?, hp] at ho
          rw [← Option.some.inj ho]
          exact h.restart hw
      | _ => simp [outcome?, hp] at ho

/-- Messages keep what instructions and an empty return stack keep. -/
theorem stack_step {Q : ReturnStack → Prop} (hafter : ∀ s stack, Q stack → Q (t.stackAfter s stack))
    (hempty : ∀ stack, Q stack → Q (.empty stack.limit)) (h : Q c.stack) :
    Q (c.step t cache payload).core.stack := by
  by_cases hp : ∃ code, payload = .error code
  · obtain ⟨code, rfl⟩ := hp
    exact hempty _ h
  · have hp : ∀ code, payload ≠ .error code := fun code hcode => hp ⟨code, hcode⟩
    cases ho : c.outcome? t cache payload with
    | none =>
        rw [step_of_none ho hp]
        exact h
    | some o =>
        have hkept : Q o.2.stack := outcome?_keeps (Walk.kept_stack hafter) h ho
        rw [step_of_some ho hp]
        obtain ⟨e | s, w⟩ := o
        · exact hempty _ hkept
        · exact hkept

theorem settled_start (depth : Nat) : (start depth).Settled depth :=
  ⟨rfl, fun _ => rfl⟩

theorem Settled.fault (h : c.Settled depth) : c.fault.Settled depth :=
  ⟨h.limit, fun _ => by rw [← h.limit]; rfl⟩

/-- A core keeps nothing when its place is lost. -/
theorem Settled.step (h : c.Settled depth) : (c.step t cache payload).core.Settled depth := by
  refine ⟨stack_step (Q := (·.limit = depth)) (by simp) (fun _ h => h) h.limit, ?_⟩
  by_cases hp : ∃ code, payload = .error code
  · obtain ⟨code, rfl⟩ := hp
    intro _
    rw [step_error, h.limit]
    rfl
  · have hp : ∀ code, payload ≠ .error code := fun code hcode => hp ⟨code, hcode⟩
    cases ho : c.outcome? t cache payload with
    | none =>
        rw [step_of_none ho hp]
        exact h.unplaced
    | some o =>
        have hkept : o.2.stack.limit = depth :=
          outcome?_keeps (Walk.kept_stack (Q := (·.limit = depth)) (by simp)) h.limit ho
        rw [step_of_some ho hp]
        obtain ⟨e | s, w⟩ := o
        · intro _
          rw [← hkept]
          rfl
        · intro hs
          exact absurd rfl (hs s)

end Core

/-! ## Tracers -/

namespace Tracer

variable {t : Tracer}

/-- A message leaves a core as it is, or has its effect on it. -/
theorem core_process (t : Tracer) (m : Message) (id : UInt16) :
    (t.process m).2.core id = t.core id ∨
      m.core = id ∧ (t.process m).2.core id = (t.effect m).core := by
  by_cases hid : m.core = id
  · subst hid
    cases hs : t.selects m.core with
    | false => exact .inl (by rw [process_of_not_selects hs])
    | true => exact .inr ⟨rfl, core_process_self hs⟩
  · exact .inl (core_process_of_ne hid)

theorem sites_process (h : t.cache.Valid t.image) (m : Message) :
    (t.process m).2.cache.Valid t.image := by
  cases hs : t.selects m.core with
  | false => rwa [process_of_not_selects hs]
  | true =>
      rw [cache_process hs]
      exact ((t.core m.core).alike_step (t := t.terrain) m.payload h h).sites

end Tracer

end Retrace
