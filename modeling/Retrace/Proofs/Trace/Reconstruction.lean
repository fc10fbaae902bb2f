import Retrace.Trace.Tracer

/-!
# What a trace is reconstructed to

The records that messages lead to, delivered or kept, in the order in which they are
reconstructed, and what a message does to each core.
-/

namespace Retrace

/-! ## A message and its core -/

@[simp]
theorem Effect.visits_ofOutcome (o : Outcome) : (ofOutcome o).visits = o.2.visited.reverse := by
  rcases o with ⟨e | s, w⟩ <;> rfl

namespace Core

def walk (c : Core) (t : Terrain) (cache : SiteCache) : Walk :=
  ⟨c.retired, c.stack, cache, [], t.maxRun⟩

/-- What a count leads to before its message is followed; nothing if the core is not parked. -/
def covering? (t : Terrain) (cache : SiteCache) (c : Core) (count : Nat) : Option Outcome :=
  match c.phase with
  | .parked s => some ((c.walk t cache).retire t count s)
  | _ => none

/-- The number of visits that a count leads to before its message is followed. -/
def covered (t : Terrain) (cache : SiteCache) (c : Core) (count : Nat) : Nat :=
  match c.covering? t cache count with
  | some (_, w) => w.visited.length
  | none => 0

variable {t : Terrain} {cache : SiteCache} {c : Core}

theorem step_of_follow {s : Stop} {payload : Payload} {o : Outcome} (hp : c.phase = .parked s)
    (ho : (c.walk t cache).follow t s payload = some o) :
    c.step t cache payload = .ofOutcome o := by
  simp only [walk] at ho
  cases payload with
  | error code => cases ho
  | _ => simp only [step, hp, ho]

/-- A message resets its core, tells it nothing, or leads it on a walk. -/
theorem step_cases (c : Core) (t : Terrain) (cache : SiteCache) (payload : Payload) :
    (∃ code, payload = .error code ∧
      c.step t cache payload = ⟨start c.stack.limit, cache, [], none⟩) ∨
    (c.step t cache payload = ⟨c, cache, [], none⟩) ∨
    (∃ s o, c.phase = .parked s ∧ (c.walk t cache).follow t s payload = some o ∧
      c.step t cache payload = .ofOutcome o) ∨
    (∃ address count, payload = .sync address count ∧ c.covering? t cache count = none ∧
      c.step t cache payload = .ofOutcome ((c.walk t cache).restart t address)) := by
  cases hp : c.phase with
  | parked s =>
      cases payload with
      | error code => exact .inl ⟨code, rfl, by simp [step]⟩
      | print f => exact .inr (.inl (by simp [step, hp, Walk.follow]))
      | timestamp => exact .inr (.inl (by simp [step, hp, Walk.follow]))
      | _ => exact .inr (.inr (.inl ⟨s, _, rfl, rfl, by simp [step, hp, Walk.follow, walk]⟩))
  | _ =>
      cases payload with
      | error code => exact .inl ⟨code, rfl, by simp [step]⟩
      | sync address count =>
          exact .inr (.inr (.inr ⟨address, count, rfl, by simp [covering?, hp],
            by simp [step, hp, walk]⟩))
      | _ => exact .inr (.inl (by simp [step, hp]))

end Core

/-! ## Messages of many cores -/

/-- The record of a visit for a message. -/
def Record.of (m : Message) (v : Visit) : Record :=
  { v with core := m.core, timestamp := m.timestamp }

namespace Tracer

def terrain (t : Tracer) : Terrain :=
  ⟨t.image, t.options.maxRun⟩

def effect (t : Tracer) (m : Message) : Effect :=
  (t.core m.core).step t.terrain t.cache m.payload

def covering? (t : Tracer) (m : Message) : Option Outcome :=
  (t.core m.core).covering? t.terrain t.cache m.count

def covered (t : Tracer) (m : Message) : Nat :=
  (t.core m.core).covered t.terrain t.cache m.count

def feed (t : Tracer) (ms : List Message) : Tracer :=
  ms.foldl (fun t m => (t.process m).2) t

/-- None of the messages is in conflict with the image. -/
def Accepts (t : Tracer) : List Message → Prop
  | [] => True
  | m :: ms => (∃ records, (t.process m).1 = .ok records) ∧ (t.process m).2.Accepts ms

/-- The records that a message leads to: those that it gives, or those that are kept as it fails. -/
def reconstructed (t : Tracer) (m : Message) : List Record :=
  match t.process m with
  | (.ok records, _) => records
  | (.error _, t') => t'.undelivered.drop t.undelivered.length

/-- The records that messages lead to. -/
def records (t : Tracer) : List Message → List Record
  | [] => []
  | m :: ms => t.reconstructed m ++ (t.process m).2.records ms

variable {t : Tracer} {m : Message}

theorem process_of_selects (h : t.selects m.core = true) :
    t.process m =
      let records := (t.effect m).visits.map (Record.of m)
      let cores := t.cores.insert m.core (t.effect m).core
      match (t.effect m).failure? with
      | none => (.ok records, { t with cache := (t.effect m).cache, cores })
      | some e => (.error e, { t with
          cache := (t.effect m).cache, cores, undelivered := t.undelivered ++ records }) := by
  simp only [process, h, ite_true]
  rfl

theorem process_of_not_selects (h : t.selects m.core = false) : t.process m = (.ok [], t) := by
  simp [process, h]

theorem reconstructed_of_selects (h : t.selects m.core = true) :
    t.reconstructed m = (t.effect m).visits.map (Record.of m) := by
  simp only [reconstructed, process_of_selects h]
  cases (t.effect m).failure? with
  | none => rfl
  | some e => exact List.drop_left

theorem reconstructed_of_not_selects (h : t.selects m.core = false) :
    t.reconstructed m = [] := by
  simp [reconstructed, process_of_not_selects h]

theorem accepted_iff (h : t.selects m.core = true) :
    (∃ records, (t.process m).1 = .ok records) ↔ (t.effect m).failure? = none := by
  simp only [process_of_selects h]
  cases (t.effect m).failure? with
  | none => simp
  | some e => simp

/-- Records that a message leads to are given, or they are kept as it fails. -/
theorem process_undelivered (t : Tracer) (m : Message) : match t.process m with
    | (.ok records, t') => records = t.reconstructed m ∧ t'.undelivered = t.undelivered
    | (.error _, t') => t'.undelivered = t.undelivered ++ t.reconstructed m := by
  cases hs : t.selects m.core with
  | false => simp [process_of_not_selects hs, reconstructed_of_not_selects hs]
  | true =>
      rw [process_of_selects hs, reconstructed_of_selects hs]
      cases (t.effect m).failure? with
      | none => exact ⟨rfl, rfl⟩
      | some e => rfl

/-! ## What a message leaves as it is -/

@[simp]
theorem image_process : (t.process m).2.image = t.image := by
  simp only [process]
  split
  · split <;> rfl
  · rfl

@[simp]
theorem image_feed (ms : List Message) : (t.feed ms).image = t.image := by
  induction ms generalizing t with
  | nil => rfl
  | cons m ms ih => exact ih.trans image_process

@[simp]
theorem options_process : (t.process m).2.options = t.options := by
  simp only [process]
  split
  · split <;> rfl
  · rfl

@[simp]
theorem terrain_process : (t.process m).2.terrain = t.terrain := by
  simp [terrain]

@[simp]
theorem selects_process (id : UInt16) : (t.process m).2.selects id = t.selects id := by
  simp [selects]

theorem cache_process (h : t.selects m.core = true) :
    (t.process m).2.cache = (t.effect m).cache := by
  simp only [process_of_selects h]
  split <;> rfl

theorem core_process_self (h : t.selects m.core = true) :
    (t.process m).2.core m.core = (t.effect m).core := by
  simp only [process_of_selects h]
  split <;> exact Std.TreeMap.getD_insert_self

/-- A message leaves other cores as they are, known or not. -/
theorem cores_process_of_ne {id : UInt16} (h : m.core ≠ id) :
    (t.process m).2.cores[id]? = t.cores[id]? := by
  cases hs : t.selects m.core with
  | false => rw [process_of_not_selects hs]
  | true =>
      rw [process_of_selects hs]
      cases (t.effect m).failure? <;>
        simp [Std.TreeMap.getElem?_insert, Std.LawfulEqCmp.compare_eq_iff_eq, h]

theorem core_process_of_ne {id : UInt16} (h : m.core ≠ id) :
    (t.process m).2.core id = t.core id := by
  simp only [core, Std.TreeMap.getD_eq_getD_getElem?, cores_process_of_ne h, options_process]

theorem cores_faultCore_of_ne {id id' : UInt16} (h : id ≠ id') :
    (t.faultCore id).2.cores[id']? = t.cores[id']? := by
  cases hs : t.selects id with
  | false => simp [faultCore, hs]
  | true => simp [faultCore, hs, Std.TreeMap.getElem?_insert, Std.LawfulEqCmp.compare_eq_iff_eq, h]

/-- A fault changes cores only. -/
theorem fault_eq (t : Tracer) (id? : Option UInt16) :
    ∃ cores, (t.fault id?).2 = { t with cores } := by
  cases id? with
  | none => exact ⟨_, rfl⟩
  | some id =>
      simp only [fault, faultCore]
      split
      · exact ⟨_, rfl⟩
      · exact ⟨t.cores, rfl⟩

theorem core_faultCore_of_ne {id id' : UInt16} (h : id ≠ id') :
    (t.faultCore id).2.core id' = t.core id' := by
  have hoptions : (t.faultCore id).2.options = t.options := by
    obtain ⟨cores, hfault⟩ := t.fault_eq (some id)
    exact (congrArg options hfault :)
  simp only [core, Std.TreeMap.getD_eq_getD_getElem?, cores_faultCore_of_ne h, hoptions]

theorem core_faultCore_self {id : UInt16} (h : t.selects id = true) :
    (t.faultCore id).2.core id = (t.core id).fault := by
  simp [faultCore, h, core]

end Tracer

end Retrace
