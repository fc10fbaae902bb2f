import Mathlib.Algebra.Order.Group.Nat
import Retrace.Proofs.Trace.Effects
import Retrace.Proofs.Trace.Paths
import Retrace.Proofs.Trace.Successors

/-!
# A sync tells the place of a core anew

Without return addresses, what a sync leads to does not depend on what was known of its core, but
for the instructions that its count covers: they come first and use up the budget of the message.
-/

namespace Retrace

/-- The instructions that a count leads to before its message is followed, met or not. -/
def Core.passing (t : Terrain) (cache : SiteCache) (c : Core) (count : Nat) : List Visit :=
  match c.covering? t cache count with
  | some (_, w) => w.visited.reverse
  | none => []

/-- The records that the count of a message leads to before the message is followed. -/
def Tracer.passing (t : Tracer) (m : Message) : List Record :=
  ((t.core m.core).passing t.terrain t.cache m.count).map (Record.of m)

variable {t : Terrain} {w w' : Walk} {stack : ReturnStack} {a : UInt64} {p s : Stop}
  {before : List Stop} {c : Core} {cache : SiteCache}

/-! ## How far a run goes -/

/-- A run that parks has passed instructions of the image, and its budget was enough. -/
theorem Walk.runs_of_run (hv : w.cache.Valid t.image) (h : w.run t a = (.ok p, w')) :
    ∃ before, Runs t w.stack a before p ∧ before.length < w.budget := by
  fun_induction Walk.run w t a with
  | case1 => cases h
  | case2 => cases h
  | case3 w a hb site cache hf s visited next hn ih =>
      obtain ⟨hs, hv'⟩ := hv.fetch a
      rw [hf] at hs hv'
      obtain ⟨before, hr, hlen⟩ := ih hv' h
      refine ⟨s :: before, .goes (Image.siteAt_eq_ok.mp hs.symm).1 hn hr, ?_⟩
      change before.length < w.budget - 1 at hlen
      rw [List.length_cons]
      omega
  | case4 w a hb site cache hf s visited hn =>
      obtain ⟨hs, -⟩ := hv.fetch a
      rw [hf] at hs
      obtain ⟨hp, -⟩ := Prod.mk.inj h
      rw [← Except.ok.inj hp]
      exact ⟨[], .parks (Image.siteAt_eq_ok.mp hs.symm).1 hn, Nat.pos_of_ne_zero hb⟩

/-- A run that is longer than the budget fails for that reason. -/
theorem Walk.run_of_budget_le (hr : Runs t w.stack a before p) (hv : w.cache.Valid t.image)
    (hb : w.budget ≤ before.length) :
    ∃ b, (w.run t a).1 = .error ⟨b, .conflict (.runLimit t.maxRun)⟩ := by
  generalize hst : w.stack = stack at hr
  induction hr generalizing w with
  | parks hi hc => exact ⟨_, by rw [run_of_budget (Nat.le_zero.mp hb)]; rfl⟩
  | @goes _ a i next before p hi hc _ ih =>
      subst hst
      by_cases hzero : w.budget = 0
      · exact ⟨a, by rw [run_of_budget hzero]; rfl⟩
      · obtain ⟨cache, hv', hf, hvis⟩ := visit_fetch hv hi
        rw [List.length_cons] at hb
        obtain ⟨b, hrun⟩ := ih (w := w.pass t [⟨a, i⟩] cache) hv'
          (by simp only [pass, List.length_singleton]; omega) rfl
        rw [run_of_goes hzero hf hc, hvis]
        exact ⟨b, hrun⟩

/-! ## Cores without return addresses -/

/-- A sync starts a run behind the instructions that its count leads to. -/
theorem Core.step_sync (c : Core) (address : UInt64) (count : Nat) (hst : c.stack = .empty 0)
    (hv : cache.Valid t.image) :
    ∃ w : Walk, c.step t cache (.sync address count) = .ofOutcome (w.restart t address) ∧
      w.stack = .empty 0 ∧ w.cache.Valid t.image ∧
      w.visited.reverse = c.passing t cache count ∧ w.visited.length + w.budget = t.maxRun := by
  cases hp : c.phase with
  | parked s =>
      have hkept : Walk.Kept t fun w => w.stack = .empty 0 :=
        Walk.kept_stack (Q := (· = .empty 0)) fun s _ h => h ▸ Terrain.stackAfter_empty t s
      have halike : ((c.walk t cache).retire t count s).Alike t.image _ :=
        (c.alike_walk (t := t) hv hv).retire
      refine ⟨((c.walk t cache).retire t count s).2, step_of_follow hp rfl, hkept.retire hst,
        halike.walk.sites, ?_,
        (Walk.kept_budget t t.maxRun).retire (Nat.zero_add t.maxRun)⟩
      simp only [passing, covering?, hp]
  | _ =>
      refine ⟨c.walk t cache, ?_, hst, hv, ?_, Nat.zero_add t.maxRun⟩
      · simp only [step, hp]
        rfl
      · simp only [passing, covering?, hp]
        rfl

theorem Walk.restart_of_runs (hr : Runs t (.empty 0) (t.truncate a) before p)
    (hst : w.stack = .empty 0) (hv : w.cache.Valid t.image) (hb : before.length < w.budget) :
    ∃ cache, Effect.ofOutcome (w.restart t a) =
      ⟨⟨.parked p, halvesOf (before ++ [p]), .empty 0⟩, cache,
        w.visited.reverse ++ (before ++ [p]).map t.image.visitAt, none⟩ := by
  obtain ⟨cache, -, hrun⟩ :=
    run_of_runs (w := { w with retired := 0 }) (show Runs t w.stack _ _ _ from hst ▸ hr) hv hb
  refine ⟨cache, ?_⟩
  rw [restart, hrun]
  simp [Effect.ofOutcome, pass, hst]

/-! ## Tracers without return addresses -/

namespace Tracer

variable {t : Tracer} {m : Message}

/-- No core has return addresses, and the cache holds only what the image gives. -/
structure Stackless (t : Tracer) : Prop where
  depth : t.options.returnStack = 0
  stack : ∀ id, (t.core id).stack = .empty 0
  sites : t.cache.Valid t.image

theorem stackless_start (image : Image) (options : TracerOptions) (slots : Nat)
    (h : options.returnStack = 0) : (start image options (.empty slots)).Stackless where
  depth := by simp [start, h]
  stack id := by
    have hc : (start image options (.empty slots)).core id =
        .start (min options.returnStack maxReturnStack) := Std.TreeMap.getD_emptyc
    rw [hc, h]
    rfl
  sites := SiteCache.valid_empty image slots

theorem Stackless.process (h : t.Stackless) (m : Message) : (t.process m).2.Stackless := by
  refine ⟨by rw [options_process, h.depth], fun id => ?_,
    by rw [image_process]; exact sites_process h.sites m⟩
  rcases t.core_process m id with hc | ⟨rfl, hc⟩
  · rw [hc]
    exact h.stack id
  · rw [hc]
    exact Core.stack_step (Q := (· = .empty 0))
      (fun s _ h => h ▸ Terrain.stackAfter_empty t.terrain s) (by rintro _ rfl; rfl)
      (h.stack m.core)

theorem Stackless.feed (h : t.Stackless) (ms : List Message) : (t.feed ms).Stackless := by
  induction ms generalizing t with
  | nil => exact h
  | cons m ms ih => exact ih (h.process m)

@[simp]
theorem terrain_feed (ms : List Message) : (t.feed ms).terrain = t.terrain := by
  induction ms generalizing t with
  | nil => rfl
  | cons m ms ih => exact ih.trans terrain_process

@[simp]
theorem selects_feed (ms : List Message) (id : UInt16) :
    (t.feed ms).selects id = t.selects id := by
  induction ms generalizing t with
  | nil => rfl
  | cons m ms ih => exact ih.trans (selects_process id)

/-- Messages tell nothing of a core that is not reconstructed. -/
theorem core_feed_of_not_selects {id : UInt16} (h : t.selects id = false) (ms : List Message) :
    (t.feed ms).core id = t.core id := by
  induction ms generalizing t with
  | nil => rfl
  | cons m ms ih =>
      refine (ih (by rwa [selects_process])).trans ?_
      by_cases hid : m.core = id
      · simp only [process_of_not_selects (hid ▸ h)]
      · exact core_process_of_ne hid

/-- What a sync leads to in a run that it seeds: the place, and what comes first. -/
theorem Stackless.process_sync {address : UInt64} {count : Nat} (h : t.Stackless)
    (hs : t.selects m.core = true) (hm : m.payload = .sync address count)
    (hr : Runs t.terrain (.empty 0) (t.terrain.truncate address) before p) :
    ((t.passing m).length + (before.length + 1) ≤ t.options.maxRun →
      (t.process m).1 =
          .ok (t.passing m ++ (before ++ [p]).map (Record.of m ∘ t.image.visitAt)) ∧
        (t.process m).2.core m.core = ⟨.parked p, halvesOf (before ++ [p]), .empty 0⟩) ∧
    (t.options.maxRun < (t.passing m).length + (before.length + 1) →
      ∃ b, (t.process m).1 = .error ⟨b, .conflict (.runLimit t.options.maxRun)⟩) := by
  obtain ⟨w, hstep, hst, hv, hvis, hbudget⟩ :=
    (t.core m.core).step_sync (t := t.terrain) address count (h.stack m.core) h.sites
  have heffect : t.effect m = .ofOutcome (w.restart t.terrain address) := by
    rw [effect, hm, hstep]
  have hcount : m.count = count := by rw [Message.count, hm]; rfl
  have hpass : t.passing m = w.visited.reverse.map (Record.of m) := by
    rw [passing, hcount, hvis]
  have hlen : (t.passing m).length = w.visited.length := by simp [hpass]
  change _ = t.options.maxRun at hbudget
  constructor
  · intro hle
    obtain ⟨cache, hrestart⟩ := Walk.restart_of_runs hr hst hv (by omega)
    have heff := heffect.trans hrestart
    refine ⟨?_, ?_⟩
    · rw [process_of_selects hs, heff, hpass]
      simp [terrain]
    · rw [core_process_self hs, heff]
  · intro hlt
    have hbudget' : w.budget ≤ before.length := by omega
    obtain ⟨b, hrun⟩ := Walk.run_of_budget_le (w := { w with retired := 0 })
      (show Runs t.terrain w.stack _ _ _ from hst ▸ hr) hv hbudget'
    refine ⟨b, ?_⟩
    have hfail : (t.effect m).failure? = some ⟨b, .conflict (.runLimit t.options.maxRun)⟩ := by
      rw [heffect, Walk.restart]
      generalize Walk.run _ _ _ = o at hrun
      obtain ⟨r, w'⟩ := o
      obtain rfl : r = _ := hrun
      rfl
    rw [process_of_selects hs, hfail]

theorem Stackless.runs_of_sync {address : UInt64} {count : Nat} {records : List Record}
    (h : t.Stackless) (hs : t.selects m.core = true) (hm : m.payload = .sync address count)
    (hok : (t.process m).1 = .ok records) :
    ∃ before p, Runs t.terrain (.empty 0) (t.terrain.truncate address) before p := by
  obtain ⟨w, hstep, hst, hv, -, -⟩ :=
    (t.core m.core).step_sync (t := t.terrain) address count (h.stack m.core) h.sites
  have hnone : (Effect.ofOutcome (w.restart t.terrain address)).failure? = none := by
    rw [← hstep, ← hm]
    exact (accepted_iff hs).mp ⟨records, hok⟩
  cases hrun : w.restart t.terrain address with
  | mk r w' =>
      cases r with
      | error e =>
          rw [hrun] at hnone
          cases hnone
      | ok p =>
          obtain ⟨before, hr, -⟩ := Walk.runs_of_run (w := { w with retired := 0 }) hv hrun
          exact ⟨before, p, hst ▸ hr⟩

theorem passing_of_unsynced (h : (t.core m.core).phase = .unsynced) : t.passing m = [] := by
  simp [passing, Core.passing, Core.covering?, h]

/-- A sync that is accepted, with nothing before the run that it seeds, gives the records of that
run and parks the core at its end. -/
theorem Stackless.run_of_sync {address : UInt64} {count : Nat} {records : List Record}
    (h : t.Stackless) (hs : t.selects m.core = true) (hm : m.payload = .sync address count)
    (hpass : t.passing m = []) (hok : (t.process m).1 = .ok records) :
    ∃ before p, Runs t.terrain (.empty 0) (t.terrain.truncate address) before p ∧
      records = (before ++ [p]).map (Record.of m ∘ t.image.visitAt) ∧
      (t.process m).2.core m.core = ⟨.parked p, halvesOf (before ++ [p]), .empty 0⟩ := by
  obtain ⟨before, p, hr⟩ := h.runs_of_sync hs hm hok
  obtain ⟨hfits, hexceeds⟩ := h.process_sync hs hm hr
  have hle : (t.passing m).length + (before.length + 1) ≤ t.options.maxRun := by
    by_contra hlt
    obtain ⟨b, herror⟩ := hexceeds (by omega)
    rw [hok] at herror
    cases herror
  obtain ⟨hrecords, hcore⟩ := hfits hle
  rw [hok, hpass] at hrecords
  exact ⟨before, p, hr, Except.ok.inj hrecords, hcore⟩

/-- With no return addresses, a sync leads to the place that it leads a new tracer to, whatever was
known of its core, if the instructions that its count leads to leave enough of the budget. They come
first, and if they do not leave enough, the sync fails for that reason. -/
theorem sync_resynchronizes (image : Image) (options : TracerOptions) (slots : Nat)
    (hdepth : options.returnStack = 0) (ms : List Message) (m : Message) (address : UInt64)
    (count : Nat) (hm : m.payload = .sync address count) (records : List Record)
    (hfresh : ((start image options (.empty slots)).process
      { m with payload := .sync address 0 }).1 = .ok records) :
    let fresh := ((start image options (.empty slots)).process
      { m with payload := .sync address 0 }).2
    let t := (start image options (.empty slots)).feed ms
    ((t.passing m).length + records.length ≤ options.maxRun →
      (t.process m).1 = .ok (t.passing m ++ records) ∧
        (t.process m).2.core m.core = fresh.core m.core) ∧
    (options.maxRun < (t.passing m).length + records.length →
      ∃ b, (t.process m).1 = .error ⟨b, .conflict (.runLimit options.maxRun)⟩) := by
  intro fresh t
  let t₀ := start image options (.empty slots)
  let m₀ : Message := { m with payload := .sync address 0 }
  have h₀ : t₀.Stackless := stackless_start image options slots hdepth
  have hnew : t₀.core m.core = .start (min options.returnStack maxReturnStack) :=
    Std.TreeMap.getD_emptyc
  cases hs : t₀.selects m.core with
  | false =>
      have hsel : t.selects m.core = false := (selects_feed ms _).trans hs
      have hcore : t.core m.core = t₀.core m.core := core_feed_of_not_selects hs ms
      have hpass : t.passing m = [] := passing_of_unsynced (congrArg Core.phase (hcore.trans hnew))
      have hrecords : records = [] := by
        rw [process_of_not_selects (m := m₀) hs] at hfresh
        exact (Except.ok.inj hfresh).symm
      simp only [hpass, hrecords, fresh]
      rw [process_of_not_selects hsel, process_of_not_selects (m := m₀) hs]
      exact ⟨fun _ => ⟨rfl, hcore⟩, fun hlt => absurd hlt (Nat.not_lt_zero _)⟩
  | true =>
      have hsel : t.selects m.core = true := (selects_feed ms _).trans hs
      have hpass₀ : t₀.passing m₀ = [] := passing_of_unsynced (congrArg Core.phase hnew)
      obtain ⟨before, p, hr, hrecords, hcore₀⟩ := h₀.run_of_sync (m := m₀) hs rfl hpass₀ hfresh
      have hlen : records.length = before.length + 1 := by simp [hrecords]
      rw [← terrain_feed ms] at hr
      obtain ⟨hfits, hexceeds⟩ := (h₀.feed ms).process_sync hsel hm hr
      have himage : t.image = t₀.image := congrArg Terrain.image (terrain_feed ms)
      have hmax : t.options.maxRun = options.maxRun := congrArg Terrain.maxRun (terrain_feed ms)
      rw [hmax, ← hlen] at hfits hexceeds
      refine ⟨fun hle => ?_, hexceeds⟩
      obtain ⟨hok, hcore⟩ := hfits hle
      rw [hok, himage, hrecords]
      exact ⟨rfl, hcore.trans hcore₀.symm⟩

/-- The branch is reached again behind the return that the count of the sync covers. -/
theorem sync_after_return :
    let t := start callAndReturn { maxRun := 2 } (.empty 1)
    let ms : List Message := [⟨0, 0, .sync 0x1004 0⟩]
    let m : Message := ⟨0, 1, .sync 0x1004 3⟩
    ∃ records, (t.process { m with payload := .sync 0x1004 0 }).1 = .ok records ∧
      ((t.feed ms).passing m ++ records).map (·.address) = [0x1008, 0x1004] ∧
      ((t.feed ms).process m).1 = .ok ((t.feed ms).passing m ++ records) := by
  intro t ms m
  have hpassing : ((t.feed ms).passing m).map (·.address) = [0x1008] := by decide +kernel
  have hrecords : (t.process { m with payload := .sync 0x1004 0 }).1.toOption.map
      (List.map (·.address)) = some [0x1004] := by
    decide +kernel
  cases hfresh : (t.process { m with payload := .sync 0x1004 0 }).1 with
  | error e =>
      rw [hfresh] at hrecords
      cases hrecords
  | ok records =>
      rw [hfresh] at hrecords
      have haddresses : records.map (·.address) = [0x1004] := Option.some.inj hrecords
      have hlen : ((t.feed ms).passing m).length + records.length ≤ 2 := by
        have hpast : ((t.feed ms).passing m).length = 1 := by
          simpa using congrArg List.length hpassing
        have hrun : records.length = 1 := by simpa using congrArg List.length haddresses
        omega
      refine ⟨records, rfl, by rw [List.map_append, hpassing, haddresses]; rfl, ?_⟩
      exact ((sync_resynchronizes callAndReturn { maxRun := 2 } 1 rfl ms m 0x1004 3 rfl records
        hfresh).1 hlen).1

/-- The return that the count of a sync covers may leave too little of the budget for a run that a
new tracer has enough for. -/
theorem sync_behind_count_exceeds_budget :
    let t := start callAndReturn { maxRun := 1 } (.empty 1)
    let ms : List Message := [⟨0, 0, .sync 0x1004 0⟩]
    (t.process ⟨0, 1, .sync 0x1004 0⟩).1.toOption.map (List.map (·.address)) = some [0x1004] ∧
      ((t.feed ms).process ⟨0, 1, .sync 0x1004 3⟩).1 =
        .error ⟨0x1004, .conflict (.runLimit 1)⟩ := by
  intro t ms
  constructor <;> decide +kernel

end Tracer

end Retrace
