import Mathlib.Order.Basic
import Retrace.Proofs.Trace.Ways

/-!
# Paths are reconstructed

The messages that report a path lead to its records: no message is in conflict, every record is one
of the path, and none is missing.
-/

namespace Retrace

open Isa

/-- The core is parked, without return addresses, and has executed the number of half-words since
the last counted message. -/
structure Tracer.Holds (T : Terrain) (id : UInt16) (p : Stop) (n : Nat) (t : Tracer) : Prop where
  terrain : t.terrain = T
  selects : t.selects id = true
  sites : t.cache.Valid T.image
  core : t.core id = ⟨.parked p, n, .empty 0⟩

/-- The message is accepted, leads to the records of the instructions and then parks the core. -/
def Tracer.Follows (T : Terrain) (t : Tracer) (m : Message) (ss : List Stop) (p : Stop) (n : Nat) :
    Prop :=
  (∃ records, (t.process m).1 = .ok records) ∧
    (t.reconstructed m).map (·.stop) = ss ∧ (t.process m).2.Holds T m.core p n

variable {T : Terrain} {t : Tracer} {m : Message} {id : UInt16} {w w' : Walk} {a next : UInt64}
  {s p p' last : Stop} {ss before : List Stop} {pre steps : List (Stop × Exit)} {e : Exit} {n : Nat}

/-! ## What a message leads to -/

theorem Tracer.Holds.parked (h : t.Holds T id p n) : t.Parked T id p n (.empty 0) :=
  ⟨h.terrain, h.selects, h.sites, h.core⟩

theorem Tracer.Reaches.follows (h : t.Reaches T m ss p n (T.stackAfterAll before (.empty 0))) :
    t.Follows T m ss p n := by
  rw [Terrain.stackAfterAll_empty] at h
  exact ⟨h.accepts, h.stops, h.parked.terrain, h.parked.selects, h.parked.sites, h.parked.core⟩

theorem Tracer.Holds.follows_outcome {taken : Bool} (h : t.Holds T m.core s n)
    (hl : Leads T.image.base s (.outcome taken) next) (hm : m.payload = .directBranch taken 0)
    (hr : Runs T (.empty 0) next before p) (hb : before.length < T.maxRun) :
    t.Follows T m (before ++ [p]) p (n + halvesOf (before ++ [p])) := by
  let w : Walk := ⟨n, .empty 0, t.cache, [], T.maxRun⟩
  have hret : w.retire T 0 s = (.ok s, w) := rfl
  have hf := Walk.follow_directBranch hret hl
  have hfol : t.Follows T m ([] ++ (before ++ [p])) p (n + halvesOf (before ++ [p])) :=
    (reaches_of_run h.terrain h.selects (h.parked.effect_eq (hm ▸ hf)) hr h.sites rfl hb).follows
  exact hfol

theorem Tracer.Holds.follows_target {target : UInt64} {count : Nat} (h : t.Holds T m.core s n)
    (hl : Leads T.image.base s (.target target) next) (hc : count = 0 ∨ count = n)
    (hm : m.payload = .indirectBranch target count) (hr : Runs T (.empty 0) next before p)
    (hb : before.length < T.maxRun) :
    t.Follows T m (before ++ [p]) p (halvesOf (before ++ [p])) := by
  let w : Walk := ⟨n, .empty 0, t.cache, [], T.maxRun⟩
  have hret : w.retire T count s = (.ok s, w) := by
    rcases hc with rfl | rfl
    · rfl
    · rw [Walk.retire, Walk.catchUp_eq, if_neg (Nat.lt_irrefl _)]
      split
      · rfl
      · exact if_pos rfl
  have hf := Walk.follow_indirectBranch hret hl
  have hfol : t.Follows T m ([] ++ (before ++ [p])) p (0 + halvesOf (before ++ [p])) :=
    (reaches_of_run h.terrain h.selects (h.parked.effect_eq (hm ▸ hf)) hr h.sites rfl hb).follows
  rwa [List.nil_append, Nat.zero_add] at hfol

/-! ## Paths -/

/-- Reports with counts lead the core on from a run that silent steps have come from, and to where
it only coasts to the end of the path. -/
theorem Tracer.Holds.follows_counted {ms : List Message}
    (h : t.Holds T id p (halvesOf (before ++ [p]))) (hr : Runs T (.empty 0) a before p)
    (hpath : Path T.image a (pre ++ steps) last) (hlast : Parks T.image.base last)
    (hs : Silent pre) (hb : (pre ++ steps).length < T.maxRun) (hid : ∀ m ∈ ms, m.core = id)
    (hms : ms.map (·.payload) = counted (halvesOf (stopsOf pre)) steps) :
    t.Accepts ms ∧
      before ++ [p] ++ (t.records ms).map (·.stop) = reach T.image (pre ++ steps) last ∧
      ∃ p' n ss, (t.feed ms).Holds T id p' n ∧ Coasts T (.empty 0) p' ss last ∧
        ss.length ≤ T.maxRun ∧
        n + halvesOf ss = sinceReport (halvesOf (stopsOf pre)) steps + last.halves ∧
        before ++ [p] ++ ((t.records ms).map (·.stop) ++ ss) =
          stopsOf (pre ++ steps) ++ [last] := by
  have hparked := h.parked
  rw [← Terrain.stackAfterAll_empty T (before ++ [p])] at hparked
  obtain ⟨haccepts, hreach, p', n, ss, hend, -, hcoasts, hcount, hall⟩ :=
    hparked.follows_way hr (hpath.way hlast) hs hb hid hms
  rw [Terrain.reach_empty] at hreach
  rw [Terrain.stackAfterAll_empty] at hend hcoasts
  have hlen := congrArg List.length hall
  simp only [List.length_append, List.length_cons, List.length_nil, length_stopsOf] at hlen hb
  exact ⟨haccepts, hreach, p', n, ss, ⟨hend.terrain, hend.selects, hend.sites, hend.core⟩, hcoasts,
    by omega, hcount, by rwa [← List.append_assoc]⟩

/-- The reports of a history lead the core on from one instruction that it parks at to the next. -/
theorem Tracer.Holds.follows_history {ms : List Message} {ps : List Payload}
    (h : t.Holds T id p (n + halvesOf (before ++ [p]))) (hr : Runs T (.empty 0) a before p)
    (hpath : Path T.image a steps last) (hlast : Parks T.image.base last)
    (hself : ∀ s, (s, Exit.onward) ∈ steps → ¬Leads T.image.base s .onward s.address)
    (hb : steps.length < T.maxRun) (hid : ∀ m ∈ ms, m.core = id) (hps : History n steps ps)
    (hms : ms.map (·.payload) = ps) :
    t.Accepts ms ∧ before ++ [p] ++ (t.records ms).map (·.stop) = stopsOf steps ++ [last] ∧
      (t.feed ms).phase id = .parked last := by
  induction hpath generalizing t p before n ms ps with
  | @last a i hi =>
      obtain ⟨rfl, rfl⟩ := hr.unique (.parks hi (Terrain.continuation?_of_parks hlast))
      cases hps
      obtain rfl : ms = [] := List.map_eq_nil_iff.mp hms
      exact ⟨trivial, rfl, congrArg Core.phase h.core⟩
  | @step a i e next steps last hi hl hrest ih =>
      have hself' : ∀ s, (s, Exit.onward) ∈ steps → ¬Leads T.image.base s .onward s.address :=
        fun s hs => hself s (List.mem_cons_of_mem _ hs)
      have hb' : steps.length < T.maxRun := Nat.lt_of_succ_lt hb
      -- A report is about the instruction that the core is parked at and leads to the next run.
      have report : e ≠ .onward → ∃ before' p', before = [] ∧ p = ⟨a, i⟩ ∧
          Runs T (.empty 0) next before' p' ∧ before'.length < T.maxRun := by
        intro he
        have hpark : Parks T.image.base ⟨a, i⟩ := by
          by_contra hn
          exact he (hl.next_of_not_parks hn).1
        obtain ⟨rfl, rfl⟩ := hr.unique (.parks hi (Terrain.continuation?_of_parks hpark))
        obtain ⟨before', p', after, hr', heq⟩ := hrest.runs hlast
        have := length_of_stops heq
        exact ⟨before', p', rfl, rfl, hr', by omega⟩
      cases hps with
      | @outcome _ _ taken _ ps hps =>
          obtain ⟨before', p', rfl, rfl, hr', hlen⟩ := report (by simp)
          obtain ⟨m, ms, rfl, hm, hms⟩ := List.map_eq_cons_iff.mp hms
          obtain rfl := hid m List.mem_cons_self
          obtain ⟨hok, hrec, hnext⟩ := h.follows_outcome hl hm hr' hlen
          simp only [List.nil_append, halvesOf_cons, halvesOf_nil] at hnext
          obtain ⟨haccepts, hall, hphase⟩ := ih hnext hr' hlast hself' hb'
            (fun m hm => hid m (List.mem_cons_of_mem _ hm)) hps hms
          refine ⟨⟨hok, haccepts⟩, ?_, hphase⟩
          rw [records, List.map_append, hrec, hall]
          rfl
      | @target _ _ b count _ ps hcount hps =>
          obtain ⟨before', p', rfl, rfl, hr', hlen⟩ := report (by simp)
          obtain ⟨m, ms, rfl, hm, hms⟩ := List.map_eq_cons_iff.mp hms
          obtain rfl := hid m List.mem_cons_self
          obtain ⟨hok, hrec, hnext⟩ := h.follows_target hl (by simpa using hcount) hm hr' hlen
          rw [← Nat.zero_add (halvesOf _)] at hnext
          obtain ⟨haccepts, hall, hphase⟩ := ih hnext hr' hlast hself' hb'
            (fun m hm => hid m (List.mem_cons_of_mem _ hm)) hps hms
          refine ⟨⟨hok, haccepts⟩, ?_, hphase⟩
          rw [records, List.map_append, hrec, hall]
          rfl
      | onward hps =>
          -- There are no jumps to themselves, so the run goes on.
          have hpark : ¬Parks T.image.base ⟨a, i⟩ := by
            rintro (he | hself'')
            · rw [(Leads.onward_iff.mp hl).1] at he
              cases he
            · exact hself _ List.mem_cons_self hself''
          cases hr with
          | parks hi' hc =>
              rw [hi] at hi'; cases hi'
              exact absurd (Terrain.parks_of_continuation? hc) hpark
          | @goes _ _ _ _ before _ hi' hc hr =>
              rw [hi] at hi'; cases hi'
              rw [Terrain.continuation?_of_not_parks hpark] at hc; cases hc
              rw [Terrain.stackAfter_empty, ← (hl.next_of_not_parks hpark).2] at hr
              rw [List.cons_append, halvesOf_cons, ← Nat.add_assoc] at h
              obtain ⟨haccepts, hall, hphase⟩ := ih h hr hlast hself' hb' hid hps hms
              exact ⟨haccepts, congrArg (List.cons _) hall, hphase⟩

/-! ## What the next message covers -/

theorem Walk.follow_of_count {payload : Payload} (h : 0 < payload.count) :
    ∃ o, w.follow T s payload = some o := by
  cases payload with
  | print f => simp [Payload.count] at h
  | timestamp => simp [Payload.count] at h
  | error code => simp [Payload.count] at h
  | _ => exact ⟨_, rfl⟩

theorem Tracer.Holds.covering?_eq (h : t.Holds T m.core p n) (hc : Coasts T (.empty 0) p ss s)
    (hb : ss.length ≤ T.maxRun) (hcount : m.count = n + halvesOf ss) (hpos : 0 < m.count) :
    ∃ w, t.covering? m = some (.ok s, w) ∧ w.visited.reverse.map Visit.stop = ss := by
  obtain ⟨cache, -, hret⟩ := Walk.retire_of_coasts
    (w := ⟨n, .empty 0, t.cache, [], T.maxRun⟩) hc h.sites hb hcount.symm hpos
  have hcov : t.covering? m =
      some (Walk.retire ⟨n, .empty 0, t.cache, [], T.maxRun⟩ T m.count p) := by
    rw [covering?, h.core, h.terrain]
    rfl
  rw [hret] at hcov
  exact ⟨_, hcov, by simp [Walk.pass, Function.comp_def]⟩

/-- What the count of a message covers comes first among its records. -/
theorem Tracer.Tracked.covering_comes_first {es : UInt16 → List Hop} {r : Except Disagreement Stop}
    (h : t.Tracked es) (hs : t.selects m.core = true) (hc : t.covering? m = some (r, w))
    (hpos : 0 < m.count) : w.visited.reverse.map (Record.of m) <+: t.reconstructed m := by
  obtain ⟨hk, hr⟩ := h m.core
  rw [covering?, Core.covering?] at hc
  split at hc
  · rename_i s hp
    obtain ⟨o, ho⟩ := Walk.follow_of_count (w := (t.core m.core).walk t.terrain t.cache)
      (T := t.terrain) (s := s) hpos
    obtain ⟨-, -, new, hvis, -⟩ := Walk.follow_extends
      (w := (t.core m.core).walk t.terrain t.cache) hk (hr s hp) ho
    rw [Option.some.inj hc] at hvis
    refine ⟨new.map (Record.of m), ?_⟩
    rw [reconstructed_of_selects hs, effect, Core.step_of_follow hp ho, Effect.visits_ofOutcome,
      hvis]
    simp
  · cases hc

/-! ## Completeness -/

/-- Every path to an instruction that cores park at is reconstructed from its reports. Reports with
counts lead to the last run and leave the rest of the path to the count of the next message. A
history leads to all of the path. -/
theorem Tracer.paths_are_reconstructed (image : Image) (options : TracerOptions) (slots : Nat)
    (id : UInt16) (address : UInt64) (count : Nat) (steps : List (Stop × Exit)) (last : Stop)
    (hstack : options.returnStack = 0) (hmask : options.coreMask.contains id.toNat = true)
    (hpath : Path image (image.base.truncate address) steps last)
    (hlast : Parks image.base last) (hrun : steps.length < options.maxRun)
    (ms : List Message) (hid : ∀ m ∈ ms, m.core = id) :
    let t := Tracer.start image options (.empty slots)
    (ms.map (·.payload) = .sync address count :: counted 0 steps →
      t.Accepts ms ∧ (t.records ms).map (·.stop) = reach image steps last ∧
      ∀ m : Message, m.core = id → m.count = sinceReport 0 steps + last.halves →
        ∃ w, (t.feed ms).covering? m = some (.ok last, w) ∧
          (t.records ms ++ w.visited.reverse.map (Record.of m)).map (·.stop) =
            stopsOf steps ++ [last] ∧
          w.visited.reverse.map (Record.of m) <+: (t.feed ms).reconstructed m) ∧
    ((∀ s, (s, Exit.onward) ∈ steps → ¬Leads image.base s .onward s.address) →
      ∀ reports, History 0 steps reports →
        ms.map (·.payload) = .sync address count :: reports →
        t.Accepts ms ∧ (t.records ms).map (·.stop) = stopsOf steps ++ [last] ∧
          (t.feed ms).phase id = .parked last) := by
  intro t
  let T : Terrain := ⟨image, options.maxRun⟩
  have hpath : Path T.image (T.truncate address) steps last := hpath
  obtain ⟨before, p, after, hr, heq⟩ := hpath.runs hlast
  have hlen := length_of_stops heq
  have hsync : ∀ m : Message, m.core = id → m.payload = .sync address count →
      t.Follows T m (before ++ [p]) p (halvesOf (before ++ [p])) := by
    intro m hm hp
    subst hm
    have hcore : t.core m.core = .start (min options.returnStack maxReturnStack) :=
      Std.TreeMap.getD_emptyc
    rw [hstack, Nat.zero_min] at hcore
    exact (reaches_sync (t := t) (T := T) rfl hmask hcore (SiteCache.valid_empty image slots) hp hr
      (Nat.lt_of_le_of_lt (by omega) hrun)).follows
  constructor
  · intro hms
    obtain ⟨m, ms, rfl, hm, hms⟩ := List.map_eq_cons_iff.mp hms
    obtain rfl := hid m List.mem_cons_self
    obtain ⟨hok, hrec, hnext⟩ := hsync m rfl hm
    obtain ⟨haccepts, hreach, p', n, ss, hholds, hcoasts, hss, hcount, hall⟩ :=
      hnext.follows_counted hr (show Path T.image _ ([] ++ steps) last from hpath) hlast silent_nil
        hrun (fun m hm => hid m (List.mem_cons_of_mem _ hm)) hms
    refine ⟨⟨hok, haccepts⟩, ?_, ?_⟩
    · rw [records, List.map_append, hrec, hreach]
      rfl
    · intro closing hclosing hn
      obtain ⟨w, hcov, hw⟩ := Holds.covering?_eq (m := closing) (hclosing ▸ hholds) hcoasts hss
        (hn.trans hcount.symm) (by have := last.halves_pos; omega)
      refine ⟨w, hcov, ?_, ?_⟩
      · have hstops : (w.visited.reverse.map (Record.of closing)).map (·.stop) = ss := by
          rw [List.map_map]
          exact hw
        rw [List.map_append, hstops, records, List.map_append, hrec, List.append_assoc, hall]
        rfl
      · exact (tracked_feed (tracked_start image options slots) (m :: ms)).covering_comes_first
          (hclosing ▸ hholds.selects) hcov (by have := last.halves_pos; omega)
  · intro hself reports hreports hms
    obtain ⟨m, ms, rfl, hm, hms⟩ := List.map_eq_cons_iff.mp hms
    obtain rfl := hid m List.mem_cons_self
    obtain ⟨hok, hrec, hnext⟩ := hsync m rfl hm
    rw [← Nat.zero_add (halvesOf _)] at hnext
    obtain ⟨haccepts, hall, hphase⟩ := hnext.follows_history hr hpath hlast hself hrun
      (fun m hm => hid m (List.mem_cons_of_mem _ hm)) hreports hms
    refine ⟨⟨hok, haccepts⟩, ?_, hphase⟩
    rw [records, List.map_append, hrec, hall]

def callStop : Stop :=
  ⟨0x1000, .bits32 0x008000ef, .jal ⟨1, 4⟩⟩

def returnStop : Stop :=
  ⟨0x1008, .bits16 0x8082, .cJr 1⟩

def branchStop : Stop :=
  ⟨0x1004, .bits32 0x00000063, .branch .eq ⟨0, 0, 0⟩⟩

/-- The branch is not taken, so the function is entered and returns once more. -/
def callAndReturnTwice : List (Stop × Exit) :=
  [(callStop, .onward), (returnStop, .target 0x1004), (branchStop, .outcome false),
    (returnStop, .target 0x1004)]

theorem Path.callAndReturnTwice :
    Path callAndReturn (callAndReturn.base.truncate 0x1000) callAndReturnTwice branchStop := by
  have hcall : callAndReturn.instructionAt 0x1000 = .ok callStop.instruction := by decide +kernel
  have hreturn : callAndReturn.instructionAt 0x1008 = .ok returnStop.instruction := by
    decide +kernel
  have hbranch : callAndReturn.instructionAt 0x1004 = .ok branchStop.instruction := by
    decide +kernel
  have htarget : Leads callAndReturn.base returnStop (.target 0x1004) 0x1004 := .target rfl
  exact .step hcall (.jump (d := 8) rfl) (.step hreturn htarget
    (.step hbranch (.notTaken rfl) (.step hreturn htarget (.last hbranch))))

/-- Both ways of reporting lead to the path. -/
theorem Tracer.call_and_return_twice :
    let t := start callAndReturn {} (.empty 1)
    let counted : List Message := [⟨0, 0, .sync 0x1000 0⟩, ⟨0, 1, .indirectBranch 0x1004 3⟩,
      ⟨0, 2, .indirectBranch 0x1004 3⟩]
    let history : List Message := [⟨0, 0, .sync 0x1000 0⟩, ⟨0, 1, .indirectBranch 0x1004 0⟩,
      ⟨0, 2, .directBranch false 0⟩, ⟨0, 3, .indirectBranch 0x1004 3⟩]
    Parks callAndReturn.base branchStop ∧
      (t.Accepts counted ∧ (t.records counted).map (·.stop) =
        [callStop, returnStop, branchStop, returnStop, branchStop]) ∧
      t.Accepts history ∧ (t.records history).map (·.stop) =
        [callStop, returnStop, branchStop, returnStop, branchStop] := by
  intro t counted history
  have hparks : Parks callAndReturn.base branchStop := .inl rfl
  have hself : ∀ s, (s, Exit.onward) ∈ callAndReturnTwice →
      ¬Leads callAndReturn.base s .onward s.address := by
    intro s hs
    obtain rfl : s = callStop := by simpa [callAndReturnTwice] using hs
    rw [Leads.onward_iff (t := ⟨callAndReturn, 0⟩)]
    decide +kernel
  have hreports : History 0 callAndReturnTwice [.indirectBranch 0x1004 0, .directBranch false 0,
      .indirectBranch 0x1004 3] :=
    .onward (.target (.inl rfl) (.outcome (.target (.inr rfl) .nil)))
  have hcounted := (paths_are_reconstructed callAndReturn {} 1 0 0x1000 0 callAndReturnTwice
    branchStop rfl (by decide +kernel) .callAndReturnTwice hparks (by decide) counted
    (by decide +revert)).1 rfl
  have hhistory := (paths_are_reconstructed callAndReturn {} 1 0 0x1000 0 callAndReturnTwice
    branchStop rfl (by decide +kernel) .callAndReturnTwice hparks (by decide) history
    (by decide +revert)).2 hself _ hreports rfl
  exact ⟨hparks, ⟨hcounted.1, hcounted.2.1⟩, hhistory.1, hhistory.2.1⟩

end Retrace
