import Mathlib.Algebra.BigOperators.Group.Finset.Piecewise
import Mathlib.Algebra.BigOperators.Group.Finset.Sigma
import Mathlib.Data.FinEnum
import Mathlib.Data.UInt
import Retrace.Proofs.Session.Ending
import Retrace.Proofs.Session.Reset
import Retrace.Proofs.Session.Residue

/-!
# How often cores fault

A session counts each core that faults. It counts once more where a core that has faulted is told a
place that does not agree with the image either, although it stays as it is then.
-/

namespace Retrace

open Wire

/-! ## Tracers -/

/-- A core faults if and only if its message fails, unless it has faulted before. -/
theorem Core.phase_step (c : Core) (t : Terrain) (cache : SiteCache) (payload : Payload) :
    match (c.step t cache payload).failure? with
    | none => (c.step t cache payload).core.phase = .faulted → c.phase = .faulted
    | some _ => (c.step t cache payload).core.phase = .faulted := by
  have hwalk (o : Outcome) : match (Effect.ofOutcome o).failure? with
      | none => (Effect.ofOutcome o).core.phase = .faulted → c.phase = .faulted
      | some _ => (Effect.ofOutcome o).core.phase = .faulted := by
    rcases o with ⟨e | s, w⟩
    · rfl
    · exact nofun
  rcases c.step_cases t cache payload with ⟨code, -, h⟩ | h | ⟨s, o, -, -, h⟩ |
    ⟨address, count, -, -, h⟩
  · rw [h]
    exact nofun
  · rw [h]
    exact id
  · rw [h]
    exact hwalk o
  · rw [h]
    exact hwalk _

namespace Tracer

/-- The cores that have faulted between two states. -/
def faulting (t t' : Tracer) : Finset UInt16 :=
  {id | t.phase id ≠ .faulted ∧ t'.phase id = .faulted}

variable {t t' : Tracer} {id : UInt16}

theorem faulting_of_keeps (h : ∀ id, t'.phase id = .faulted → t.phase id = .faulted) :
    t.faulting t' = ∅ :=
  Finset.filter_eq_empty_iff.mpr fun id _ hid => hid.1 (h id hid.2)

@[simp]
theorem faulting_self (t : Tracer) : t.faulting t = ∅ :=
  faulting_of_keeps fun _ h => h

theorem faulting_of_core (hself : t'.phase id = .faulted)
    (hother : ∀ id', id ≠ id' → t'.phase id' = t.phase id') :
    t.faulting t' = if t.phase id = .faulted then ∅ else {id} := by
  split
  · rename_i hid
    refine faulting_of_keeps fun id' h => ?_
    by_cases heq : id = id'
    · exact heq ▸ hid
    · rwa [hother id' heq] at h
  · rename_i hid
    ext id'
    simp only [faulting, Finset.mem_filter, Finset.mem_univ, true_and, Finset.mem_singleton]
    constructor
    · rintro ⟨hbefore, hafter⟩
      by_contra heq
      exact hbefore (by rwa [hother id' (Ne.symm heq)] at hafter)
    · rintro rfl
      exact ⟨hid, hself⟩

/-- A message that fails faults its core, and no message faults another. -/
theorem faulting_process (t : Tracer) (m : Message) :
    t.faulting (t.process m).2 =
      match (t.process m).1 with
      | .ok _ => ∅
      | .error _ => if t.phase m.core = .faulted then ∅ else {m.core} := by
  have hother (id : UInt16) (h : m.core ≠ id) : (t.process m).2.phase id = t.phase id :=
    congrArg Core.phase (core_process_of_ne h)
  cases hs : t.selects m.core with
  | false => simp [process_of_not_selects hs]
  | true =>
      have hself : (t.process m).2.phase m.core = (t.effect m).core.phase :=
        congrArg Core.phase (core_process_self hs)
      have hstep := (t.core m.core).phase_step t.terrain t.cache m.payload
      rw [process_answer, answer, if_pos hs]
      change match (t.effect m).failure? with
        | none => (t.effect m).core.phase = .faulted → t.phase m.core = .faulted
        | some _ => (t.effect m).core.phase = .faulted at hstep
      cases hf : (t.effect m).failure? with
      | none =>
          rw [hf] at hstep
          refine faulting_of_keeps fun id h => ?_
          by_cases hid : m.core = id
          · exact hid ▸ hstep (hself ▸ hid ▸ h)
          · rwa [hother id hid] at h
      | some e =>
          rw [hf] at hstep
          exact faulting_of_core (hself.trans hstep) hother

/-- Only a sync can fail over a core that has faulted. -/
theorem sync_of_refault {m : Message} {e : Disagreement} (hp : t.phase m.core = .faulted)
    (h : (t.process m).1 = .error e) : m.kind = .sync := by
  cases hs : t.selects m.core with
  | false => simp [process_of_not_selects hs] at h
  | true =>
      have hf : (t.effect m).failure? ≠ none := by
        intro hf
        rw [process_answer, answer, if_pos hs, hf] at h
        cases h
      rcases (t.core m.core).step_cases t.terrain t.cache m.payload with ⟨code, -, hstep⟩ | hstep |
        ⟨s, o, hparked, -, -⟩ | ⟨address, count, hsync, -, -⟩
      · exact absurd (congrArg Effect.failure? hstep) hf
      · exact absurd (congrArg Effect.failure? hstep) hf
      · rw [phase, hparked] at hp
        cases hp
      · exact congrArg Payload.kind hsync

theorem faultCore_counts (t : Tracer) (id : UInt16) :
    (t.faultCore id).1.toNat = (t.faulting (t.faultCore id).2).card := by
  cases hs : t.selects id with
  | false => simp [faultCore, hs]
  | true =>
      have hself : (t.faultCore id).2.phase id = .faulted :=
        congrArg Core.phase (core_faultCore_self hs)
      have hother (id' : UInt16) (h : id ≠ id') : (t.faultCore id).2.phase id' = t.phase id' :=
        congrArg Core.phase (core_faultCore_of_ne h)
      rw [faulting_of_core hself hother]
      by_cases hp : t.phase id = .faulted <;> simp [faultCore, hs, hp]

/-- The cores that messages were about are all that can fault. -/
theorem faulting_faultAll (t : Tracer) :
    t.faulting t.faultAll.2 =
      ((t.cores.toList.filter fun p => p.2.phase ≠ .faulted).map Prod.fst).toFinset := by
  ext id
  simp only [faulting, Finset.mem_filter, Finset.mem_univ, true_and, List.mem_toFinset,
    List.mem_map, List.mem_filter, Prod.exists, exists_and_right, exists_eq_right,
    Std.TreeMap.mem_toList_iff_getElem?_eq_some, faultAll, phase, core,
    Std.TreeMap.getD_eq_getD_getElem?, Std.TreeMap.getElem?_map]
  cases t.cores[id]? with
  | none => simp [Core.start]
  | some c => simp [Core.fault]

theorem faultAll_counts (t : Tracer) :
    t.faultAll.1 = (t.faulting t.faultAll.2).card := by
  have hvalues : t.cores.values = t.cores.toList.map Prod.snd := by
    change t.cores.foldr (fun _ c cs => c :: cs) [] = _
    rw [Std.TreeMap.foldr_eq_foldr_toList, List.map_eq_foldr]
  -- Each core has one entry, so that counting entries counts cores.
  have hkeys : ((t.cores.toList.filter fun p => p.2.phase ≠ .faulted).map Prod.fst).Nodup := by
    have hall := t.cores.nodup_keys
    rw [← Std.TreeMap.map_fst_toList_eq_keys] at hall
    exact hall.sublist (List.filter_sublist.map _)
  rw [faulting_faultAll, List.toFinset_card_of_nodup hkeys, List.length_map,
    ← List.countP_eq_length_filter, faultAll, hvalues, List.countP_map]
  rfl

/-- A fault counts the cores that fault by it. -/
theorem fault_counts (t : Tracer) (id? : Option UInt16) :
    (t.fault id?).1 = (t.faulting (t.fault id?).2).card := by
  cases id? with
  | none => exact t.faultAll_counts
  | some id => exact t.faultCore_counts id

end Tracer

/-! ## Steps -/

namespace Session

/-- The reading is a message of a core that has faulted, and its outcome a failure. -/
def refaults (s : Session) : Except PacketError Message → Except Error (List Record) → Bool
  | .ok m, .error _ => s.phase m.core = .faulted
  | _, _ => false

/-- The next step fails over a message of a core that has faulted. -/
def failsAgain (s : Session) : Bool :=
  match s.upcoming?, s.advance.1 with
  | some x, some outcome => s.refaults x outcome
  | _, _ => false

/-- Each of the first steps with each core that faults in it. -/
def faultings (s : Session) (n : Nat) : Finset (Nat × UInt16) :=
  {p ∈ Finset.range n ×ˢ Finset.univ |
    (s.after p.1).phase p.2 ≠ .faulted ∧ (s.after (p.1 + 1)).phase p.2 = .faulted}

/-- Those of the first steps that fail over a message of a core that has faulted. -/
def repeats (s : Session) (n : Nat) : Finset Nat :=
  {i ∈ Finset.range n | (s.after i).failsAgain}

variable {s : Session} {x : Except PacketError Message} {reader : Reader}

theorem faults_reconstruct (s : Session) (m : Message) :
    (s.reconstruct m).2.statistics.faults =
      s.statistics.faults + (s.tracer.faulting (s.reconstruct m).2.tracer).card +
        (s.refaults (.ok m) (s.reconstruct m).1).toNat := by
  have hfaulting := s.tracer.faulting_process m
  simp only [reconstruct]
  cases hp : s.tracer.process m with
  | mk r t =>
      rw [hp] at hfaulting
      cases r with
      | ok records =>
          change (s.statistics.addRecords _).faults =
            s.statistics.faults + (s.tracer.faulting t).card + 0
          rw [hfaulting, Finset.card_empty]
          exact (Statistics.addRecords_keeps _ _).2.2.2
      | error e =>
          change s.statistics.faults + 1 = s.statistics.faults + (s.tracer.faulting t).card +
            (decide (s.tracer.phase m.core = .faulted)).toNat
          rw [hfaulting]
          -- One is counted either way: for the core that faults, or again for the one that had.
          by_cases hphase : s.tracer.phase m.core = .faulted <;> simp [hphase]

theorem sync_of_refaults {m : Message}
    (h : s.refaults (.ok m) (s.reconstruct m).1 = true) :
    m.kind = .sync ∧ s.tracer.faulting (s.reconstruct m).2.tracer = ∅ := by
  have hfaulting := s.tracer.faulting_process m
  have hkind {e : Disagreement} (hp : s.tracer.phase m.core = .faulted) :=
    Tracer.sync_of_refault (e := e) hp
  simp only [reconstruct] at h ⊢
  cases hp : s.tracer.process m with
  | mk r t =>
      rw [hp] at h hfaulting hkind
      cases r with
      | ok records => cases h
      | error e =>
          have hphase : s.tracer.phase m.core = .faulted := of_decide_eq_true h
          exact ⟨hkind hphase rfl, hfaulting.trans (if_pos hphase)⟩

theorem faults_skip (s : Session) (e : PacketError) :
    (s.skip e).statistics.faults =
      s.statistics.faults + (s.tracer.faulting (s.skip e).tracer).card := by
  have hfault (id? : Option UInt16) : s.statistics.faults + (s.tracer.fault id?).1 =
      s.statistics.faults + (s.tracer.faulting (s.tracer.fault id?).2).card := by
    rw [s.tracer.fault_counts id?]
  cases e with
  | unsupported type core =>
      change s.statistics.faults = s.statistics.faults + (s.tracer.faulting s.tracer).card
      rw [Tracer.faulting_self, Finset.card_empty, Nat.add_zero]
  | malformed position core cause => exact hfault core
  | truncated | reservedMarker | unknownType => exact hfault none

theorem faults_consume (s : Session) (x : Except PacketError Message) :
    (s.consume x).2.statistics.faults =
      s.statistics.faults + (s.tracer.faulting (s.consume x).2.tracer).card +
        (s.refaults x (s.consume x).1).toNat := by
  cases x with
  | error e => exact (s.faults_skip e).trans (Nat.add_zero _).symm
  | ok m =>
      rw [consume, take_eq]
      cases m.fragment? with
      | some f =>
          have hfaults : ((s.note m).print f).statistics.faults = s.statistics.faults := by
            unfold print
            split <;> rfl
          have hfaulting : s.tracer.faulting ((s.note m).print f).tracer.takeUndelivered.2 = ∅ := by
            rw [tracer_print]
            exact s.tracer.faulting_self
          change (Statistics.addRecords _ _).faults = s.statistics.faults +
            (s.tracer.faulting ((s.note m).print f).tracer.takeUndelivered.2).card + 0
          rw [hfaulting, (Statistics.addRecords_keeps _ _).2.2.2, hfaults]
          rfl
      | none => exact (s.note m).faults_reconstruct m

/-- A step counts the cores that fault in it, and once more if it fails over one that has
faulted. -/
theorem faults_advance (s : Session) :
    s.advance.2.statistics.faults =
      s.statistics.faults + (s.tracer.faulting s.advance.2.tracer).card + s.failsAgain.toNat := by
  have hadvances := s.advances
  unfold failsAgain
  generalize s.advance = r at hadvances
  cases hadvances with
  | stopped hf => simp
  | @read x reader hf hn =>
      rw [upcoming?_of_next hf hn]
      exact s.faults_consume x
  | leftover hf hn hu =>
      change (s.statistics.addRecords s.tracer.undelivered).faults =
        s.statistics.faults + (s.tracer.faulting s.tracer).card + _
      rw [upcoming?_of_next hf hn, Tracer.faulting_self, Finset.card_empty]
      exact (Statistics.addRecords_keeps _ _).2.2.2
  | ended hf hn hu =>
      rw [upcoming?_of_next hf hn, Tracer.faulting_self, Finset.card_empty]
      rfl

/-- A step that fails over a core that has faulted takes a sync, and no core faults in it. -/
theorem sync_of_failsAgain (h : s.failsAgain = true) :
    (∃ m, s.upcoming? = some (.ok m) ∧ m.kind = .sync) ∧
      s.tracer.faulting s.advance.2.tracer = ∅ := by
  have hadvances := s.advances
  unfold failsAgain at h
  generalize s.advance = r at h hadvances
  cases hadvances with
  | stopped hf => simp [upcoming?_of_finished hf] at h
  | leftover hf hn hu => simp [upcoming?_of_next hf hn] at h
  | ended hf hn hu => simp [upcoming?_of_next hf hn] at h
  | @read x reader hf hn =>
      rw [upcoming?_of_next hf hn] at h ⊢
      cases x with
      | error e => simp [refaults] at h
      | ok m =>
          rw [consume, take_eq] at h ⊢
          cases hm : m.fragment? with
          | some f => simp [hm, refaults, succeed] at h
          | none =>
              rw [hm] at h
              obtain ⟨hkind, hfaulting⟩ := sync_of_refaults (s := s.note m) h
              exact ⟨⟨m, rfl, hkind⟩, hfaulting⟩

theorem card_faultings_succ (s : Session) (n : Nat) :
    (s.faultings (n + 1)).card = (s.faultings n).card +
      ((s.after n).tracer.faulting (s.after (n + 1)).tracer).card := by
  simp only [faultings, Tracer.faulting, Finset.card_filter, Finset.sum_product,
    Finset.sum_range_succ]
  rfl

theorem card_repeats_succ (s : Session) (n : Nat) :
    (s.repeats (n + 1)).card = (s.repeats n).card + (s.after n).failsAgain.toNat := by
  simp only [repeats, Finset.card_filter, Finset.sum_range_succ]
  cases (s.after n).failsAgain <;> rfl

theorem faults_after (s : Session) (n : Nat) :
    (s.after n).statistics.faults =
      s.statistics.faults + (s.faultings n).card + (s.repeats n).card := by
  induction n with
  | zero => rfl
  | succ n ih =>
      have hstep := (s.after n).faults_advance
      rw [← after_succ, ih] at hstep
      rw [hstep, card_faultings_succ, card_repeats_succ]
      omega

theorem repeats_fault_no_core {n i : Nat} (h : i ∈ s.repeats n) :
    (∃ m, (s.after i).upcoming? = some (.ok m) ∧ m.kind = .sync) ∧
      ∀ id, (i, id) ∉ s.faultings n := by
  obtain ⟨hsync, hfaulting⟩ := sync_of_failsAgain (Finset.mem_filter.mp h).2
  refine ⟨hsync, fun id hid => ?_⟩
  have hphases := (Finset.mem_filter.mp hid).2
  rw [after_succ] at hphases
  have hmem : id ∈ (s.after i).tracer.faulting (s.after i).advance.2.tracer :=
    Finset.mem_filter.mpr ⟨Finset.mem_univ id, hphases⟩
  rw [hfaulting] at hmem
  exact absurd hmem (Finset.notMem_empty id)

/-- Whatever was asked before the last reset, or nothing if the session has just started: what is
counted as faults since are the cores that fault in each step, and the syncs that tell a core that
has faulted another place that does not agree with the image. No core faults by these. -/
theorem faults_count (image : Image) (c : Configuration) (trace : List UInt8)
    (hc : c.invalid? = none) :
    ∃ s, start image trace c = .ok s ∧ ∀ (before : List Request) (calls : List Call),
      let s' := (s.askAll before).reset
      let n := calls.count .advance
      (s'.performAll calls).statistics.faults = (s'.faultings n).card + (s'.repeats n).card ∧
      ∀ i ∈ s'.repeats n, (∃ m, (s'.after i).upcoming? = some (.ok m) ∧ m.kind = .sync) ∧
        ∀ id, (i, id) ∉ s'.faultings n := by
  obtain ⟨s, hs, -⟩ := start_of_valid image trace hc
  refine ⟨s, hs, fun before calls => ?_⟩
  intro s' n
  obtain ⟨lines, hafter⟩ := s'.performAll_eq calls
  have hcount := s'.faults_after n
  have hreset : s'.statistics.faults = 0 := rfl
  refine ⟨?_, fun i hi => repeats_fault_no_core hi⟩
  rw [hafter, hcount, hreset, Nat.zero_add]

/-- Two syncs to a place without code are read, and read once more behind a reset: core 0 faults by
the first, and the second is counted, too. -/
theorem faults_behind_reset :
    let trace := transmit 0 [(0, ⟨.sync, 0, [0, 0, 0]⟩), (0, ⟨.sync, 0, [0, 0, 0]⟩)]
    ∃ s, start callAndReturn trace {} = .ok s ∧
      let s' := (s.askAll [.call .advance, .call .advance]).reset
      (s'.performAll [.advance, .takeLines, .advance]).statistics.faults = 2 ∧
        (0, 0) ∈ s'.faultings 2 ∧ (s'.faultings 2).card = 1 ∧ s'.repeats 2 = {1} := by
  intro trace
  obtain ⟨s, hs, hcount⟩ := faults_count callAndReturn {} trace rfl
  obtain ⟨hfaults, -⟩ := hcount [.call .advance, .call .advance] [.advance, .takeLines, .advance]
  have hrun : (start callAndReturn trace {}).toOption.map (fun s =>
      let s' := (s.askAll [.call .advance, .call .advance]).reset
      ((s'.performAll [.advance, .takeLines, .advance]).statistics.faults, s'.phase 0,
        (s'.after 1).phase 0, s'.repeats 2)) =
      some (2, .unsynced, .faulted, {1}) := by
    decide +kernel
  rw [hs] at hrun
  simp only [Except.toOption, Option.map_some, Option.some.injEq, Prod.mk.injEq] at hrun
  obtain ⟨htwo, hunsynced, hfaulted, hrepeats⟩ := hrun
  refine ⟨s, hs, htwo, ?_, ?_, hrepeats⟩
  · have hnot : (s.askAll [.call .advance, .call .advance]).reset.phase 0 ≠ .faulted := by
      rw [hunsynced]
      exact Phase.noConfusion
    exact Finset.mem_filter.mpr ⟨by simp, hnot, hfaulted⟩
  · have hsum : 2 = (faultings _ 2).card + (repeats _ 2).card := htwo.symm.trans hfaults
    rw [hrepeats, Finset.card_singleton] at hsum
    exact Nat.add_right_cancel hsum.symm

theorem failsAgain_behind (xs : List (Except PacketError Message))
    {ys : List (Except PacketError Message)} (hf : s.finished = false)
    (h : s.reader.readings = xs ++ x :: ys) :
    (s.after xs.length).failsAgain = (s.through xs).refaults x ((s.through xs).consume x).1 := by
  obtain ⟨-, reader, hreadings, hafter⟩ := after_readings hf h
  obtain ⟨reader', hn, -⟩ := Reader.next_of_readings hreadings
  have hrunning : (s.after xs.length).finished = false := by
    rw [hafter]
    exact (finished_through s xs).trans hf
  have hnext : (s.after xs.length).reader.next = (some x, reader') := by rw [hafter, hn]
  rw [failsAgain, upcoming?_of_next hrunning hnext, advance_of_next hrunning hnext, hafter,
    consume_reader]
  rfl

/-- The second of two syncs to a place without code faults no core, and is counted as if it did. -/
theorem sync_counted_again :
    let c : Configuration := {}
    let trace := transmit 0 [(0, ⟨.sync, 0, [0, 0, 0]⟩), (0, ⟨.sync, 0, [0, 0, 0]⟩)]
    ∃ s, start callAndReturn trace c = .ok s ∧
      (s.after 2).statistics.faults = 2 ∧ (s.faultings 2).card = 1 := by
  intro c trace
  let x : Except PacketError Message := .ok ⟨0, 0, .sync 0 0⟩
  obtain ⟨s, hs, -, hreader, -, -, -, hf⟩ := start_of_valid callAndReturn trace (c := c) rfl
  have hsync : Packet.Complete ⟨.sync, 0, [0, 0, 0]⟩ := ⟨_, rfl, by decide⟩
  have hreadings : s.reader.readings = [x, x] := by
    rw [hreader, readings_transmit rfl _ (List.forall_mem_cons.mpr
      ⟨hsync, List.forall_mem_singleton.mpr hsync⟩)]
    decide +kernel
  have hrun : (start callAndReturn trace c).toOption.map (fun s =>
      (s.statistics.faults, (s.through [x, x]).statistics.faults, s.refaults x (s.consume x).1,
        (s.through [x]).refaults x ((s.through [x]).consume x).1)) =
      some (0, 2, false, true) := by
    decide +kernel
  rw [hs] at hrun
  obtain ⟨hstart, hend, hfirst, hsecond⟩ :
      s.statistics.faults = 0 ∧ (s.through [x, x]).statistics.faults = 2 ∧
        s.refaults x (s.consume x).1 = false ∧
        (s.through [x]).refaults x ((s.through [x]).consume x).1 = true := by
    simpa only [Except.toOption, Option.map_some, Option.some.injEq, Prod.mk.injEq] using hrun
  have hfaults : (s.after 2).statistics.faults = 2 := by
    have hall : s.reader.readings = [x, x] ++ [] := hreadings
    obtain ⟨-, reader, -, hafter⟩ := after_readings hf hall
    exact (congrArg (·.statistics.faults) hafter).trans hend
  have hzero : (s.after 0).failsAgain = false :=
    (failsAgain_behind [] hf hreadings).trans hfirst
  have hone : (s.after 1).failsAgain = true :=
    (failsAgain_behind [x] hf hreadings).trans hsecond
  have hrepeats : (s.repeats 2).card = 1 := by
    rw [card_repeats_succ, card_repeats_succ, hzero, hone]
    rfl
  have hcount := s.faults_after 2
  exact ⟨s, hs, hfaults, by omega⟩

end Session

end Retrace
