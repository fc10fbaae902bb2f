import Mathlib.Data.List.Basic
import Retrace.Proofs.Print.Streams
import Retrace.Proofs.Session.Steps
import Retrace.Proofs.Trace.Independence
import Retrace.Proofs.Trace.Successors

/-!
# A session tells each core's story

What a session gives of one core, records and printed lines, is what it gives if that core alone
sends messages.
-/

namespace Retrace

open Wire

theorem Message.payload_of_fragment? {m : Message} {f : Fragment} (h : m.fragment? = some f) :
    m.payload = .print f := by
  unfold fragment? at h
  cases hp : m.payload with
  | print f' =>
      rw [hp] at h
      rw [Option.some.inj h]
  | _ =>
      rw [hp] at h
      cases h

/-! ## Tracers -/

namespace Tracer.Agree

variable {t t' : Tracer} {x : Except PacketError Message} {id : UInt16}

theorem reads (h : t.Agree id t') (hx : Intact x) (hid : readCore? x = some id) :
    t'.gains x = t.gains x ∧ (t.reads x).Agree id (t'.reads x) := by
  cases x with
  | error e =>
      obtain ⟨type, core, rfl⟩ := hx
      exact ⟨rfl, h⟩
  | ok m =>
      obtain rfl : m.core = id := Option.some.inj hid
      rw [gains, gains, Tracer.reads, Tracer.reads]
      cases m.fragment? with
      | some f => exact ⟨rfl, h⟩
      | none =>
          have hanswer : t'.answer m = t.answer m := h.answer rfl rfl
          refine ⟨?_, h.process rfl rfl⟩
          simp only [reconstructed_answer, hanswer]

theorem reads_of_ne (h : t.Agree id t') (hx : Intact x) (hid : readCore? x ≠ some id) :
    (t.gains x).filter (·.core = id) = [] ∧ (t.reads x).Agree id t' := by
  cases x with
  | error e =>
      obtain ⟨type, core, rfl⟩ := hx
      exact ⟨rfl, h⟩
  | ok m =>
      have hne : m.core ≠ id := fun he => hid (congrArg some he)
      rw [gains, Tracer.reads]
      cases m.fragment? with
      | some f => exact ⟨rfl, h⟩
      | none =>
          refine ⟨?_, h.process_of_ne hne⟩
          simp [reconstructed_answer, Record.of, hne]

end Tracer.Agree

/-! ## Sessions -/

namespace Session

/-- The line that ends with a reading, and the assembler then. -/
def joined (s : Session) : Except PacketError Message → Option PrintLine × Assembler
  | .ok m =>
    match m.fragment? with
    | some f =>
      if s.configuration.printChannels.contains f.channel.toNat then s.assembler.feed f
      else (none, s.assembler)
    | none => (none, s.assembler)
  | .error _ => (none, s.assembler)

/-- The sessions know the same of the core. -/
structure Agree (id : UInt16) (s s' : Session) : Prop where
  configuration : s'.configuration = s.configuration
  tracer : s.tracer.Agree id s'.tracer
  assembler : s.assembler.Agree id s'.assembler
  lines : ∀ stream : PrintStream, stream.core = id →
    s'.lines.filter (·.stream = stream) = s.lines.filter (·.stream = stream)

variable {s s' : Session} {x : Except PacketError Message} {id : UInt16}

theorem consume_joined (s : Session) (x : Except PacketError Message) :
    (s.consume x).2.configuration = s.configuration ∧
      (s.consume x).2.assembler = (s.joined x).2 ∧
      (s.consume x).2.lines = s.lines ++ (s.joined x).1.toList := by
  cases x with
  | error e => cases e <;> exact ⟨rfl, rfl, (List.append_nil _).symm⟩
  | ok m =>
      rw [consume, take_eq, joined]
      cases m.fragment? with
      | some f =>
          cases hc : s.configuration.printChannels.contains f.channel.toNat with
          | true =>
              simp only [succeed, deliver, print, note, hc]
              exact ⟨rfl, rfl, rfl⟩
          | false =>
              simp only [succeed, deliver, print, note, hc]
              exact ⟨rfl, rfl, (List.append_nil _).symm⟩
      | none =>
          simp only [reconstruct, note]
          cases s.tracer.process m with
          | mk r t => cases r <;> exact ⟨rfl, rfl, (List.append_nil _).symm⟩

theorem Agree.joined (h : s.Agree id s') (hx : Intact x) (hid : readCore? x = some id) :
    (s'.joined x).1 = (s.joined x).1 ∧ (s.joined x).2.Agree id (s'.joined x).2 := by
  cases x with
  | error e => exact ⟨rfl, h.assembler⟩
  | ok m =>
      rw [Session.joined, Session.joined, h.configuration]
      cases hf : m.fragment? with
      | none => exact ⟨rfl, h.assembler⟩
      | some f =>
          obtain rfl : f.core = id :=
            (hx f (Message.payload_of_fragment? hf)).trans (Option.some.inj hid)
          simp only
          split
          · exact h.assembler.feed
          · exact ⟨rfl, h.assembler⟩

theorem Agree.joined_of_ne (h : s.Agree id s') (hx : Intact x) (hid : readCore? x ≠ some id) :
    (∀ line ∈ (s.joined x).1, line.stream.core ≠ id) ∧ (s.joined x).2.Agree id s'.assembler := by
  cases x with
  | error e => exact ⟨nofun, h.assembler⟩
  | ok m =>
      rw [Session.joined]
      cases hf : m.fragment? with
      | none => exact ⟨nofun, h.assembler⟩
      | some f =>
          have hne : f.core ≠ id := by
            rw [hx f (Message.payload_of_fragment? hf)]
            exact fun he => hid (congrArg some he)
          simp only
          split
          · exact ⟨fun line hline => Assembler.stream_feed hline ▸ hne, h.assembler.feed_of_ne hne⟩
          · exact ⟨nofun, h.assembler⟩

namespace Agree

/-- A reading on the core is taken alike. -/
theorem consume (h : s.Agree id s') (hx : Intact x) (hid : readCore? x = some id) :
    (s.consume x).2.Agree id (s'.consume x).2 := by
  obtain ⟨kept, ht⟩ := s.tracer_consume x
  obtain ⟨kept', ht'⟩ := s'.tracer_consume x
  obtain ⟨hc, ha, hl⟩ := s.consume_joined x
  obtain ⟨hc', ha', hl'⟩ := s'.consume_joined x
  obtain ⟨hline, hassembler⟩ := h.joined hx hid
  refine ⟨by rw [hc, hc', h.configuration], ?_, by rwa [ha, ha'], fun stream hs => ?_⟩
  · rw [ht, ht']
    exact (h.tracer.reads hx hid).2.undelivered kept kept'
  · rw [hl, hl', List.filter_append, List.filter_append, h.lines stream hs, hline]

/-- A reading on another core leaves what is known of the core as it is. -/
theorem consume_of_ne (h : s.Agree id s') (hx : Intact x) (hid : readCore? x ≠ some id) :
    (s.consume x).2.Agree id s' := by
  obtain ⟨kept, ht⟩ := s.tracer_consume x
  obtain ⟨hc, ha, hl⟩ := s.consume_joined x
  obtain ⟨hline, hassembler⟩ := h.joined_of_ne hx hid
  refine ⟨by rw [hc, h.configuration], ?_, by rwa [ha], fun stream hs => ?_⟩
  · rw [ht]
    exact (h.tracer.reads_of_ne hx hid).2.undelivered kept s'.tracer.undelivered
  · have hnone : (s.joined x).1.toList.filter (·.stream = stream) = [] := by
      refine List.filter_eq_nil_iff.mpr fun line hmem heq => ?_
      obtain rfl : line.stream = stream := by simpa using heq
      exact hline line (by simpa using hmem) hs
    rw [hl, List.filter_append, hnone, List.append_nil, h.lines stream hs]

/-- The readings on the core alone lead to the same. -/
theorem gained (h : s.Agree id s') (xs : List (Except PacketError Message))
    (hxs : ∀ x ∈ xs, Intact x) :
    (s'.gained (xs.filter (readCore? · = some id))).filter (·.core = id) =
        (s.gained xs).filter (·.core = id) ∧
      (s.through xs).Agree id (s'.through (xs.filter (readCore? · = some id))) := by
  induction xs generalizing s s' with
  | nil => exact ⟨rfl, h⟩
  | cons x xs ih =>
      have hx := hxs x List.mem_cons_self
      have hxs := fun y hy => hxs y (List.mem_cons_of_mem x hy)
      rw [Session.gained, List.filter_append]
      by_cases hid : readCore? x = some id
      · obtain ⟨hgained, hthrough⟩ := ih (h.consume hx hid) hxs
        rw [List.filter_cons_of_pos (by simpa using hid), Session.gained, List.filter_append,
          (h.tracer.reads hx hid).1, hgained]
        exact ⟨rfl, hthrough⟩
      · obtain ⟨hgained, hthrough⟩ := ih (h.consume_of_ne hx hid) hxs
        rw [List.filter_cons_of_neg (by simpa using hid), (h.tracer.reads_of_ne hx hid).1,
          List.nil_append]
        exact ⟨hgained, hthrough⟩

end Agree

/-! ## Traces -/

variable {image : Image} {c : Configuration} {trace trace' : List UInt8}

/-- A session that starts has taken and counted nothing. -/
theorem eq_of_start {s : Session} (h : start image trace c = .ok s) :
    s = { configuration := c
          reader := .start c.readerOptions trace
          tracer := .start image c.tracerOptions (.empty SiteCache.defaultSize)
          assembler := .start c.printBufferLimit
          lines := []
          statistics := {}
          finished := false } := by
  unfold start at h
  split at h
  · cases h
  · exact (Except.ok.inj h).symm

theorem start_of_valid (image : Image) (trace : List UInt8) (h : c.invalid? = none) :
    ∃ s, start image trace c = .ok s ∧ s.configuration = c ∧
      s.reader = .start c.readerOptions trace ∧
      s.tracer = .start image c.tracerOptions (.empty SiteCache.defaultSize) ∧
      s.assembler = .start c.printBufferLimit ∧ s.lines = [] ∧ s.finished = false :=
  ⟨_, by rw [start, h], rfl, rfl, rfl, rfl, rfl, rfl⟩

theorem coreBits_of_valid (h : c.invalid? = none) : c.readerOptions.coreBits = c.coreBits := by
  have hle : c.coreBits ≤ 16 := by
    by_contra hlt
    have hbits : decide (c.coreBits ≤ 16) = false := by simpa using hlt
    simp [Configuration.invalid?, Configuration.demand, hbits] at h
  exact Nat.min_eq_left hle

theorem readings_transmit (h : c.invalid? = none) (ps : List (Nat × Packet))
    (hps : ∀ q ∈ ps, q.2.Complete) :
    (Reader.start c.readerOptions (transmit c.coreBits ps)).readings =
      told c.timestampWidth (fun _ => {})
        ((ps.map fun q => q.2.reduced c.coreBits).map .ok) := by
  rw [Reader.readings_start, coreBits_of_valid h, Position.packets_transmit ps hps, List.map_map]
  rfl

/-- Sessions whose readings are the same on a core give the same of it. -/
theorem Agree.finish (h : s.Agree id s') (hf : s.finished = false) (hf' : s'.finished = false)
    (hu : s.tracer.undelivered = []) (hu' : s'.tracer.undelivered = [])
    (hxs : ∀ x ∈ s.reader.readings, Intact x)
    (hreadings : s'.reader.readings = s.reader.readings.filter (readCore? · = some id)) :
    (given s'.finish.1 ++ s'.finish.2.close.records).filter (·.core = id) =
        (given s.finish.1 ++ s.finish.2.close.records).filter (·.core = id) ∧
      (∀ channel, s'.finish.2.close.lines.filter (·.stream = ⟨id, channel⟩) =
        s.finish.2.close.lines.filter (·.stream = ⟨id, channel⟩)) ∧
      s'.finish.2.phase id = s.finish.2.phase id := by
  obtain ⟨hgained, hend⟩ := h.gained s.reader.readings hxs
  obtain ⟨_, -, -, ht, ha, hl⟩ := finish_eq hf
  obtain ⟨_, -, -, ht', ha', hl'⟩ := finish_eq hf'
  rw [← hreadings] at hgained hend
  refine ⟨?_, fun channel => ?_, ?_⟩
  · rw [given_finish hf, given_finish hf', hu, hu', List.nil_append, List.nil_append, hgained]
  · have hlines : ∀ s : Session, s.close.lines = s.lines ++ s.assembler.drain.1 := fun _ => rfl
    rw [hlines, hlines, hl, hl', ha, ha', List.filter_append, List.filter_append,
      Assembler.drain_filter, Assembler.drain_filter, hend.lines _ rfl,
      hend.assembler.lines _ rfl]
  · rw [phase, phase, ht, ht']
    exact congrArg Core.phase hend.tracer.core

/-- What a session gives of one core, and what it knows of it at the end of the trace, is what a
session gives and knows to which only the packets of that core were sent. -/
theorem cores_are_independent (image : Image) (c : Configuration) (ps : List (Nat × Packet))
    (id : UInt16) (hc : c.invalid? = none) (hps : ∀ q ∈ ps, q.2.Complete) :
    ∃ s s', start image (transmit c.coreBits ps) c = .ok s ∧
      start image (transmit c.coreBits (ps.filter fun q => (q.2.reduced c.coreBits).core = id)) c =
        .ok s' ∧
      (given s'.finish.1 ++ s'.finish.2.close.records).filter (·.core = id) =
        (given s.finish.1 ++ s.finish.2.close.records).filter (·.core = id) ∧
      (∀ channel, s'.finish.2.close.lines.filter (·.stream = ⟨id, channel⟩) =
        s.finish.2.close.lines.filter (·.stream = ⟨id, channel⟩)) ∧
      s'.finish.2.phase id = s.finish.2.phase id := by
  obtain ⟨s, hs, hconf, hreader, htracer, hassembler, hlines, hf⟩ :=
    start_of_valid image (transmit c.coreBits ps) hc
  obtain ⟨s', hs', hconf', hreader', htracer', hassembler', hlines', hf'⟩ :=
    start_of_valid image
      (transmit c.coreBits (ps.filter fun q => (q.2.reduced c.coreBits).core = id)) hc
  have hown : ∀ q ∈ ps.filter fun q => (q.2.reduced c.coreBits).core = id, q.2.Complete :=
    fun q hq => hps q (List.mem_of_mem_filter hq)
  have hsites := SiteCache.valid_empty image SiteCache.defaultSize
  have hagree : s.Agree id s' :=
    ⟨by rw [hconf, hconf'], by rw [htracer, htracer']; exact ⟨rfl, rfl, rfl, hsites, hsites⟩,
      by rw [hassembler, hassembler']; exact ⟨rfl, fun _ _ => rfl⟩, by simp [hlines, hlines']⟩
  refine ⟨s, s', hs, hs', hagree.finish hf hf' (by rw [htracer]; rfl) (by rw [htracer']; rfl) ?_ ?_⟩
  · rw [hreader, readings_transmit hc ps hps]
    exact fun x hx => intact_of_told hx
  · rw [hreader, hreader', readings_transmit hc ps hps, readings_transmit hc _ hown,
      told_filter _ (fun _ => {}) (fun _ => {}) rfl, List.filter_map]
    rfl

/-- The records of a core are the same if another core that faults is left out: its branch, when it
is first reached and when it is taken. -/
theorem faulting_core_apart :
    let c : Configuration := { coreBits := 1 }
    let ps : List (Nat × Packet) := [(0, ⟨.sync, 0, [0, 0, 0x802]⟩), (1, ⟨.sync, 1, [0, 0, 0x800]⟩),
      (0, ⟨.directBranch, 1, [9]⟩), (0, ⟨.directBranch, 0, [2]⟩)]
    let jump : Record := ⟨⟨0x1004, ⟨.bits32 0x63, .branch .eq ⟨0, 0, 0⟩⟩, none, none, .branch⟩, 0, 0⟩
    ∃ s s', start callAndReturn (transmit 1 ps) c = .ok s ∧
      start callAndReturn (transmit 1 [ps[0], ps[3]]) c = .ok s' ∧
      (given s.finish.1 ++ s.finish.2.close.records).filter (·.core = 1) ≠ [] ∧
      (given s.finish.1 ++ s.finish.2.close.records).filter (·.core = 0) = [jump, jump] ∧
      (given s'.finish.1 ++ s'.finish.2.close.records).filter (·.core = 0) = [jump, jump] := by
  intro c ps jump
  have hps : ∀ q ∈ ps, q.2.Complete := by
    intro q hq
    simp only [ps, List.mem_cons, List.not_mem_nil, or_false] at hq
    rcases hq with rfl | rfl | rfl | rfl <;> exact ⟨_, rfl, by decide⟩
  obtain ⟨s, s', hs, hs', hrecords, -⟩ := cores_are_independent callAndReturn c ps 0 rfl hps
  obtain ⟨s₁, hs₁, -, hreader, -, -, -, hf⟩ :=
    start_of_valid callAndReturn (transmit 1 ps) (c := c) rfl
  obtain rfl : s = s₁ := Except.ok.inj (hs.symm.trans hs₁)
  have hrun : (start callAndReturn (transmit 1 ps) c).toOption.map (fun s =>
      let records := s.tracer.undelivered ++ s.gained (told c.timestampWidth (fun _ => {})
        ((ps.map fun q => q.2.reduced c.coreBits).map .ok))
      (records.filter (·.core = 0), (records.filter (·.core = 1)).length)) =
      some ([jump, jump], 2) := by
    decide +kernel
  rw [hs, ← readings_transmit rfl ps hps, ← hreader] at hrun
  simp only [Except.toOption, Option.map_some, Option.some.injEq, Prod.mk.injEq] at hrun
  rw [← given_finish hf] at hrun
  obtain ⟨hself, hother⟩ := hrun
  refine ⟨s, s', hs, hs', fun hnone => ?_, hself, hrecords.trans hself⟩
  rw [hnone] at hother
  cases hother

end Session

end Retrace
