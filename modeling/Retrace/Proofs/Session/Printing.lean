import Retrace.Proofs.Print.Lines
import Retrace.Proofs.Session.Ending

/-!
# What a session prints

The lines that a session gives of a stream are the bytes that packets write to it, cut at newlines
and NULs, whatever other packets come between them and whenever the lines are taken.
-/

namespace Retrace

open Wire

/-- The bytes that a packet writes to a stream. -/
def Wire.Packet.bytesTo (p : Packet) (stream : PrintStream) : List UInt8 :=
  let tag := (p.mandatory 0).toNat
  if p.type = .dataAcquisition ∧ p.core = stream.core ∧ tag / 4 = stream.channel.toNat then
    lowBytes (p.mandatory 1) (4 - tag % 4)
  else []

def written (ps : List Packet) (stream : PrintStream) : List UInt8 :=
  ps.flatMap (·.bytesTo stream)

def printed? : Except PacketError Message → Option Fragment
  | .ok m => m.fragment?
  | .error _ => none

def Configuration.selects (c : Configuration) (channel : UInt8) : Bool :=
  c.printChannels.contains channel.toNat

def Payload.fragment? : Payload → Option Fragment
  | .print f => some f
  | _ => none

/-- The fragments that a session still reads, of channels that are selected. -/
def Session.fragments (s : Session) : List Fragment :=
  (s.reader.readings.filterMap printed?).filter (s.configuration.selects ·.channel)

/-- All printed lines that a session still gives. -/
def Session.outlook (s : Session) : List PrintLine :=
  s.lines ++ s.assembler.assembled s.fragments

variable {p : Packet} {width : Nat} {c : CoreContext} {stream : PrintStream}
  {x : Except PacketError Message} {last : UInt16 → CoreContext}

/-! ## What packets print -/

theorem filterMap_announced (p : Packet) (payloads : List Payload) :
    (p.announced payloads).filterMap Payload.fragment? = payloads.filterMap Payload.fragment? := by
  unfold Wire.Packet.announced
  split
  · rename_i h
    obtain ⟨hempty, -⟩ := Bool.and_eq_true_iff.mp h
    rw [List.isEmpty_iff.mp hempty]
    rfl
  · rfl

theorem printed_tells (p : Packet) (width : Nat) (c : CoreContext) :
    (p.tells width c).1.filterMap printed? =
      (p.payloads? (p.stamped width c)).elim [] (·.1.filterMap Payload.fragment?) := by
  cases hp : p.payloads? (p.stamped width c) with
  | none =>
      rw [Packet.tells, Packet.expand_of_none hp]
      rfl
  | some r =>
      rw [Packet.tells, Packet.expand_of_some hp]
      simp only [List.map_map, List.filterMap_map, Option.elim_some]
      exact filterMap_announced p r.1

theorem fragment?_eq_none {payload : Payload} (h : payload.kind ≠ .print) :
    payload.fragment? = none := by
  cases payload with
  | print f => exact absurd rfl h
  | _ => rfl

theorem filterMap_fragments (core : UInt16) (timestamp tag data : UInt64) :
    (Retrace.fragments core timestamp tag data).filterMap Payload.fragment? =
      if tag.toNat / 4 < printChannels then
        (pieces [] false (lowBytes data (4 - tag.toNat % 4))).map fun piece =>
          ⟨core, (tag.toNat / 4).toUInt8, piece.1, piece.2, timestamp⟩
      else [] := by
  simp only [Retrace.fragments]
  split
  · rw [List.filterMap_map]
    exact congrFun List.filterMap_eq_map _
  · rfl

theorem stream_eq_iff {core : UInt16} {channel : Nat} (h : channel < printChannels) :
    (⟨core, channel.toUInt8⟩ : PrintStream) = stream ↔
      core = stream.core ∧ channel = stream.channel.toNat := by
  have hbyte : channel.toUInt8.toNat = channel :=
    UInt8.toNat_ofNat_of_lt' (Nat.lt_trans h (by decide))
  obtain ⟨core', channel'⟩ := stream
  rw [PrintStream.mk.injEq, ← UInt8.toNat_inj, hbyte]

theorem fragments_filter (hchannel : stream.channel.toNat < printChannels) (core : UInt16)
    (timestamp tag data : UInt64) :
    (((Retrace.fragments core timestamp tag data).filterMap Payload.fragment?).filter
        (·.stream = stream)).map Fragment.piece =
      if core = stream.core ∧ tag.toNat / 4 = stream.channel.toNat then
        pieces [] false (lowBytes data (4 - tag.toNat % 4))
      else [] := by
  rw [filterMap_fragments]
  by_cases htag : tag.toNat / 4 < printChannels
  · simp only [if_pos htag, List.filter_map, List.map_map, Function.comp_def, Fragment.stream,
      Fragment.piece, stream_eq_iff htag]
    split
    · rename_i heq
      simp [heq]
    · rename_i hne
      simp [hne]
  · have hne : ¬ (core = stream.core ∧ tag.toNat / 4 = stream.channel.toNat) :=
      fun heq => htag (heq.2 ▸ hchannel)
    rw [if_neg htag, if_neg hne]
    rfl

theorem bytesTo_of_ne (h : p.type ≠ .dataAcquisition) : p.bytesTo stream = [] :=
  if_neg fun hwrite => h hwrite.1

/-- What packets print is what they write, in pieces. -/
theorem pieces_of_tells (hchannel : stream.channel.toNat < printChannels) (p : Packet)
    (width : Nat) (c : CoreContext) :
    (((p.tells width c).1.filterMap printed?).filter (·.stream = stream)).map Fragment.piece =
      pieces [] false (p.bytesTo stream) := by
  rw [printed_tells]
  by_cases htype : p.type = .dataAcquisition
  · rw [Packet.payloads_of_write htype, Option.elim_some, fragments_filter hchannel,
      Packet.bytesTo]
    simp only [htype, true_and]
    split <;> rfl
  · have hnone : (p.payloads? (p.stamped width c)).elim []
        (·.1.filterMap Payload.fragment?) = [] := by
      cases hp : p.payloads? (p.stamped width c) with
      | none => rfl
      | some r =>
          exact List.filterMap_eq_nil_iff.mpr fun payload hpayload =>
            fragment?_eq_none ((Packet.writes_of_payloads hp hpayload).resolve_right htype)
    rw [hnone, bytesTo_of_ne htype]
    rfl

theorem pieces_of_told (hchannel : stream.channel.toNat < printChannels) (ps : List Packet) :
    (((told width last (ps.map .ok)).filterMap printed?).filter (·.stream = stream)).map
        Fragment.piece =
      (ps.map (·.bytesTo stream)).flatMap (pieces [] false) := by
  induction ps generalizing last with
  | nil => rfl
  | cons p ps ih =>
      rw [List.map_cons, told, List.filterMap_append, List.filter_append, List.map_append,
        pieces_of_tells hchannel, ih]
      rfl

/-! ## Steps -/

namespace Session

variable {s s' : Session} {reader : Reader}

theorem joined_eq (s : Session) (x : Except PacketError Message) :
    s.joined x =
      match (printed? x).filter (s.configuration.selects ·.channel) with
      | some f => s.assembler.feed f
      | none => (none, s.assembler) := by
  cases x with
  | error e => rfl
  | ok m =>
      rw [joined, printed?]
      cases m.fragment? with
      | none => rfl
      | some f =>
          simp only [Option.filter_some, Configuration.selects]
          cases s.configuration.printChannels.contains f.channel.toNat <;> rfl

theorem fragments_filter_stream (h : s.configuration.selects stream.channel = true) :
    s.fragments.filter (·.stream = stream) =
      (s.reader.readings.filterMap printed?).filter (·.stream = stream) := by
  rw [fragments, List.filter_filter]
  refine List.filter_congr fun f _ => ?_
  by_cases heq : f.stream = stream
  · subst heq
    simp [show s.configuration.selects f.channel = true from h]
  · simp [heq]

theorem fragments_of_next (h : s.reader.next = (some x, reader)) :
    s.fragments = ((printed? x).filter (s.configuration.selects ·.channel)).toList ++
      fragments { (s.consume x).2 with reader } := by
  rw [fragments, fragments, Reader.readings_of_next h, (s.consume_joined x).1, List.filterMap_cons]
  cases printed? x with
  | none => rfl
  | some f =>
      simp only [List.filter_cons, Option.filter_some]
      cases s.configuration.selects f.channel <;> rfl

theorem fragments_of_end (h : s.reader.readings = []) : s.fragments = [] := by
  rw [fragments, h]
  rfl

theorem outlook_of_end (h : s.reader.readings = []) : s.outlook = s.close.lines := by
  rw [outlook, fragments_of_end h]
  rfl

theorem outlook_read (hn : s.reader.next = (some x, reader)) :
    outlook { (s.consume x).2 with reader } = s.outlook := by
  obtain ⟨-, hassembler, hlines⟩ := s.consume_joined x
  rw [outlook, outlook, fragments_of_next hn, hassembler, hlines, joined_eq]
  cases (printed? x).filter (s.configuration.selects ·.channel) with
  | none => simp
  | some f =>
      simp only [Option.toList_some, List.singleton_append, Assembler.assembled, Assembler.feedAll,
        List.append_assoc]

/-- A step changes nothing of what is still to come. -/
theorem outlook_advance (s : Session) : s.advance.2.outlook = s.outlook := by
  have hadvances := s.advances
  generalize s.advance = r at hadvances
  cases hadvances with
  | stopped => rfl
  | read hf hn => exact outlook_read hn
  | leftover hf hn hu | ended hf hn hu =>
      rw [outlook, outlook, fragments_of_end (Reader.readings_of_end hn),
        fragments_of_end (Reader.readings_at_end hn)]

/-- Lines that are taken and those that are still to come are all lines. -/
theorem gather_taken (s : Session) (calls : List Call) :
    s.gather taken calls ++ (s.performAll calls).outlook = s.outlook := by
  induction calls generalizing s with
  | nil => rfl
  | cons c cs ih =>
      have hrest := ih (s.perform c)
      cases c with
      | advance => exact hrest.trans s.outlook_advance
      | takeLines =>
          rw [gather, List.append_assoc]
          exact congrArg (s.lines ++ ·) hrest

theorem spent_advance (h : s.finished = true → s.reader.readings = []) :
    s.advance.2.finished = true → s.advance.2.reader.readings = [] := by
  have hadvances := s.advances
  generalize s.advance = r at hadvances
  cases hadvances with
  | stopped => exact h
  | @read x reader hf hn =>
      intro hfinished
      rw [finished_consume, hf] at hfinished
      cases hfinished
  | leftover hf hn hu | ended hf hn hu => exact fun _ => Reader.readings_at_end hn

theorem spent_performAll (h : s.finished = true → s.reader.readings = []) (calls : List Call) :
    (s.performAll calls).finished = true → (s.performAll calls).reader.readings = [] := by
  induction calls generalizing s with
  | nil => exact h
  | cons c cs ih =>
      cases c with
      | advance => exact ih (spent_advance h)
      | takeLines => exact ih h

theorem outlook_at_end (hspent : s.finished = true → s.reader.readings = [])
    (h : s.advance.1 = none) : s.outlook = s.close.lines := by
  have hadvances := s.advances
  generalize s.advance = r at h hadvances
  cases hadvances with
  | stopped hf => exact outlook_of_end (hspent hf)
  | ended hf hn hu => exact outlook_of_end (Reader.readings_of_end hn)
  | read => cases h
  | leftover => cases h

/-! ## Traces -/

/-- On a channel that is selected, the lines that are taken and those of the close are the bytes
that packets write to it, cut, provided that no piece reaches the limit: it does not matter how the
bytes were grouped, what other packets came between, and when the lines were taken. -/
theorem prints_are_joined (image : Image) (c : Configuration) (ps : List (Nat × Packet))
    (hc : c.invalid? = none) (hps : ∀ q ∈ ps, q.2.Complete) :
    ∃ s, start image (transmit c.coreBits ps) c = .ok s ∧ ∀ stream calls,
      let bytes := written (ps.map fun q => q.2.reduced c.coreBits) stream
      let s' := s.performAll calls
      stream.channel.toNat < printChannels → c.selects stream.channel = true →
      Within c.printBufferLimit [] bytes → s'.advance.1 = none →
      ((s.gather taken calls ++ s'.close.lines).filter (·.stream = stream)).map
          (fun line => (line.text, line.complete)) =
        (linesOf [] bytes).map fun piece => (Text.Utf8.decodeLossy piece.1, piece.2) := by
  obtain ⟨s, hs, hconfiguration, hreader, -, hassembler, hlines, hf⟩ :=
    start_of_valid image (transmit c.coreBits ps) hc
  refine ⟨s, hs, fun stream calls => ?_⟩
  intro bytes s' hchannel hselects hwithin hend
  have hspent : s'.finished = true → s'.reader.readings = [] :=
    spent_performAll (fun h => by rw [hf] at h; cases h) calls
  have houtlook : s.gather taken calls ++ s'.close.lines = s.outlook := by
    rw [← outlook_at_end hspent hend, gather_taken]
  have hfragments : (s.fragments.filter (·.stream = stream)).map Fragment.piece =
      ((ps.map fun q => q.2.reduced c.coreBits).map (·.bytesTo stream)).flatMap
        (pieces [] false) := by
    rw [fragments_filter_stream (by rwa [hconfiguration]), hreader, readings_transmit hc ps hps,
      pieces_of_told hchannel]
  have hlimit : Within c.printBufferLimit [] ((ps.map fun q => q.2.reduced c.coreBits).map
      (·.bytesTo stream)).flatten := hwithin
  have hpieces := Assembler.assembled_filter s.fragments _ hfragments hlimit
  have htexts := congrArg
    (List.map fun piece => (Text.Utf8.decodeLossy piece.1, piece.2)) hpieces
  rw [List.map_map] at htexts
  rw [houtlook, outlook, hlines, hassembler]
  exact htexts

/-- A newline and a NUL on both sides of a border between writes end one line, and what is written
on another core in between does not show. -/
theorem prints_join_across_writes :
    let c : Configuration := { coreBits := 1 }
    let ps : List (Nat × Packet) := [(0, ⟨.dataAcquisition, 0, [4, 0x000a6261]⟩),
      (0, ⟨.dataAcquisition, 1, [4, 0x0a7a7a7a]⟩), (0, ⟨.dataAcquisition, 0, [4, 0x0a646300]⟩),
      (0, ⟨.dataAcquisition, 0, [7, 0x65]⟩)]
    let calls : List Call :=
      [.advance, .takeLines, .advance, .advance, .advance, .takeLines, .advance, .advance]
    ∃ s, start callAndReturn (transmit c.coreBits ps) c = .ok s ∧
      ((s.gather taken calls ++ (s.performAll calls).close.lines).filter
          (·.stream = ⟨0, 1⟩)).map (fun line => (line.text, line.complete)) =
        [("ab\n", true), ("cd\n", true), ("e", false)] := by
  intro c ps calls
  have hps : ∀ q ∈ ps, q.2.Complete := by
    intro q hq
    simp only [ps, List.mem_cons, List.not_mem_nil, or_false] at hq
    rcases hq with rfl | rfl | rfl | rfl <;> exact ⟨_, rfl, by decide⟩
  have hwithin : Within c.printBufferLimit []
      (written (ps.map fun q => q.2.reduced c.coreBits) ⟨0, 1⟩) := by
    unfold Within
    decide +kernel
  have hreadings : (told c.timestampWidth (fun _ => {})
      ((ps.map fun q => q.2.reduced c.coreBits).map .ok)).length = 5 := by
    decide +kernel
  obtain ⟨s, hs, hprints⟩ := prints_are_joined callAndReturn c ps rfl hps
  obtain ⟨s', hs', -, hreader, -, -, -, hf⟩ :=
    start_of_valid callAndReturn (transmit c.coreBits ps) (c := c) rfl
  obtain rfl : s = s' := Except.ok.inj (hs.symm.trans hs')
  have hend : (s.performAll calls).advance.1 = none := by
    obtain ⟨k, hk, hends⟩ := endsAt hf
    rw [hreader, readings_transmit rfl ps hps, hreadings] at hk
    obtain ⟨lines, hafter⟩ := s.performAll_eq calls
    obtain ⟨lines', hadvance⟩ := (s.after (calls.count .advance)).advance_lines lines
    rw [hafter, hadvance]
    exact (hends.ends_iff _).mpr hk
  refine ⟨s, hs, (hprints ⟨0, 1⟩ calls (by decide) (by decide) hwithin hend).trans ?_⟩
  decide +kernel

end Session

end Retrace
