import Retrace.Proofs.Message.Times
import Retrace.Proofs.Session.Independence
import Retrace.Proofs.Session.Replies
import Retrace.Proofs.Trace.Lost

/-!
# A lost place leaves nothing behind

What a session gives of a core behind a sync does not depend on what came before, if the place of
the core was not known then: not on what is remembered of its packets, not on its return stack or
its count, and not on the cache.
-/

namespace Retrace

open Wire

variable {t t' : Tracer} {s s' : Session} {m m' : Message} {id : UInt16}
  {x x' : Except PacketError Message} {xs xs' ys : List (Except PacketError Message)}

/-! ## Messages but for their times -/

theorem Message.eq_of_untimed (h : m'.untimed = m.untimed) :
    m'.core = m.core ∧ (m'.fragment? = none ↔ m.fragment? = none) ∧
      (m.fragment? = none → m'.payload = m.payload) := by
  have hcore : m'.untimed.core = m.untimed.core := congrArg Message.core h
  refine ⟨hcore, ?_⟩
  have hpayload : m'.payload.untimed = m.payload.untimed := congrArg Message.payload h
  unfold fragment?
  cases hp : m.payload <;> cases hp' : m'.payload <;> rw [hp, hp'] at hpayload <;>
    simp_all [Payload.untimed]

theorem Tracer.untimed_reply (t : Tracer) (m : Message) :
    (t.reply (.ok m)).untimed =
      match m.fragment? with
      | some _ => ⟨none, []⟩
      | none =>
        ⟨(t.answer m).1.map .unexpectedEncoding, (t.answer m).2.map (Record.of m.untimed)⟩ := by
  rw [reply, Reply.untimed, failure?, gains]
  cases m.fragment? with
  | some f => rfl
  | none =>
      simp only [reconstructed_answer, List.map_map]
      rfl

/-! ## Tracers -/

namespace Tracer

/-- Readings that are the same but for their times lead to the same but for them. -/
theorem Rejoined.reply (h : t.Rejoined id t') (hid : readCore? x = some id) (hx : Intact x)
    (heq : x'.map Message.untimed = x.map Message.untimed) :
    (t'.reply x').untimed = (t.reply x).untimed ∧ (t.reads x).Rejoined id (t'.reads x') := by
  cases x with
  | error e =>
      cases x' with
      | ok m => cases heq
      | error e' =>
          cases heq
          obtain ⟨type, core, rfl⟩ := hx
          exact ⟨rfl, h⟩
  | ok m =>
      cases x' with
      | error e => cases heq
      | ok m' =>
          have hm : m'.untimed = m.untimed := Except.ok.inj heq
          obtain rfl : m.core = id := Option.some.inj hid
          obtain ⟨hcore, hfragment, hpayload⟩ := Message.eq_of_untimed hm
          rw [untimed_reply, untimed_reply, reads, reads]
          cases hf : m.fragment? with
          | some f =>
              cases hf' : m'.fragment? with
              | none => rw [hfragment.mp hf'] at hf; cases hf
              | some f' => exact ⟨rfl, h⟩
          | none =>
              obtain ⟨hanswer, hprocess⟩ := h.answer hcore (hpayload hf)
              rw [hfragment.mpr hf]
              exact ⟨by simp only [hanswer, hm], hprocess⟩

theorem Settled.reads (h : t.Settled) (x : Except PacketError Message) : (t.reads x).Settled := by
  cases x with
  | error e =>
      cases e with
      | unsupported type core => exact h
      | malformed position core cause => exact h.fault core
      | truncated | reservedMarker | unknownType => exact h.fault none
  | ok m =>
      rw [Tracer.reads]
      cases m.fragment? with
      | some f => exact h
      | none => exact h.process m

theorem Lost.undelivered (h : t.Lost id) (kept : List Record) :
    Lost id { t with undelivered := kept } :=
  ⟨h.settled.undelivered kept, h.unplaced⟩

/-- Nothing is told of a core whose place is lost but by a sync. -/
theorem Lost.reply {payload : Payload} (h : t.Lost id) (timestamp : UInt64)
    (hp : ∀ address count, payload ≠ .sync address count) :
    (t.reply (.ok ⟨id, timestamp, payload⟩)).untimed = ⟨none, []⟩ ∧
      (t.reads (.ok ⟨id, timestamp, payload⟩)).Lost id := by
  obtain ⟨hanswer, hprocess⟩ := answer (m := ⟨id, timestamp, payload⟩) h hp
  rw [untimed_reply, hanswer, reads]
  cases Message.fragment? ⟨id, timestamp, payload⟩ with
  | some f => exact ⟨rfl, h⟩
  | none => exact ⟨rfl, hprocess⟩

theorem Lost.reply_sync (h : t.Lost id) (h' : t'.Lost id) (himage : t'.image = t.image)
    (hoptions : t'.options = t.options) (address timestamp timestamp' : UInt64)
    (count count' : Nat) :
    let x := .ok ⟨id, timestamp, .sync address count⟩
    let x' := .ok ⟨id, timestamp', .sync address count'⟩
    (t'.reply x').untimed = (t.reply x).untimed ∧ (t.reads x).Rejoined id (t'.reads x') := by
  let m : Message := ⟨id, timestamp, .sync address count⟩
  let m' : Message := ⟨id, timestamp', .sync address count'⟩
  have h : t.Lost m.core := h
  obtain ⟨hanswer, hrejoined⟩ : t'.answer m' = t.answer m ∧
      (t.process m).2.Rejoined id (t'.process m').2 := h.sync h' himage hoptions rfl rfl rfl
  refine ⟨?_, hrejoined⟩
  rw [untimed_reply, untimed_reply, hanswer]
  rfl

end Tracer

/-! ## Sessions -/

namespace Session

theorem replies_append (s : Session) (xs ys : List (Except PacketError Message)) :
    s.replies (xs ++ ys) = s.replies xs ++ (s.through xs).replies ys := by
  induction xs generalizing s with
  | nil => rfl
  | cons x xs ih => exact congrArg _ (ih (s.consume x).2)

theorem settled_through (h : s.tracer.Settled) (xs : List (Except PacketError Message)) :
    (s.through xs).tracer.Settled ∧ (s.through xs).tracer.image = s.tracer.image ∧
      (s.through xs).tracer.options = s.tracer.options := by
  induction xs generalizing s with
  | nil => exact ⟨h, rfl, rfl⟩
  | cons x xs ih =>
      obtain ⟨kept, htracer⟩ := s.tracer_consume x
      obtain ⟨himage, hoptions⟩ := s.tracer.image_reads x
      obtain ⟨hsettled, himages, hoptionss⟩ :=
        ih (s := (s.consume x).2) (htracer ▸ (h.reads x).undelivered kept)
      rw [htracer] at himages hoptionss
      exact ⟨hsettled, himages.trans himage, hoptionss.trans hoptions⟩

/-- Readings that are the same but for their times lead to the same but for them. -/
theorem replies_rejoined (h : s.tracer.Rejoined id s'.tracer)
    (heq : xs'.map (·.map Message.untimed) = xs.map (·.map Message.untimed))
    (hid : ∀ x ∈ xs, readCore? x = some id) (hxs : ∀ x ∈ xs, Intact x) :
    (s'.replies xs').map Reply.untimed = (s.replies xs).map Reply.untimed := by
  induction xs generalizing xs' s s' with
  | nil =>
      obtain rfl := List.map_eq_nil_iff.mp heq
      rfl
  | cons x xs ih =>
      obtain ⟨x', xs', rfl, hx, hrest⟩ := List.map_eq_cons_iff.mp heq
      obtain ⟨hreply, hreads⟩ := h.reply (hid x List.mem_cons_self) (hxs x List.mem_cons_self) hx
      obtain ⟨kept, ht⟩ := s.tracer_consume x
      obtain ⟨kept', ht'⟩ := s'.tracer_consume x'
      rw [replies, replies, List.map_cons, List.map_cons, hreply]
      refine congrArg _ (ih ?_ hrest (fun y hy => hid y (List.mem_cons_of_mem x hy))
        fun y hy => hxs y (List.mem_cons_of_mem x hy))
      rw [ht, ht']
      exact hreads.undelivered kept kept'

theorem replies_lost (h : s.tracer.Lost id) (timestamp : UInt64) (payloads : List Payload)
    (hp : ∀ payload ∈ payloads, ∀ address count, payload ≠ .sync address count) :
    (s.replies (readAt id timestamp payloads)).map Reply.untimed =
        payloads.map (fun _ => ⟨none, []⟩) ∧
      (s.through (readAt id timestamp payloads)).tracer.Lost id := by
  induction payloads generalizing s with
  | nil => exact ⟨rfl, h⟩
  | cons payload payloads ih =>
      let x : Except PacketError Message := .ok ⟨id, timestamp, payload⟩
      obtain ⟨hreply, hreads⟩ := h.reply timestamp (hp payload List.mem_cons_self)
      obtain ⟨kept, htracer⟩ := s.tracer_consume x
      obtain ⟨hreplies, hlost⟩ := ih (s := (s.consume x).2)
        (htracer ▸ hreads.undelivered kept) fun p hmem => hp p (List.mem_cons_of_mem payload hmem)
      refine ⟨?_, hlost⟩
      change (s.tracer.reply x).untimed :: _ = ⟨none, []⟩ :: _
      rw [hreply]
      exact congrArg _ hreplies

theorem replies_sync (h : s.tracer.Lost id) (h' : s'.tracer.Lost id)
    (himage : s'.tracer.image = s.tracer.image) (hoptions : s'.tracer.options = s.tracer.options)
    (address timestamp timestamp' : UInt64) (count count' : Nat)
    (heq : xs'.map (·.map Message.untimed) = xs.map (·.map Message.untimed))
    (hid : ∀ x ∈ xs, readCore? x = some id) (hxs : ∀ x ∈ xs, Intact x) :
    (s'.replies (.ok ⟨id, timestamp', .sync address count'⟩ :: xs')).map Reply.untimed =
      (s.replies (.ok ⟨id, timestamp, .sync address count⟩ :: xs)).map Reply.untimed := by
  obtain ⟨hreply, hrejoined⟩ :=
    h.reply_sync h' himage hoptions address timestamp timestamp' count count'
  obtain ⟨kept, htracer⟩ := s.tracer_consume (.ok ⟨id, timestamp, .sync address count⟩)
  obtain ⟨kept', htracer'⟩ := s'.tracer_consume (.ok ⟨id, timestamp', .sync address count'⟩)
  rw [replies, replies, List.map_cons, List.map_cons, hreply]
  refine congrArg _ (replies_rejoined ?_ heq hid hxs)
  rw [htracer, htracer']
  exact hrejoined.undelivered kept kept'

theorem not_sync_of_outcomes {bits? : Option UInt64} {payload : Payload}
    (h : payload ∈ bits?.elim [] history) (address : UInt64) (count : Nat) :
    payload ≠ .sync address count := by
  cases bits? with
  | none => cases h
  | some bits =>
      obtain ⟨i, -, rfl⟩ := List.mem_map.mp h
      exact nofun

/-- What packets lead to behind one that tells a full address does not depend on what came before
that one, but for times. -/
theorem replies_told (h : s.tracer.Lost id) (h' : s'.tracer.Lost id)
    (himage : s'.tracer.image = s.tracer.image) (hoptions : s'.tracer.options = s.tracer.options)
    {p : Packet} {ps : List Packet} (hp : p.type.isSync = true) (hcore : p.core = id)
    (hps : ∀ q ∈ ps, q.core = id) (width : Nat) (last last' : UInt16 → CoreContext) :
    (s'.replies (told width last' ((p :: ps).map .ok))).map Reply.untimed =
      (s.replies (told width last ((p :: ps).map .ok))).map Reply.untimed := by
  subst hcore
  obtain ⟨bits?, address, timestamp, timestamp', count, count', after, after', htold, htold',
    heq⟩ := told_sync hp hps width last last'
  have houtcomes := fun payload (hm : payload ∈ bits?.elim [] history) => not_sync_of_outcomes hm
  obtain ⟨hreplies, hlost⟩ := replies_lost h timestamp _ houtcomes
  obtain ⟨hreplies', hlost'⟩ := replies_lost h' timestamp' _ houtcomes
  obtain ⟨-, hi, ho⟩ := settled_through h.settled (readAt p.core timestamp (bits?.elim [] history))
  obtain ⟨-, hi', ho'⟩ :=
    settled_through h'.settled (readAt p.core timestamp' (bits?.elim [] history))
  -- The outcomes tell nothing, both follow the sync, and then both know the same of the core.
  rw [htold, htold', replies_append, replies_append, List.map_append, List.map_append, hreplies,
    hreplies']
  exact congrArg _ (replies_sync hlost hlost' (hi'.trans (himage.trans hi.symm))
    (ho'.trans (hoptions.trans ho.symm)) address timestamp timestamp' count count' heq
    (fun x hx => core_of_told hps hx) fun x hx => intact_of_told hx)

/-! ## Traces -/

/-- The place of the core is not known at the end of the trace. -/
def Loses (image : Image) (c : Configuration) (trace : List UInt8) (id : UInt16) : Prop :=
  ∀ s, start image trace c = .ok s → ∀ stop, s.finish.2.phase id ≠ .parked stop

/-- The number of steps with what is read of a trace. -/
def stepsOf (c : Configuration) (trace : List UInt8) : Nat :=
  (Reader.start c.readerOptions trace).readings.length

theorem phase_finish (hf : s.finished = false) (id : UInt16) :
    s.finish.2.phase id = (s.through s.reader.readings).phase id := by
  obtain ⟨_, -, -, htracer, -⟩ := finish_eq hf
  rw [phase, htracer]
  rfl

theorem loses_transmit {image : Image} {c : Configuration} (hc : c.invalid? = none)
    (ps : List (Nat × Packet)) (hps : ∀ q ∈ ps, q.2.Complete) (phase : Phase)
    (h : (start image (transmit c.coreBits ps) c).toOption.map (fun s => (s.through
      (told c.timestampWidth (fun _ => {})
        ((ps.map fun q => q.2.reduced c.coreBits).map .ok))).phase id) = some phase)
    (hphase : ∀ stop, phase ≠ .parked stop) : Loses image c (transmit c.coreBits ps) id := by
  obtain ⟨s, hs, -, hreader, -, -, -, hf⟩ := start_of_valid image (transmit c.coreBits ps) hc
  intro s' hs' stop
  obtain rfl := Except.ok.inj (hs.symm.trans hs')
  rw [hs] at h
  have hend := Option.some.inj h
  rw [phase_finish hf, hreader, readings_transmit hc ps hps]
  exact fun hstop => hphase stop (hend.symm.trans hstop)

@[simp]
theorem finished_through (s : Session) (xs : List (Except PacketError Message)) :
    (s.through xs).finished = s.finished := by
  induction xs generalizing s with
  | nil => rfl
  | cons x xs ih => exact (ih (s.consume x).2).trans (finished_consume s x)

/-- A session of a trace behind another one that has lost the place of the core. -/
theorem lost_behind {image : Image} {c : Configuration} {x : List UInt8} (hc : c.invalid? = none)
    (hx : Ended x) (hlost : Loses image c x id) (ps : List (Nat × Packet))
    (hps : ∀ q ∈ ps, q.2.Complete) :
    ∃ s last, start image (x ++ transmit c.coreBits ps) c = .ok s ∧
      (s.after (stepsOf c x)).tracer.Lost id ∧
      (s.after (stepsOf c x)).tracer.image = image ∧
      (s.after (stepsOf c x)).tracer.options =
        (Tracer.start image c.tracerOptions (.empty SiteCache.defaultSize)).options ∧
      (s.after (stepsOf c x)).finished = false ∧
      (s.after (stepsOf c x)).reader.readings =
        told c.timestampWidth last ((ps.map fun q => q.2.reduced c.coreBits).map .ok) := by
  obtain ⟨s, hs, -, hreader, htracer, -, -, hf⟩ :=
    start_of_valid image (x ++ transmit c.coreBits ps) hc
  obtain ⟨s₀, hs₀, -, hreader₀, htracer₀, -, -, hf₀⟩ := start_of_valid image x hc
  obtain ⟨last, hlast⟩ := Reader.readings_append c.readerOptions hx ps hps
  rw [coreBits_of_valid hc, ← hreader, ← hreader₀] at hlast
  obtain ⟨-, reader, hreadings, hafter⟩ := after_readings hf hlast
  have hsettled : s.tracer.Settled := htracer ▸ Tracer.settled_start _ _ _
  obtain ⟨hsettled', himage, hoptions⟩ := settled_through hsettled s₀.reader.readings
  have hphase : ∀ stop, (s.through s₀.reader.readings).tracer.phase id ≠ .parked stop := by
    rw [tracer_through (htracer.trans htracer₀.symm)]
    intro stop hstop
    exact hlost s₀ hs₀ stop ((phase_finish hf₀ id).trans hstop)
  refine ⟨s, last, hs, ?_⟩
  rw [stepsOf, ← hreader₀, hafter]
  refine ⟨⟨hsettled', hphase⟩, himage.trans (by rw [htracer]; rfl),
    hoptions.trans (by rw [htracer]), by simpa using hf, ?_⟩
  rw [hreadings, List.map_map]
  rfl

/-- What packets lead to behind one that tells a full address is the same, but for times, behind all
traces that end with a message and have lost the place of their core. Records that are kept of such
a trace come first. -/
theorem lost_places_leave_no_residue (image : Image) (c : Configuration) (x y : List UInt8)
    (q : Nat × Packet) (ps : List (Nat × Packet)) (id : UInt16) (hc : c.invalid? = none)
    (hx : Ended x) (hy : Ended y) (hlost : Loses image c x id) (hlost' : Loses image c y id)
    (hq : q.2.type.isSync = true) (hps : ∀ p ∈ q :: ps, p.2.Complete)
    (hid : ∀ p ∈ q :: ps, (p.2.reduced c.coreBits).core = id) :
    ∃ s s' rs rs', start image (x ++ transmit c.coreBits (q :: ps)) c = .ok s ∧
      start image (y ++ transmit c.coreBits (q :: ps)) c = .ok s' ∧
      (s.after (stepsOf c x)).Gives rs ∧ (s'.after (stepsOf c y)).Gives rs' ∧
      rs'.map Reply.untimed = rs.map Reply.untimed := by
  obtain ⟨s, last, hs, hl, hi, ho, hf, hr⟩ := lost_behind hc hx hlost (q :: ps) hps
  obtain ⟨s', last', hs', hl', hi', ho', hf', hr'⟩ := lost_behind hc hy hlost' (q :: ps) hps
  refine ⟨s, s', _, _, hs, hs', gives_replies hf, gives_replies hf', ?_⟩
  rw [hr, hr']
  refine replies_told (p := q.2.reduced c.coreBits) hl hl' (hi'.trans hi.symm)
    (ho'.trans ho.symm) hq (hid q List.mem_cons_self) (fun p hp => ?_) c.timestampWidth last last'
  obtain ⟨p', hmem, rfl⟩ := List.mem_map.mp hp
  exact hid p' (List.mem_cons_of_mem q hmem)

/-- The branch behind a sync leads to the same at the start of a trace and behind a fault. -/
theorem sync_behind_fault :
    let c : Configuration := {}
    let y := transmit 0 [(0, ⟨.sync, 0, [0, 0, 0x800]⟩), (0, ⟨.directBranch, 0, [9]⟩)]
    let z := transmit 0 [(0, ⟨.sync, 0, [0, 0, 0x802]⟩), (0, ⟨.directBranch, 0, [2]⟩)]
    ∃ s s' rs rs', start callAndReturn ([] ++ z) c = .ok s ∧
      start callAndReturn (y ++ z) c = .ok s' ∧ (s.after (stepsOf c [])).Gives rs ∧
      (s'.after (stepsOf c y)).Gives rs' ∧ rs'.map Reply.untimed = rs.map Reply.untimed := by
  intro c y z
  have hempty : Loses callAndReturn c [] 0 :=
    loses_transmit rfl [] nofun .unsynced (by decide +kernel) nofun
  have hfaulted : Loses callAndReturn c y 0 :=
    loses_transmit rfl _ (List.forall_mem_cons.mpr ⟨⟨_, rfl, by decide⟩,
      List.forall_mem_singleton.mpr ⟨_, rfl, by decide⟩⟩) .faulted (by decide +kernel) nofun
  have hended : Ended y := by
    rw [Ended]
    decide +kernel
  exact lost_places_leave_no_residue callAndReturn c [] y (0, ⟨.sync, 0, [0, 0, 0x802]⟩)
    [(0, ⟨.directBranch, 0, [2]⟩)] 0 rfl ended_nil hended hempty hfaulted rfl
    (List.forall_mem_cons.mpr ⟨⟨_, rfl, by decide⟩,
      List.forall_mem_singleton.mpr ⟨_, rfl, by decide⟩⟩)
    (List.forall_mem_cons.mpr ⟨rfl, List.forall_mem_singleton.mpr rfl⟩)

end Session

end Retrace
