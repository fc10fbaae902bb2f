import Retrace.Proofs.Session.Calls
import Retrace.Proofs.Trace.Requests

/-!
# A session that is reset starts anew

Nothing of the time before a reset is left but sites that were looked up, and these do not show:
whatever is asked of the session from then on, it answers like one that has just started.
-/

namespace Retrace

open Wire

namespace Session

/-- What may be asked of a session. -/
inductive Request where
  | call (c : Call)
  | statistics
  | phase (id : UInt16)
  | reset

inductive Response where
  | advanced (outcome : Option (Except Error (List Record)))
  | taken (lines : List PrintLine)
  | counted (statistics : Statistics)
  | placed (phase : Phase)
  | done
  deriving DecidableEq, Repr

def ask (s : Session) : Request → Response × Session
  | .call .advance => (.advanced s.advance.1, s.advance.2)
  | .call .takeLines => (.taken s.takeLines.1, s.takeLines.2)
  | .statistics => (.counted s.statistics, s)
  | .phase id => (.placed (s.phase id), s)
  | .reset => (.done, s.reset)

def responses (s : Session) : List Request → List Response
  | [] => []
  | q :: qs => (s.ask q).1 :: (s.ask q).2.responses qs

def askAll (s : Session) (qs : List Request) : Session :=
  qs.foldl (fun s q => (s.ask q).2) s

/-- The sessions differ in the sites that their tracers have looked up alone. -/
structure Alike (s s' : Session) : Prop where
  eq : s' = { s with tracer := s'.tracer }
  tracer : s.tracer.Alike s'.tracer

/-- The sessions are on the same image, trace and configuration. -/
structure Akin (s s' : Session) : Prop where
  configuration : s'.configuration = s.configuration
  reader : s'.reader.reset = s.reader.reset
  image : s'.tracer.image = s.tracer.image
  options : s'.tracer.options = s.tracer.options
  sites : s'.tracer.cache.Valid s'.tracer.image

variable {s s' s'' : Session} {t : Tracer} {x : Except PacketError Message} {m : Message}

/-! ## Sessions that differ in sites alone -/

theorem print_tracer (s : Session) (tracer : Tracer) (f : Fragment) :
    print { s with tracer } f = { s.print f with tracer } := by
  unfold print
  split <;> rfl

namespace Alike

theorem refl (h : s.tracer.cache.Valid s.tracer.image) : s.Alike s :=
  ⟨rfl, rfl, h, h⟩

theorem statistics (h : s.Alike s') (statistics : Statistics) :
    Alike { s with statistics } { s' with statistics } :=
  ⟨by rw [h.eq], h.tracer⟩

theorem reader (h : s.Alike s') (reader : Reader) : Alike { s with reader } { s' with reader } :=
  ⟨by rw [h.eq], h.tracer⟩

theorem print (h : s.Alike s') (f : Fragment) : (s.print f).Alike (s'.print f) := by
  refine ⟨?_, by simpa using h.tracer⟩
  rw [tracer_print, h.eq, print_tracer]

theorem deliver (h : s.Alike s') (records : List Record) :
    (s'.deliver records).1 = (s.deliver records).1 ∧
      (s.deliver records).2.Alike (s'.deliver records).2 := by
  obtain ⟨htaken, htracer⟩ := h.tracer.perform .takeUndelivered
  have hundelivered : s'.tracer.undelivered = s.tracer.undelivered :=
    Tracer.Response.taken.inj htaken
  have hstatistics : s'.statistics = s.statistics := by rw [h.eq]
  refine ⟨by simp only [Session.deliver, hundelivered], ?_, htracer⟩
  simp only [Session.deliver, hundelivered, hstatistics]
  rw [h.eq]

theorem succeed (h : s.Alike s') (records : List Record) :
    (s'.succeed records).1 = (s.succeed records).1 ∧
      (s.succeed records).2.Alike (s'.succeed records).2 :=
  ⟨congrArg Except.ok (h.deliver records).1, (h.deliver records).2⟩

theorem note (h : s.Alike s') (m : Message) : (s.note m).Alike (s'.note m) :=
  ⟨by rw [h.eq]; rfl, h.tracer⟩

theorem reconstruct (h : s.Alike s') (m : Message) :
    (s'.reconstruct m).1 = (s.reconstruct m).1 ∧
      (s.reconstruct m).2.Alike (s'.reconstruct m).2 := by
  obtain ⟨hresult, -, hprocess⟩ := h.tracer.process m
  simp only [Session.reconstruct]
  cases hp : s.tracer.process m with
  | mk r t =>
      cases hp' : s'.tracer.process m with
      | mk r' t' =>
          rw [hp, hp'] at hresult hprocess
          obtain rfl : r' = r := hresult
          cases r' with
          | ok records =>
              have halike : Alike { s with tracer := t } { s' with tracer := t' } :=
                ⟨by rw [h.eq], hprocess⟩
              exact halike.succeed records
          | error e => exact ⟨rfl, by rw [h.eq], hprocess⟩

theorem skip (h : s.Alike s') (e : PacketError) : (s.skip e).Alike (s'.skip e) := by
  obtain ⟨hcount, hfault⟩ := h.tracer.fault e.core?
  cases e with
  | unsupported type core => exact ⟨by rw [h.eq]; rfl, h.tracer⟩
  | malformed | truncated | reservedMarker | unknownType =>
      refine ⟨?_, hfault⟩
      simp only [Session.skip, hcount]
      rw [h.eq]

theorem consume (h : s.Alike s') (x : Except PacketError Message) :
    (s'.consume x).1 = (s.consume x).1 ∧ (s.consume x).2.Alike (s'.consume x).2 := by
  cases x with
  | error e => exact ⟨rfl, h.skip e⟩
  | ok m =>
      rw [Session.consume, Session.consume, take_eq, take_eq]
      cases m.fragment? with
      | some f => exact ((h.note m).print f).succeed []
      | none => exact (h.note m).reconstruct m

theorem advance (h : s.Alike s') :
    s'.advance.1 = s.advance.1 ∧ s.advance.2.Alike s'.advance.2 := by
  have hreader : s'.reader = s.reader := by rw [h.eq]
  have hfinished : s'.finished = s.finished := by rw [h.eq]
  have hkept : s'.tracer.undelivered = s.tracer.undelivered := by rw [h.tracer.eq]
  have hstatistics : s'.statistics = s.statistics := by rw [h.eq]
  have hadvances := s.advances
  generalize s.advance = r at hadvances
  cases hadvances with
  | stopped hf =>
      rw [advance_of_finished (hfinished.trans hf)]
      exact ⟨rfl, h⟩
  | @read x reader hf hn =>
      rw [advance_of_next (hfinished.trans hf) (hreader ▸ hn)]
      obtain ⟨houtcome, hconsume⟩ := h.consume x
      exact ⟨congrArg some houtcome, hconsume.reader reader⟩
  | leftover hf hn hu =>
      rw [advance_of_leftover (hfinished.trans hf) (hreader ▸ hn) (hkept ▸ hu), hkept,
        hstatistics]
      exact ⟨rfl, by rw [h.eq], (h.tracer.perform .takeUndelivered).2⟩
  | ended hf hn hu =>
      rw [advance_of_end (hfinished.trans hf) (hreader ▸ hn) (hkept ▸ hu), hstatistics]
      exact ⟨rfl, by rw [h.eq], h.tracer⟩

theorem reset (h : s.Alike s') : s.reset.Alike s'.reset :=
  ⟨by rw [h.eq]; rfl, (h.tracer.perform .reset).2⟩

theorem ask (h : s.Alike s') (q : Request) :
    (s'.ask q).1 = (s.ask q).1 ∧ (s.ask q).2.Alike (s'.ask q).2 := by
  cases q with
  | call c =>
      cases c with
      | advance =>
          obtain ⟨houtcome, hadvance⟩ := h.advance
          exact ⟨congrArg Response.advanced houtcome, hadvance⟩
      | takeLines =>
          have hlines : s'.lines = s.lines := by rw [h.eq]
          exact ⟨congrArg Response.taken hlines, by rw [h.eq]; rfl, h.tracer⟩
  | statistics =>
      have hstatistics : s'.statistics = s.statistics := by rw [h.eq]
      exact ⟨congrArg Response.counted hstatistics, h⟩
  | phase id =>
      have hphase : s'.phase id = s.phase id := by
        rw [Session.phase, h.tracer.eq]
        rfl
      exact ⟨congrArg Response.placed hphase, h⟩
  | reset => exact ⟨rfl, h.reset⟩

theorem askAll (h : s.Alike s') (qs : List Request) :
    s'.responses qs = s.responses qs ∧ (s.askAll qs).Alike (s'.askAll qs) := by
  induction qs generalizing s s' with
  | nil => exact ⟨rfl, h⟩
  | cons q qs ih =>
      obtain ⟨hresponse, hask⟩ := h.ask q
      obtain ⟨hresponses, halike⟩ := ih hask
      exact ⟨by rw [responses, responses, hresponse, hresponses], halike⟩

theorem close (h : s.Alike s') : s'.close = s.close := by
  have hassembler : s'.assembler = s.assembler := by rw [h.eq]
  have hlines : s'.lines = s.lines := by rw [h.eq]
  have hstatistics : s'.statistics = s.statistics := by rw [h.eq]
  have hkept : s'.tracer.undelivered = s.tracer.undelivered := by rw [h.tracer.eq]
  simp only [Session.close, Session.deliver, hassembler, hlines, hstatistics, hkept]

end Alike

/-! ## What stays fixed -/

namespace Akin

theorem refl (h : s.tracer.cache.Valid s.tracer.image) : s.Akin s :=
  ⟨rfl, rfl, rfl, rfl, h⟩

theorem trans (h : s.Akin s') (h' : s'.Akin s'') : s.Akin s'' where
  configuration := h'.configuration.trans h.configuration
  reader := h'.reader.trans h.reader
  image := h'.image.trans h.image
  options := h'.options.trans h.options
  sites := h'.sites

theorem consume (h : s.tracer.cache.Valid s.tracer.image) (x : Except PacketError Message) :
    s.Akin (s.consume x).2 := by
  obtain ⟨undelivered, htracer⟩ := s.tracer_consume x
  obtain ⟨himage, hoptions⟩ := s.tracer.image_reads x
  have hreader : (s.consume x).2.reader = s.reader :=
    congrArg (·.2.reader) (s.consume_reader s.reader x)
  refine ⟨(s.consume_joined x).1, congrArg Reader.reset hreader, ?_, ?_,
    ((Alike.refl h).consume x).2.tracer.sites⟩
  · rw [htracer]
    exact himage
  · rw [htracer]
    exact hoptions

theorem advance (h : s.tracer.cache.Valid s.tracer.image) : s.Akin s.advance.2 := by
  have hreader {x?} {reader : Reader} (hn : s.reader.next = (x?, reader)) :
      reader.reset = s.reader.reset :=
    (congrArg (·.2.reset) hn).symm.trans s.reader.reset_next
  have hadvances := s.advances
  generalize s.advance = r at hadvances
  cases hadvances with
  | stopped => exact .refl h
  | @read x reader hf hn =>
      have hconsume := consume h x
      exact ⟨hconsume.configuration, hreader hn, hconsume.image, hconsume.options,
        hconsume.sites⟩
  | leftover hf hn hu | ended hf hn hu => exact ⟨rfl, hreader hn, rfl, rfl, h⟩

theorem ask (h : s.tracer.cache.Valid s.tracer.image) (q : Request) : s.Akin (s.ask q).2 := by
  cases q with
  | call c =>
      cases c with
      | advance => exact advance h
      | takeLines => exact ⟨rfl, rfl, rfl, rfl, h⟩
  | statistics | phase id => exact .refl h
  | reset => exact ⟨rfl, rfl, rfl, rfl, h⟩

theorem askAll (h : s.tracer.cache.Valid s.tracer.image) (qs : List Request) :
    s.Akin (s.askAll qs) := by
  induction qs generalizing s with
  | nil => exact .refl h
  | cons q qs ih =>
      have hask := ask h q
      exact hask.trans (ih hask.sites)

/-- A reset leaves nothing of a session but the sites that it has looked up. -/
theorem reset (h : s.Akin s') (hs : s.tracer.cache.Valid s.tracer.image) :
    s.reset.Alike s'.reset := by
  refine ⟨?_, ?_, hs, ?_⟩
  · simp only [Session.reset, h.configuration, h.reader]
  · simp only [Session.reset, Tracer.reset, h.image, h.options]
  · exact h.image ▸ h.sites

end Akin

theorem reset_of_start {image : Image} {trace : List UInt8} {c : Configuration}
    (h : start image trace c = .ok s) : s.reset = s := by
  rw [eq_of_start h]
  rfl

/-- Whatever was asked of a session before, and whether it failed: after a reset it answers every
sequence of requests like the session that has just started, and closing gives the same then. -/
theorem resets_replay (image : Image) (c : Configuration) (trace : List UInt8)
    (hc : c.invalid? = none) :
    ∃ s, start image trace c = .ok s ∧ ∀ before after,
      let s' := (s.askAll before).reset
      s'.responses after = s.responses after ∧ (s'.askAll after).close = (s.askAll after).close := by
  obtain ⟨s, hs, -, -, htracer, -⟩ := start_of_valid image trace hc
  have hsites : s.tracer.cache.Valid s.tracer.image := by
    rw [htracer]
    exact SiteCache.valid_empty image SiteCache.defaultSize
  refine ⟨s, hs, fun before after => ?_⟩
  have halike := (Akin.askAll hsites before).reset hsites
  rw [reset_of_start hs] at halike
  obtain ⟨hresponses, hend⟩ := halike.askAll after
  exact ⟨hresponses, hend.close⟩

/-- Behind a reset the step that has failed fails anew, and the call in front of the instruction
that is one too many is given once more. -/
theorem replays_behind_limit :
    let c : Configuration := { maxRun := 1 }
    let trace := transmit 0 [(0, ⟨.sync, 0, [0, 0, 0x800]⟩)]
    let before : List Request := [.call .advance, .call .advance, .call .advance]
    let after : List Request := [.phase 0, .call .advance, .phase 0, .call .advance]
    let call : Record := ⟨⟨0x1000, ⟨.bits32 0x008000ef, .jal ⟨1, 4⟩⟩, none, none, .call⟩, 0, 0⟩
    ∃ s, start callAndReturn trace c = .ok s ∧ (s.askAll before).phase 0 = .faulted ∧
      let s' := (s.askAll before).reset
      s'.responses after = [.placed .unsynced,
        .advanced (some (.error (.unexpectedEncoding ⟨0x1008, .conflict (.runLimit 1)⟩))),
        .placed .faulted, .advanced (some (.ok [call]))] ∧
      (s'.askAll after).close.statistics.executed = 1 := by
  intro c trace before after call
  obtain ⟨s, hs, hreplays⟩ := resets_replay callAndReturn c trace rfl
  obtain ⟨hresponses, hclose⟩ := hreplays before after
  have hrun : (start callAndReturn trace c).toOption.map (fun s =>
      ((s.askAll before).phase 0, s.responses after, (s.askAll after).close.statistics.executed)) =
      some (.faulted, [.placed .unsynced,
        .advanced (some (.error (.unexpectedEncoding ⟨0x1008, .conflict (.runLimit 1)⟩))),
        .placed .faulted, .advanced (some (.ok [call]))], 1) := by
    decide +kernel
  rw [hs] at hrun
  simp only [Except.toOption, Option.map_some, Option.some.injEq, Prod.mk.injEq] at hrun
  obtain ⟨hfaulted, hfresh, hexecuted⟩ := hrun
  exact ⟨s, hs, hfaulted, hresponses.trans hfresh, by rw [hclose, hexecuted]⟩

end Session

end Retrace
