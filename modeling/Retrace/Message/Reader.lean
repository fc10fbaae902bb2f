import Std.Data.TreeMap
import Retrace.Message.Expansion
import Retrace.Wire.Reader

/-!
# Reading messages

The messages of a trace, in the order of the packets that they come from.
-/

namespace Retrace

open Wire

/-- How a trace is read. -/
structure ReaderOptions where
  /-- The width of core ids in bits. -/
  coreBits : Nat := 0
  /-- The width of timestamps in bits. -/
  timestampWidth : Nat := 40
  deriving DecidableEq, Repr, Inhabited

/-- The greatest width of core ids in bits; larger widths are cut down to it. -/
def maxCoreBits : Nat := 16

/-- Options with the given widths. -/
def ReaderOptions.ofWidths (coreBits timestampWidth : Nat) : ReaderOptions :=
  ⟨min coreBits maxCoreBits, timestampWidth⟩

/-- A position among the messages of a trace. -/
structure Reader where
  options : ReaderOptions
  trace : List UInt8
  position : Position
  /-- What is remembered of each core. -/
  cores : Std.TreeMap UInt16 CoreContext
  /-- Messages of the last packet that are still to be given. -/
  pending : List Message

namespace Reader

/-- The start of a trace. -/
def start (options : ReaderOptions) (trace : List UInt8) : Reader :=
  ⟨options, trace, ⟨0, trace⟩, {}, []⟩

/-- The start of the same trace. Nothing is remembered of any core. -/
def reset (r : Reader) : Reader :=
  { r with position := ⟨0, r.trace⟩, cores := {}, pending := [] }

/-- The reader is then as fresh as one that has never read. -/
theorem reset_eq_start (r : Reader) : r.reset = start r.options r.trace :=
  rfl

/-- The next packet, without looking at what it tells. -/
def nextPacket (r : Reader) : Option (Except PacketError Packet) × Reader :=
  let (result, position) := r.position.next r.options.coreBits
  (result, { r with position })

theorem length_of_nextPacket {r r' : Reader} {result : Except PacketError Packet}
    (h : r.nextPacket = (some result, r')) : r'.position.rest.length < r.position.rest.length := by
  simp only [nextPacket, Prod.mk.injEq] at h
  rw [← h.2]
  exact length_of_next (r := result) (Prod.ext h.1 rfl)

/-- The next message, or why there is none, and the position behind it. There is none at the end
of the trace. Packets that tell nothing are passed over. -/
def next (r : Reader) : Option (Except PacketError Message) × Reader :=
  match r.pending with
  | m :: pending => (some (.ok m), { r with pending })
  | [] =>
    match h : r.nextPacket with
    | (none, r') => (none, r')
    | (some (.error e), r') => (some (.error e), r')
    | (some (.ok p), r') =>
      let (messages, context) := p.expand r.options.timestampWidth (r'.cores.getD p.core {})
      let cores := r'.cores.insert p.core context
      match messages with
      | none => (some (.error (.unsupported p.type p.core)), { r' with cores })
      | some messages =>
        have : r'.position.rest.length < r.position.rest.length := length_of_nextPacket h
        next { r' with cores, pending := messages }
termination_by r.position.rest.length

theorem reset_of_nextPacket {r r' : Reader} {result : Option (Except PacketError Packet)}
    (h : r.nextPacket = (result, r')) : r'.reset = r.reset := by
  simp only [nextPacket, Prod.mk.injEq] at h
  rw [← h.2]
  rfl

/-- Reading changes nothing of what a reset goes back to. -/
theorem reset_next (r : Reader) : r.next.2.reset = r.reset := by
  fun_induction next r with
  | case1 => rfl
  | case2 r hp r1 hn => exact reset_of_nextPacket hn
  | case3 r hp e r1 hn => exact reset_of_nextPacket hn
  | case4 r hp p r1 hn context cores =>
    have hr : r1.reset = r.reset := reset_of_nextPacket hn
    exact hr
  | case5 r hp p r1 hn context cores messages hl _ ih =>
    have hr : r1.reset = r.reset := reset_of_nextPacket hn
    exact ih.trans hr

/-! ## Reading messages makes progress -/

/-- What is left to read: slices, and messages of a packet that was read. -/
def remaining (r : Reader) : Nat × Nat :=
  (r.position.rest.length, r.pending.length)

theorem remaining_of_next {r r' : Reader} {result : Except PacketError Message}
    (h : r.next = (some result, r')) :
    Prod.Lex (· < ·) (· < ·) r'.remaining r.remaining := by
  fun_induction next r with
  | case1 r m pending hp =>
    simp only [Prod.mk.injEq] at h
    rw [← h.2]
    simp only [remaining, hp, List.length_cons]
    exact Prod.Lex.right _ (Nat.lt_succ_self _)
  | case2 => simp at h
  | case3 r hp e r1 hn =>
    simp only [Prod.mk.injEq] at h
    rw [← h.2]
    exact Prod.Lex.left _ _ (length_of_nextPacket hn)
  | case4 r hp p r1 hn context cores =>
    have hl := length_of_nextPacket hn
    simp only [Prod.mk.injEq] at h
    rw [← h.2]
    exact Prod.Lex.left _ _ hl
  | case5 r hp p r1 hn context cores messages hl _ ih =>
    rcases Prod.lex_def.1 (ih h) with hl' | ⟨he, _⟩
    · exact Prod.Lex.left _ _ (Nat.lt_trans hl' hl)
    · refine Prod.Lex.left _ _ ?_
      simp only [remaining] at he
      omega

theorem remaining_of_end {r r' : Reader} (h : r.next = (none, r')) : r'.remaining = (0, 0) := by
  fun_induction next r with
  | case1 => simp at h
  | case2 r hp r1 hn =>
    simp only [Prod.mk.injEq, true_and] at h
    rw [← h]
    simp only [nextPacket, Prod.mk.injEq] at hn
    simp only [remaining, ← hn.2, hp, List.length_nil, Prod.mk.injEq, and_true]
    rw [rest_of_end (Prod.ext hn.1 rfl)]
    rfl
  | case3 => simp at h
  | case4 => simp at h
  | case5 r hp p r1 hn context cores messages hl _ ih => exact ih h

end Reader

end Retrace
