import Mathlib.Data.List.Defs
import Mathlib.Data.List.TakeWhile
import Retrace.Proofs.Wire.RoundTrip

/-!
# Packets of traces that are joined

What is read of a trace does not depend on a trace before it that ends with a message, whatever
that one holds. Only the positions that errors report move on.
-/

namespace Retrace

open Wire

namespace Wire

/-- There are no slices, or the last one ends a message. -/
def Ended (x : List UInt8) : Prop :=
  ∀ s ∈ x.getLast?, Slice.marker s = .endMessage

variable {x z message rest : List UInt8} {coreBits offset : Nat} {p q : Position}
  {r : Except PacketError Packet}

/-- The error in a trace with so many slices more before it. -/
def PacketError.shift (n : Nat) : PacketError → PacketError
  | truncated position => .truncated (position + n)
  | reservedMarker position => .reservedMarker (position + n)
  | unknownType number position => .unknownType number (position + n)
  | malformed position core cause => .malformed (position + n) core cause
  | unsupported type core => .unsupported type core

theorem ended_nil : Ended [] := by
  simp [Ended]

theorem Ended.of_append (h : Ended (x ++ z)) : Ended z := by
  intro s hs
  exact h s (by simp [List.getLast?_append, Option.mem_def.mp hs])

/-! ## Messages -/

theorem splitMessage?_eq_some (h : splitMessage? x = some (message, rest)) :
    x = message ++ rest := by
  induction x generalizing message with
  | nil => simp [splitMessage?] at h
  | cons s x ih =>
      simp only [splitMessage?] at h
      split at h
      · cases h
        rfl
      · obtain ⟨⟨message', rest'⟩, hx, heq⟩ := Option.map_eq_some_iff.mp h
        cases heq
        rw [ih hx]
        rfl

theorem splitMessage?_append (h : splitMessage? x = some (message, rest)) (z : List UInt8) :
    splitMessage? (x ++ z) = some (message, rest ++ z) := by
  induction x generalizing message with
  | nil => simp [splitMessage?] at h
  | cons s x ih =>
      simp only [List.cons_append, splitMessage?] at h ⊢
      split
      · rename_i hs
        rw [if_pos hs] at h
        cases h
        rfl
      · rename_i hs
        rw [if_neg hs] at h
        obtain ⟨⟨message', rest'⟩, hx, heq⟩ := Option.map_eq_some_iff.mp h
        cases heq
        rw [ih hx]
        rfl

theorem Ended.exists_splitMessage? (h : Ended x) (hx : x ≠ []) :
    ∃ message rest, splitMessage? x = some (message, rest) := by
  induction x with
  | nil => exact absurd rfl hx
  | cons s x ih =>
      by_cases hs : Slice.marker s = .endMessage
      · exact ⟨[s], x, by simp [splitMessage?, hs]⟩
      · cases x with
        | nil => exact absurd (h s (by simp)) hs
        | cons s' x =>
            obtain ⟨message, rest, hsplit⟩ :=
              ih (Ended.of_append (x := [s]) h) (List.cons_ne_nil _ _)
            exact ⟨s :: message, rest, by rw [splitMessage?, if_neg hs, hsplit]; rfl⟩

/-! ## Positions -/

namespace Position

theorem packets_of_end (h : p.next coreBits = (none, q)) : p.packets coreBits = [] := by
  rw [packets]
  split
  · rfl
  · rename_i hn
    rw [h] at hn
    cases hn

theorem packets_of_next (h : p.next coreBits = (some r, q)) :
    p.packets coreBits = r :: q.packets coreBits := by
  rw [packets]
  split
  · rename_i hn
    rw [h] at hn
    cases hn
  · rename_i hn
    rw [h] at hn
    cases hn
    rfl

theorem skipIdle_append_of_end (h : (skipIdle ⟨offset, x⟩).rest = []) (z : List UInt8) :
    skipIdle ⟨offset, x ++ z⟩ = skipIdle ⟨offset + x.length, z⟩ := by
  have hx : ∀ s ∈ x, decide (s = Slice.idle) = true := List.dropWhile_eq_nil_iff.mp h
  simp only [skipIdle, List.takeWhile_append_of_pos hx, List.dropWhile_append_of_pos hx,
    List.length_append, Nat.add_assoc]

theorem skipIdle_append (h : (skipIdle ⟨offset, x⟩).rest ≠ []) (z : List UInt8) :
    skipIdle ⟨offset, x ++ z⟩ =
      ⟨(skipIdle ⟨offset, x⟩).offset, (skipIdle ⟨offset, x⟩).rest ++ z⟩ := by
  have hdrop : x.dropWhile (· = Slice.idle) ≠ [] := h
  have htake : (x.takeWhile (· = Slice.idle)).length ≠ x.length := by
    intro hlen
    have hsplit := congrArg List.length (List.takeWhile_append_dropWhile
      (p := (· = Slice.idle)) (l := x))
    rw [List.length_append, hlen] at hsplit
    exact hdrop (List.length_eq_zero_iff.mp (by omega))
  simp only [skipIdle, List.takeWhile_append, if_neg htake, List.dropWhile_append,
    List.isEmpty_iff, if_neg hdrop]

theorem length_skipIdle_add (p : Position) :
    p.skipIdle.offset + p.skipIdle.rest.length = p.offset + p.rest.length := by
  have hsplit := congrArg List.length (List.takeWhile_append_dropWhile
    (p := (· = Slice.idle)) (l := p.rest))
  rw [List.length_append] at hsplit
  simp only [skipIdle]
  omega

theorem ended_skipIdle (h : Ended p.rest) : Ended p.skipIdle.rest :=
  Ended.of_append (x := p.rest.takeWhile (· = Slice.idle))
    (List.takeWhile_append_dropWhile.symm ▸ h)

/-- Where only idle slices are left, what comes after is read next. -/
theorem next_append_of_end (h : next coreBits ⟨offset, x⟩ = (none, q)) (z : List UInt8) :
    next coreBits ⟨offset, x ++ z⟩ = next coreBits ⟨offset + x.length, z⟩ := by
  have hend : (skipIdle ⟨offset, x⟩).rest = [] := by
    simp only [next] at h
    split at h
    · rename_i hr
      exact List.isEmpty_iff.mp hr
    · split at h <;> cases h
  simp only [next, skipIdle_append_of_end hend]

/-- A message is read alike whatever comes after it. -/
theorem next_append (hx : Ended x) (h : next coreBits ⟨offset, x⟩ = (some r, q)) (z : List UInt8) :
    Ended q.rest ∧ q.offset + q.rest.length = offset + x.length ∧
      next coreBits ⟨offset, x ++ z⟩ = (some r, ⟨q.offset, q.rest ++ z⟩) := by
  have hlen := length_skipIdle_add ⟨offset, x⟩
  have hended := ended_skipIdle (p := ⟨offset, x⟩) hx
  simp only [next] at h ⊢
  split at h
  · cases h
  · rename_i hr
    have hne : (skipIdle ⟨offset, x⟩).rest ≠ [] := by simpa using hr
    obtain ⟨message, rest, hs⟩ := hended.exists_splitMessage? hne
    have hjoin := splitMessage?_eq_some hs
    have hlength := congrArg List.length hjoin
    rw [List.length_append] at hlength
    rw [hs] at h
    cases h
    refine ⟨Ended.of_append (hjoin ▸ hended), by simp only at hlen ⊢; omega, ?_⟩
    rw [skipIdle_append hne z]
    simp [hne, splitMessage?_append hs z]

/-- The packets of a trace behind another one that has ended are those of the trace alone. -/
theorem packets_append (hx : Ended x) (offset : Nat) (z : List UInt8) :
    packets coreBits ⟨offset, x ++ z⟩ =
      packets coreBits ⟨offset, x⟩ ++ packets coreBits ⟨offset + x.length, z⟩ := by
  induction hn : x.length using Nat.strongRecOn generalizing x offset with
  | ind n ih =>
      subst hn
      cases h : next coreBits ⟨offset, x⟩ with
      | mk r? q =>
          cases r? with
          | none =>
              rw [packets_of_end h, List.nil_append]
              have hnext := next_append_of_end h z
              cases hz : next coreBits ⟨offset + x.length, z⟩ with
              | mk r? q' =>
                  rw [hz] at hnext
                  cases r? with
                  | none => rw [packets_of_end hnext, packets_of_end hz]
                  | some r => rw [packets_of_next hnext, packets_of_next hz]
          | some r =>
              obtain ⟨hrest, hlen, hnext⟩ := next_append hx h z
              rw [packets_of_next hnext, packets_of_next h, List.cons_append,
                ih _ (length_of_next h) hrest q.offset rfl, hlen]

theorem packets_replicate_idle (coreBits offset idles : Nat) :
    packets coreBits ⟨offset, .replicate idles Slice.idle⟩ = [] := by
  obtain ⟨offset', hn⟩ := next_idle coreBits offset idles
  exact packets_of_end hn

/-- The packets of a trace are those that were transmitted. -/
theorem packets_transmit (ps : List (Nat × Packet)) (h : ∀ q ∈ ps, q.2.Complete)
    (coreBits offset : Nat) :
    packets coreBits ⟨offset, transmit coreBits ps⟩ =
      ps.map fun q => .ok (q.2.reduced coreBits) := by
  induction ps generalizing offset with
  | nil => exact packets_replicate_idle coreBits offset 0
  | cons q ps ih =>
      obtain ⟨offset', hn⟩ := next_encode (h q List.mem_cons_self) coreBits offset q.1
        (transmit coreBits ps)
      have htransmit : transmit coreBits (q :: ps) = .replicate q.1 Slice.idle ++
          (q.2.encode coreBits ++ transmit coreBits ps) := by
        simp [transmit]
      rw [htransmit, packets_of_next hn, ih (fun q hq => h q (List.mem_cons_of_mem _ hq))]
      rfl

end Position

/-! ## Positions of errors -/

theorem Packet.ofSlices_shift (coreBits position n : Nat) (s : List UInt8) :
    ofSlices coreBits (position + n) s =
      (ofSlices coreBits position s).mapError (PacketError.shift n) := by
  unfold ofSlices
  split
  · rfl
  · cases (Cursor.start s).readFixed sliceBits with
    | mk number? c =>
        cases number? with
        | error e => rfl
        | ok number =>
            simp only
            cases TypeCode.ofNumber? number with
            | none => rfl
            | some type =>
                simp only
                cases c.readFixed coreBits with
                | mk core? c =>
                    cases core? with
                    | error e => rfl
                    | ok core =>
                        simp only
                        cases type.layout? with
                        | none => rfl
                        | some layout =>
                            simp only
                            split <;> rfl

namespace Position

theorem skipIdle_shift (p : Position) (n : Nat) :
    skipIdle ⟨p.offset + n, p.rest⟩ = ⟨p.skipIdle.offset + n, p.skipIdle.rest⟩ := by
  simp only [skipIdle, Nat.add_right_comm]

theorem next_shift (p : Position) (n : Nat) :
    next coreBits ⟨p.offset + n, p.rest⟩ =
      ((p.next coreBits).1.map (·.mapError (PacketError.shift n)),
        ⟨(p.next coreBits).2.offset + n, (p.next coreBits).2.rest⟩) := by
  simp only [next, skipIdle_shift]
  split
  · rfl
  · cases splitMessage? p.skipIdle.rest with
    | none => simp [Except.mapError, PacketError.shift, Nat.add_right_comm]
    | some split => simp [Packet.ofSlices_shift, Nat.add_right_comm]

theorem packets_shift (p : Position) (n : Nat) :
    packets coreBits ⟨p.offset + n, p.rest⟩ =
      (p.packets coreBits).map (·.mapError (PacketError.shift n)) := by
  fun_induction packets coreBits p with
  | case1 p q hn =>
      apply packets_of_end
      rw [next_shift, hn]
      rfl
  | case2 p r q hn _ ih =>
      rw [List.map_cons, ← ih]
      apply packets_of_next
      rw [next_shift, hn]
      rfl

end Position

end Wire

/-! ## Readers -/

namespace Reader

variable {r r' : Reader}

/-- All packets that a reader still gives, each read or with the reason why it could not be. -/
def packets (r : Reader) : List (Except PacketError Packet) :=
  match h : r.nextPacket with
  | (none, _) => []
  | (some x, r') =>
    have := length_of_nextPacket h
    x :: r'.packets
termination_by r.position.rest.length

theorem packets_of_nextPacket_end (h : r.nextPacket = (none, r')) :
    r.position.packets r.options.coreBits = [] := by
  simp only [nextPacket, Prod.mk.injEq] at h
  exact Position.packets_of_end (Prod.ext h.1 rfl)

theorem packets_of_nextPacket {result : Except PacketError Packet}
    (h : r.nextPacket = (some result, r')) :
    r.position.packets r.options.coreBits = result :: r'.position.packets r.options.coreBits ∧
      r' = { r with position := r'.position } := by
  simp only [nextPacket, Prod.mk.injEq] at h
  obtain ⟨hresult, rfl⟩ := h
  exact ⟨Position.packets_of_next (Prod.ext hresult rfl), rfl⟩

theorem packets_eq (r : Reader) : r.packets = r.position.packets r.options.coreBits := by
  fun_induction packets r with
  | case1 r r' hn => exact (packets_of_nextPacket_end hn).symm
  | case2 r x r' hn _ ih =>
      obtain ⟨hpackets, hr⟩ := packets_of_nextPacket hn
      have hoptions : r'.options = r.options := by rw [hr]
      rw [hpackets, ih, hoptions]

/-- Behind any slices of which the last one ends a message, a trace is read as it is read alone. An
error before it changes none of its packets, and its own errors report positions that have moved on
by the slices before it. -/
theorem errors_are_local (options : ReaderOptions) (x y : List UInt8) (hx : Ended x) :
    (start options (x ++ y)).packets =
      (start options x).packets ++
        (start options y).packets.map (·.mapError (PacketError.shift x.length)) := by
  simp only [packets_eq, start]
  rw [← Position.packets_shift ⟨0, y⟩ x.length]
  exact Position.packets_append hx 0 y

/-- A reserved marker and a field beyond the end of its message leave the packet behind them alone,
and where the trace is cut off is counted from the start of the whole trace. -/
theorem cut_off_behind_garbage :
    let x : List UInt8 := [0x24, 0x02, 0x03, 0x27]
    let y : List UInt8 := [0x0c, 0x07, 0x03, 0x24]
    Ended x ∧ (start ⟨0, 40⟩ (x ++ y)).packets =
      [.error (.reservedMarker 0), .error (.malformed 3 (some 0) .boundary),
        .ok ⟨.directBranch, 0, [1]⟩, .error (.truncated 7)] := by
  intro x y
  have hx : Ended x := by
    rw [Ended]
    decide +kernel
  refine ⟨hx, (errors_are_local ⟨0, 40⟩ x y hx).trans ?_⟩
  cbv

end Reader

end Retrace
