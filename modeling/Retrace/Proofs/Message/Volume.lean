import Retrace.Proofs.Message.Readings

/-!
# How much a trace tells

A packet has at least one slice and tells at most 64 messages: the outcomes of a history, which is a
number of 64 bits with one bit for its end, and the message behind them.
-/

namespace Retrace

open Wire

theorem length_history (bits : UInt64) : (history bits).length < 64 := by
  have hlog : bits.toNat.log2 < 64 := by
    by_cases h : bits.toNat = 0
    · rw [h]
      decide
    · exact (Nat.log2_lt h).mpr bits.toNat_lt
  simpa [history] using hlog

theorem length_pieces (pending : List UInt8) (terminated : Bool) (bytes : List UInt8) :
    (pieces pending terminated bytes).length ≤ bytes.length + 1 := by
  fun_induction pieces pending terminated bytes with
  | case1 => exact Nat.zero_le _
  | case2 => exact Nat.le_refl _
  | case3 pending terminated rest ih => exact Nat.succ_le_succ ih
  | case4 pending rest hb ih => exact Nat.le_succ_of_le ih
  | case5 pending terminated rest hb ht ih => exact Nat.succ_le_succ ih
  | case6 pending terminated b rest hb hb' ih => exact Nat.le_succ_of_le ih

theorem length_lowBytes (word : UInt64) (count : Nat) : (lowBytes word count).length = count := by
  induction count generalizing word with
  | zero => rfl
  | succ n ih => rw [lowBytes, List.length_cons, ih]

theorem length_fragments (core : UInt16) (timestamp tag data : UInt64) :
    (fragments core timestamp tag data).length ≤ 5 := by
  simp only [fragments]
  split
  · rw [List.length_map]
    have hpieces := length_pieces [] false (lowBytes data (4 - tag.toNat % 4))
    rw [length_lowBytes] at hpieces
    omega
  · exact Nat.zero_le _

namespace Wire.Packet

variable {p : Packet} {c c' : CoreContext} {payloads : List Payload}

theorem length_payloads (h : p.payloads? c = some (payloads, c')) :
    payloads.length ≤ 64 := by
  cases yields_of_payloads h with
  | counted htype hkind =>
      rw [List.length_append]
      exact length_history _
  | ahead htype hcode => exact Nat.zero_le _
  | outcomes htype hcode => exact (length_history _).le
  | correlation htype => exact (length_history _).le
  | written htype => exact (length_fragments _ _ _ _).trans (by decide)
  | error htype => exact Nat.le_add_left 1 63
  | nothing htype => exact Nat.zero_le _

theorem length_tells (p : Packet) (width : Nat) (c : CoreContext) :
    (p.tells width c).1.length ≤ 64 := by
  unfold tells
  cases hp : p.payloads? (p.stamped width c) with
  | none =>
      rw [expand_of_none hp]
      exact Nat.le_add_left 1 63
  | some r =>
      rw [expand_of_some hp]
      simp only [List.length_map, announced]
      split
      · decide
      · exact length_payloads hp

end Wire.Packet

theorem length_told (width : Nat) (last : UInt16 → CoreContext)
    (ps : List (Except PacketError Packet)) :
    (told width last ps).length ≤ 64 * ps.length := by
  induction ps generalizing last with
  | nil => exact Nat.zero_le _
  | cons p ps ih =>
      rw [List.length_cons, Nat.mul_succ]
      cases p with
      | error e =>
          have hrest := ih last
          simp only [told, List.length_cons] at hrest ⊢
          omega
      | ok p =>
          rw [told, List.length_append, Nat.add_comm]
          exact Nat.add_le_add (ih _) (p.length_tells width _)

theorem Wire.Position.length_packets (coreBits : Nat) (p : Position) :
    (p.packets coreBits).length ≤ p.rest.length := by
  fun_induction packets coreBits p with
  | case1 => exact Nat.zero_le _
  | case2 p r q hn hlt ih => exact Nat.succ_le_of_lt (Nat.lt_of_le_of_lt ih hlt)

/-- A trace tells at most so many messages for each slice. -/
theorem Reader.length_readings (options : ReaderOptions) (trace : List UInt8) :
    (start options trace).readings.length ≤ 64 * trace.length := by
  rw [readings_start]
  exact (length_told _ _ _).trans
    (Nat.mul_le_mul_left _ (Position.length_packets options.coreBits ⟨0, trace⟩))

end Retrace
