import Retrace.Proofs.Message.Times

/-!
# Counts that are sent ahead

A count that exceeds its field is sent ahead in parts. The next counted message of the core adds all
of them up, whatever the other cores send in between, and no other message has a count.
-/

namespace Retrace

open Wire

namespace Wire.Packet

def count? (p : Packet) : Option UInt64 :=
  match p.type with
  | .directBranch => some (p.mandatory 0)
  | .indirectBranch | .indirectBranchHistory | .sync | .directBranchSync => some (p.mandatory 1)
  | .indirectBranchSync | .indirectBranchHistorySync => some (p.mandatory 2)
  | _ => none

/-- The count that the packet sends ahead. -/
def ahead (p : Packet) : Nat :=
  if p.type = .resourceFull ∧ p.mandatory 0 = 0 then (p.mandatory 1).toNat else 0

/-- Counts sent ahead of the packet are of no use behind it. -/
def settles (p : Packet) : Bool :=
  p.count?.isSome || p.type = .correlation || p.type = .error

end Wire.Packet

/-- The sum of what a core has sent ahead since its last packet that settles counts. -/
def sentAhead (id : UInt16) (before : List Packet) : Nat :=
  (((before.filter (·.core = id)).reverse.takeWhile (!·.settles)).map Packet.ahead).sum

variable {p : Packet} {width : Nat} {c c' : CoreContext} {payloads : List Payload} {v : UInt64}
  {before : List Packet} {id : UInt16}

/-! ## Sums that stop at the greatest count -/

theorem addCount_min (m n : Nat) : addCount (min maxCount m) n = min maxCount (m + n) := by
  simp only [addCount]
  omega

theorem addCount_zero {m : Nat} (h : m ≤ maxCount) : addCount m 0 = m :=
  Nat.min_eq_right h

/-! ## One packet -/

theorem count_of_history {payload : Payload} {bits : UInt64} (h : payload ∈ history bits) :
    payload.count = 0 := by
  obtain ⟨i, -, rfl⟩ := List.mem_map.mp h
  rfl

theorem count_of_fragments {payload : Payload} {core : UInt16} {timestamp tag data : UInt64}
    (h : payload ∈ fragments core timestamp tag data) : payload.count = 0 := by
  simp only [fragments] at h
  split at h
  · obtain ⟨piece, -, rfl⟩ := List.mem_map.mp h
    rfl
  · cases h

theorem count_indirect (kind address : UInt64) (n : Nat) : (indirect kind address n).count = n := by
  unfold indirect
  split <;> rfl

namespace Wire.Packet

theorem pendingCount_stamped (p : Packet) (width : Nat) (c : CoreContext) :
    (p.stamped width c).pendingCount = if p.type = .error then 0 else c.pendingCount := by
  unfold stamped
  split
  · rfl
  · cases p.timestamp? <;> rfl

/-- A counted packet tells outcomes and then the message that carries its count. -/
theorem payloads_of_count (h : p.count? = some v) (c : CoreContext) :
    ∃ outcomes payload c', p.payloads? c = some (outcomes ++ [payload], c') ∧
      (∀ outcome ∈ outcomes, outcome.count = 0) ∧ payload.count = c.total v ∧
      c'.pendingCount = 0 := by
  unfold count? at h
  split at h
  case h_8 => cases h
  case h_1 ht =>
      cases h
      exact ⟨[], _, _, by simp only [payloads?, ht]; rfl, by simp, rfl, rfl⟩
  case h_2 ht =>
      cases h
      exact ⟨[], _, _, by simp only [payloads?, ht]; rfl, by simp, count_indirect _ _ _, rfl⟩
  case h_3 ht =>
      cases h
      exact ⟨history (p.mandatory 3), _, _, by simp only [payloads?, ht]; rfl,
        fun _ => count_of_history, count_indirect _ _ _, rfl⟩
  case h_7 ht =>
      cases h
      exact ⟨history (p.mandatory 4), _, _, by simp only [payloads?, ht]; rfl,
        fun _ => count_of_history, rfl, rfl⟩
  all_goals
    rename_i ht
    cases h
    exact ⟨[], _, _, by simp only [payloads?, ht]; rfl, by simp, rfl, rfl⟩

/-- Other packets tell nothing that has a count, and drop what is pending or add to it. -/
theorem payloads_of_no_count (h : p.count? = none) (hp : p.payloads? c = some (payloads, c')) :
    (∀ payload ∈ payloads, payload.count = 0) ∧ (c.pendingCount ≤ maxCount →
      c'.pendingCount = if p.type = .correlation then 0 else addCount c.pendingCount p.ahead) := by
  cases yields_of_payloads hp with
  | counted htype hkind =>
      refine absurd h (Option.isSome_iff_ne_none.mp ?_)
      simp only [TypeCode.counted, List.mem_cons, List.not_mem_nil, or_false] at htype
      unfold count?
      rcases htype with ht | ht | ht | ht | ht | ht | ht <;> rw [ht] <;> rfl
  | ahead htype hcode => exact ⟨by simp, fun _ => by simp [ahead, htype, hcode]⟩
  | outcomes htype hcode =>
      exact ⟨fun _ => count_of_history, fun hc => by simp [ahead, htype, hcode, addCount_zero hc]⟩
  | correlation htype => exact ⟨fun _ => count_of_history, fun _ => by simp [htype]⟩
  | written htype =>
      exact ⟨fun _ => count_of_fragments, fun hc => by simp [ahead, htype, addCount_zero hc]⟩
  | error htype =>
      exact ⟨by simp [Payload.count], fun hc => by simp [ahead, htype, addCount_zero hc]⟩
  | nothing htype =>
      refine ⟨by simp, fun hc => ?_⟩
      rcases htype with htype | htype <;> simp [ahead, htype, addCount_zero hc]

theorem unsettled_of_none (h : p.payloads? c = none) : p.settles = false ∧ p.ahead = 0 := by
  constructor
  · cases ht : p.type <;> simp_all [payloads?, settles, count?]
  · unfold ahead
    split
    · rename_i hahead
      simp [payloads?, hahead] at h
    · rfl

theorem pendingCount_tells (p : Packet) (width : Nat) (hc : c.pendingCount ≤ maxCount) :
    (p.tells width c).2.pendingCount =
      if p.settles then 0 else addCount c.pendingCount p.ahead := by
  have hstamped := p.pendingCount_stamped width c
  cases hp : p.payloads? (p.stamped width c) with
  | none =>
      obtain ⟨hsettles, hahead⟩ := unsettled_of_none hp
      have herror : p.type ≠ .error := by
        rintro ht
        simp [settles, ht] at hsettles
      rw [tells, expand_of_none hp, hsettles, hahead]
      simp [hstamped, herror, addCount_zero hc]
  | some r =>
      obtain ⟨payloads, c'⟩ := r
      rw [tells, expand_of_some hp]
      cases hv : p.count? with
      | some v =>
          obtain ⟨outcomes, payload, d, hd, -, -, hpending⟩ :=
            payloads_of_count hv (p.stamped width c)
          cases hp.symm.trans hd
          simp [settles, hv, hpending]
      | none =>
          have hbound : (p.stamped width c).pendingCount ≤ maxCount := by
            rw [hstamped]
            split
            · exact Nat.zero_le _
            · exact hc
          obtain ⟨-, hpending⟩ := payloads_of_no_count hv hp
          rw [hpending hbound, hstamped]
          by_cases hcorrelation : p.type = .correlation
          · simp [settles, hcorrelation]
          · by_cases herror : p.type = .error
            · simp [settles, herror, ahead, addCount]
            · simp [settles, hv, hcorrelation, herror]

theorem tells_of_count (h : p.count? = some v) (width : Nat) (c : CoreContext) :
    ∃ outcomes m, (p.tells width c).1 = (outcomes ++ [m]).map .ok ∧
      (∀ outcome ∈ outcomes, outcome.count = 0) ∧
      m.count = addCount c.pendingCount v.toNat := by
  obtain ⟨outcomes, payload, c', hp, hzero, hcount, -⟩ := payloads_of_count h (p.stamped width c)
  have herror : p.type ≠ .error := by
    rintro ht
    simp [count?, ht] at h
  let message := fun payload => Message.mk p.core (p.stamped width c).timestamp payload
  refine ⟨outcomes.map message, message payload, ?_, ?_, ?_⟩
  · rw [tells_of_payloads hp (by simp)]
    simp [readAt, message]
  · intro outcome ho
    obtain ⟨payload', hpayload, rfl⟩ := List.mem_map.mp ho
    exact hzero payload' hpayload
  · rw [CoreContext.total, pendingCount_stamped, if_neg herror] at hcount
    exact hcount

theorem tells_of_no_count (h : p.count? = none) {m : Message}
    (hm : .ok m ∈ (p.tells width c).1) : m.count = 0 := by
  cases hp : p.payloads? (p.stamped width c) with
  | none =>
      rw [tells, expand_of_none hp] at hm
      cases List.mem_singleton.mp hm
  | some r =>
      obtain ⟨payloads, c'⟩ := r
      rw [tells, expand_of_some hp] at hm
      obtain ⟨m', hm', heq⟩ := List.mem_map.mp hm
      obtain ⟨payload, hpayload, rfl⟩ := List.mem_map.mp hm'
      cases heq
      unfold announced at hpayload
      split at hpayload
      · obtain rfl := List.mem_singleton.mp hpayload
        rfl
      · exact (payloads_of_no_count h hp).1 payload hpayload

end Wire.Packet

/-! ## Packets in a row -/

theorem sentAhead_append (id : UInt16) (before : List Packet) (p : Packet) :
    sentAhead id (before ++ [p]) =
      if p.core = id then if p.settles then 0 else sentAhead id before + p.ahead
      else sentAhead id before := by
  by_cases hid : p.core = id
  · by_cases hs : p.settles = true
    · simp [sentAhead, hid, hs]
    · simp [sentAhead, hid, hs, Nat.add_comm]
  · simp [sentAhead, hid]

theorem pendingCount_recalled (width : Nat) (before : List Packet) (id : UInt16) :
    (recalled width (fun _ => {}) (before.map .ok) id).pendingCount =
      min maxCount (sentAhead id before) := by
  induction before using List.reverseRecOn with
  | nil => rfl
  | append_singleton before p ih =>
      rw [List.map_append, List.map_singleton, recalled_concat, sentAhead_append]
      by_cases hid : p.core = id
      · subst hid
        rw [Function.update_self, if_pos rfl,
          Wire.Packet.pendingCount_tells p width (ih ▸ Nat.min_le_left _ _), ih, addCount_min]
        split
        · rfl
        · rfl
      · rw [Function.update_of_ne (Ne.symm hid), ih, if_neg hid]

namespace Reader

/-- Of packets that can be read, one with a count tells outcomes and then a message, the count of
which is that of the packet and all that its core has sent ahead of it, or the greatest one if that
is less. All other messages have no count. -/
theorem counts_are_joined (options : ReaderOptions) (trace : List UInt8) (before : List Packet)
    (p : Packet) (after : List Packet)
    (h : (start options trace).packets = (before ++ p :: after).map .ok) :
    let width := options.timestampWidth
    let last := recalled width (fun _ => {}) (before.map .ok)
    let messages := (p.tells width (last p.core)).1
    (start options trace).readings = told width (fun _ => {}) (before.map .ok) ++
        (messages ++ told width (recalled width last [.ok p]) (after.map .ok)) ∧
      (∀ count, p.count? = some count → ∃ outcomes m, messages = (outcomes ++ [m]).map .ok ∧
        (∀ outcome ∈ outcomes, outcome.count = 0) ∧
        m.count = min (2 ^ 64 - 1) (count.toNat + sentAhead p.core before)) ∧
      (p.count? = none → ∀ m, .ok m ∈ messages → m.count = 0) := by
  intro width last messages
  refine ⟨?_, ?_, ?_⟩
  · rw [readings_eq_told, h, List.map_append, told_append]
    rfl
  · intro count hcount
    obtain ⟨outcomes, m, hmessages, hzero, hm⟩ := p.tells_of_count hcount width (last p.core)
    refine ⟨outcomes, m, hmessages, hzero, ?_⟩
    rw [hm, pendingCount_recalled, addCount_min, Nat.add_comm]
    rfl
  · exact fun hcount m hm => Packet.tells_of_no_count hcount hm

/-- The counts that another core sends ahead in between do not matter. -/
theorem counts_join_across_cores :
    let before : List Packet := [⟨.resourceFull, 0, [0, 100]⟩,
      ⟨.resourceFull, 1, [0, 0xffffffffffffffff]⟩, ⟨.resourceFull, 0, [0, 28]⟩]
    let p : Packet := ⟨.indirectBranchHistory, 0, [0, 5, 0x800, 6]⟩
    let trace := transmit 1 ((before ++ [p]).map (0, ·))
    (start ⟨1, 40⟩ trace).packets = (before ++ [p]).map .ok ∧
      ∃ m, .ok m ∈ (start ⟨1, 40⟩ trace).readings ∧ m.count = 133 := by
  intro before p trace
  have hpackets : (start ⟨1, 40⟩ trace).packets = (before ++ [p]).map .ok := by
    have hcomplete : ∀ q ∈ (before ++ [p]).map ((0, ·) : Packet → Nat × Packet), q.2.Complete := by
      simp [before, p, Packet.Complete, TypeCode.layout?]
    rw [packets_eq]
    exact (Position.packets_transmit _ hcomplete 1 0).trans rfl
  refine ⟨hpackets, ?_⟩
  obtain ⟨hreadings, hcount, -⟩ := counts_are_joined ⟨1, 40⟩ trace before p [] hpackets
  obtain ⟨outcomes, m, hmessages, -, hm⟩ := hcount 5 rfl
  refine ⟨m, ?_, hm⟩
  rw [hreadings, hmessages]
  simp

end Reader

end Retrace
