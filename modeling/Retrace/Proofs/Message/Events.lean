import Mathlib.Data.List.Induction
import Mathlib.Data.Nat.Bitwise
import Retrace.Message.Expansion
import Retrace.Proofs.Wire.Packets

/-!
# Events and their packets

What cores tell of control flow, and how it is shortened: addresses are differences from the last
one of the core, and outcomes of branches are the bits of a number. Expansion undoes both.
-/

namespace Retrace

open Wire

/-- Outcomes of branches as the bits below the highest one, the oldest first. -/
def historyBits (outcomes : List Bool) : Nat :=
  outcomes.foldl (fun n taken => Nat.bit taken n) 1

/-- What a core tells of control flow, with the outcomes of branches before. -/
inductive Event where
  | sync (before? : Option (List Bool)) (address count : UInt64)
  | indirectBranch (before? : Option (List Bool)) (address count : UInt64)
  | exception (before? : Option (List Bool)) (kind address count : UInt64)
  | taken (count : UInt64)
  | outcomes (before : List Bool)

namespace Event

def before : Event → List Bool
  | sync before? .. | indirectBranch before? .. | exception before? .. => before?.getD []
  | taken _ => []
  | outcomes before => before

def address? : Event → Option UInt64
  | sync _ address _ | indirectBranch _ address _ | exception _ _ address _ => some address
  | taken _ | outcomes _ => none

/-- What the event tells after the outcomes. -/
def payload? : Event → Option Payload
  | sync _ address count => some (.sync address count.toNat)
  | indirectBranch _ address count => some (.indirectBranch address count.toNat)
  | exception _ _ address count => some (.exception address count.toNat)
  | taken count => some (.directBranch true count.toNat)
  | outcomes _ => none

/-- What the event tells, the outcomes first. -/
def payloads (e : Event) : List Payload :=
  e.before.map (.directBranch · 0) ++ e.payload?.toList

/-- The messages on the event of a core. -/
def messages (core : UInt16) (e : Event) : List Message :=
  e.payloads.map (⟨core, 0, ·⟩)

/-- Instructions are at even addresses, outcomes fit into a field, and exceptions have a kind. -/
structure Valid (e : Event) : Prop where
  even : ∀ address, e.address? = some address → address.toNat % 2 = 0
  length : e.before.length ≤ 63
  kind : ∀ before? kind address count, e = exception before? kind address count →
    0 < kind.toNat ∧ kind.toNat < 4

/-- The type and the fields for a target, given the last address. -/
def targetFields (last : UInt64) (before? : Option (List Bool)) (kind address count : UInt64) :
    TypeCode × List UInt64 :=
  match before? with
  | none => (.indirectBranch, [kind, count, (address ^^^ last) >>> 1])
  | some before =>
    (.indirectBranchHistory,
      [kind, count, (address ^^^ last) >>> 1, UInt64.ofNat (historyBits before)])

/-- The type and the fields of the packet for an event, given the last address. -/
def fields (last : UInt64) : Event → TypeCode × List UInt64
  | sync none address count => (.sync, [0, count, address >>> 1])
  | sync (some before) address count =>
    (.indirectBranchHistorySync, [0, 0, count, address >>> 1, UInt64.ofNat (historyBits before)])
  | indirectBranch before? address count => targetFields last before? 0 address count
  | exception before? kind address count => targetFields last before? kind address count
  | taken count => (.directBranch, [count])
  | outcomes before => (.resourceFull, [1, UInt64.ofNat (historyBits before)])

/-- The packet of an event on a core, given the last address. -/
def packet (core : UInt16) (last : UInt64) (e : Event) : Packet :=
  ⟨(e.fields last).1, core, (e.fields last).2⟩

end Event

/-! ## Histories -/

variable {before : List Bool}

theorem log2_bit (b : Bool) {n : Nat} (h : 0 < n) : (Nat.bit b n).log2 = n.log2 + 1 := by
  have hle : 2 ≤ Nat.bit b n := by rw [Nat.bit_val]; omega
  rw [Nat.log2_def, if_pos hle, Nat.bit_div_two]

theorem historyBits_append (before : List Bool) (taken : Bool) :
    historyBits (before ++ [taken]) = Nat.bit taken (historyBits before) := by
  simp [historyBits]

theorem historyBits_pos (before : List Bool) : 0 < historyBits before := by
  induction before using List.reverseRecOn with
  | nil => decide
  | append_singleton before taken ih =>
      rw [historyBits_append, Nat.bit_val]
      omega

theorem log2_historyBits (before : List Bool) : (historyBits before).log2 = before.length := by
  induction before using List.reverseRecOn with
  | nil => rfl
  | append_singleton before taken ih =>
      rw [historyBits_append, log2_bit _ (historyBits_pos before), ih, List.length_append]
      rfl

theorem testBit_historyBits (before : List Bool) :
    (List.range before.length).reverse.map (historyBits before).testBit = before := by
  induction before using List.reverseRecOn with
  | nil => rfl
  | append_singleton before taken ih =>
      rw [historyBits_append, List.length_append, List.length_singleton, List.range_succ_eq_map,
        List.reverse_cons, List.map_append, ← List.map_reverse, List.map_map]
      have hbits : (Nat.bit taken (historyBits before)).testBit ∘ Nat.succ =
          (historyBits before).testBit :=
        funext fun i => Nat.testBit_bit_succ _ _ _
      rw [hbits, ih, List.map_singleton, Nat.testBit_bit_zero]

theorem toNat_historyBits (h : before.length ≤ 63) :
    (UInt64.ofNat (historyBits before)).toNat = historyBits before := by
  have hlt : historyBits before < 2 ^ 64 := by
    calc historyBits before < 2 ^ ((historyBits before).log2 + 1) := Nat.lt_log2_self
      _ ≤ 2 ^ 64 := Nat.pow_le_pow_right (by decide) (by rw [log2_historyBits]; omega)
  exact Nat.mod_eq_of_lt hlt

theorem history_historyBits (h : before.length ≤ 63) :
    history (UInt64.ofNat (historyBits before)) = before.map (.directBranch · 0) := by
  have hmap := congrArg (List.map (Payload.directBranch · 0)) (testBit_historyBits before)
  rw [List.map_map] at hmap
  simp only [history, toNat_historyBits h, log2_historyBits]
  exact hmap

/-! ## Addresses -/

theorem shift_of_even {a : UInt64} (h : a.toNat % 2 = 0) : a >>> 1 <<< 1 = a := by
  apply UInt64.toNat_inj.mp
  have := a.toNat_lt
  simp only [UInt64.toNat_shiftLeft, UInt64.toNat_shiftRight, UInt64.reduceToNat, Nat.reduceMod,
    Nat.shiftLeft_eq, Nat.shiftRight_eq_div_pow, pow_one]
  omega

theorem even_xor {a b : UInt64} (ha : a.toNat % 2 = 0) (hb : b.toNat % 2 = 0) :
    (a ^^^ b).toNat % 2 = 0 := by
  have h : (a.toNat ^^^ b.toNat) % 2 ^ 1 = a.toNat % 2 ^ 1 ^^^ b.toNat % 2 ^ 1 :=
    Nat.xor_mod_two_pow
  rw [UInt64.toNat_xor]
  simpa [ha, hb] using h

/-- The difference from the last address leads back to the address. -/
theorem xor_difference {a last : UInt64} (ha : a.toNat % 2 = 0) (hl : last.toNat % 2 = 0) :
    last ^^^ (a ^^^ last) >>> 1 <<< 1 = a := by
  rw [shift_of_even (even_xor ha hl), UInt64.xor_comm a, ← UInt64.xor_assoc, UInt64.xor_self,
    UInt64.zero_xor]

/-! ## Packets of events -/

theorem CoreContext.total_of_zero {c : CoreContext} (h : c.pendingCount = 0) (count : UInt64) :
    c.total count = count.toNat := by
  have := count.toNat_lt
  rw [total, addCount, h, Nat.zero_add, Nat.min_eq_right]
  simp only [maxCount, UInt64.size]
  omega

theorem Wire.Packet.expand_of_payloads {p : Packet} {width : Nat} {c c' : CoreContext}
    {ps : List Payload} (ht : p.type ≠ .error) (ho : p.optional = [])
    (hp : p.payloads? c = some (ps, c')) :
    p.expand width c = (some (ps.map (⟨p.core, c.timestamp, ·⟩)), c') := by
  have htime : p.timestamp? = none := by rw [timestamp?, ho]; rfl
  simp only [expand, if_neg ht, htime, CoreContext.stamp, hp, Option.isSome_none, Bool.and_false,
    Bool.false_eq_true, ite_false]

namespace Event

variable {core : UInt16} {last : UInt64} {e : Event}

/-- The packet of an event has the fields of its layout and no other ones. -/
theorem exists_layout (last : UInt64) (e : Event) :
    ∃ layout, (e.fields last).1.layout? = some layout ∧
      (e.fields last).2.length = layout.length := by
  cases e with
  | sync before? => cases before? <;> exact ⟨_, rfl, rfl⟩
  | indirectBranch before? => cases before? <;> exact ⟨_, rfl, rfl⟩
  | exception before? => cases before? <;> exact ⟨_, rfl, rfl⟩
  | taken => exact ⟨_, rfl, rfl⟩
  | outcomes => exact ⟨_, rfl, rfl⟩

theorem complete_packet (core : UInt16) (last : UInt64) (e : Event) :
    (e.packet core last).Complete := by
  obtain ⟨layout, hl, hlen⟩ := exists_layout last e
  exact ⟨layout, hl, hlen.ge⟩

theorem optional_packet (core : UInt16) (last : UInt64) (e : Event) :
    (e.packet core last).optional = [] := by
  obtain ⟨layout, hl, hlen⟩ := exists_layout last e
  rw [Packet.optional, packet, hl, Option.getD_some, ← hlen, List.drop_length]

theorem type_packet_ne_error (core : UInt16) (last : UInt64) (e : Event) :
    (e.packet core last).type ≠ .error := by
  cases e with
  | sync before? => cases before? <;> exact TypeCode.noConfusion
  | indirectBranch before? => cases before? <;> exact TypeCode.noConfusion
  | exception before? => cases before? <;> exact TypeCode.noConfusion
  | taken => exact TypeCode.noConfusion
  | outcomes => exact TypeCode.noConfusion

theorem reduceFields_target {kind : UInt64} (hk : kind.toNat < 4) (last : UInt64)
    (before? : Option (List Bool)) (address count : UInt64) :
    reduceFields ((targetFields last before? kind address count).1.layout?.getD [])
      (targetFields last before? kind address count).2 =
        (targetFields last before? kind address count).2 := by
  have hkind : (FieldWidth.fixed 2).reduce kind = kind := FieldWidth.reduce_of_lt hk
  cases before? <;>
    simp only [targetFields, TypeCode.layout?, Option.getD_some, reduceFields, hkind] <;> rfl

theorem reduced_packet {coreBits : Nat} (h : e.Valid) (hc : core.toNat < 2 ^ coreBits) :
    (e.packet core last).reduced coreBits = e.packet core last := by
  have hcore : (core.toNat % 2 ^ coreBits).toUInt16 = core := by
    rw [Nat.mod_eq_of_lt hc]
    exact UInt16.ofNat_toNat
  have hfields : reduceFields ((e.fields last).1.layout?.getD []) (e.fields last).2 =
      (e.fields last).2 := by
    cases e with
    | sync before? => cases before? <;> rfl
    | indirectBranch before? address count => exact reduceFields_target (by decide) ..
    | exception before? kind address count =>
        exact reduceFields_target (h.kind _ _ _ _ rfl).2 ..
    | taken => rfl
    | outcomes => rfl
  rw [Packet.reduced, packet, hcore, hfields]

theorem payloads?_target {kind : UInt64} {before? : Option (List Bool)} {address count : UInt64}
    (ha : address.toNat % 2 = 0) (hl : last.toNat % 2 = 0) (hb : (before?.getD []).length ≤ 63) :
    Packet.payloads? ⟨(targetFields last before? kind address count).1, core,
        (targetFields last before? kind address count).2⟩ ⟨last, 0, 0⟩ =
      some ((before?.getD []).map (.directBranch · 0) ++ [indirect kind address count.toNat],
        ⟨address, 0, 0⟩) := by
  have hx := xor_difference ha hl
  have hcount := CoreContext.total_of_zero (c := ⟨last, 0, 0⟩) rfl count
  cases before? with
  | none => simp [targetFields, Packet.payloads?, Packet.mandatory, TypeCode.layout?, hx, hcount]
  | some before =>
      have hhistory := history_historyBits (show before.length ≤ 63 from hb)
      simp [targetFields, Packet.payloads?, Packet.mandatory, TypeCode.layout?, hx, hcount,
        hhistory]

theorem payloads?_packet (h : e.Valid) (hl : last.toNat % 2 = 0) :
    (e.packet core last).payloads? ⟨last, 0, 0⟩ =
      some (e.payloads, ⟨e.address?.getD last, 0, 0⟩) := by
  have hcount := CoreContext.total_of_zero (c := ⟨last, 0, 0⟩) rfl
  cases e with
  | sync before? address count =>
      have ha := shift_of_even (h.even address rfl)
      cases before? with
      | none =>
          simp [packet, fields, Packet.payloads?, Packet.mandatory, TypeCode.layout?, ha, hcount,
            payloads, before, payload?, address?]
      | some before =>
          have hhistory := history_historyBits (show before.length ≤ 63 from h.length)
          simp [packet, fields, Packet.payloads?, Packet.mandatory, TypeCode.layout?, ha, hcount,
            payloads, Event.before, payload?, address?, hhistory]
  | indirectBranch before? address count =>
      exact payloads?_target (h.even address rfl) hl h.length
  | exception before? kind address count =>
      have hkind : kind ≠ 0 := by
        rintro rfl
        exact absurd (h.kind _ _ _ _ rfl).1 (Nat.lt_irrefl 0)
      have hpayload : indirect kind address count.toNat = .exception address count.toNat :=
        if_neg hkind
      exact (payloads?_target (h.even address rfl) hl h.length).trans (by rw [hpayload]; rfl)
  | taken count =>
      simp [packet, fields, Packet.payloads?, Packet.mandatory, TypeCode.layout?, hcount, payloads,
        before, payload?, address?]
  | outcomes before =>
      have hhistory := history_historyBits (show before.length ≤ 63 from h.length)
      simp [packet, fields, Packet.payloads?, Packet.mandatory, TypeCode.layout?, payloads,
        Event.before, payload?, address?, hhistory]

theorem expand_packet (core : UInt16) (h : e.Valid) (hl : last.toNat % 2 = 0) (width : Nat) :
    (e.packet core last).expand width ⟨last, 0, 0⟩ =
      (some (e.messages core), ⟨e.address?.getD last, 0, 0⟩) :=
  Packet.expand_of_payloads (type_packet_ne_error core last e) (optional_packet core last e)
    (payloads?_packet h hl)

end Event

end Retrace
