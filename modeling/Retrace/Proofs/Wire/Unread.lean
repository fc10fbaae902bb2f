import Mathlib.Data.List.Basic
import Retrace.Proofs.Wire.Grammar
import Retrace.Proofs.Wire.RoundTrip

/-!
# Packets of types that are never read

Such a packet is reported with its type and its core, whatever fields it has. The one exception is
a debug status without a core and fields: it is an idle slice and passed over like one.
-/

namespace Retrace

open Wire

namespace Wire.Packet

/-- All fields of the layout are there, if the type has one. -/
def Intact (p : Packet) : Prop :=
  ∀ layout ∈ p.type.layout?, layout.length ≤ p.fields.length

/-- The packet is an idle slice. -/
def Silent (coreBits : Nat) (p : Packet) : Prop :=
  p.type = .debugStatus ∧ p.fields = [] ∧ coreBits = 0

instance (coreBits : Nat) : DecidablePred (Silent coreBits) := fun _ =>
  inferInstanceAs (Decidable (_ ∧ _))

/-- What a reader gives for the packet. -/
def told (coreBits : Nat) (p : Packet) : Except PacketError Packet :=
  if p.type.layout? = none then .error (.unsupported p.type (p.core.toNat % 2 ^ coreBits).toUInt16)
  else .ok (p.reduced coreBits)

variable {p : Packet} {coreBits : Nat}

/-- Without a layout, the slices start with the type and the core, and all fields are variable. -/
theorem encode_of_unread (hl : p.type.layout? = none) (coreBits : Nat) :
    Framed (p.encode coreBits) ∧
    ∃ total n m rest, p.encode coreBits = slices total m (n + 1) ++ rest ∧
      total % 2 ^ sliceBits = p.type.number ∧
      total / 2 ^ sliceBits % 2 ^ coreBits = p.core.toNat % 2 ^ coreBits ∧
      sliceBits + coreBits ≤ sliceBits * (n + 1) ∧ (n = 0 → p.fields = [] ∧ coreBits = 0) := by
  have hcore : p.core.toNat % 2 ^ coreBits < 2 ^ coreBits := Nat.mod_lt _ (Nat.two_pow_pos _)
  have hvalue := concat_lt p.type.number_lt hcore
  rw [encode, hl, Option.getD_none, Nat.one_shiftLeft]
  cases hf : p.fields with
  | nil =>
      obtain ⟨n, hn⟩ : ∃ n, (sliceBits + coreBits + (sliceBits - 1)) / sliceBits = n + 1 :=
        Nat.exists_eq_succ_of_ne_zero (by simp only [sliceBits]; omega)
      obtain ⟨htype, hid⟩ := parts_of_mod p.type.number_lt (Nat.mod_eq_of_lt hvalue)
      rw [encodeFields, hn]
      refine ⟨framed_slices _ n, _, n, .endMessage, [], (List.append_nil _).symm, htype, hid,
        ?_, ?_⟩
      · simp only [sliceBits] at hn ⊢
        omega
      · rintro rfl
        simp only [sliceBits] at hn
        exact ⟨rfl, by omega⟩
  | cons field fields =>
      have hvariable : ∀ w ∈ ([] : List FieldWidth), w = .variable := fun w hw => by cases hw
      refine ⟨framed_encodeFields_variable hvariable _ _ (List.cons_ne_nil _ _), ?_⟩
      obtain ⟨htype, hid⟩ := parts_of_mod p.type.number_lt (concat_mod hvalue field.toNat)
      rw [encodeFields_variable hvariable]
      obtain ⟨n, hn, hwidth, -⟩ := exists_runLength
        (p.type.number + (p.core.toNat % 2 ^ coreBits) <<< sliceBits +
          field.toNat <<< (sliceBits + coreBits)) (sliceBits + coreBits)
      rw [hn]
      refine ⟨_, n, _, _, rfl, htype, hid, hwidth.le, ?_⟩
      rintro rfl
      omega

theorem ofSlices_encode_of_unread (hl : p.type.layout? = none) (coreBits position : Nat) :
    ofSlices coreBits position (p.encode coreBits) =
      .error (.unsupported p.type (p.core.toNat % 2 ^ coreBits).toUInt16) := by
  obtain ⟨hframed, total, n, m, rest, heq, htype, hcore, hwidth, -⟩ := encode_of_unread hl coreBits
  obtain ⟨c, hc, hbefore⟩ :=
    (Cursor.before_start total n m rest).readFixed sliceBits (by omega)
  obtain ⟨c', hc', -⟩ := hbefore.readFixed coreBits (by omega)
  rw [← heq, htype] at hc
  rw [hcore] at hc'
  rw [ofSlices_of_core hframed hc (TypeCode.ofNumber?_number p.type) hc', hl]

theorem debugStatus_of_number (h : p.type.number = 0) : p.type = .debugStatus := by
  cases hp : p.type <;> rw [hp] at h <;> first | rfl | cases h

theorem encode_eq_cons_of_unread (hl : p.type.layout? = none) (hs : ¬p.Silent coreBits) :
    ∃ s tail, p.encode coreBits = s :: tail ∧ s ≠ Slice.idle := by
  obtain ⟨-, total, n, m, rest, heq, htype, -, -, hshort⟩ := encode_of_unread hl coreBits
  by_cases hnumber : total % 64 = 0
  · -- No bit of the first slice is set, but the message goes on behind it.
    have hstatus : p.type = .debugStatus := debugStatus_of_number (htype.symm.trans hnumber)
    cases n with
    | zero => exact absurd ⟨hstatus, hshort rfl⟩ hs
    | succ n =>
        refine ⟨Slice.make total .more, _, heq, fun hidle => ?_⟩
        have hmarker := Slice.marker_make total .more
        rw [hidle] at hmarker
        cases hmarker
  · obtain ⟨m', tail, hslices⟩ := head_slices total n m rest
    exact ⟨_, tail, heq.trans hslices, Slice.make_ne_idle m' hnumber⟩

theorem encode_silent (hs : p.Silent coreBits) : p.encode coreBits = [Slice.idle] := by
  obtain ⟨htype, hfields, rfl⟩ := hs
  rw [encode, htype, hfields, Nat.shiftLeft_zero, Nat.mod_one]
  rfl

/-- The slices of a packet that is heard, and what they are read as. -/
theorem ofSlices_encode_told (hp : p.Intact) (hs : ¬p.Silent coreBits) :
    ∃ s tail, p.encode coreBits = s :: tail ∧ s ≠ Slice.idle ∧ Framed (s :: tail) ∧
      ∀ position, ofSlices coreBits position (s :: tail) = p.told coreBits := by
  cases hl : p.type.layout? with
  | none =>
      obtain ⟨s, tail, heq, hne⟩ := encode_eq_cons_of_unread hl hs
      refine ⟨s, tail, heq, hne, heq ▸ (encode_of_unread hl coreBits).1, fun position => ?_⟩
      rw [← heq, ofSlices_encode_of_unread hl, told, if_pos hl]
  | some layout =>
      have hcomplete : p.Complete := ⟨layout, hl, hp layout hl⟩
      obtain ⟨s, tail, heq, hne⟩ := encode_eq_cons hcomplete coreBits
      refine ⟨s, tail, heq, hne, heq ▸ framed_encode hcomplete coreBits, fun position => ?_⟩
      rw [← heq, ofSlices_encode hcomplete, told, if_neg (by simp [hl])]

end Wire.Packet

/-- The packets that are not idle slices. -/
def heard (coreBits : Nat) (ps : List (Nat × Packet)) : List (Nat × Packet) :=
  ps.filter (¬·.2.Silent coreBits)

theorem heard_of_silent {coreBits : Nat} {q : Nat × Packet} (h : q.2.Silent coreBits)
    (ps : List (Nat × Packet)) : heard coreBits (q :: ps) = heard coreBits ps :=
  List.filter_cons_of_neg (by simpa using h)

theorem heard_of_not_silent {coreBits : Nat} {q : Nat × Packet} (h : ¬q.2.Silent coreBits)
    (ps : List (Nat × Packet)) : heard coreBits (q :: ps) = q :: heard coreBits ps :=
  List.filter_cons_of_pos (by simpa using h)

namespace Reader

variable {r : Reader} {p : Packet} {rest : List UInt8}

theorem nextPacket_told {idles : Nat} (hp : p.Intact) (hs : ¬p.Silent r.options.coreBits)
    (h : r.position.rest =
      .replicate idles Slice.idle ++ (p.encode r.options.coreBits ++ rest)) :
    ∃ offset, r.nextPacket =
      (some (p.told r.options.coreBits), { r with position := ⟨offset, rest⟩ }) := by
  obtain ⟨s, tail, heq, hne, hframed, htold⟩ := Packet.ofSlices_encode_told hp hs
  obtain ⟨position, offset, hnext⟩ := Position.next_message hframed hne r.options.coreBits
    r.position.offset idles rest
  rw [← heq, ← h, heq, htold] at hnext
  exact ⟨offset, by simp only [nextPacket, hnext]⟩

theorem calls_nextPacket_told (ps : List (Nat × Packet)) (before idles extra : Nat)
    (h : ∀ q ∈ ps, q.2.Intact)
    (hr : r.position.rest = .replicate before Slice.idle ++
      (transmit r.options.coreBits ps ++ .replicate idles Slice.idle)) :
    calls nextPacket ((heard r.options.coreBits ps).length + extra) r =
      (heard r.options.coreBits ps).map (fun q => some (q.2.told r.options.coreBits)) ++
        .replicate extra none := by
  induction ps generalizing r before with
  | nil =>
      rw [transmit, List.flatMap_nil, List.nil_append, ← List.replicate_add] at hr
      rw [heard, List.filter_nil, List.length_nil, Nat.zero_add, calls_nextPacket_idle extra hr]
      rfl
  | cons q ps ih =>
      have htail := fun q hq => h q (List.mem_cons_of_mem _ hq)
      have hrest : r.position.rest = .replicate (before + q.1) Slice.idle ++
          (q.2.encode r.options.coreBits ++
            (transmit r.options.coreBits ps ++ .replicate idles Slice.idle)) := by
        simpa only [transmit, List.flatMap_cons, List.append_assoc, List.replicate_add] using hr
      by_cases hs : q.2.Silent r.options.coreBits
      · -- The packet is one more idle slice before the next one.
        rw [heard_of_silent hs]
        refine ih (before + q.1 + 1) htail ?_
        rw [hrest, Packet.encode_silent hs, List.replicate_succ', List.append_assoc]
      · obtain ⟨offset, hn⟩ := nextPacket_told (h q List.mem_cons_self) hs hrest
        rw [heard_of_not_silent hs, List.length_cons, Nat.succ_add, calls_of_eq hn]
        exact congrArg (_ :: ·) (ih (r := { r with position := ⟨offset, _⟩ }) 0 htail rfl)

/-- Of any packets, those of types that are never read are reported with their type and core, each
in its place. Only those that are idle slices are passed over. -/
theorem unread_packets_are_reported (options : ReaderOptions) (ps : List (Nat × Packet))
    (idles extra : Nat) (h : ∀ q ∈ ps, q.2.Intact) :
    calls nextPacket ((heard options.coreBits ps).length + extra)
        (start options (transmit options.coreBits ps ++ .replicate idles Slice.idle)) =
      (heard options.coreBits ps).map (fun q => some (q.2.told options.coreBits)) ++
        .replicate extra none :=
  calls_nextPacket_told (r := start options _) ps 0 idles extra h rfl

/-- A status of core 6, of which two bits are transmitted, and a write of data before a branch. -/
theorem status_and_write_are_reported :
    let ps : List (Nat × Packet) := [(1, ⟨.debugStatus, 6, []⟩), (0, ⟨.dataWrite, 0, [1, 2, 3]⟩),
      (0, ⟨.directBranch, 2, [7]⟩)]
    calls nextPacket 4 (start ⟨2, 40⟩ (transmit 2 ps)) =
      [some (.error (.unsupported .debugStatus 2)), some (.error (.unsupported .dataWrite 0)),
        some (.ok ⟨.directBranch, 2, [7]⟩), none] := by
  intro ps
  have hintact : ∀ q ∈ ps, q.2.Intact := by
    intro q hq layout hl
    simp only [ps, List.mem_cons, List.not_mem_nil, or_false] at hq
    rcases hq with rfl | rfl | rfl <;> cases hl
    decide
  have hread := unread_packets_are_reported ⟨2, 40⟩ ps 0 1 hintact
  rwa [List.replicate_zero, List.append_nil] at hread

/-- A status without a core and fields is not reported: it is an idle slice. -/
theorem bare_status_is_not_reported :
    ¬∀ (options : ReaderOptions) (ps : List Packet), options.coreBits ≤ maxCoreBits →
      (∀ p ∈ ps, p.Intact) →
      calls nextPacket (ps.length + 1)
          (start options (ps.flatMap (·.encode options.coreBits))) =
        ps.map (fun p => some (p.told options.coreBits)) ++ [none] := by
  intro h
  have hstatus := h ⟨0, 40⟩ [⟨.debugStatus, 0, []⟩] (Nat.zero_le _) (by
    intro p hp layout hl
    obtain rfl := List.mem_singleton.mp hp
    cases hl)
  have hidle : calls nextPacket 2 (start ⟨0, 40⟩ [Slice.idle]) = [none, none] :=
    calls_nextPacket_idle 2 (show _ = List.replicate 1 Slice.idle from rfl)
  cases hidle.symm.trans hstatus

end Reader

end Retrace
