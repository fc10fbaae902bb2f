import Retrace.Message.Reader
import Retrace.Proofs.Wire.Fields

/-!
# The grammar of messages

A message is read if its first run has the type, the core and the fixed fields of a layout, and if
enough variable fields come after them, each of which is a word.
-/

namespace Retrace

open Wire

namespace Wire

/-- The variable fields of a message that has so many bits before them: what is left of the header,
and each run behind it. -/
def variableFields (bits : Nat) (message : List UInt8) : List Nat :=
  (if bits < sliceBits * (header message).length then [numberOf (header message) / 2 ^ bits]
    else []) ++ (runs message).tail.map numberOf

/-- The number of bits before the variable fields. -/
def headerBits (coreBits : Nat) (layout : List FieldWidth) : Nat :=
  sliceBits + coreBits + fixedBits layout

/-- The message is one of the type, and its fields fit the layout. -/
structure Legible (coreBits : Nat) (message : List UInt8) (type : TypeCode)
    (layout : List FieldWidth) : Prop where
  unreserved : ∀ s ∈ message, Slice.marker s ≠ .reserved
  number : type.number = numberOf (header message) % 2 ^ sliceBits
  known : type.layout? = some layout
  fixed : headerBits coreBits layout ≤ sliceBits * (header message).length
  complete : layout.count .variable ≤
    (variableFields (headerBits coreBits layout) message).length
  words : ∀ v ∈ variableFields (headerBits coreBits layout) message, v < 2 ^ 64

/-- What a message says is read of it: the bits of its core and its fields, or an error if it is of
no type. -/
def Says (coreBits : Nat) (message : List UInt8) : Except PacketError Packet → Prop
  | .ok p => ∃ layout, Legible coreBits message p.type layout ∧
      p.core.toNat = numberOf (header message) / 2 ^ sliceBits % 2 ^ coreBits ∧
      p.fields.map UInt64.toNat =
        fixedFields layout (numberOf (header message) / 2 ^ (sliceBits + coreBits)) ++
          variableFields (headerBits coreBits layout) message
  | .error e => (∀ type layout, ¬Legible coreBits message type layout) ∧
      ∀ position, e ≠ .truncated position

variable {m : Marker} {rest message init : List UInt8} {last : UInt8} {c c' : Cursor}
  {value n coreBits : Nat} {vs : List Nat} {layout : List FieldWidth} {type : TypeCode}

/-! ## What is read of a layout -/

theorem TypeCode.ofNumber?_eq_some (h : TypeCode.ofNumber? n = some type) :
    type.number = n := by
  simpa using List.find?_some h

theorem TypeCode.fixed_le (h : type.layout? = some layout) :
    ∀ bits, .fixed bits ∈ layout → bits ≤ 64 := by
  cases type <;> simp only [layout?, Option.some.injEq, reduceCtorEq] at h <;> subst h <;> simp

theorem fixedFields_lt (h : ∀ bits, .fixed bits ∈ layout → bits ≤ 64) :
    ∀ v ∈ fixedFields layout value, v < 2 ^ 64 := by
  induction layout generalizing value with
  | nil => simp [fixedFields]
  | cons w layout ih =>
      cases w with
      | «variable» => simp [fixedFields]
      | fixed bits =>
          have hbits : 2 ^ bits ≤ 2 ^ 64 :=
            Nat.pow_le_pow_right (by decide) (h bits List.mem_cons_self)
          rw [fixedFields, List.forall_mem_cons]
          exact ⟨(Nat.mod_lt _ (Nat.two_pow_pos bits)).trans_le hbits,
            ih fun bits hb => h bits (List.mem_cons_of_mem _ hb)⟩

theorem toNat_words (h : ∀ v ∈ vs, v < 2 ^ 64) :
    (vs.map Nat.toUInt64).map UInt64.toNat = vs := by
  rw [List.map_map]
  exact (List.map_congr_left fun v hv => Nat.mod_eq_of_lt (h v hv)).trans (List.map_id vs)

theorem variableFields_eq (h : runs message = header message :: runs rest) (bits : Nat) :
    variableFields bits message = fieldsAhead (numberOf (header message) / 2 ^ bits)
      (sliceBits * (header message).length - bits) rest := by
  rw [variableFields, fieldsAhead, h, List.tail_cons]
  simp only [Nat.sub_pos_iff_lt]

theorem Cursor.Facing.readFields_behind {bits : Nat}
    (hc : c.Facing (numberOf (header message) / 2 ^ bits)
      (sliceBits * (header message).length - bits) m rest) (hl : Readable layout)
    (h : runs message = header message :: runs rest)
    (hbits : bits ≤ sliceBits * (header message).length) :
    let vs := variableFields (bits + fixedBits layout) message
    Decides (bits + fixedBits layout ≤ sliceBits * (header message).length ∧
        layout.count .variable ≤ vs.length ∧ ∀ v ∈ vs, v < 2 ^ 64)
      ((fixedFields layout (numberOf (header message) / 2 ^ bits) ++ vs).map Nat.toUInt64)
      (Wire.readFields layout c) := by
  have hread := hc.readFields hl
  simp only [Nat.div_div_eq_div_mul, ← pow_add, Nat.sub_sub, ← variableFields_eq h,
    Nat.le_sub_iff_add_le' hbits] at hread
  exact hread

/-! ## Types and layouts of a message -/

theorem not_legible_of_none
    (h : TypeCode.ofNumber? (numberOf (header message) % 2 ^ sliceBits) = none) (type : TypeCode)
    (layout : List FieldWidth) : ¬Legible coreBits message type layout := by
  intro hlegible
  rw [← hlegible.number, TypeCode.ofNumber?_number] at h
  cases h

/-- A message is of no other type than that of its number. -/
theorem not_legible_of_some
    (h : TypeCode.ofNumber? (numberOf (header message) % 2 ^ sliceBits) = some type)
    (hnot : ∀ layout, ¬Legible coreBits message type layout) (type' : TypeCode)
    (layout : List FieldWidth) : ¬Legible coreBits message type' layout := by
  intro hlegible
  rw [← hlegible.number, TypeCode.ofNumber?_number] at h
  exact hnot layout (Option.some.inj h ▸ hlegible)

theorem legible_iff (h : Framed message)
    (htype : TypeCode.ofNumber? (numberOf (header message) % 2 ^ sliceBits) = some type)
    (hlayout : type.layout? = some layout) (coreBits : Nat) :
    let vs := variableFields (headerBits coreBits layout) message
    Legible coreBits message type layout ↔
      headerBits coreBits layout ≤ sliceBits * (header message).length ∧
        layout.count .variable ≤ vs.length ∧ ∀ v ∈ vs, v < 2 ^ 64 := by
  refine ⟨fun hl => ⟨hl.fixed, hl.complete, hl.words⟩, fun ⟨hfixed, hcomplete, hwords⟩ => ?_⟩
  exact ⟨by simpa using h.any_reserved, TypeCode.ofNumber?_eq_some htype, hlayout, hfixed,
    hcomplete, hwords⟩

theorem Legible.says_ok (h : Legible coreBits message type layout)
    (hcore : coreBits ≤ maxCoreBits) :
    Says coreBits message (.ok ⟨type,
      (numberOf (header message) / 2 ^ sliceBits % 2 ^ coreBits).toUInt16,
      (fixedFields layout (numberOf (header message) / 2 ^ (sliceBits + coreBits)) ++
        variableFields (headerBits coreBits layout) message).map Nat.toUInt64⟩) := by
  refine ⟨layout, h, ?_, toNat_words fun v hv => ?_⟩
  · have hpow : 2 ^ coreBits ≤ 2 ^ 16 := Nat.pow_le_pow_right (by decide) hcore
    exact Nat.mod_eq_of_lt ((Nat.mod_lt _ (Nat.two_pow_pos coreBits)).trans_le hpow)
  · rcases List.mem_append.mp hv with hv | hv
    · exact fixedFields_lt (TypeCode.fixed_le h.known) v hv
    · exact h.words v hv

/-! ## Reading messages -/

theorem framed_of_unreserved
    (hinit : ∀ s ∈ init, Slice.marker s ≠ .endMessage) (hlast : Slice.marker last = .endMessage)
    (h : ∀ s ∈ init, Slice.marker s ≠ .reserved) : Framed (init ++ [last]) := by
  induction init with
  | nil => exact .last hlast
  | cons s init ih =>
      rw [List.forall_mem_cons] at hinit h
      refine .cons ?_ (ih hinit.2 h.2)
      cases hs : Slice.marker s <;> simp_all

namespace Packet

variable {number core : Nat} {position : Nat}

theorem ofSlices_of_none (h : Framed message)
    (hnumber : (Cursor.start message).readFixed sliceBits = (.ok number, c))
    (htype : TypeCode.ofNumber? number = none) :
    ofSlices coreBits position message = .error (.unknownType number position) := by
  rw [ofSlices, if_neg (by simp [h.any_reserved]), hnumber]
  simp only [htype]

theorem ofSlices_of_core_error {e : FieldError} (h : Framed message)
    (hnumber : (Cursor.start message).readFixed sliceBits = (.ok number, c))
    (htype : TypeCode.ofNumber? number = some type)
    (hcore : c.readFixed coreBits = (.error e, c')) :
    ofSlices coreBits position message = .error (.malformed position none e) := by
  rw [ofSlices, if_neg (by simp [h.any_reserved]), hnumber]
  simp only [htype, hcore]

theorem ofSlices_of_core (h : Framed message)
    (hnumber : (Cursor.start message).readFixed sliceBits = (.ok number, c))
    (htype : TypeCode.ofNumber? number = some type)
    (hcore : c.readFixed coreBits = (.ok core, c')) :
    ofSlices coreBits position message =
      match type.layout? with
      | none => .error (.unsupported type core.toUInt16)
      | some layout =>
        match readFields layout c' with
        | .error e => .error (.malformed position (some core.toUInt16) e)
        | .ok fields => .ok ⟨type, core.toUInt16, fields⟩ := by
  rw [ofSlices, if_neg (by simp [h.any_reserved]), hnumber]
  simp only [htype, hcore]
  rfl

theorem says_ofSlices_of_framed (hcore : coreBits ≤ maxCoreBits) (h : Framed message)
    (position : Nat) :
    Says coreBits message (ofSlices coreBits position message) := by
  obtain ⟨m, rest, hruns, hpos, hstart⟩ := Cursor.facing_start h
  have hfirst : sliceBits ≤ sliceBits * (header message).length :=
    Nat.le_mul_of_pos_right sliceBits hpos
  obtain ⟨c, hnumber, hc⟩ := hstart.readFixed hfirst
  cases htype : TypeCode.ofNumber? (numberOf (header message) % 2 ^ sliceBits) with
  | none =>
      rw [ofSlices_of_none h hnumber htype]
      exact ⟨not_legible_of_none htype, by simp⟩
  | some type =>
      by_cases hbits : coreBits ≤ sliceBits * (header message).length - sliceBits
      · obtain ⟨c', hid, hc'⟩ := hc.readFixed hbits
        rw [Nat.div_div_eq_div_mul, ← pow_add, Nat.sub_sub] at hc'
        rw [ofSlices_of_core h hnumber htype hid]
        cases hlayout : type.layout? with
        | none =>
            refine ⟨not_legible_of_some htype fun layout hlegible => ?_, by simp⟩
            cases hlayout.symm.trans hlegible.known
        | some layout =>
            have hread := hc'.readFields_behind (TypeCode.readable hlayout) hruns (by omega)
            have hiff := legible_iff h htype hlayout coreBits
            by_cases hlegible : Legible coreBits message type layout
            · simp only [hread.ok (hiff.mp hlegible)]
              exact hlegible.says_ok hcore
            · obtain ⟨e, herror⟩ := hread.error (mt hiff.mpr hlegible)
              simp only [herror]
              refine ⟨not_legible_of_some htype fun layout' hlegible' => ?_, by simp⟩
              cases hlayout.symm.trans hlegible'.known
              exact hlegible hlegible'
      · obtain ⟨e, c', hid⟩ :=
          hc.before.readFixed_of_lt hc.ends.ne_more coreBits (Nat.not_le.mp hbits)
        rw [ofSlices_of_core_error h hnumber htype hid]
        refine ⟨not_legible_of_some htype fun layout hlegible => ?_, by simp⟩
        have hfixed := hlegible.fixed
        rw [headerBits] at hfixed
        omega

/-- What is read of the slices up to one that ends a message is what they say. -/
theorem says_ofSlices (hcore : coreBits ≤ maxCoreBits)
    (hinit : ∀ s ∈ init, Slice.marker s ≠ .endMessage) (hlast : Slice.marker last = .endMessage)
    (position : Nat) :
    Says coreBits (init ++ [last]) (ofSlices coreBits position (init ++ [last])) := by
  by_cases hreserved : ∀ s ∈ init, Slice.marker s ≠ .reserved
  · exact says_ofSlices_of_framed hcore (framed_of_unreserved hinit hlast hreserved) position
  · have hany : (init ++ [last]).any (Slice.marker · = .reserved) = true := by
      simpa [hlast] using hreserved
    rw [ofSlices, if_pos hany]
    refine ⟨fun type layout hlegible => hreserved fun s hs => ?_, by simp⟩
    exact hlegible.unreserved s (List.mem_append_left _ hs)

end Packet

theorem splitMessage?_of_markers
    (hinit : ∀ s ∈ init, Slice.marker s ≠ .endMessage) (hlast : Slice.marker last = .endMessage)
    (rest : List UInt8) : splitMessage? (init ++ last :: rest) = some (init ++ [last], rest) := by
  induction init with
  | nil => simp [splitMessage?, hlast]
  | cons s init ih =>
      rw [List.forall_mem_cons] at hinit
      rw [List.cons_append, splitMessage?, if_neg hinit.1, ih hinit.2]
      rfl

theorem Position.next_of_markers
    (hinit : ∀ s ∈ init, Slice.marker s ≠ .endMessage) (hlast : Slice.marker last = .endMessage)
    (hidle : init ++ [last] ≠ [Slice.idle]) (coreBits offset idles : Nat) (rest : List UInt8) :
    ∃ position,
      (next coreBits ⟨offset, .replicate idles Slice.idle ++ (init ++ last :: rest)⟩).1 =
        some (Packet.ofSlices coreBits position (init ++ [last])) := by
  obtain ⟨position, hskip⟩ := skipIdle_replicate offset idles (init ++ last :: rest)
  have hdrop : (init ++ last :: rest).dropWhile (· = Slice.idle) = init ++ last :: rest := by
    cases init with
    | nil =>
        have hne : last ≠ Slice.idle := fun h => hidle (h ▸ rfl)
        simp [hne]
    | cons s init =>
        have hne : s ≠ Slice.idle := fun h => hinit s List.mem_cons_self (h ▸ rfl)
        simp [hne]
  refine ⟨position, ?_⟩
  simp only [next, hskip, hdrop, splitMessage?_of_markers hinit hlast]
  simp

end Wire

namespace Reader

/-- Of the slices up to the next one that ends a message, a packet is read if and only if they are a
message of some type, and it has the core and the fields that they say. Else an error is read that
is not about the end of the trace. -/
theorem reads_grammar (r : Reader) (idles : Nat) (init : List UInt8) (last : UInt8)
    (rest : List UInt8) (hcore : r.options.coreBits ≤ maxCoreBits)
    (hrest : r.position.rest = .replicate idles Slice.idle ++ (init ++ last :: rest))
    (hinit : ∀ s ∈ init, Slice.marker s ≠ .endMessage) (hlast : Slice.marker last = .endMessage)
    (hidle : init ++ [last] ≠ [Slice.idle]) :
    let coreBits := r.options.coreBits
    let message := init ++ [last]
    ∃ result, r.nextPacket.1 = some result ∧
      ((∃ p, result = .ok p) ↔ ∃ type layout, Legible coreBits message type layout) ∧
      Says coreBits message result := by
  intro coreBits message
  obtain ⟨position, hnext⟩ :=
    Position.next_of_markers hinit hlast hidle coreBits r.position.offset idles rest
  have hresult : Says coreBits message (Packet.ofSlices coreBits position message) :=
    Packet.says_ofSlices hcore hinit hlast position
  rw [← hrest] at hnext
  refine ⟨_, hnext, ?_, hresult⟩
  constructor
  · rintro ⟨p, hp⟩
    rw [hp] at hresult
    obtain ⟨layout, hlegible, -⟩ := hresult
    exact ⟨p.type, layout, hlegible⟩
  · rintro ⟨type, layout, hlegible⟩
    cases hp : Packet.ofSlices coreBits position message with
    | ok p => exact ⟨p, rfl⟩
    | error e =>
        rw [hp] at hresult
        exact absurd hlegible (hresult.1 type layout)

/-- The type uses up the first slice, and the count behind it has a slice of leading zeros. -/
theorem reads_leading_zeros :
    ∃ p, (start ⟨0, 40⟩ [0x03, 0x0d, 0x14, 0x03, 0x0c]).nextPacket.1 = some (.ok p) ∧
      p.type = .directBranch ∧ p.fields.map UInt64.toNat = [5] := by
  have hlegible : Legible 0 [0x0d, 0x14, 0x03] .directBranch [.variable] :=
    ⟨by decide +kernel, rfl, rfl, by decide, by decide, by decide⟩
  obtain ⟨result, hnext, hiff, hresult⟩ :=
    reads_grammar (start ⟨0, 40⟩ [0x03, 0x0d, 0x14, 0x03, 0x0c]) 1 [0x0d, 0x14] 0x03 [0x0c]
      (by decide) rfl (by decide +kernel) rfl (by decide +kernel)
  obtain ⟨p, rfl⟩ := hiff.mpr ⟨_, _, hlegible⟩
  obtain ⟨layout, hp, -, hfields⟩ := hresult
  have htype : TypeCode.ofNumber? 3 = some p.type := by
    rw [← TypeCode.ofNumber?_number p.type, hp.number]
    rfl
  obtain htype : p.type = .directBranch := Option.some.inj (htype.symm.trans rfl)
  have hlayout : some layout = some [.variable] := by
    rw [← hp.known, htype]
    rfl
  cases hlayout
  exact ⟨p, hnext, htype, hfields⟩

end Reader

end Retrace
