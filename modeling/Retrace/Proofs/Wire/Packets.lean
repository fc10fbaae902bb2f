import Retrace.Proofs.Wire.Slices

/-!
# Packets are read back

Reading the slices of a packet gives the packet again, its core and fixed fields cut down to their
widths.
-/

namespace Retrace.Wire

/-! ## What is read back -/

/-- The value that a field of the width can hold. -/
def FieldWidth.reduce : FieldWidth → UInt64 → UInt64
  | fixed bits, field => (field.toNat % 2 ^ bits).toUInt64
  | .variable, field => field

theorem FieldWidth.reduce_of_lt {bits : Nat} {field : UInt64} (h : field.toNat < 2 ^ bits) :
    (fixed bits).reduce field = field := by
  rw [reduce, Nat.mod_eq_of_lt h]
  exact UInt64.ofNat_toNat

/-- The values that the fields of the layout can hold; those after it are variable. -/
def reduceFields : List FieldWidth → List UInt64 → List UInt64
  | width :: layout, field :: fields => width.reduce field :: reduceFields layout fields
  | _, fields => fields

/-- The packet as it is read with core ids of `coreBits` bits. -/
def Packet.reduced (coreBits : Nat) (p : Packet) : Packet :=
  ⟨p.type, (p.core.toNat % 2 ^ coreBits).toUInt16, reduceFields (p.type.layout?.getD []) p.fields⟩

/-- Packets of the type are read, and all fields of its layout are there. -/
def Packet.Complete (p : Packet) : Prop :=
  ∃ layout, p.type.layout? = some layout ∧ layout.length ≤ p.fields.length

/-- Fixed fields and then at least one variable one, as in all layouts. -/
def Readable : List FieldWidth → Prop
  | [] => False
  | .fixed _ :: layout => Readable layout
  | .variable :: layout => ∀ width ∈ layout, width = .variable

theorem Readable.of_variable {layout : List FieldWidth} (h : Readable (.variable :: layout)) :
    ∀ width ∈ FieldWidth.variable :: layout, width = .variable :=
  List.forall_mem_cons.mpr ⟨rfl, h⟩

theorem TypeCode.readable {t : TypeCode} {layout : List FieldWidth}
    (h : t.layout? = some layout) : Readable layout := by
  cases t <;> simp only [layout?, Option.some.injEq, reduceCtorEq] at h <;> subst h <;>
    simp [Readable]

theorem TypeCode.number_mod {t : TypeCode} {layout : List FieldWidth}
    (h : t.layout? = some layout) : t.number % 64 ≠ 0 := by
  cases t <;> simp_all [layout?, number]

theorem TypeCode.number_lt (t : TypeCode) : t.number < 2 ^ sliceBits := by
  cases t <;> decide

def FieldWidth.read : FieldWidth → Cursor → Except FieldError Nat × Cursor
  | fixed bits, c => c.readFixed bits
  | .variable, c => c.readVariable

/-- The values of the fields of a layout and of those after it. -/
def readFields (layout : List FieldWidth) (c : Cursor) : Except FieldError (List UInt64) := do
  let (mandatory, c) ← readLayout layout c
  let optional ← readOptional c
  return mandatory ++ optional

/-- What a variable field ends if `fields` come after it. -/
def endOf (fields : List UInt64) : Marker :=
  if fields.isEmpty then .endMessage else .endField

variable {c c' : Cursor} {v : Nat} {layout : List FieldWidth} {fields : List UInt64}
  {value width total bits coreBits : Nat} {p : Packet}

theorem endOf_ne_more (fields : List UInt64) : endOf fields ≠ .more := by
  cases fields <;> simp [endOf]

theorem readFields_nil (c : Cursor) : readFields [] c = readOptional c := by
  simp only [readFields, readLayout]
  cases hr : readOptional c <;> simp [hr, bind, Except.bind, pure, Except.pure]

theorem readFields_cons (width : FieldWidth) (h : width.read c = (.ok v, c')) :
    readFields (width :: layout) c = (readFields layout c').map (v.toUInt64 :: ·) := by
  cases width <;>
  · simp only [FieldWidth.read] at h
    simp only [readFields, readLayout, h]
    cases readLayout layout c' with
    | error e => rfl
    | ok r =>
        obtain ⟨vs, c''⟩ := r
        cases hr : readOptional c'' <;> simp [Except.map, hr, bind, Except.bind, pure, Except.pure]

theorem readOptional_cons (hm : c.hasMore = true) (h : c.readVariable = (.ok v, c')) :
    readOptional c = (readOptional c').map (v.toUInt64 :: ·) := by
  rw [readOptional, dif_pos hm]
  split
  · rename_i e _ hr
    rw [h] at hr
    cases hr
  · rename_i v' c'' hr
    rw [h] at hr
    cases hr
    rfl

/-! ## Numbers that are put together -/

theorem concat_mod (h : value < 2 ^ width) (v : Nat) :
    (value + v <<< width) % 2 ^ width = value := by
  rw [Nat.shiftLeft_eq, Nat.add_mul_mod_self_right, Nat.mod_eq_of_lt h]

theorem concat_div (h : value < 2 ^ width) (v : Nat) : (value + v <<< width) / 2 ^ width = v := by
  rw [Nat.shiftLeft_eq, Nat.add_mul_div_right _ _ (Nat.two_pow_pos _), Nat.div_eq_of_lt h,
    Nat.zero_add]

theorem concat_lt (h : value < 2 ^ width) (hv : v < 2 ^ bits) :
    value + v <<< width < 2 ^ (width + bits) := by
  have hmul : (v + 1) * 2 ^ width ≤ 2 ^ bits * 2 ^ width := Nat.mul_le_mul_right _ hv
  rw [Nat.shiftLeft_eq, Nat.add_comm width, pow_add]
  rw [Nat.add_mul, Nat.one_mul] at hmul
  omega

theorem parts_of_mod (h : value < 2 ^ width)
    (ht : total % 2 ^ (width + bits) = value + v <<< width) :
    total % 2 ^ width = value ∧ total / 2 ^ width % 2 ^ bits = v := by
  constructor
  · rw [← concat_mod h v, ← ht, pow_add, Nat.mod_mul_right_mod]
  · rw [← concat_div h v, ← ht, pow_add, Nat.mod_mul_right_div_self]

/-! ## Fields -/

theorem encodeFields_variable (h : ∀ w ∈ layout, w = .variable) (value width : Nat) (field : UInt64)
    (fields : List UInt64) :
    encodeFields layout value width (field :: fields) =
      slices (value + field.toNat <<< width) (endOf fields)
        (runLength (value + field.toNat <<< width) width) ++
        encodeFields layout.tail 0 0 fields := by
  cases layout with
  | nil => rfl
  | cons w layout =>
      obtain rfl := h w List.mem_cons_self
      rfl

theorem exists_runLength (total width : Nat) :
    ∃ n, runLength total width = n + 1 ∧ width < sliceBits * (n + 1) ∧
      total < 2 ^ (sliceBits * (n + 1)) := by
  have hlt := lt_runLength total width
  have hfit := lt_two_pow_runLength total width
  cases hn : runLength total width with
  | zero => rw [hn] at hlt; simp at hlt
  | succ n => exact ⟨n, rfl, hn ▸ hlt, hn ▸ hfit⟩

theorem reduceFields_variable (h : ∀ w ∈ layout, w = .variable) (fields : List UInt64) :
    reduceFields layout fields = fields := by
  induction layout generalizing fields with
  | nil => rfl
  | cons w layout ih =>
      obtain rfl := h w List.mem_cons_self
      cases fields with
      | nil => rfl
      | cons field fields =>
          rw [reduceFields, ih (fun w hw => h w (List.mem_cons_of_mem _ hw))]
          rfl

/-- After a variable field, the variable fields that come next are read back. -/
theorem readFields_encodeFields_variable {s : UInt8} (h : ∀ w ∈ layout, w = .variable)
    (hlen : layout.length ≤ fields.length) (hs : Slice.marker s = endOf fields) :
    readFields layout ⟨s :: encodeFields layout 0 0 fields, sliceBits⟩ = .ok fields := by
  induction fields generalizing layout s with
  | nil =>
      obtain rfl := List.length_eq_zero_iff.mp (Nat.le_zero.mp hlen)
      have hm : ¬Cursor.hasMore ⟨s :: encodeFields [] 0 0 [], sliceBits⟩ = true := by
        simp [Cursor.hasMore, hs, endOf]
      rw [readFields_nil, readOptional, dif_neg hm]
  | cons field fields ih =>
      have hend : Slice.marker s = .endField := hs
      have htail : ∀ w ∈ layout.tail, w = .variable := fun w hw => h w (List.mem_of_mem_tail hw)
      rw [encodeFields_variable h]
      simp only [Nat.shiftLeft_zero, Nat.zero_add]
      obtain ⟨n, hn, -, hfit⟩ := exists_runLength field.toNat 0
      rw [hn]
      obtain ⟨s', hread, hs'⟩ := Cursor.readVariable_next (encodeFields layout.tail 0 0 fields) hend
        (endOf_ne_more fields) hfit field.toNat_lt
      have hfield : field.toNat.toUInt64 = field := UInt64.ofNat_toNat
      cases layout with
      | nil =>
          have hnext := ih htail (Nat.zero_le _) hs'
          have hmore : Cursor.hasMore ⟨s :: (slices field.toNat (endOf fields) (n + 1) ++
              encodeFields [] 0 0 fields), sliceBits⟩ = true := by
            obtain ⟨m', tail, heq⟩ := head_slices field.toNat n (endOf fields)
              (encodeFields [] 0 0 fields)
            simp [Cursor.hasMore, hend, heq]
          simp only [List.tail_nil] at hnext hread ⊢
          rw [readFields_nil, readOptional_cons hmore hread, ← readFields_nil, hnext, hfield]
          rfl
      | cons w layout =>
          obtain rfl := h w List.mem_cons_self
          have hnext := ih htail (Nat.le_of_succ_le_succ hlen) hs'
          simp only [List.tail_cons] at hnext hread ⊢
          rw [readFields_cons .variable hread, hnext, hfield]
          rfl

/-- The slices of fields start with a run that holds the bits before them, and the fields are read
back from behind these bits. -/
theorem readFields_encodeFields (h : Readable layout) (hlen : layout.length ≤ fields.length)
    (hv : value < 2 ^ width) :
    ∃ total n m rest, encodeFields layout value width fields = slices total m (n + 1) ++ rest ∧
      total % 2 ^ width = value ∧ width < sliceBits * (n + 1) ∧
      ∀ c : Cursor, c.Before (total / 2 ^ width) (sliceBits * (n + 1) - width) m rest →
        readFields layout c = .ok (reduceFields layout fields) := by
  induction layout generalizing fields value width with
  | nil => cases h
  | cons w layout ih =>
      cases fields with
      | nil => cases hlen
      | cons field fields =>
          have hlen' : layout.length ≤ fields.length := Nat.le_of_succ_le_succ hlen
          cases w with
          | fixed bits =>
              -- The field adds its bits to the run that the fields after it are in.
              have hbits : field.toNat % 2 ^ bits < 2 ^ bits := Nat.mod_lt _ (Nat.two_pow_pos _)
              obtain ⟨total, n, m, rest, heq, hmod, hwidth, hread⟩ :=
                ih h hlen' (concat_lt hv hbits)
              obtain ⟨hlow, hfield⟩ := parts_of_mod hv hmod
              refine ⟨total, n, m, rest, ?_, hlow, by omega, ?_⟩
              · rw [encodeFields, Nat.one_shiftLeft]
                exact heq
              · intro c hc
                obtain ⟨c', hfixed, hc'⟩ := hc.readFixed bits (by omega)
                rw [Nat.div_div_eq_div_mul, ← pow_add, Nat.sub_sub] at hc'
                rw [readFields_cons (.fixed bits) hfixed, hread c' hc', hfield]
                rfl
          | «variable» =>
              let total := value + field.toNat <<< width
              obtain ⟨n, hn, hwidth, hfit⟩ := exists_runLength total width
              refine ⟨total, n, endOf fields, encodeFields layout 0 0 fields, ?_, concat_mod hv _,
                hwidth, ?_⟩
              · rw [← hn]
                rfl
              · intro c hc
                have hfield : field.toNat < 2 ^ (sliceBits * (n + 1) - width) := by
                  rw [← concat_div hv field.toNat]
                  apply Nat.div_lt_of_lt_mul
                  rwa [← pow_add, Nat.add_sub_cancel' hwidth.le]
                rw [concat_div hv] at hc
                obtain ⟨s, hread, hs⟩ :=
                  hc.readVariable (endOf_ne_more fields) (by omega) hfield field.toNat_lt
                rw [readFields_cons .variable hread, readFields_encodeFields_variable h hlen' hs,
                  reduceFields, reduceFields_variable h]
                exact congrArg (Except.ok <| · :: fields) UInt64.ofNat_toNat

/-! ## Where packets end -/

theorem framed_encodeFields_variable (h : ∀ w ∈ layout, w = .variable) (value width : Nat)
    (hf : fields ≠ []) : Framed (encodeFields layout value width fields) := by
  induction fields generalizing layout value width with
  | nil => exact absurd rfl hf
  | cons field fields ih =>
      rw [encodeFields_variable h]
      obtain ⟨n, hn, -⟩ := exists_runLength (value + field.toNat <<< width) width
      rw [hn]
      cases fields with
      | nil =>
          have hnil : encodeFields layout.tail 0 0 [] = [] := rfl
          rw [hnil, List.append_nil]
          exact framed_slices _ _
      | cons next fields =>
          exact (ih (fun w hw => h w (List.mem_of_mem_tail hw)) 0 0
            (List.cons_ne_nil _ _)).slices_append _ _

theorem framed_encodeFields (h : Readable layout) (hlen : layout.length ≤ fields.length)
    (value width : Nat) : Framed (encodeFields layout value width fields) := by
  induction layout generalizing fields value width with
  | nil => cases h
  | cons w layout ih =>
      cases fields with
      | nil => cases hlen
      | cons field fields =>
          cases w with
          | fixed bits => exact ih h (Nat.le_of_succ_le_succ hlen) _ _
          | «variable» =>
              exact framed_encodeFields_variable h.of_variable _ _ (List.cons_ne_nil _ _)

/-! ## Packets -/

namespace Packet

theorem framed_encode (hp : p.Complete) (coreBits : Nat) : Framed (p.encode coreBits) := by
  obtain ⟨layout, hl, hlen⟩ := hp
  rw [encode, hl]
  exact framed_encodeFields (TypeCode.readable hl) hlen _ _

/-- The slices of a packet start with its type and its core. -/
theorem readFields_encode (hl : p.type.layout? = some layout)
    (hlen : layout.length ≤ p.fields.length) (coreBits : Nat) :
    ∃ total n m rest, p.encode coreBits = slices total m (n + 1) ++ rest ∧
      total % 2 ^ sliceBits = p.type.number ∧
      total / 2 ^ sliceBits % 2 ^ coreBits = p.core.toNat % 2 ^ coreBits ∧
      sliceBits + coreBits < sliceBits * (n + 1) ∧
      ∀ c : Cursor, c.Before (total / 2 ^ sliceBits / 2 ^ coreBits)
          (sliceBits * (n + 1) - sliceBits - coreBits) m rest →
        readFields layout c = .ok (reduceFields layout p.fields) := by
  have hcore : p.core.toNat % 2 ^ coreBits < 2 ^ coreBits := Nat.mod_lt _ (Nat.two_pow_pos _)
  obtain ⟨total, n, m, rest, heq, hmod, hwidth, hread⟩ :=
    readFields_encodeFields (TypeCode.readable hl) hlen (concat_lt p.type.number_lt hcore)
  obtain ⟨htype, hid⟩ := parts_of_mod p.type.number_lt hmod
  refine ⟨total, n, m, rest, ?_, htype, hid, hwidth, ?_⟩
  · rw [encode, hl, Nat.one_shiftLeft]
    exact heq
  · rwa [Nat.div_div_eq_div_mul, ← pow_add, Nat.sub_sub]

theorem ofSlices_encode (hp : p.Complete) (coreBits position : Nat) :
    ofSlices coreBits position (p.encode coreBits) = .ok (p.reduced coreBits) := by
  have hframed := framed_encode hp coreBits
  obtain ⟨layout, hl, hlen⟩ := hp
  obtain ⟨total, n, m, rest, heq, htype, hcore, hwidth, hread⟩ := readFields_encode hl hlen coreBits
  have hstart := Cursor.before_start total n m rest
  obtain ⟨c, hc, hbefore⟩ := hstart.readFixed sliceBits (by omega)
  obtain ⟨c', hc', hbefore'⟩ := hbefore.readFixed coreBits (by omega)
  have hfields := hread c' hbefore'
  rw [readFields] at hfields
  rw [ofSlices, if_neg (by simp [hframed.any_reserved]), heq, hc, htype]
  simp only [TypeCode.ofNumber?_number, hc', hcore, hl]
  rw [hfields]
  simp [reduced, hl]

theorem encode_eq_cons (hp : p.Complete) (coreBits : Nat) :
    ∃ s rest, p.encode coreBits = s :: rest ∧ s ≠ Slice.idle := by
  obtain ⟨layout, hl, hlen⟩ := hp
  obtain ⟨total, n, m, rest, heq, htype, -⟩ := readFields_encode hl hlen coreBits
  obtain ⟨m', tail, hs⟩ := head_slices total n m rest
  refine ⟨_, tail, heq.trans hs, Slice.make_ne_idle m' ?_⟩
  have hnumber : total % 64 = p.type.number := htype
  have := TypeCode.number_mod hl
  omega

end Packet

namespace Position

theorem skipIdle_replicate (offset idles : Nat) (rest : List UInt8) :
    ∃ offset', skipIdle ⟨offset, .replicate idles Slice.idle ++ rest⟩ =
      ⟨offset', rest.dropWhile (· = Slice.idle)⟩ := by
  refine ⟨_, congrArg (Position.mk _) (List.dropWhile_append_of_pos ?_)⟩
  intro s hs
  simpa using List.eq_of_mem_replicate hs

/-- The slices of a message are read behind idle ones if the first of them is not idle. -/
theorem next_message {s : UInt8} {tail : List UInt8} (hframed : Framed (s :: tail))
    (hs : s ≠ Slice.idle) (coreBits offset idles : Nat) (rest : List UInt8) :
    ∃ position offset', next coreBits
        ⟨offset, .replicate idles Slice.idle ++ (s :: tail ++ rest)⟩ =
      (some (Packet.ofSlices coreBits position (s :: tail)), ⟨offset', rest⟩) := by
  obtain ⟨offset', hskip⟩ := skipIdle_replicate offset idles (s :: tail ++ rest)
  have hdrop : (s :: tail ++ rest).dropWhile (· = Slice.idle) = s :: tail ++ rest := by
    rw [List.cons_append, List.dropWhile_cons_of_neg (by simpa using hs)]
  have hne : (s :: tail ++ rest).isEmpty = false := rfl
  refine ⟨offset', offset' + (s :: tail).length, ?_⟩
  simp only [next, hskip, hdrop, hne, Bool.false_eq_true, ite_false, hframed.splitMessage? rest]

theorem next_encode (hp : p.Complete) (coreBits offset idles : Nat) (rest : List UInt8) :
    ∃ offset', next coreBits ⟨offset, .replicate idles Slice.idle ++ (p.encode coreBits ++ rest)⟩ =
      (some (.ok (p.reduced coreBits)), ⟨offset', rest⟩) := by
  obtain ⟨s, tail, heq, hs⟩ := Packet.encode_eq_cons hp coreBits
  obtain ⟨position, offset', hnext⟩ :=
    next_message (heq ▸ Packet.framed_encode hp coreBits) hs coreBits offset idles rest
  rw [← heq, Packet.ofSlices_encode hp] at hnext
  exact ⟨offset', hnext⟩

theorem next_idle (coreBits offset idles : Nat) :
    ∃ offset', next coreBits ⟨offset, .replicate idles Slice.idle⟩ = (none, ⟨offset', []⟩) := by
  obtain ⟨offset', hskip⟩ := skipIdle_replicate offset idles []
  rw [List.append_nil] at hskip
  exact ⟨offset', by simp [next, hskip]⟩

end Position

end Retrace.Wire
