import Retrace.Proofs.Wire.Packets

/-!
# Fields in any slices

The variable fields of a message are what is left of its first run behind the fixed ones, and each
run behind it. They are read as long as they are words, whatever slices they are in.
-/

namespace Retrace.Wire

/-- The number in slices, lowest bits first. -/
def numberOf : List UInt8 → Nat
  | [] => 0
  | s :: rest => Slice.payload s + 64 * numberOf rest

/-- The slices up to each one that ends a field or the message. -/
def runs : List UInt8 → List (List UInt8)
  | [] => []
  | s :: rest =>
    if Slice.marker s = .more then
      match runs rest with
      | [] => [[s]]
      | run :: later => (s :: run) :: later
    else [s] :: runs rest

/-- The run that starts with the type and the core. -/
def header (message : List UInt8) : List UInt8 :=
  (runs message).headD []

/-- The number of bits in the fixed fields at the start of a layout. -/
def fixedBits : List FieldWidth → Nat
  | .fixed bits :: layout => bits + fixedBits layout
  | _ => 0

/-- The fixed fields at the start of a layout, from the lowest bits of a number on. -/
def fixedFields : List FieldWidth → Nat → List Nat
  | .fixed bits :: layout, value => value % 2 ^ bits :: fixedFields layout (value / 2 ^ bits)
  | _, _ => []

/-- The result is the value where the condition holds, and an error elsewhere. -/
structure Decides {ε α : Type} (P : Prop) (a : α) (r : Except ε α) : Prop where
  ok : P → r = .ok a
  error : ¬P → ∃ e, r = .error e

/-- What comes behind a run that ends with the marker. -/
def Ends (m : Marker) (rest : List UInt8) : Prop :=
  m = .endMessage ∧ rest = [] ∨ m = .endField ∧ Framed rest

/-- The variable fields that are still to come in a message, with some room in the current run. -/
def fieldsAhead (value room : Nat) (rest : List UInt8) : List Nat :=
  (if 0 < room then [value] else []) ++ (runs rest).map numberOf

/-- The cursor is before the bits of a number, which are all that is left of the current run. -/
structure Cursor.Facing (value room : Nat) (m : Marker) (rest : List UInt8) (c : Cursor) :
    Prop where
  before : c.Before value room m rest
  fit : value < 2 ^ room
  ends : Ends m rest

def Cursor.Holds (c : Cursor) (vs : List Nat) : Prop :=
  ∃ value room m rest, c.Facing value room m rest ∧ fieldsAhead value room rest = vs

variable {m : Marker} {s rest : List UInt8} {c c' : Cursor} {value room v n : Nat} {vs : List Nat}
  {layout : List FieldWidth}

/-! ## Runs -/

theorem numberOf_slices (h : v < 2 ^ (sliceBits * n)) : numberOf (slices v m n) = v := by
  fun_induction slices v m n with
  | case1 v => simpa [numberOf, eq_comm] using h
  | case2 v =>
      have hv : v < 64 := h
      simp only [numberOf, Slice.payload_make]
      omega
  | case3 v n ih =>
      have hv : v / 64 < 2 ^ (sliceBits * (n + 1)) := by
        apply Nat.div_lt_of_lt_mul
        rwa [show 64 = 2 ^ sliceBits from rfl, ← pow_add, Nat.add_comm]
      rw [numberOf, Slice.payload_make, ih hv]
      omega

theorem length_slices (v n : Nat) (m : Marker) : (slices v m n).length = n := by
  fun_induction slices v m n with
  | case1 => rfl
  | case2 => rfl
  | case3 v n ih => rw [List.length_cons, ih]

theorem runs_slices_append (hm : m ≠ .more) (v n : Nat) (rest : List UInt8) :
    runs (slices v m (n + 1) ++ rest) = slices v m (n + 1) :: runs rest := by
  induction n generalizing v with
  | zero => simp [slices, runs, hm]
  | succ n ih =>
      rw [slices, List.cons_append, runs, Slice.marker_make, if_pos rfl, ih]

/-- A message starts with the slices of a number. -/
theorem Framed.exists_slices (h : Framed s) :
    ∃ v n m rest, s = slices v m (n + 1) ++ rest ∧ v < 2 ^ (sliceBits * (n + 1)) ∧ Ends m rest := by
  induction h with
  | @last s hs =>
      refine ⟨Slice.payload s, 0, .endMessage, [], ?_, Slice.payload_lt s, .inl ⟨rfl, rfl⟩⟩
      rw [← hs]
      simp [slices, Slice.make_payload]
  | @cons s rest hs hrest ih =>
      rcases hs with hs | hs
      · obtain ⟨v, n, m, rest, rfl, hv, hends⟩ := ih
        have hpayload := Slice.payload_lt s
        have hmake : Slice.make (Slice.payload s + 64 * v) .more = s := by
          rw [← hs, Slice.make, Nat.add_mul_mod_self_left]
          exact Slice.make_payload s
        have hdiv : (Slice.payload s + 64 * v) / 64 = v := by omega
        refine ⟨Slice.payload s + 64 * v, n + 1, m, rest, ?_, ?_, hends⟩
        · rw [slices, hmake, hdiv]
          rfl
        · rw [Nat.mul_add, pow_add, Nat.mul_comm]
          simp only [sliceBits] at *
          omega
      · refine ⟨Slice.payload s, 0, .endField, rest, ?_, Slice.payload_lt s, .inr ⟨rfl, hrest⟩⟩
        rw [← hs]
        simp [slices, Slice.make_payload]

theorem Ends.ne_more (h : Ends m rest) : m ≠ .more := by
  rcases h with ⟨rfl, -⟩ | ⟨rfl, -⟩ <;> decide

/-! ## Variable fields -/

namespace Cursor

theorem facing_behind {s : UInt8} (h : Ends (Slice.marker s) rest) :
    Facing 0 0 (Slice.marker s) rest ⟨s :: rest, sliceBits⟩ where
  before := by
    refine ⟨Slice.payload s, 0, sliceBits, ?_, le_rfl, ?_, rfl⟩
    · simp [Wire.slices, Slice.make_payload]
    · exact Nat.div_eq_of_lt (Slice.payload_lt s)
  fit := Nat.one_pos
  ends := h

theorem facing_start (h : Framed s) :
    ∃ m rest, runs s = header s :: runs rest ∧ 0 < (header s).length ∧
      (start s).Facing (numberOf (header s)) (sliceBits * (header s).length) m rest := by
  obtain ⟨v, n, m, rest, rfl, hv, hends⟩ := h.exists_slices
  have hruns := runs_slices_append hends.ne_more v n rest
  have hheader : header (Wire.slices v m (n + 1) ++ rest) = Wire.slices v m (n + 1) := by
    rw [header, hruns, List.headD_cons]
  rw [hheader, numberOf_slices hv, length_slices]
  exact ⟨m, rest, hruns, Nat.succ_pos n, before_start v n m rest, hv, hends⟩

theorem Facing.readFixed {bits : Nat} (h : c.Facing value room m rest) (hbits : bits ≤ room) :
    ∃ c', c.readFixed bits = (.ok (value % 2 ^ bits), c') ∧
      c'.Facing (value / 2 ^ bits) (room - bits) m rest := by
  obtain ⟨c', hread, hbefore⟩ := h.before.readFixed bits hbits
  refine ⟨c', hread, hbefore, Nat.div_lt_of_lt_mul ?_, h.ends⟩
  rw [← pow_add, Nat.add_sub_cancel' hbits]
  exact h.fit

theorem Facing.readVariable (h : c.Facing value room m rest) (hroom : 0 < room) :
    (value < 2 ^ 64 → ∃ c', c.readVariable = (.ok value, c') ∧
      c'.Holds ((runs rest).map numberOf)) ∧
    (2 ^ 64 ≤ value → ∃ e c', c.readVariable = (.error e, c')) := by
  refine ⟨fun hsize => ?_, h.before.readVariable_oversized hroom h.fit⟩
  obtain ⟨s, hread, rfl⟩ := h.before.readVariable h.ends.ne_more hroom h.fit hsize
  exact ⟨_, hread, 0, 0, _, rest, facing_behind h.ends, rfl⟩

theorem Facing.hasMore (h : c.Facing value room m rest) (hroom : 0 < room) : c.hasMore = true := by
  obtain ⟨slices, b⟩ := c
  cases slices with
  | nil => exact absurd h.before not_before_nil
  | cons s tail =>
      by_cases hb : b < sliceBits
      · simp [Cursor.hasMore, hb]
      · obtain ⟨hmore, hnext⟩ := h.before.advance hb hroom
        have htail : tail ≠ [] := by
          rintro rfl
          exact not_before_nil hnext
        simp [Cursor.hasMore, hmore, htail]

theorem Holds.nil (h : c.Holds []) :
    c.hasMore = false ∧ ∃ e c', c.readVariable = (.error e, c') := by
  obtain ⟨value, room, m, rest, hc, hnil⟩ := h
  cases room with
  | succ room => simp [fieldsAhead] at hnil
  | zero =>
      obtain ⟨s, rfl, rfl⟩ := hc.before.exists_slice
      rcases hc.ends with ⟨hs, rfl⟩ | ⟨hs, hrest⟩
      · exact ⟨by simp [Cursor.hasMore, hs], .missing, _, by simp [Cursor.readVariable, hs]; rfl⟩
      · obtain ⟨m, later, hruns, -⟩ := facing_start hrest
        simp [fieldsAhead, hruns] at hnil

/-- The next variable field is read if it is a word. -/
theorem Holds.cons (h : c.Holds (v :: vs)) :
    c.hasMore = true ∧
      (v < 2 ^ 64 → ∃ c', c.readVariable = (.ok v, c') ∧ c'.Holds vs) ∧
      (2 ^ 64 ≤ v → ∃ e c', c.readVariable = (.error e, c')) := by
  obtain ⟨value, room, m, rest, hc, hcons⟩ := h
  cases room with
  | succ room =>
      obtain ⟨rfl, rfl⟩ : value = v ∧ (runs rest).map numberOf = vs := by
        simpa [fieldsAhead] using hcons
      exact ⟨hc.hasMore (Nat.succ_pos room), hc.readVariable (Nat.succ_pos room)⟩
  | zero =>
      obtain ⟨s, rfl, rfl⟩ := hc.before.exists_slice
      rcases hc.ends with ⟨hs, rfl⟩ | ⟨hs, hrest⟩
      · simp [fieldsAhead, runs] at hcons
      -- The field is the next run.
      · obtain ⟨m, later, hruns, hpos, hstart⟩ := facing_start hrest
        obtain ⟨rfl, rfl⟩ : numberOf (header rest) = v ∧ (runs later).map numberOf = vs := by
          simpa [fieldsAhead, hruns] using hcons
        have hroom : 0 < sliceBits * (header rest).length := Nat.mul_pos (by decide) hpos
        have hne : rest ≠ [] := by
          rintro rfl
          cases hruns
        rw [readVariable_behind (by simp [hs])]
        exact ⟨by simp [Cursor.hasMore, hs, hne], hstart.readVariable hroom⟩

end Cursor

/-! ## Fields of a layout -/

theorem Decides.map {ε α β : Type} {P Q : Prop} {a : α} {r : Except ε α} (h : Decides P a r)
    (f : α → β) (hiff : Q ↔ P) : Decides Q (f a) (r.map f) where
  ok hq := by rw [h.ok (hiff.mp hq)]; rfl
  error hq := by
    obtain ⟨e, he⟩ := h.error (mt hiff.mpr hq)
    exact ⟨e, by rw [he]; rfl⟩

theorem Decides.of_error {ε α : Type} {P : Prop} {a : α} {e : ε} (h : ¬P) :
    Decides P a (.error e : Except ε α) :=
  ⟨fun hp => absurd hp h, fun _ => ⟨e, rfl⟩⟩

theorem readOptional_error {e : FieldError} (hm : c.hasMore = true)
    (h : c.readVariable = (.error e, c')) : readOptional c = .error e := by
  rw [readOptional, dif_pos hm]
  split
  · rename_i e' _ hr
    rw [h] at hr
    cases hr
    rfl
  · rename_i v' c'' hr
    rw [h] at hr
    cases hr

theorem readFields_error (width : FieldWidth) {e : FieldError}
    (h : width.read c = (.error e, c')) : readFields (width :: layout) c = .error e := by
  cases width <;>
  · simp only [FieldWidth.read] at h
    simp only [readFields, readLayout, h]
    rfl

/-- Variable fields are read if there are as many as the layout has and all are words. -/
theorem Cursor.Holds.readFields (hl : ∀ w ∈ layout, w = .variable) (h : c.Holds vs) :
    Decides (layout.length ≤ vs.length ∧ ∀ v ∈ vs, v < 2 ^ 64) (vs.map Nat.toUInt64)
      (readFields layout c) := by
  induction vs generalizing layout c with
  | nil =>
      obtain ⟨hmore, e, c', hread⟩ := h.nil
      cases layout with
      | nil =>
          rw [readFields_nil, readOptional, dif_neg (by simp [hmore])]
          exact ⟨fun _ => rfl, fun hnot => absurd ⟨le_rfl, by simp⟩ hnot⟩
      | cons w layout =>
          obtain rfl := hl w List.mem_cons_self
          rw [readFields_error .variable hread]
          exact .of_error (by simp)
  | cons v vs ih =>
      obtain ⟨hmore, hword, hoversized⟩ := h.cons
      by_cases hv : v < 2 ^ 64
      · obtain ⟨c', hread, hc'⟩ := hword hv
        have hnext := ih (fun w hw => hl w (List.mem_of_mem_tail hw)) hc'
        have hstep : Wire.readFields layout c =
            (Wire.readFields layout.tail c').map (v.toUInt64 :: ·) := by
          cases layout with
          | nil => rw [readFields_nil, readOptional_cons hmore hread, ← readFields_nil]; rfl
          | cons w layout =>
              obtain rfl := hl w List.mem_cons_self
              exact readFields_cons .variable hread
        rw [hstep]
        refine hnext.map _ ?_
        simp only [List.length_tail, List.forall_mem_cons, List.length_cons, hv, true_and,
          Nat.sub_le_iff_le_add]
      · obtain ⟨e, c', hread⟩ := hoversized (Nat.not_lt.mp hv)
        have herror : Wire.readFields layout c = .error e := by
          cases layout with
          | nil => rw [readFields_nil, readOptional_error hmore hread]
          | cons w layout =>
              obtain rfl := hl w List.mem_cons_self
              exact readFields_error .variable hread
        rw [herror]
        exact .of_error fun hp => hv (hp.2 v List.mem_cons_self)

theorem count_variable (h : ∀ w ∈ layout, w = .variable) :
    layout.count .variable = layout.length :=
  List.count_eq_length.mpr fun w hw => (h w hw).symm

theorem fixed_of_variable (h : ∀ w ∈ layout, w = .variable) (value : Nat) :
    fixedBits layout = 0 ∧ fixedFields layout value = [] := by
  cases layout with
  | nil => exact ⟨rfl, rfl⟩
  | cons w layout =>
      obtain rfl := h w List.mem_cons_self
      exact ⟨rfl, rfl⟩

/-- The fields of a layout are read if there is room for the fixed ones, and then enough variable
ones come that are words. -/
theorem Cursor.Facing.readFields (h : Readable layout) (hc : c.Facing value room m rest) :
    let vs := fieldsAhead (value / 2 ^ fixedBits layout) (room - fixedBits layout) rest
    Decides (fixedBits layout ≤ room ∧ layout.count .variable ≤ vs.length ∧
        ∀ v ∈ vs, v < 2 ^ 64)
      ((fixedFields layout value ++ vs).map Nat.toUInt64) (readFields layout c) := by
  induction layout generalizing c value room with
  | nil => cases h
  | cons w layout ih =>
      cases w with
      | «variable» =>
          have hvariable := h.of_variable
          obtain ⟨hbits, hfields⟩ := fixed_of_variable hvariable value
          have hholds : c.Holds (fieldsAhead value room rest) := ⟨value, room, m, rest, hc, rfl⟩
          have hread := hholds.readFields hvariable
          simp only [hbits, hfields, count_variable hvariable, pow_zero, Nat.div_one, Nat.sub_zero,
            Nat.zero_le, true_and, List.nil_append]
          exact hread
      | fixed bits =>
          by_cases hbits : bits ≤ room
          · obtain ⟨c', hread, hc'⟩ := hc.readFixed hbits
            have hnext := ih h hc'
            rw [Nat.div_div_eq_div_mul, ← pow_add, Nat.sub_sub] at hnext
            rw [readFields_cons (.fixed bits) hread]
            refine hnext.map _ ?_
            simp only [fixedBits, List.count_cons]
            simp [Nat.le_sub_iff_add_le hbits, Nat.add_comm]
          · obtain ⟨e, c', hread⟩ :=
              hc.before.readFixed_of_lt hc.ends.ne_more bits (Nat.not_le.mp hbits)
            rw [readFields_error (.fixed bits) hread]
            refine .of_error fun hp => hbits ?_
            have := hp.1
            rw [fixedBits] at this
            omega

end Retrace.Wire
