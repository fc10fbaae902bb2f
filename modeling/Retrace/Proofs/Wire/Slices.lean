import Mathlib.Algebra.Order.Group.Nat
import Retrace.Wire.Reader

/-!
# What slices hold

The slices of a number are read back as the bits of the number, by fixed fields from the lowest bit
on and by a variable field as far as they go. The first slice that ends a message is the last one of
its slices.
-/

namespace Retrace.Wire

/-! ## Single slices -/

namespace Slice

theorem toNat_make (v : Nat) (m : Marker) : (make v m).toNat = v % 64 * 4 + m.bits := by
  have hm : m.bits < 4 := by cases m <;> decide
  have hv : v % 64 < 64 := Nat.mod_lt _ (by decide)
  have hlt : v % 64 * 4 + m.bits < 256 := by omega
  exact Nat.mod_eq_of_lt hlt

@[simp]
theorem marker_make (v : Nat) (m : Marker) : marker (make v m) = m := by
  have hm : (make v m).toNat % 4 = m.bits := by
    rw [toNat_make]
    cases m <;> simp only [Marker.bits] <;> omega
  rw [marker, hm]
  cases m <;> rfl

@[simp]
theorem payload_make (v : Nat) (m : Marker) : payload (make v m) = v % 64 := by
  have hm : m.bits < 4 := by cases m <;> decide
  rw [payload, toNat_make]
  omega

theorem payload_lt (s : UInt8) : payload s < 64 := by
  have hs : s.toNat < 256 := s.toNat_lt
  rw [payload]
  omega

theorem make_payload (s : UInt8) : make (payload s) (marker s) = s := by
  have hs : s.toNat < 256 := s.toNat_lt
  have hbits : (marker s).bits = s.toNat % 4 := by
    have hcases : s.toNat % 4 = 0 ∨ s.toNat % 4 = 1 ∨ s.toNat % 4 = 2 ∨ s.toNat % 4 = 3 := by omega
    rcases hcases with h | h | h | h <;> simp [marker, h, Marker.bits]
  apply UInt8.toNat_inj.mp
  rw [toNat_make, hbits, payload]
  omega

theorem make_ne_idle {v : Nat} (m : Marker) (h : v % 64 ≠ 0) : make v m ≠ idle := by
  intro he
  rw [← payload_make v m, he] at h
  exact h rfl

end Slice

/-! ## Messages -/

/-- The last slice ends a message, and no other one does or has the reserved marker. -/
inductive Framed : List UInt8 → Prop
  | last {s : UInt8} : Slice.marker s = .endMessage → Framed [s]
  | cons {s : UInt8} {rest : List UInt8} : Slice.marker s = .more ∨ Slice.marker s = .endField →
      Framed rest → Framed (s :: rest)

theorem Framed.splitMessage? {s : List UInt8} (h : Framed s) (rest : List UInt8) :
    splitMessage? (s ++ rest) = some (s, rest) := by
  induction h with
  | last hs => simp [Wire.splitMessage?, hs]
  | cons hs _ ih => rcases hs with hs | hs <;> simp [Wire.splitMessage?, hs, ih]

theorem Framed.any_reserved {s : List UInt8} (h : Framed s) :
    s.any (Slice.marker · = .reserved) = false := by
  induction h with
  | last hs => simp [hs]
  | cons hs _ ih => rcases hs with hs | hs <;> simp [hs, ih]

theorem framed_slices (v n : Nat) : Framed (slices v .endMessage (n + 1)) := by
  induction n generalizing v with
  | zero => exact .last (Slice.marker_make _ _)
  | succ n ih => exact .cons (.inl (Slice.marker_make _ _)) (ih _)

theorem Framed.slices_append {rest : List UInt8} (h : Framed rest) (v n : Nat) :
    Framed (slices v .endField (n + 1) ++ rest) := by
  induction n generalizing v with
  | zero => exact .cons (.inr (Slice.marker_make _ _)) h
  | succ n ih => exact .cons (.inl (Slice.marker_make _ _)) (ih _)

theorem head_slices (v n : Nat) (m : Marker) (rest : List UInt8) :
    ∃ m' tail, slices v m (n + 1) ++ rest = Slice.make v m' :: tail := by
  cases n with
  | zero => exact ⟨m, rest, rfl⟩
  | succ n => exact ⟨.more, _, rfl⟩

/-! ## The length of a run -/

theorem lt_runLength (total width : Nat) : width < sliceBits * runLength total width := by
  have : width / sliceBits + 1 ≤ runLength total width := le_max_left _ _
  simp only [sliceBits] at *
  omega

theorem lt_two_pow_runLength (total width : Nat) :
    total < 2 ^ (sliceBits * runLength total width) := by
  have hn : (total.log2 + 1 + (sliceBits - 1)) / sliceBits ≤ runLength total width :=
    le_max_right _ _
  have hlog : total.log2 + 1 ≤ sliceBits * runLength total width := by
    simp only [sliceBits] at *
    omega
  exact Nat.lt_of_lt_of_le Nat.lt_log2_self (Nat.pow_le_pow_right (by decide) hlog)

/-! ## Reading bits -/

/-- The cursor is before the bits of a number, for which there is some room in the current run. -/
def Cursor.Before (value room : Nat) (m : Marker) (rest : List UInt8) (c : Cursor) : Prop :=
  ∃ v n b, c = ⟨Wire.slices v m (n + 1) ++ rest, b⟩ ∧ b ≤ sliceBits ∧ v / 2 ^ b = value ∧
    room + b = sliceBits * (n + 1)

theorem Cursor.not_before_nil {value room b : Nat} {m : Marker} {rest : List UInt8} :
    ¬Before value room m rest ⟨[], b⟩ := by
  rintro ⟨v, n, b', hc, -⟩
  obtain ⟨m', tail, hs⟩ := head_slices v n m rest
  rw [hs] at hc
  cases hc

theorem Cursor.before_start (v n : Nat) (m : Marker) (rest : List UInt8) :
    (start (Wire.slices v m (n + 1) ++ rest)).Before v (sliceBits * (n + 1)) m rest :=
  ⟨v, n, 0, rfl, Nat.zero_le _, Nat.div_one v, rfl⟩

variable {c : Cursor} {value room width : Nat} {m : Marker} {rest : List UInt8}

theorem div_mod_slice {b k : Nat} (v : Nat) (h : b + k ≤ sliceBits) :
    v % 64 / 2 ^ b % 2 ^ k = v / 2 ^ b % 2 ^ k := by
  have h64 : 64 = 2 ^ b * (2 ^ k * 2 ^ (6 - (b + k))) := by
    simp only [sliceBits] at h
    rw [← pow_add, ← pow_add, show b + (k + (6 - (b + k))) = 6 by omega]
    rfl
  rw [h64, Nat.mod_mul_right_div_self, Nat.mod_mul_right_mod]

namespace Cursor.Before

variable {s : UInt8} {tail : List UInt8} {b : Nat}

theorem take {k : Nat} (h : Before value room m rest ⟨s :: tail, b⟩) (hb : b + k ≤ sliceBits) :
    (Slice.payload s >>> b) % (1 <<< k) = value % 2 ^ k ∧
      Before (value / 2 ^ k) (room - k) m rest ⟨s :: tail, b + k⟩ := by
  obtain ⟨v, n, b', hc, -, rfl, hroom⟩ := h
  obtain ⟨hs, rfl⟩ := Cursor.mk.inj hc
  obtain ⟨m', tail', hhead⟩ := head_slices v n m rest
  have hv : Slice.payload s = v % 64 := by
    rw [hhead] at hs
    rw [(List.cons.inj hs).1, Slice.payload_make]
  refine ⟨?_, v, n, b + k, congrArg (Cursor.mk · (b + k)) hs, hb, ?_, ?_⟩
  · rw [hv, Nat.shiftRight_eq_div_pow, Nat.one_shiftLeft, div_mod_slice v hb]
  · rw [pow_add, Nat.div_div_eq_div_mul]
  · simp only [sliceBits] at *
    omega

/-- If there is room behind the current slice, the bits go on in the next one. -/
theorem advance (h : Before value room m rest ⟨s :: tail, b⟩) (hb : ¬b < sliceBits)
    (hroom : 0 < room) : Slice.marker s = .more ∧ Before value room m rest ⟨tail, 0⟩ := by
  obtain ⟨v, n, b', hc, hle, rfl, heq⟩ := h
  obtain ⟨hs, rfl⟩ := Cursor.mk.inj hc
  obtain rfl : b = sliceBits := by omega
  cases n with
  | zero => simp only [sliceBits] at heq; omega
  | succ n =>
      obtain ⟨rfl, rfl⟩ := List.cons.inj hs
      refine ⟨Slice.marker_make _ _, v / 64, n, 0, rfl, Nat.zero_le _, Nat.div_one _, ?_⟩
      simp only [sliceBits] at *
      omega

theorem readFixed (h : c.Before value room m rest) (width : Nat) (hw : width ≤ room) :
    ∃ c', c.readFixed width = (.ok (value % 2 ^ width), c') ∧
      c'.Before (value / 2 ^ width) (room - width) m rest := by
  fun_induction Cursor.readFixed width c generalizing value room with
  | case1 c => exact ⟨c, by simp [Nat.mod_one], by simpa using h⟩
  | case2 width hpos bit => exact absurd h Cursor.not_before_nil
  | case3 width hpos s tail b hb k chunk high c =>
      rename_i hread ih
      have hk : b + k ≤ sliceBits := by omega
      have hsum : k + (width - k) = width := by omega
      obtain ⟨hchunk, hbefore⟩ := h.take hk
      obtain ⟨c', hc', hbefore'⟩ := ih hbefore (by omega)
      obtain ⟨rfl, rfl⟩ := Prod.mk.inj (hread.symm.trans hc')
      refine ⟨c, ?_, ?_⟩
      · have hvalue : value % 2 ^ k + (value / 2 ^ k % 2 ^ (width - k)) <<< k =
            value % 2 ^ width := by
          rw [Nat.shiftLeft_eq, Nat.mul_comm, ← Nat.mod_mul, ← pow_add, hsum]
        simp only [Except.map, chunk, hchunk, hvalue]
      · rw [Nat.div_div_eq_div_mul, ← pow_add, hsum, Nat.sub_sub, hsum] at hbefore'
        exact hbefore'
  | case4 width hpos s tail b hb hmore => exact absurd (h.advance hb (by omega)).1 hmore
  | case5 width hpos s tail b hb hmore ih => exact ih (h.advance hb (by omega)).2 hw

theorem sliceBits_le (h : Before value room m rest ⟨s :: tail, b⟩) : sliceBits ≤ room + b := by
  obtain ⟨v, n, b', hc, -, -, hroom⟩ := h
  obtain ⟨-, rfl⟩ := Cursor.mk.inj hc
  simp only [sliceBits] at *
  omega

theorem exists_slice (h : c.Before value 0 m rest) :
    ∃ s, c = ⟨s :: rest, sliceBits⟩ ∧ Slice.marker s = m := by
  obtain ⟨v, n, b, rfl, hb, -, hroom⟩ := h
  obtain ⟨rfl, rfl⟩ : n = 0 ∧ b = sliceBits := by
    simp only [sliceBits] at *
    omega
  exact ⟨_, rfl, Slice.marker_make v m⟩

/-- A fixed field that there is no room for cannot be read. -/
theorem readFixed_of_lt (h : c.Before value room m rest) (hm : m ≠ .more) (width : Nat)
    (hw : room < width) : ∃ e c', c.readFixed width = (.error e, c') := by
  fun_induction Cursor.readFixed width c generalizing value room with
  | case1 c => cases hw
  | case2 width hpos bit => exact absurd h Cursor.not_before_nil
  | case3 width hpos s tail b hb k chunk high c =>
      rename_i hread ih
      have hk : b + k ≤ sliceBits := by omega
      have hroom : room - k < width - k := by
        have := h.sliceBits_le
        omega
      obtain ⟨e, c', hc'⟩ := ih (h.take hk).2 hroom
      obtain ⟨rfl, rfl⟩ := Prod.mk.inj (hread.symm.trans hc')
      exact ⟨e, c, rfl⟩
  | case4 width hpos s tail b hb hmore => exact ⟨_, _, rfl⟩
  | case5 width hpos s tail b hb hmore ih =>
      cases room with
      | zero =>
          obtain ⟨s', hs, rfl⟩ := h.exists_slice
          cases hs
          exact absurd (not_not.mp hmore) hm
      | succ room => exact ih (h.advance hb (Nat.succ_pos _)).2 hw

end Cursor.Before

/-- The bits of a slice from some bit on are the lowest ones of the number from there on. -/
theorem div_slice {b k : Nat} (v : Nat) (hk : b + k = sliceBits) :
    v % 64 / 2 ^ b = v / 2 ^ b % 2 ^ k := by
  have h64 : 64 = 2 ^ b * 2 ^ k := by
    rw [← pow_add, hk]
    rfl
  have hlt : v % 64 / 2 ^ b < 2 ^ k := Nat.div_lt_of_lt_mul (h64 ▸ Nat.mod_lt v (by decide))
  rw [← div_mod_slice v hk.le, Nat.mod_eq_of_lt hlt]

theorem div_next_slice {b k : Nat} (v : Nat) (hk : b + k = sliceBits) :
    v / 64 / 2 ^ 0 = v / 2 ^ b / 2 ^ k := by
  rw [Nat.div_div_eq_div_mul, Nat.div_div_eq_div_mul, ← pow_add, hk]
  rfl

theorem lt_next_slice {b k : Nat} {v : Nat} (hk : b + k = sliceBits)
    (h : v / 2 ^ b < 2 ^ (k + room)) : v / 64 / 2 ^ 0 < 2 ^ room := by
  rw [div_next_slice v hk]
  exact Nat.div_lt_of_lt_mul (pow_add 2 k room ▸ h)

theorem parts_of_slice {b k : Nat} (v used : Nat) (hk : b + k = sliceBits) :
    (v / 2 ^ b % 2 ^ k) <<< used + (v / 64 / 2 ^ 0) <<< (used + k) = (v / 2 ^ b) <<< used := by
  simp only [div_next_slice v hk, Nat.shiftLeft_eq]
  rw [Nat.add_comm used k, pow_add, ← Nat.mul_assoc, ← Nat.add_mul, Nat.mul_comm (_ / 2 ^ k),
    Nat.mod_add_div]

/-- A slice in the middle of a field gives its bits, the next ones all others. -/
theorem Cursor.readVariableFrom_more {v n b k used : Nat} (hk : b + k = sliceBits) :
    readVariableFrom used b (Wire.slices v m (n + 2) ++ rest) =
      if UInt64.size ≤ (v / 2 ^ b % 2 ^ k) <<< used then
        (.error .oversized, ⟨Wire.slices v m (n + 2) ++ rest, b⟩)
      else
        let (high, c) :=
          readVariableFrom (used + k) 0 (Wire.slices (v / 64) m (n + 1) ++ rest)
        (high.map ((v / 2 ^ b % 2 ^ k) <<< used + ·), c) := by
  simp only [Wire.slices, List.cons_append, readVariableFrom, Slice.payload_make,
    Slice.marker_make, Nat.shiftRight_eq_div_pow, ne_eq, not_true_eq_false, ite_false,
    show sliceBits - b = k by omega, div_slice v hk]

/-- A variable field takes all bits up to the slice that ends it. -/
theorem Cursor.readVariableFrom_slices (hm : m ≠ .more) {v n b used : Nat} (hb : b ≤ sliceBits)
    (hroom : room + b = sliceBits * (n + 1)) (hfit : v / 2 ^ b < 2 ^ room)
    (hsize : (v / 2 ^ b) <<< used < UInt64.size) :
    ∃ s, readVariableFrom used b (Wire.slices v m (n + 1) ++ rest) =
      (.ok ((v / 2 ^ b) <<< used), ⟨s :: rest, sliceBits⟩) ∧ Slice.marker s = m := by
  induction n generalizing v b used room with
  | zero =>
      have hv : v % 64 / 2 ^ b = v / 2 ^ b := by
        rw [div_slice v ((Nat.add_comm b room).trans hroom), Nat.mod_eq_of_lt hfit]
      refine ⟨Slice.make v m, ?_, Slice.marker_make v m⟩
      simp only [Wire.slices, List.singleton_append, readVariableFrom, Slice.payload_make,
        Slice.marker_make, Nat.shiftRight_eq_div_pow, hv, Nat.not_le.mpr hsize, ite_false, hm,
        ite_true, ne_eq, not_false_eq_true]
  | succ n ih =>
      -- This slice gives the lowest `k` bits, the next ones all others.
      obtain ⟨k, hk⟩ := Nat.exists_eq_add_of_le hb
      obtain ⟨room', rfl⟩ : ∃ room', room = k + room' :=
        ⟨sliceBits * (n + 1), by simp only [sliceBits] at *; omega⟩
      have hsum := parts_of_slice v used hk.symm
      have hlow : (v / 2 ^ b % 2 ^ k) <<< used < UInt64.size :=
        Nat.lt_of_le_of_lt (Nat.le_add_right _ _) (hsum ▸ hsize)
      have hhigh : (v / 64 / 2 ^ 0) <<< (used + k) < UInt64.size :=
        Nat.lt_of_le_of_lt (Nat.le_add_left _ _) (hsum ▸ hsize)
      obtain ⟨s, hs, hmark⟩ := ih (Nat.zero_le _) (by simp only [sliceBits] at *; omega)
        (lt_next_slice hk.symm hfit) hhigh
      refine ⟨s, ?_, hmark⟩
      rw [readVariableFrom_more hk.symm, if_neg (Nat.not_le.mpr hlow), hs]
      simp only [Except.map, hsum]

theorem word_of_parts {low high width : Nat} (hlow : low < 2 ^ width) (hsize : low < UInt64.size)
    (hhigh : high <<< width < UInt64.size) : low + high <<< width < UInt64.size := by
  rw [Nat.shiftLeft_eq] at *
  cases high with
  | zero => rwa [Nat.zero_mul, Nat.add_zero]
  | succ high =>
      have hpow : 2 ^ width < 2 ^ 64 :=
        (Nat.le_mul_of_pos_left _ (Nat.succ_pos high)).trans_lt hhigh
      have hwidth : width < 64 := (Nat.pow_lt_pow_iff_right (by decide)).mp hpow
      have hsplit : UInt64.size = 2 ^ (64 - width) * 2 ^ width := by
        rw [← pow_add, Nat.sub_add_cancel hwidth.le]
        rfl
      rw [hsplit] at hhigh ⊢
      have hlt : high + 1 + 1 ≤ 2 ^ (64 - width) := Nat.lt_of_mul_lt_mul_right hhigh
      have hmul := Nat.mul_le_mul_right (2 ^ width) hlt
      rw [Nat.add_mul _ 1, Nat.one_mul] at hmul
      omega

/-- A variable field with more bits than a word cannot be read. -/
theorem Cursor.readVariableFrom_oversized {v n b used : Nat} (hb : b ≤ sliceBits)
    (hroom : room + b = sliceBits * (n + 1)) (hfit : v / 2 ^ b < 2 ^ room)
    (hsize : UInt64.size ≤ (v / 2 ^ b) <<< used) :
    ∃ e c, readVariableFrom used b (Wire.slices v m (n + 1) ++ rest) = (.error e, c) := by
  induction n generalizing v b used room with
  | zero =>
      have hv : v % 64 / 2 ^ b = v / 2 ^ b := by
        rw [div_slice v ((Nat.add_comm b room).trans hroom), Nat.mod_eq_of_lt hfit]
      exact ⟨.oversized, ⟨Slice.make v m :: rest, b⟩, by
        simp only [Wire.slices, List.singleton_append, readVariableFrom, Slice.payload_make,
          Nat.shiftRight_eq_div_pow, hv, hsize, ite_true]⟩
  | succ n ih =>
      obtain ⟨k, hk⟩ := Nat.exists_eq_add_of_le hb
      obtain ⟨room', rfl⟩ : ∃ room', room = k + room' :=
        ⟨sliceBits * (n + 1), by simp only [sliceBits] at *; omega⟩
      rw [readVariableFrom_more hk.symm]
      split
      · exact ⟨_, _, rfl⟩
      · rename_i hlow
        have hpart : (v / 2 ^ b % 2 ^ k) <<< used < 2 ^ (used + k) := by
          rw [Nat.shiftLeft_eq, pow_add, Nat.mul_comm]
          exact Nat.mul_lt_mul_of_pos_left (Nat.mod_lt _ (Nat.two_pow_pos k)) (Nat.two_pow_pos used)
        -- This slice does not exceed a word, so the next ones do.
        have hhigh : UInt64.size ≤ (v / 64 / 2 ^ 0) <<< (used + k) := by
          by_contra hlt
          have hword := word_of_parts hpart (Nat.not_le.mp hlow) (Nat.not_le.mp hlt)
          rw [parts_of_slice v used hk.symm] at hword
          omega
        obtain ⟨e, c, hread⟩ := ih (Nat.zero_le _) (by simp only [sliceBits] at *; omega)
          (lt_next_slice hk.symm hfit) hhigh
        exact ⟨e, c, by rw [hread]; rfl⟩

theorem Cursor.Before.readVariable_eq (h : c.Before value room m rest) (hroom : 0 < room) :
    ∃ v n b, c.readVariable = readVariableFrom 0 b (Wire.slices v m (n + 1) ++ rest) ∧
      b ≤ sliceBits ∧ v / 2 ^ b = value ∧ room + b = sliceBits * (n + 1) := by
  obtain ⟨slices, b⟩ := c
  rw [Cursor.readVariable]
  split
  · obtain ⟨v, n, b', hc, hb, hv, heq⟩ := h
    obtain ⟨rfl, rfl⟩ := Cursor.mk.inj hc
    exact ⟨v, n, b, rfl, hb, hv, heq⟩
  · rename_i hb
    cases slices with
    | nil => exact absurd h not_before_nil
    | cons s tail =>
        obtain ⟨hmore, v, n, b', hc, hb', hv, heq⟩ := h.advance hb hroom
        obtain ⟨rfl, rfl⟩ := Cursor.mk.inj hc
        simp only [hmore, reduceCtorEq, ite_false]
        exact ⟨v, n, 0, rfl, hb', hv, heq⟩

theorem Cursor.Before.readVariable (h : c.Before value room m rest) (hm : m ≠ .more)
    (hroom : 0 < room) (hfit : value < 2 ^ room) (hsize : value < UInt64.size) :
    ∃ s, c.readVariable = (.ok value, ⟨s :: rest, sliceBits⟩) ∧ Slice.marker s = m := by
  obtain ⟨v, n, b, hread, hb, rfl, heq⟩ := h.readVariable_eq hroom
  rw [hread]
  exact readVariableFrom_slices hm hb heq hfit hsize

theorem Cursor.Before.readVariable_oversized (h : c.Before value room m rest) (hroom : 0 < room)
    (hfit : value < 2 ^ room) (hsize : UInt64.size ≤ value) :
    ∃ e c', c.readVariable = (.error e, c') := by
  obtain ⟨v, n, b, hread, hb, rfl, heq⟩ := h.readVariable_eq hroom
  rw [hread]
  exact readVariableFrom_oversized hb heq hfit hsize

theorem Cursor.readVariable_behind {s : UInt8} (hs : Slice.marker s ≠ .endMessage)
    (rest : List UInt8) : readVariable ⟨s :: rest, sliceBits⟩ = (start rest).readVariable := by
  have hstart : (start rest).bit < sliceBits := Nat.zero_lt_succ 5
  rw [readVariable, if_neg (Nat.lt_irrefl _), readVariable, if_pos hstart]
  exact if_neg hs

/-- A variable field after another one starts with the next slice. -/
theorem Cursor.readVariable_next (rest : List UInt8) {s : UInt8} {v n : Nat}
    (hs : Slice.marker s = .endField) (hm : m ≠ .more) (hfit : v < 2 ^ (sliceBits * (n + 1)))
    (hsize : v < UInt64.size) :
    ∃ s', readVariable ⟨s :: (Wire.slices v m (n + 1) ++ rest), sliceBits⟩ =
      (.ok v, ⟨s' :: rest, sliceBits⟩) ∧ Slice.marker s' = m := by
  rw [readVariable_behind (by simp [hs])]
  exact (before_start v n m rest).readVariable hm (Nat.mul_pos (by decide) (Nat.succ_pos n)) hfit
    hsize

end Retrace.Wire
