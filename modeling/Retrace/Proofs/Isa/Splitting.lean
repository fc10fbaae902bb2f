import Retrace.Isa.Instruction
import Retrace.Proofs.Bytes.Reads

/-!
# Bytes as instructions

An encoding that is split off a byte string is one whose lowest bits announce its length, and its
bytes are the first ones of the string. So instructions that are split off one after the other, with
the bytes that are left, are the whole string.
-/

namespace Retrace.Isa

open Bytes (littleEndian ofLittleEndian)

/-- The lowest bits of an encoding announce its length in bytes. -/
inductive Announces (bits : Nat) : Nat → Prop
  | two : bits % 4 ≠ 3 → Announces bits 2
  | four : bits % 4 = 3 → bits % 32 ≠ 31 → Announces bits 4
  | six : bits % 64 = 31 → Announces bits 6
  | eight : bits % 128 = 63 → Announces bits 8

namespace Encoding

/-- The bits, lowest byte first. -/
def bytes (e : Encoding) : List UInt8 :=
  littleEndian e.size e.raw

/-- The bits announce the length that they have. -/
structure Proper (e : Encoding) : Prop where
  announces : Announces e.raw e.size
  -- Only the word of an encoding of 48 bits has room for more.
  raw_lt : e.raw < 256 ^ e.size

end Encoding

variable {base : BaseSet} {e : Encoding} {data rest left : List UInt8} {first : UInt8}
  {bits bits' size : Nat} {w : BitVec 32}

/-! ## Lengths -/

theorem Announces.congr (h : Announces bits size) (hlow : bits % 128 = bits' % 128) :
    Announces bits' size := by
  cases h with
  | two h => exact .two (by omega)
  | four h h' => exact .four (by omega) (by omega)
  | six h => exact .six (by omega)
  | eight h => exact .eight (by omega)

theorem Announces.exists_succ (h : Announces bits size) : ∃ n, size = n + 1 := by
  cases h <;> exact ⟨_, rfl⟩

theorem exists_announces (h : bits % 128 ≠ 127) : ∃ size, Announces bits size := by
  by_cases h2 : bits % 4 = 3
  · by_cases h4 : bits % 32 = 31
    · by_cases h6 : bits % 64 = 31
      · exact ⟨6, .six h6⟩
      · exact ⟨8, .eight (by omega)⟩
    · exact ⟨4, .four h2 h4⟩
  · exact ⟨2, .two h2⟩

namespace Encoding

/-- The masks of the first byte as remainders. -/
theorem sizeOfFirst?_eq (first : UInt8) : sizeOfFirst? first =
    if first.toNat % 4 ≠ 3 then some 2
    else if first.toNat % 32 ≠ 31 then some 4
    else if first.toNat % 64 = 31 then some 6
    else if first.toNat % 128 = 63 then some 8
    else none := by
  obtain ⟨first⟩ := first
  decide +revert

theorem sizeOfFirst?_of_announces (h : Announces first.toNat size) :
    sizeOfFirst? first = some size := by
  rw [sizeOfFirst?_eq]
  cases h with
  | two h => rw [if_pos h]
  | four h h' => rw [if_neg (not_not.mpr h), if_pos h']
  | six h => rw [if_neg (by omega), if_neg (by omega), if_pos h]
  | eight h => rw [if_neg (by omega), if_neg (by omega), if_neg (by omega), if_pos h]

theorem sizeOfFirst?_of_unsupported (h : first.toNat % 128 = 127) : sizeOfFirst? first = none := by
  rw [sizeOfFirst?_eq, if_neg (by omega), if_neg (by omega), if_neg (by omega), if_neg (by omega)]

/-! ## Encodings and their bits -/

@[simp]
theorem length_bytes (e : Encoding) : e.bytes.length = e.size :=
  Bytes.length_littleEndian e.size e.raw

theorem ofRaw_raw (e : Encoding) : ofRaw e.size e.raw = e := by
  cases e <;> simp [ofRaw, size, raw]

theorem size_ofRaw (h : Announces bits' size) (raw : Nat) : (ofRaw size raw).size = size := by
  cases h <;> rfl

theorem raw_ofRaw {raw : Nat} (h : Announces bits' size) (hraw : raw < 256 ^ size) :
    (ofRaw size raw).raw = raw := by
  cases h with
  | two | four | eight => exact Nat.mod_eq_of_lt hraw
  | six => exact Nat.mod_eq_of_lt (hraw.trans (by decide))

theorem Proper.ofLittleEndian_bytes (h : e.Proper) : ofLittleEndian e.bytes = e.raw :=
  Bytes.ofLittleEndian_littleEndian h.raw_lt

/-! ## Splitting one off -/

theorem split?_of_announces (hfirst : data.head? = some first) (h : Announces first.toNat size) :
    split? data =
      if data.length < size then .error .truncated
      else .ok (ofRaw size (ofLittleEndian (data.take size)), data.drop size) := by
  obtain ⟨tail, rfl⟩ := List.head?_eq_some_iff.mp hfirst
  rw [split?, sizeOfFirst?_of_announces h]
  have hlength : ((first :: tail).take size).length < size ↔ (first :: tail).length < size := by
    rw [List.length_take]
    omega
  simp only [hlength]

theorem split?_of_unsupported (hfirst : data.head? = some first) (h : first.toNat % 128 = 127) :
    split? data = .error .unsupportedLength := by
  obtain ⟨tail, rfl⟩ := List.head?_eq_some_iff.mp hfirst
  rw [split?, sizeOfFirst?_of_unsupported h]

/-- The masks of the first byte as remainders, one by one. -/
theorem masks_iff (first : UInt8) :
    (first &&& 0b11 = 0b11 ↔ first.toNat % 4 = 3) ∧
      (first &&& 0b11100 = 0b11100 ↔ first.toNat / 4 % 8 = 7) ∧
      (first &&& 0x3f = 0x1f ↔ first.toNat % 64 = 31) ∧
      (first &&& 0x7f = 0x3f ↔ first.toNat % 128 = 63) ∧
      (first &&& 0x7f = 0x7f ↔ first.toNat % 128 = 127) := by
  obtain ⟨first⟩ := first
  decide +revert

/-- The lengths may be tried one after the other, each of them only if there are bytes enough. Bytes
that are too few for their length are not taken for an encoding of another one. -/
theorem split?_cons (first : UInt8) (tail : List UInt8) :
    split? (first :: tail) =
      let data := first :: tail
      let cut (size : Nat) : Except EncodingError (Encoding × List UInt8) :=
        .ok (ofRaw size (ofLittleEndian (data.take size)), data.drop size)
      if 2 ≤ data.length ∧ first &&& 0b11 ≠ 0b11 then cut 2
      else if 4 ≤ data.length ∧ first &&& 0b11100 ≠ 0b11100 then cut 4
      else if 6 ≤ data.length ∧ first &&& 0x3f = 0x1f then cut 6
      else if 8 ≤ data.length ∧ first &&& 0x7f = 0x3f then cut 8
      else if first &&& 0x7f = 0x7f then .error .unsupportedLength
      else .error .truncated := by
  obtain ⟨htwo, hfour, hsix, height, hlong⟩ := masks_iff first
  simp only [ne_eq, htwo, hfour, hsix, height, hlong]
  by_cases hunsupported : first.toNat % 128 = 127
  · rw [split?_of_unsupported rfl hunsupported, if_neg (by omega), if_neg (by omega),
      if_neg (by omega), if_neg (by omega), if_pos hunsupported]
  · obtain ⟨size, hsize⟩ := exists_announces hunsupported
    rw [split?_of_announces rfl hsize]
    -- What a length announces excludes every other length.
    cases hsize <;> split_ifs <;> first | rfl | omega

theorem proper_of_take (hfirst : data.head? = some first) (h : Announces first.toNat size)
    (hlength : size ≤ data.length) :
    let e := ofRaw size (ofLittleEndian (data.take size))
    e.Proper ∧ e.bytes = data.take size := by
  intro e
  obtain ⟨tail, rfl⟩ := List.head?_eq_some_iff.mp hfirst
  have htake : ((first :: tail).take size).length = size := List.length_take_of_le hlength
  have hlt := Bytes.ofLittleEndian_lt ((first :: tail).take size)
  rw [htake] at hlt
  have hraw : e.raw = ofLittleEndian ((first :: tail).take size) := raw_ofRaw h hlt
  have hsize : e.size = size := size_ofRaw h _
  have hlow : first.toNat % 128 = e.raw % 128 := by
    obtain ⟨n, rfl⟩ := h.exists_succ
    rw [hraw, List.take_succ_cons, ofLittleEndian]
    omega
  refine ⟨⟨?_, ?_⟩, ?_⟩
  · rw [hsize]
    exact h.congr hlow
  · rw [hsize, hraw]
    exact hlt
  · have hbytes := Bytes.littleEndian_ofLittleEndian ((first :: tail).take size)
    rw [htake, ← hraw] at hbytes
    rw [bytes, hsize, hbytes]

theorem Proper.split? (h : e.Proper) (rest : List UInt8) :
    split? (e.bytes ++ rest) = .ok (e, rest) := by
  have hfirst : (e.bytes ++ rest).head? = some (UInt8.ofNat e.raw) := by
    obtain ⟨n, hn⟩ := h.announces.exists_succ
    rw [bytes, hn]
    rfl
  have hlow : e.raw % 128 = (UInt8.ofNat e.raw).toNat % 128 := by
    rw [UInt8.toNat_ofNat']
    omega
  have htake : (e.bytes ++ rest).take e.size = e.bytes := List.take_left' e.length_bytes
  have hdrop : (e.bytes ++ rest).drop e.size = rest := List.drop_left' e.length_bytes
  rw [split?_of_announces hfirst (h.announces.congr hlow), if_neg, htake, hdrop,
    h.ofLittleEndian_bytes, ofRaw_raw]
  rw [List.length_append, length_bytes]
  omega

/-- What comes of splitting an encoding off a byte string. -/
inductive Splits (data : List UInt8) : Except EncodingError (Encoding × List UInt8) → Prop
  | empty : data = [] → Splits data (.error .truncated)
  | truncated {first : UInt8} {size : Nat} : data.head? = some first →
      Announces first.toNat size → data.length < size → Splits data (.error .truncated)
  | unsupported {first : UInt8} : data.head? = some first → first.toNat % 128 = 127 →
      Splits data (.error .unsupportedLength)
  | split {e : Encoding} {rest : List UInt8} : e.Proper → data = e.bytes ++ rest →
      Splits data (.ok (e, rest))

theorem splits_split? (data : List UInt8) : Splits data (split? data) := by
  cases hfirst : data.head? with
  | none =>
      obtain rfl := List.head?_eq_none_iff.mp hfirst
      exact .empty rfl
  | some first =>
      by_cases hsupported : first.toNat % 128 = 127
      · rw [split?_of_unsupported hfirst hsupported]
        exact .unsupported hfirst hsupported
      · obtain ⟨size, hsize⟩ := exists_announces hsupported
        rw [split?_of_announces hfirst hsize]
        split_ifs with hlength
        · exact .truncated hfirst hsize hlength
        · obtain ⟨hproper, hbytes⟩ := proper_of_take hfirst hsize (Nat.le_of_not_lt hlength)
          exact .split hproper (by rw [hbytes, List.take_append_drop])

theorem split?_eq_iff {r : Except EncodingError (Encoding × List UInt8)} :
    split? data = r ↔ Splits data r := by
  constructor
  · rintro rfl
    exact splits_split? data
  · intro h
    cases h with
    | empty h => rw [h, split?]
    | truncated hfirst h hlength => rw [split?_of_announces hfirst h, if_pos hlength]
    | unsupported hfirst h => exact split?_of_unsupported hfirst h
    | split h hdata => rw [hdata, h.split?]

theorem split?_eq_ok_iff : split? data = .ok (e, rest) ↔ e.Proper ∧ data = e.bytes ++ rest := by
  rw [split?_eq_iff]
  constructor
  · rintro (_ | _ | _ | ⟨h, hdata⟩)
    exact ⟨h, hdata⟩
  · rintro ⟨h, hdata⟩
    exact .split h hdata

theorem split?_eq_truncated_iff : split? data = .error .truncated ↔
    data = [] ∨ ∃ first size, data.head? = some first ∧ Announces first.toNat size ∧
      data.length < size := by
  rw [split?_eq_iff]
  constructor
  · rintro (h | ⟨hfirst, h, hlength⟩)
    · exact .inl h
    · exact .inr ⟨_, _, hfirst, h, hlength⟩
  · rintro (h | ⟨first, size, hfirst, h, hlength⟩)
    · exact .empty h
    · exact .truncated hfirst h hlength

theorem split?_eq_unsupportedLength_iff : split? data = .error .unsupportedLength ↔
    ∃ first, data.head? = some first ∧ first.toNat % 128 = 127 := by
  rw [split?_eq_iff]
  constructor
  · rintro (_ | _ | ⟨hfirst, h⟩)
    exact ⟨_, hfirst, h⟩
  · rintro ⟨first, hfirst, h⟩
    exact .unsupported hfirst h

theorem split?_append (h : split? data = .ok (e, rest)) (more : List UInt8) :
    split? (data ++ more) = .ok (e, rest ++ more) := by
  obtain ⟨hproper, rfl⟩ := split?_eq_ok_iff.mp h
  rw [List.append_assoc]
  exact hproper.split? (rest ++ more)

/-! ## Words -/

theorem extractLsb_eq_iff (high low : Nat) (v : BitVec (high - low + 1)) :
    w.extractLsb high low = v ↔ w.toNat / 2 ^ low % 2 ^ (high - low + 1) = v.toNat := by
  rw [← BitVec.toNat_inj, BitVec.extractLsb_toNat, Nat.shiftRight_eq_div_pow]

theorem ofWord?_of_two (h : w.toNat % 4 ≠ 3) : ofWord? w =
    if w.toNat < 2 ^ 16 then some (bits16 (w.extractLsb 15 0)) else none := by
  have hlow : w.extractLsb 1 0 ≠ 0b11#2 := by
    rw [Ne, extractLsb_eq_iff]
    simpa using h
  have hhigh : w.extractLsb 31 16 = 0#16 ↔ w.toNat < 2 ^ 16 := by
    have hw := w.isLt
    rw [extractLsb_eq_iff]
    change w.toNat / 65536 % 65536 = 0 ↔ _
    omega
  rw [ofWord?, if_pos hlow]
  simp only [hhigh]

theorem ofWord?_of_more (h : w.toNat % 4 = 3) : ofWord? w =
    if w.toNat % 32 ≠ 31 then some (bits32 w) else none := by
  have hlow : w.extractLsb 1 0 = 0b11#2 := by
    rw [extractLsb_eq_iff]
    simpa using h
  have hhigh : w.extractLsb 4 2 = 0b111#3 ↔ w.toNat % 32 = 31 := by
    rw [extractLsb_eq_iff]
    change w.toNat / 4 % 8 = 7 ↔ _
    omega
  rw [ofWord?, if_neg (not_not.mpr hlow)]
  simp only [Ne, hhigh]

/-- A word holds an encoding that is no longer than it and has no more bits. -/
theorem ofWord?_eq_some_iff :
    ofWord? w = some e ↔ e.Proper ∧ e.size ≤ 4 ∧ e.raw = w.toNat := by
  by_cases h : w.toNat % 4 = 3
  · rw [ofWord?_of_more h]
    constructor
    · intro he
      split_ifs at he with hfour
      cases he
      exact ⟨⟨.four h hfour, w.isLt⟩, le_rfl, rfl⟩
    · rintro ⟨⟨hannounces, -⟩, hsize, hraw⟩
      rw [hraw] at hannounces
      cases e with
      | bits16 v => cases hannounces with | two h' => exact absurd h h'
      | bits32 v =>
          cases hannounces with
          | four _ hfour => rw [if_pos hfour, BitVec.toNat_inj.mp hraw]
      | bits48 v | bits64 v => simp [size] at hsize
  · rw [ofWord?_of_two h]
    have hbits : w.toNat < 2 ^ 16 → (w.extractLsb 15 0).toNat = w.toNat := by
      intro hlt
      rw [BitVec.extractLsb_toNat]
      exact Nat.mod_eq_of_lt hlt
    constructor
    · intro he
      split_ifs at he with hlt
      cases he
      have hraw : (bits16 (w.extractLsb 15 0)).raw = w.toNat := hbits hlt
      exact ⟨⟨hraw.symm ▸ .two h, hraw.symm ▸ hlt⟩, by simp [size], hraw⟩
    · rintro ⟨⟨hannounces, hlt⟩, hsize, hraw⟩
      rw [hraw] at hannounces hlt
      cases e with
      | bits16 v =>
          have hlt : w.toNat < 2 ^ 16 := hlt
          rw [if_pos hlt, Option.some.injEq, bits16.injEq, ← BitVec.toNat_inj, hbits hlt]
          exact hraw.symm
      | bits32 v => cases hannounces with | four h' _ => exact absurd h' h
      | bits48 v | bits64 v => simp [size] at hsize

/-- Four bytes are those of an encoding and zeros behind it if they are the same number. -/
theorem littleEndian_eq_append_iff (h : e.Proper) {n : Nat} (hn : n < 256 ^ 4) :
    (∃ rest, littleEndian 4 n = e.bytes ++ rest ∧ ∀ b ∈ rest, b = 0) ↔
      e.size ≤ 4 ∧ e.raw = n := by
  constructor
  · rintro ⟨rest, hbytes, hzeros⟩
    have hlength := congrArg List.length hbytes
    have hvalue := congrArg ofLittleEndian hbytes
    rw [Bytes.length_littleEndian, List.length_append, length_bytes] at hlength
    rw [Bytes.ofLittleEndian_littleEndian hn, Bytes.ofLittleEndian_append,
      Bytes.ofLittleEndian_zeros hzeros, h.ofLittleEndian_bytes, Nat.mul_zero,
      Nat.add_zero] at hvalue
    exact ⟨by omega, hvalue.symm⟩
  · rintro ⟨hsize, rfl⟩
    have hzeros : ∀ b ∈ List.replicate (4 - e.size) (0 : UInt8), b = 0 :=
      fun b hb => List.eq_of_mem_replicate hb
    refine ⟨List.replicate (4 - e.size) 0, ?_, hzeros⟩
    have hround := Bytes.littleEndian_ofLittleEndian (e.bytes ++ List.replicate (4 - e.size) 0)
    rw [Bytes.ofLittleEndian_append, Bytes.ofLittleEndian_zeros hzeros, h.ofLittleEndian_bytes,
      Nat.mul_zero, Nat.add_zero, List.length_append, List.length_replicate, length_bytes,
      Nat.add_sub_cancel' hsize] at hround
    exact hround

end Encoding

/-! ## Instructions -/

namespace Instruction

/-- The bits, lowest byte first. -/
def bytes (i : Instruction) : List UInt8 :=
  littleEndian i.size i.encoding.raw

/-- Instructions are split off one after the other until this fails. -/
inductive Exhausts (base : BaseSet) :
    List UInt8 → List Instruction → List UInt8 → DecodeError → Prop
  | fails {data : List UInt8} {cause : DecodeError} : split? base data = .error cause →
      Exhausts base data [] data cause
  | splits {data rest left : List UInt8} {i : Instruction} {is : List Instruction}
      {cause : DecodeError} : split? base data = .ok (i, rest) →
      Exhausts base rest is left cause → Exhausts base data (i :: is) left cause

variable {i : Instruction} {is : List Instruction} {cause : DecodeError}

theorem encoding_of_split? (h : split? base data = .ok (i, rest)) :
    Encoding.split? data = .ok (i.encoding, rest) := by
  rw [split?] at h
  split at h
  · cases h
  · rename_i e tail hsplit
    rw [decode?] at h
    split at h
    · cases h
      exact hsplit
    · cases h

theorem eq_bytes_append (h : split? base data = .ok (i, rest)) : data = i.bytes ++ rest :=
  (Encoding.split?_eq_ok_iff.mp (encoding_of_split? h)).2

namespace Exhausts

theorem bytes (h : Exhausts base data is left cause) :
    is.flatMap Instruction.bytes ++ left = data := by
  induction h with
  | fails h => rfl
  | splits h _ ih => rw [List.flatMap_cons, List.append_assoc, ih, ← eq_bytes_append h]

theorem unique {is' : List Instruction} {left' : List UInt8} {cause' : DecodeError}
    (h : Exhausts base data is left cause) (h' : Exhausts base data is' left' cause') :
    (is, left, cause) = (is', left', cause') := by
  induction h generalizing is' with
  | fails h =>
      cases h' with
      | fails h' =>
          cases h.symm.trans h'
          rfl
      | splits h' _ => cases h.symm.trans h'
  | splits h _ ih =>
      cases h' with
      | fails h' => cases h.symm.trans h'
      | splits h' hrest =>
          cases h.symm.trans h'
          cases ih hrest
          rfl

end Exhausts

/-- Splitting off ends, since each instruction has bytes of its own. -/
theorem exhausts_listing (base : BaseSet) (data : List UInt8) :
    Exhausts base data (listing base data).1 (listing base data).2.1
      ((listing base data).2.2.getD .truncated) := by
  fun_induction listing base data with
  | case1 data hempty =>
      obtain rfl := List.isEmpty_iff.mp hempty
      exact .fails rfl
  | case2 data hempty cause h => exact .fails h
  | case3 data hempty i rest h hlength is left cause hlisting ih =>
      rw [hlisting] at ih
      exact .splits h ih

/-- Splitting off instructions until this fails ends in one way, and their bytes and what is left
are the byte string. An encoding is split off whatever follows it, and this fails only for the lack
of bytes that the first one announces, or if that announces no supported length. A word holds what
is split off its bytes, if all others are zero. -/
theorem instructions_partition_bytes (base : BaseSet) (data : List UInt8) :
    (∃! r : List Instruction × List UInt8 × DecodeError, Exhausts base data r.1 r.2.1 r.2.2) ∧
      (∀ is left cause, Exhausts base data is left cause → is.flatMap bytes ++ left = data) ∧
      (∀ e rest more, Encoding.split? data = .ok (e, rest) →
        Encoding.split? (data ++ more) = .ok (e, rest ++ more)) ∧
      (Encoding.split? data = .error .truncated ↔
        data = [] ∨ ∃ first size, data.head? = some first ∧ Announces first.toNat size ∧
          data.length < size) ∧
      (Encoding.split? data = .error .unsupportedLength ↔
        ∃ first, data.head? = some first ∧ first.toNat % 128 = 127) ∧
      ∀ (w : BitVec 32) (e : Encoding), Encoding.ofWord? w = some e ↔
        ∃ rest, Encoding.split? (littleEndian 4 w.toNat) = .ok (e, rest) ∧ ∀ b ∈ rest, b = 0 := by
  refine ⟨⟨_, exhausts_listing base data, fun r hr => hr.unique (exhausts_listing base data)⟩,
    fun is left cause h => h.bytes, fun e rest more h => Encoding.split?_append h more,
    Encoding.split?_eq_truncated_iff, Encoding.split?_eq_unsupportedLength_iff, fun w e => ?_⟩
  simp only [Encoding.ofWord?_eq_some_iff, Encoding.split?_eq_ok_iff, and_assoc, exists_and_left]
  exact and_congr_right fun h => (Encoding.littleEndian_eq_append_iff h w.isLt).symm

/-- An instruction of 32 bits, one of 16 bits, and the first bytes of an encoding of 48 bits. -/
theorem cut_off_encoding_is_left :
    let data : List UInt8 := [0x13, 0x05, 0x15, 0x00, 0x82, 0x80, 0x1f, 0x00]
    let e : Encoding := .bits32 0x00150513
    ∃ is, Exhausts .rv32 data is [0x1f, 0x00] .truncated ∧
      is.flatMap bytes ++ [0x1f, 0x00] = data ∧
      Encoding.split? data = .ok (e, [0x82, 0x80, 0x1f, 0x00]) ∧
      Encoding.split? (data ++ [0x01]) = .ok (e, [0x82, 0x80, 0x1f, 0x00, 0x01]) := by
  intro data e
  obtain ⟨-, hbytes, happend, -⟩ := instructions_partition_bytes .rv32 data
  have hexhausts : Exhausts .rv32 data _ [0x1f, 0x00] .truncated :=
    .splits rfl (.splits rfl (.fails rfl))
  have hsplit : Encoding.split? data = .ok (e, [0x82, 0x80, 0x1f, 0x00]) := rfl
  exact ⟨_, hexhausts, hbytes _ _ _ hexhausts, hsplit, happend e _ [0x01] hsplit⟩

end Instruction

end Retrace.Isa
