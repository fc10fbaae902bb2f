import Mathlib.Order.Basic
import Retrace.Text.Utf8

/-!
# UTF-8 is read back

The bytes of a text are decoded to it.
-/

namespace Retrace.Text.Utf8

/-- The bytes of a text. -/
def encode (s : String) : List UInt8 :=
  s.toList.flatMap String.utf8EncodeChar

variable {n m : Nat} {p : Unfinished} {b : UInt8} {c : Char} {rest : List UInt8} {s : String}

theorem toNat_byte (h : n < 256) : (UInt8.ofNat n).toNat = n :=
  UInt8.toNat_ofNat_of_lt' h

theorem byte_lt (h : n < 256) (b : UInt8) : UInt8.ofNat n < b ↔ n < b.toNat := by
  rw [UInt8.lt_iff_toNat_lt, toNat_byte h]

theorem byte_eq (h : n < 256) (b : UInt8) : UInt8.ofNat n = b ↔ n = b.toNat := by
  rw [← UInt8.toNat_inj, toNat_byte h]

/-! ## First bytes -/

theorem lead_one (h : n < 0x80) : lead (UInt8.ofNat n) = .char (Char.ofNat n) := by
  have hn : n < 256 := by omega
  simp only [lead, byte_lt hn, byte_eq hn, toNat_byte hn, UInt8.reduceToNat]
  rw [if_pos h]

theorem lead_two (h : 0xc2 ≤ n) (h' : n < 0xe0) :
    lead (UInt8.ofNat n) = .start ⟨1, 0x80, 0xbf, n % 32⟩ := by
  have hn : n < 256 := by omega
  simp only [lead, byte_lt hn, byte_eq hn, toNat_byte hn, UInt8.reduceToNat]
  rw [if_neg (by omega), if_neg (by omega), if_pos h']

theorem lead_three (h : 0xe0 ≤ n) (h' : n < 0xf0) :
    lead (UInt8.ofNat n) = .start
      ⟨2, if n = 0xe0 then 0xa0 else 0x80, if n = 0xed then 0x9f else 0xbf, n % 16⟩ := by
  have hn : n < 256 := by omega
  simp only [lead, byte_lt hn, byte_eq hn, toNat_byte hn, UInt8.reduceToNat]
  rw [if_neg (by omega), if_neg (by omega), if_neg (by omega)]
  by_cases hfirst : n = 0xe0
  · simp [hfirst]
  · by_cases hlast : n = 0xed
    · simp [hlast]
    · simp [hfirst, hlast, h']

theorem lead_four (h : 0xf0 ≤ n) (h' : n < 0xf5) :
    lead (UInt8.ofNat n) = .start
      ⟨3, if n = 0xf0 then 0x90 else 0x80, if n = 0xf4 then 0x8f else 0xbf, n % 8⟩ := by
  have hn : n < 256 := by omega
  simp only [lead, byte_lt hn, byte_eq hn, toNat_byte hn, UInt8.reduceToNat]
  rw [if_neg (by omega), if_neg (by omega), if_neg (by omega), if_neg (by omega),
    if_neg (by omega), if_neg (by omega)]
  by_cases hfirst : n = 0xf0
  · simp [hfirst]
  · by_cases hlast : n = 0xf4
    · simp [hlast]
    · rw [if_neg hfirst, if_pos (by omega), if_neg hfirst, if_neg hlast]

/-! ## Characters -/

theorem chars_char (h : lead b = .char c) : chars none (b :: rest) = some c :: chars none rest := by
  simp only [chars, h]

theorem chars_start (h : lead b = .start p) : chars none (b :: rest) = chars (some p) rest := by
  simp only [chars, h]

theorem chars_last {low high : UInt8} {value : Nat} (hm : m < 64) (hlow : low.toNat ≤ m + 128)
    (hhigh : m + 128 ≤ high.toNat) :
    chars (some ⟨1, low, high, value⟩) (UInt8.ofNat (m + 128) :: rest) =
      some (Char.ofNat (64 * value + m)) :: chars none rest := by
  have hbyte : (UInt8.ofNat (m + 128)).toNat = m + 128 := toNat_byte (by omega)
  have hmod : (m + 128) % 64 = m := by omega
  generalize UInt8.ofNat (m + 128) = b at hbyte
  simp [chars, UInt8.le_iff_toNat_le, hbyte, hmod, hlow, hhigh]

theorem chars_next {low high : UInt8} {value needed : Nat} (hm : m < 64)
    (hlow : low.toNat ≤ m + 128) (hhigh : m + 128 ≤ high.toNat) :
    chars (some ⟨needed + 2, low, high, value⟩) (UInt8.ofNat (m + 128) :: rest) =
      chars (some ⟨needed + 1, 0x80, 0xbf, 64 * value + m⟩) rest := by
  have hbyte : (UInt8.ofNat (m + 128)).toNat = m + 128 := toNat_byte (by omega)
  have hmod : (m + 128) % 64 = m := by omega
  generalize UInt8.ofNat (m + 128) = b at hbyte
  simp [chars, UInt8.le_iff_toNat_le, hbyte, hmod, hlow, hhigh]

/-- A character is read from its bytes. -/
theorem chars_encode (c : Char) (rest : List UInt8) :
    chars none (String.utf8EncodeChar c ++ rest) = some c :: chars none rest := by
  have hc : Char.ofNat c.val.toNat = c := Char.ofNat_toNat c
  have hvalid : c.val.toNat < 0xd800 ∨ 0xdfff < c.val.toNat ∧ c.val.toNat < 0x110000 := c.valid
  unfold String.utf8EncodeChar
  generalize c.val.toNat = n at hc hvalid ⊢
  simp only
  split_ifs with hone htwo hthree
  · rw [List.singleton_append, chars_char (lead_one (by omega)), hc]
  · have hvalue : 64 * ((n / 64 % 32 + 192) % 32) + n % 64 = n := by omega
    simp only [List.cons_append, List.nil_append]
    rw [chars_start (lead_two (by omega) (by omega)),
      chars_last (by omega) (by simp) (by simp; omega), hvalue, hc]
  · have hvalue : 64 * (64 * ((n / 4096 % 16 + 224) % 16) + n / 64 % 64) + n % 64 = n := by omega
    simp only [List.cons_append, List.nil_append]
    rw [chars_start (lead_three (by omega) (by omega)), chars_next (by omega),
      chars_last (by omega) (by simp) (by simp; omega), hvalue, hc]
    · split_ifs with hfirst
      · simp; omega
      · simp
    · split_ifs with hlast
      · simp; omega
      · simp; omega
  · have hvalue : 64 * (64 * (64 * ((n / 262144 % 8 + 240) % 8) + n / 4096 % 64) + n / 64 % 64) +
        n % 64 = n := by omega
    simp only [List.cons_append, List.nil_append]
    rw [chars_start (lead_four (by omega) (by omega)), chars_next (by omega),
      chars_next (by omega) (by simp) (by simp; omega),
      chars_last (by omega) (by simp) (by simp; omega), hvalue, hc]
    · split_ifs with hfirst
      · simp; omega
      · simp
    · split_ifs with hlast
      · simp; omega
      · simp; omega

theorem chars_encodeAll (s : String) : chars none (encode s) = s.toList.map some := by
  unfold encode
  induction s.toList with
  | nil => rfl
  | cons c cs ih => rw [List.flatMap_cons, chars_encode, ih, List.map_cons]

/-! ## Texts -/

theorem decodeLossy_encode (s : String) : decodeLossy (encode s) = s := by
  rw [decodeLossy, chars_encodeAll, List.map_map]
  exact (congrArg String.ofList (List.map_id s.toList)).trans String.ofList_toList

theorem encode_eq_nil (h : encode s = []) : s = "" := by
  rw [← decodeLossy_encode s, h]
  rfl

theorem decode?_encode (s : String) : decode? (encode s) = some s := by
  have hchars : (s.toList.map some).mapM id = some s.toList := by
    exact List.mapM_map.trans (List.mapM_pure.trans (congrArg some (List.map_id _)))
  rw [decode?, chars_encodeAll, hchars, Option.map_some, String.ofList_toList]

theorem zero_mem_encodeChar (h : 0 ∈ String.utf8EncodeChar c) : c = '\x00' := by
  have hc : Char.ofNat c.val.toNat = c := Char.ofNat_toNat c
  have hvalid : c.val.toNat < 0xd800 ∨ 0xdfff < c.val.toNat ∧ c.val.toNat < 0x110000 := c.valid
  unfold String.utf8EncodeChar at h
  generalize c.val.toNat = n at hc hvalid h
  simp only at h
  split_ifs at h with hone htwo hthree <;>
    simp only [List.mem_cons, List.not_mem_nil, or_false, ← UInt8.toNat_inj, UInt8.toNat_ofNat',
      UInt8.reduceToNat] at h
  · obtain rfl : n = 0 := by omega
    exact hc.symm
  all_goals omega

/-- Only a NUL has a byte that is zero. -/
theorem encode_ne_zero (h : '\x00' ∉ s.toList) : ∀ b ∈ encode s, b ≠ 0 := by
  rintro b hb rfl
  obtain ⟨c, hc, hzero⟩ := List.mem_flatMap.mp hb
  exact h (zero_mem_encodeChar hzero ▸ hc)

end Retrace.Text.Utf8
