import Retrace.Dwarf.Leb128
import Retrace.Proofs.Bytes.Reads

/-!
# Numbers of variable length

What bytes denote, and that numbers of either sign are written in as many bytes as they need. What
is written denotes the number, and bytes are read as what they denote.
-/

namespace Retrace.Dwarf.Leb128

open Bytes

/-- The bytes denote an unsigned number. -/
inductive Unsigned : List UInt8 → Nat → Prop
  | last {b : UInt8} : b.toNat < 128 → Unsigned [b] b.toNat
  | more {b : UInt8} {bytes : List UInt8} {n : Nat} : 128 ≤ b.toNat → Unsigned bytes n →
      Unsigned (b :: bytes) (b.toNat - 128 + 128 * n)

/-- The bytes denote a signed number. -/
inductive Signed : List UInt8 → Int → Prop
  | positive {b : UInt8} : b.toNat < 64 → Signed [b] b.toNat
  | negative {b : UInt8} : 64 ≤ b.toNat → b.toNat < 128 → Signed [b] (b.toNat - 128)
  | more {b : UInt8} {bytes : List UInt8} {n : Int} : 128 ≤ b.toNat → Signed bytes n →
      Signed (b :: bytes) (b.toNat - 128 + 128 * n)

/-- The bytes of an unsigned number. -/
def encodeUnsigned (n : Nat) : List UInt8 :=
  if n / 128 = 0 then [UInt8.ofNat (n % 128)]
  else UInt8.ofNat (n % 128 + 128) :: encodeUnsigned (n / 128)

/-- The bytes of a signed number: they go on until what is left is the sign alone. -/
def encodeSigned (n : Int) : List UInt8 :=
  if n / 128 = 0 ∧ n % 128 < 64 ∨ n / 128 = -1 ∧ 64 ≤ n % 128 then [UInt8.ofNat (n % 128).toNat]
  else UInt8.ofNat ((n % 128).toNat + 128) :: encodeSigned (n / 128)
termination_by n.natAbs

variable {shift : Nat} {bytes : List UInt8}

theorem toNat_digit {m : Nat} (h : m < 128) : (UInt8.ofNat m).toNat = m :=
  UInt8.toNat_ofNat_of_lt' (Nat.lt_trans h (by decide))

theorem toNat_digit_more {m : Nat} (h : m < 128) : (UInt8.ofNat (m + 128)).toNat = m + 128 :=
  UInt8.toNat_ofNat_of_lt' (Nat.add_lt_add_right h 128)

/-! ## Unsigned numbers -/

theorem unsigned_encode (n : Nat) : Unsigned (encodeUnsigned n) n := by
  fun_induction encodeUnsigned n with
  | case1 n hn =>
      have hlt : n < 128 := by omega
      have hbyte := toNat_digit hlt
      have hlast := Unsigned.last (b := UInt8.ofNat n) (by omega)
      rw [hbyte] at hlast
      rwa [Nat.mod_eq_of_lt hlt]
  | case2 n hn ih =>
      have hbyte := toNat_digit_more (Nat.mod_lt n (by decide : 0 < 128))
      have hmore := Unsigned.more (b := UInt8.ofNat (n % 128 + 128)) (by omega) ih
      rwa [hbyte, Nat.add_sub_cancel, Nat.mod_add_div] at hmore

theorem length_encodeUnsigned {n : Nat} (size : Nat) (h : n < 128 ^ (size + 1)) :
    (encodeUnsigned n).length ≤ size + 1 := by
  induction size generalizing n with
  | zero =>
      rw [encodeUnsigned, if_pos (by omega)]
      exact Nat.le_refl 1
  | succ size ih =>
      have hrest : n / 128 < 128 ^ (size + 1) := Nat.div_lt_of_lt_mul (by rwa [← Nat.pow_succ'])
      rw [encodeUnsigned]
      split
      · exact Nat.succ_le_succ (Nat.zero_le _)
      · exact Nat.succ_le_succ (ih hrest)

/-- Up to nine bytes hold less than 64 bits. -/
theorem Unsigned.reads_from {n : Nat} (h : Unsigned bytes n)
    (hlength : shift + 7 * bytes.length ≤ 63) : (unsignedFrom shift).Reads bytes n := by
  intro rest
  induction h generalizing shift with
  | last hb =>
      rw [List.length_singleton] at hlength
      rw [List.singleton_append, unsignedFrom, if_neg (by omega), goesOn, digit,
        if_neg (by simpa using hb), Nat.mod_eq_of_lt hb]
  | @more b bytes n hb _ ih =>
      have hlt := b.toNat_lt
      have hdigit : b.toNat % 128 = b.toNat - 128 := by omega
      rw [List.length_cons] at hlength
      rw [List.cons_append, unsignedFrom, if_neg (by omega), goesOn, digit,
        if_pos (by simpa using hb), ih (by omega), hdigit]
      rfl

theorem Unsigned.reads {n : Nat} (h : Unsigned bytes n) (hlength : bytes.length ≤ 9) :
    unsigned.Reads bytes n :=
  h.reads_from (by omega)

/-! ## Signed numbers -/

theorem signed_encode (n : Int) : Signed (encodeSigned n) n := by
  fun_induction encodeSigned n with
  | case1 n hn =>
      have hbyte := toNat_digit (m := (n % 128).toNat) (by omega)
      rcases hn with ⟨hzero, hlow⟩ | ⟨hone, hhigh⟩
      · have hlast := Signed.positive (b := UInt8.ofNat (n % 128).toNat) (by omega)
        rwa [hbyte, show ((n % 128).toNat : Int) = n by omega] at hlast
      · have hlast := Signed.negative (b := UInt8.ofNat (n % 128).toNat) (by omega) (by omega)
        rwa [hbyte, show ((n % 128).toNat : Int) - 128 = n by omega] at hlast
  | case2 n hn ih =>
      have hbyte := toNat_digit_more (m := (n % 128).toNat) (by omega)
      have hmore := Signed.more (b := UInt8.ofNat ((n % 128).toNat + 128)) (by omega) ih
      rwa [hbyte, show (((n % 128).toNat + 128 : Nat) : Int) - 128 + 128 * (n / 128) = n by omega]
        at hmore

theorem length_encodeSigned {n : Int} (size : Nat) (hlow : -(64 * 128 ^ size) ≤ n)
    (hhigh : n < 64 * 128 ^ size) : (encodeSigned n).length ≤ size + 1 := by
  induction size generalizing n with
  | zero =>
      rw [encodeSigned, if_pos (by omega)]
      exact Nat.le_refl 1
  | succ size ih =>
      have hpow : (128 : Int) ^ (size + 1) = 128 ^ size * 128 := pow_succ 128 size
      rw [hpow] at hlow hhigh
      rw [encodeSigned]
      split
      · exact Nat.succ_le_succ (Nat.zero_le _)
      · exact Nat.succ_le_succ (ih (by omega) (by omega))

theorem Signed.reads_from {n : Int} (h : Signed bytes n)
    (hlength : shift + 7 * bytes.length ≤ 63) : (signedFrom shift).Reads bytes n := by
  intro rest
  induction h generalizing shift with
  | positive hb =>
      rw [List.length_singleton] at hlength
      rw [List.singleton_append, signedFrom, if_neg (by omega), goesOn, digit,
        Nat.mod_eq_of_lt (by omega), if_neg (by simp; omega), if_pos hb]
  | negative hlow hb =>
      rw [List.length_singleton] at hlength
      rw [List.singleton_append, signedFrom, if_neg (by omega), goesOn, digit,
        Nat.mod_eq_of_lt hb, if_neg (by simp; omega), if_neg (by omega)]
  | @more b bytes n hb _ ih =>
      have hlt := b.toNat_lt
      have hdigit : ((b.toNat % 128 : Nat) : Int) = b.toNat - 128 := by omega
      rw [List.length_cons] at hlength
      rw [List.cons_append, signedFrom, if_neg (by omega), goesOn, digit,
        if_pos (by simpa using hb), ih (by omega), Option.map_some, hdigit]

theorem Signed.reads {n : Int} (h : Signed bytes n) (hlength : bytes.length ≤ 9) :
    signed.Reads bytes n :=
  h.reads_from (by omega)

end Retrace.Dwarf.Leb128
