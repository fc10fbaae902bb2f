import Retrace.Config.Mask
import Retrace.Proofs.Text.Numbers

/-!
# Masks are read back

The texts of masks are stated as a grammar, apart from how they are read. A text is read as a mask
precisely if the grammar has it, and the text that a mask is written as stands for that mask.
-/

namespace Retrace.Mask

open Text

/-! ## The texts of masks -/

/-- The texts of masks, without blanks around them, and the numbers that they stand for. One of
`signs` stands ahead of the digits. -/
inductive Spells (signs : List (List Char)) : List Char → Nat → Prop where
  | all {cs : List Char} (hcs : cs.map Char.toLower = ['a', 'l', 'l']) :
      Spells signs cs (UInt64.size - 1)
  | hexadecimal {x : Char} {sign digits : List Char} {n : Nat} (hx : x = 'x' ∨ x = 'X')
      (hsign : sign ∈ signs) (hdigits : Denotes 16 digits n) (hn : n < UInt64.size) :
      Spells signs ('0' :: x :: (sign ++ digits)) n
  | decimal {sign digits : List Char} {n : Nat} (hsign : sign ∈ signs)
      (hdigits : Denotes 10 digits n) (hn : n < UInt64.size) : Spells signs (sign ++ digits) n

/-- What a text stands for as a mask. Blanks around it do not count. -/
def Spelled (signs : List (List Char)) (s : String) (n : Nat) : Prop :=
  ∃ cs, IsTrimmed s.toList cs ∧ Spells signs cs n

variable {bits : UInt64} {n : Nat} {c x : Char} {cs sign digits : List Char} {m : Mask} {s : String}
  {signs : List (List Char)} {e : MaskError}

theorem Spells.lt_size (h : Spells signs cs n) : n < UInt64.size := by
  cases h with
  | all hcs => decide
  | hexadecimal hx hsign hdigits hn => exact hn
  | decimal hsign hdigits hn => exact hn

/-- Where no sign is allowed, no text of a mask has one. -/
theorem Spells.plus_not_mem (h : Spells [[]] cs n) : '+' ∉ cs := by
  intro hmem
  cases h with
  | all hcs =>
      have hlower := List.mem_map_of_mem (f := Char.toLower) hmem
      rw [hcs] at hlower
      exact absurd hlower (by decide)
  | hexadecimal hx hsign hdigits hn =>
      obtain rfl := List.mem_singleton.mp hsign
      rw [List.mem_cons, List.mem_cons] at hmem
      rcases hmem with hmem | rfl | hmem
      · exact absurd hmem (by decide)
      · exact absurd hx (by decide)
      · exact hdigits.plus_not_mem (by decide) hmem
  | decimal hsign hdigits hn =>
      obtain rfl := List.mem_singleton.mp hsign
      exact hdigits.plus_not_mem (by decide) hmem

theorem Spells.of_hexadecimal (hx : x = 'x' ∨ x = 'X') (h : unsigned? 16 cs = some bits) :
    Spells optionalPlus ('0' :: x :: cs) bits.toNat := by
  obtain ⟨sign, hsign, digits, rfl, hdigits⟩ := (unsigned?_eq_some_iff (by decide)).mp h
  exact .hexadecimal hx hsign hdigits bits.toNat_lt

theorem Spells.of_decimal (h : unsigned? 10 cs = some bits) :
    Spells optionalPlus cs bits.toNat := by
  obtain ⟨sign, hsign, digits, rfl, hdigits⟩ := (unsigned?_eq_some_iff (by decide)).mp h
  exact .decimal hsign hdigits bits.toNat_lt

theorem spelled_iff : Spelled signs s n ↔ Spells signs (trim s).toList n := by
  simp only [Spelled, isTrimmed_iff, exists_eq_left']

/-! ## Reading -/

theorem lower_eq (c : Char) : lower c = c.toLower := by
  have hupper : ('A' ≤ c ∧ c ≤ 'Z') ↔ (65 ≤ c.toNat ∧ c.toNat ≤ 90) := Iff.rfl
  rw [← Char.toNat_inj, toNat_toLower, lower]
  simp only [hupper]
  split
  · rename_i h
    have hvalid : (c.toNat + 32).isValidChar := .inl (by omega)
    rw [Char.ofNat, dif_pos hvalid]
    rfl
  · rfl

theorem toNat_lt_of_decimal (hsign : sign ∈ optionalPlus) (hdigits : Denotes 10 digits n)
    (hc : c ∈ sign ++ digits) : c.toNat < 58 := by
  rcases List.mem_append.mp hc with hc | hc
  · rcases List.mem_pair.mp hsign with rfl | rfl
    · cases hc
    · obtain rfl := List.mem_singleton.mp hc
      decide
  · obtain ⟨d, hd⟩ := hdigits.exists_isDigit hc
    obtain ⟨hd, hvalue⟩ := (isDigit_iff (by decide)).mp hd
    rw [toNat_toLower] at hvalue
    split_ifs at hvalue <;> omega

theorem ofChars?_of_all (h : cs.map Char.toLower = ['a', 'l', 'l']) :
    ofChars? cs = some all.bits := by
  unfold ofChars?
  rw [funext lower_eq, if_pos h]

theorem ofChars?_hexadecimal (hx : x = 'x' ∨ x = 'X') (digits : List Char) :
    ofChars? ('0' :: x :: digits) = unsigned? 16 digits := by
  have hall : ¬ ('0' :: x :: digits).map lower = ['a', 'l', 'l'] := fun h =>
    absurd (List.cons.inj h).1 (by decide)
  unfold ofChars?
  rw [if_neg hall]
  rcases hx with rfl | rfl <;> rfl

/-- Without letters, a text is no word and has no mark. -/
theorem ofChars?_of_no_letter (h : ∀ c ∈ cs, c.toNat < 58) : ofChars? cs = unsigned? 10 cs := by
  have hall : ¬ cs.map lower = ['a', 'l', 'l'] := fun hcs => by
    have hmem : 'l' ∈ cs.map lower := hcs ▸ by decide
    obtain ⟨c, hc, hlower⟩ := List.mem_map.mp hmem
    have hlt := h c hc
    rw [lower_eq, ← Char.toNat_inj, toNat_toLower, if_neg (by omega)] at hlower
    exact absurd hlower (Nat.ne_of_lt (hlt.trans (by decide)))
  unfold ofChars?
  rw [if_neg hall]
  split
  · exact absurd (h 'x' (by simp)) (by decide)
  · exact absurd (h 'X' (by simp)) (by decide)
  · rfl

theorem ofChars?_eq_some_iff : ofChars? cs = some bits ↔ Spells optionalPlus cs bits.toNat := by
  constructor
  · intro h
    by_cases hall : cs.map Char.toLower = ['a', 'l', 'l']
    · rw [ofChars?_of_all hall] at h
      obtain rfl := Option.some.inj h
      exact .all hall
    · unfold ofChars? at h
      rw [funext lower_eq, if_neg hall] at h
      split at h
      · exact .of_hexadecimal (.inl rfl) h
      · exact .of_hexadecimal (.inr rfl) h
      · exact .of_decimal h
  · -- The number is generalized, since the word fixes it and the case analysis has to see that.
    generalize hbits : bits.toNat = n
    intro h
    cases h with
    | all hcs =>
        rw [ofChars?_of_all hcs]
        exact congrArg some (UInt64.toNat_inj.mp hbits.symm)
    | hexadecimal hx hsign hdigits hn =>
        subst hbits
        rw [ofChars?_hexadecimal hx]
        exact (unsigned?_eq_some_iff (by decide)).mpr ⟨_, hsign, _, rfl, hdigits⟩
    | decimal hsign hdigits hn =>
        subst hbits
        rw [ofChars?_of_no_letter fun c => toNat_lt_of_decimal hsign hdigits]
        exact (unsigned?_eq_some_iff (by decide)).mpr ⟨_, hsign, _, rfl, hdigits⟩

theorem ofText_eq_ok_iff : ofText s = .ok m ↔ Spelled optionalPlus s m.bits.toNat := by
  rw [spelled_iff, ← ofChars?_eq_some_iff, ofText]
  cases ofChars? (trim s).toList with
  | none => simp
  | some bits =>
      cases m
      simp

/-- A text that stands for no number of 64 bits is refused, and named without the blanks around
it. -/
theorem ofText_eq_error_iff :
    ofText s = .error e ↔ e = .badText (trim s) ∧ ∀ n, ¬ Spelled optionalPlus s n := by
  constructor
  · intro h
    refine ⟨?_, fun n hn => ?_⟩
    · rw [ofText] at h
      split at h
      · cases h
      · exact (Except.error.inj h).symm
    · have hlt := (spelled_iff.mp hn).lt_size
      have hbits : n.toUInt64.toNat = n := UInt64.toNat_ofNat_of_lt hlt
      have hok : ofText s = .ok ⟨n.toUInt64⟩ := ofText_eq_ok_iff.mpr (hbits.symm ▸ hn)
      rw [hok] at h
      cases h
  · rintro ⟨rfl, hnone⟩
    rw [ofText]
    split
    · rename_i bits hbits
      exact absurd (spelled_iff.mpr (ofChars?_eq_some_iff.mp hbits)) (hnone _)
    · rfl

theorem ofSetting_text (s : String) : ofSetting (.text s) = ofText s := by
  rw [ofSetting]

/-! ## Writing -/

theorem toList_text (m : Mask) : m.text.toList = '0' :: 'x' :: Nat.toDigits 16 m.bits.toNat := by
  rw [text, hex, hexDigits, String.toList_append, String.toList_ofList (l := Nat.toDigits _ _)]
  rfl

theorem spelled_text (m : Mask) : Spelled optionalPlus m.text m.bits.toNat := by
  have hdigits : Denotes 16 (Nat.toDigits 16 m.bits.toNat) m.bits.toNat :=
    denotes_toDigits (by decide) (by decide) m.bits.toNat
  refine ⟨m.text.toList, isTrimmed_self fun c hc => ?_, ?_⟩
  · rw [toList_text, List.mem_cons, List.mem_cons] at hc
    rcases hc with rfl | rfl | hc
    · decide
    · decide
    · obtain ⟨d, hd⟩ := hdigits.exists_isDigit hc
      exact isBlank_of_isDigit (by decide) hd
  · rw [toList_text]
    exact .hexadecimal (.inl rfl) List.mem_cons_self hdigits m.bits.toNat_lt

/-- A mask is read back from the text that it is written as, and a text is read as a mask precisely
if it spells that mask. -/
theorem masks_read_back_exactly :
    (∀ m : Mask, ofSetting (.text m.text) = .ok m) ∧
      ∀ (s : String) (m : Mask), ofText s = .ok m ↔ Spelled optionalPlus s m.bits.toNat := by
  refine ⟨fun m => ?_, fun _ _ => ofText_eq_ok_iff⟩
  rw [ofSetting_text, ofText_eq_ok_iff]
  exact spelled_text m

/-- Not only digits make a number: a plus sign may stand ahead of them, also behind the mark. -/
theorem plus_sign_is_accepted :
    ofText "+5" = .ok ⟨5⟩ ∧ ¬ Spelled [[]] "+5" 5 ∧
      ofText "0x+5" = .ok ⟨5⟩ ∧ ¬ Spelled [[]] "0x+5" 5 := by
  refine ⟨by decide, fun h => ?_, by decide, fun h => ?_⟩
  · exact (spelled_iff.mp h).plus_not_mem (by decide)
  · exact (spelled_iff.mp h).plus_not_mem (by decide)

end Retrace.Mask
