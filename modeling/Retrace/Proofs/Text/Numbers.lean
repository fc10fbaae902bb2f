import Mathlib.Data.List.DropRight
import Mathlib.Data.List.Forall2
import Mathlib.Data.Nat.Digits.Defs
import Mathlib.Tactic.IntervalCases
import Retrace.Text.Blank
import Retrace.Text.Hex
import Retrace.Text.Number

/-!
# Numbers in texts

What a text is without the blanks around it, what digits denote, and that numbers are read
accordingly: one or more digits, with any number of zeros ahead, behind a plus sign or none, and
nothing else. The digits that a number is written in denote it.
-/

namespace Retrace.Text

variable {base d n : Nat} {c : Char} {v : UInt64} {cs body digits sign : List Char}

/-! ## Blanks around a text -/

/-- Characters without the blanks around them: nothing else is left out, and no blank is left at
either end. -/
structure IsTrimmed (cs body : List Char) : Prop where
  blanks : ∃ before after, cs = before ++ body ++ after ∧ ∀ c ∈ before ++ after, isBlank c = true
  start : ∀ c ∈ body.head?, isBlank c = false
  stop : ∀ c ∈ body.getLast?, isBlank c = false

theorem isTrimmed_self (h : ∀ c ∈ cs, isBlank c = false) : IsTrimmed cs cs where
  blanks := ⟨[], [], by simp⟩
  start c hc := h c (List.mem_of_head? hc)
  stop c hc := h c (List.mem_of_getLast? hc)

theorem head?_dropWhile (cs : List Char) :
    ∀ c ∈ (cs.dropWhile isBlank).head?, isBlank c = false := by
  intro c hc
  have h := List.head?_dropWhile_not isBlank cs
  rw [Option.mem_def.mp hc] at h
  exact h

theorem dropWhile_of_head? (h : ∀ c ∈ cs.head?, isBlank c = false) :
    cs.dropWhile isBlank = cs := by
  cases cs with
  | nil => rfl
  | cons c cs => exact List.dropWhile_cons_of_neg (ne_true_of_eq_false (h c rfl))

theorem isTrimmed_trim (s : String) : IsTrimmed s.toList (trim s).toList := by
  rw [trim, String.toList_ofList]
  generalize s.toList = cs
  have hstart : cs.takeWhile isBlank ++ cs.dropWhile isBlank = cs :=
    List.takeWhile_append_dropWhile
  have hstop : trimEnd (cs.dropWhile isBlank) ++ (cs.dropWhile isBlank).rtakeWhile isBlank =
      cs.dropWhile isBlank := List.rdropWhile_append_rtakeWhile
  refine ⟨⟨cs.takeWhile isBlank, (cs.dropWhile isBlank).rtakeWhile isBlank, ?_, ?_⟩, ?_, ?_⟩
  · rw [List.append_assoc, hstop, hstart]
  · exact List.forall_mem_append.mpr
      ⟨fun c => List.mem_takeWhile_imp, fun c => List.mem_rtakeWhile_imp⟩
  · -- What is left begins as the text does behind its first blanks.
    intro c hc
    refine head?_dropWhile cs c ?_
    rw [← hstop, List.head?_append, Option.mem_def.mp hc]
    rfl
  · intro c hc
    rw [trimEnd, List.getLast?_reverse] at hc
    exact head?_dropWhile _ c hc

theorem IsTrimmed.eq_trim {s : String} (h : IsTrimmed s.toList body) : (trim s).toList = body := by
  obtain ⟨⟨before, after, hs, hblanks⟩, hstart, hstop⟩ := h
  obtain ⟨hbefore, hafter⟩ := List.forall_mem_append.mp hblanks
  rw [trim, String.toList_ofList, hs, List.append_assoc, List.dropWhile_append_of_pos hbefore]
  cases body with
  | nil =>
      rw [List.nil_append, List.dropWhile_eq_nil_iff.mpr hafter]
      rfl
  | cons c body =>
      have hbegin : (c :: body ++ after).dropWhile isBlank = c :: body ++ after :=
        dropWhile_of_head? hstart
      have hreverse : (c :: body).reverse.dropWhile isBlank = (c :: body).reverse :=
        dropWhile_of_head? (by rwa [List.head?_reverse])
      rw [hbegin, trimEnd, List.reverse_append,
        List.dropWhile_append_of_pos fun a ha => hafter a (List.mem_reverse.mp ha), hreverse,
        List.reverse_reverse]

/-- Trimming a text takes off the blanks around it. -/
theorem isTrimmed_iff {s : String} : IsTrimmed s.toList body ↔ (trim s).toList = body :=
  ⟨IsTrimmed.eq_trim, fun h => h ▸ isTrimmed_trim s⟩

/-! ## Digits -/

/-- A digit of a base up to 16, a letter in either case, and what it counts. -/
def IsDigit (base : Nat) (c : Char) (d : Nat) : Prop :=
  d < base ∧ c.toLower = d.digitChar

/-- One or more digits, the greatest place first, and the number that they denote. -/
def Denotes (base : Nat) (cs : List Char) (n : Nat) : Prop :=
  cs ≠ [] ∧ ∃ ds, List.Forall₂ (IsDigit base) cs ds ∧ n = Nat.ofDigits base ds.reverse

theorem toNat_toLower (c : Char) :
    c.toLower.toNat = if 65 ≤ c.toNat ∧ c.toNat ≤ 90 then c.toNat + 32 else c.toNat := by
  by_cases h : 65 ≤ c.toNat ∧ c.toNat ≤ 90
  · have hlower : c.toLower.toNat = (c.val + ('a'.val - 'A'.val)).toNat :=
      congrArg Char.toNat (dif_pos h)
    rw [if_pos h, hlower, UInt32.toNat_add]
    exact Nat.mod_eq_of_lt (Nat.add_lt_of_lt_sub (Nat.lt_of_le_of_lt h.2 (by decide)))
  · have hlower : c.toLower = c := dif_neg h
    rw [if_neg h, hlower]

theorem toNat_digitChar (h : d < 16) : d.digitChar.toNat = if d < 10 then 48 + d else 87 + d := by
  interval_cases d <;> rfl

theorem isDigit_iff (hbase : base ≤ 16) :
    IsDigit base c d ↔ d < base ∧ c.toLower.toNat = if d < 10 then 48 + d else 87 + d := by
  refine and_congr_right fun hd => ?_
  rw [← Char.toNat_inj, toNat_digitChar (hd.trans_le hbase)]

theorem digit?_eq_some_iff (hbase : base ≤ 16) : digit? base c = some d ↔ IsDigit base c d := by
  have hle : ∀ a b : Char, a ≤ b ↔ a.toNat ≤ b.toNat := fun _ _ => Iff.rfl
  rw [isDigit_iff hbase, toNat_toLower, digit?]
  simp only [hle, Char.reduceToNat, Option.ite_none_right_eq_some, Option.some.injEq]
  split_ifs <;> omega

theorem isBlank_of_isDigit (hbase : base ≤ 16) (h : IsDigit base c d) : isBlank c = false := by
  rw [isDigit_iff hbase, toNat_toLower] at h
  have hrange : 48 ≤ c.toNat ∧ c.toNat ≤ 102 := by
    obtain ⟨hd, hc⟩ := h
    split_ifs at hc <;> omega
  have hblanks : ∀ n, 48 ≤ n → n ≤ 102 →
      [0x20, 0x85, 0xa0, 0x1680, 0x2028, 0x2029, 0x202f, 0x205f, 0x3000].contains n = false := by
    decide
  simp only [isBlank, hblanks c.toNat hrange.1 hrange.2, Bool.or_false, Bool.or_eq_false_iff,
    Bool.and_eq_false_iff, decide_eq_false_iff_not]
  omega

/-! ## Numbers -/

theorem ofDigits_eq (base : Nat) (ds : List Nat) :
    ofDigits base ds = Nat.ofDigits base ds.reverse := by
  rw [Nat.ofDigits_eq_foldr, List.foldr_reverse, ofDigits]
  simp only [Nat.cast_id, Nat.add_comm (base * _)]

theorem mapM_digit?_eq_some_iff (hbase : base ≤ 16) {ds : List Nat} :
    cs.mapM (digit? base) = some ds ↔ List.Forall₂ (IsDigit base) cs ds := by
  induction cs generalizing ds with
  | nil => simp [eq_comm]
  | cons c cs ih =>
      simp only [List.mapM_cons, Option.bind_eq_bind, Option.bind_eq_some_iff,
        digit?_eq_some_iff hbase, ih, List.forall₂_cons_left_iff]
      constructor
      · rintro ⟨d, hd, ds, hds, h⟩
        exact ⟨d, ds, hd, hds, (Option.some.inj h).symm⟩
      · rintro ⟨d, ds, hd, hds, rfl⟩
        exact ⟨d, hd, ds, hds, rfl⟩

theorem digits?_eq_some_iff (hbase : base ≤ 16) :
    digits? base cs = some n ↔ Denotes base cs n := by
  rw [digits?, Denotes]
  cases cs with
  | nil => simp
  | cons c cs =>
      rw [if_neg (by simp), Option.map_eq_some_iff]
      simp only [mapM_digit?_eq_some_iff hbase, ofDigits_eq, eq_comm (a := n)]
      exact (and_iff_right (List.cons_ne_nil c cs)).symm

theorem Denotes.exists_isDigit (h : Denotes base cs n) (hc : c ∈ cs) : ∃ d, IsDigit base c d := by
  obtain ⟨-, ds, hds, -⟩ := h
  induction hds with
  | nil => cases hc
  | cons hd hds ih =>
      cases hc with
      | head => exact ⟨_, hd⟩
      | tail _ hc => exact ih hc

/-- What may stand ahead of the digits of a number. -/
def optionalPlus : List (List Char) :=
  [[], ['+']]

theorem exists_withoutPlus (cs : List Char) :
    ∃ sign ∈ optionalPlus, cs = sign ++ withoutPlus cs := by
  rw [withoutPlus.eq_def]
  split
  · exact ⟨['+'], by decide, rfl⟩
  · exact ⟨[], by decide, rfl⟩

theorem Denotes.plus_not_mem (hbase : base ≤ 16) (h : Denotes base digits n) : '+' ∉ digits := by
  intro hmem
  obtain ⟨d, hd⟩ := h.exists_isDigit hmem
  obtain ⟨-, hd⟩ := (isDigit_iff hbase).mp hd
  have hlower : '+'.toLower.toNat = 43 := rfl
  split_ifs at hd <;> omega

theorem Denotes.withoutPlus (hbase : base ≤ 16) (hsign : sign ∈ optionalPlus)
    (h : Denotes base digits n) : withoutPlus (sign ++ digits) = digits := by
  rcases List.mem_pair.mp hsign with rfl | rfl
  · rw [List.nil_append, withoutPlus.eq_def]
    split
    · exact absurd List.mem_cons_self (h.plus_not_mem hbase)
    · rfl
  · rfl

/-- An unsigned number is read from one or more digits behind a plus sign or none, precisely if
their value has no more than 64 bits. -/
theorem unsigned?_eq_some_iff (hbase : base ≤ 16) :
    unsigned? base cs = some v ↔
      ∃ sign ∈ optionalPlus, ∃ digits, cs = sign ++ digits ∧ Denotes base digits v.toNat := by
  constructor
  · intro h
    obtain ⟨n, hn, h⟩ := Option.bind_eq_some_iff.mp h
    obtain ⟨hlt, hv⟩ := Option.ite_none_right_eq_some.mp h
    obtain ⟨sign, hsign, hcs⟩ := exists_withoutPlus cs
    have htoNat : v.toNat = n := by
      rw [← Option.some.inj hv]
      exact UInt64.toNat_ofNat_of_lt hlt
    exact ⟨sign, hsign, _, hcs, htoNat ▸ (digits?_eq_some_iff hbase).mp hn⟩
  · rintro ⟨sign, hsign, digits, rfl, h⟩
    have hv : v.toNat.toUInt64 = v := UInt64.ofNat_toNat
    rw [unsigned?, h.withoutPlus hbase hsign, (digits?_eq_some_iff hbase).mpr h]
    exact (if_pos v.toNat_lt).trans (congrArg some hv)

/-! ## Written numbers -/

theorem isDigit_digitChar (hbase : base ≤ 16) (hd : d < base) : IsDigit base d.digitChar d := by
  refine ⟨hd, ?_⟩
  have hd' : d < 16 := hd.trans_le hbase
  interval_cases d <;> rfl

theorem denotes_digit (h : IsDigit base c d) : Denotes base [c] d :=
  ⟨List.cons_ne_nil c [], [d], .cons h .nil, Nat.ofDigits_singleton.symm⟩

theorem Denotes.concat (h : Denotes base cs n) (hd : IsDigit base c d) :
    Denotes base (cs ++ [c]) (base * n + d) := by
  obtain ⟨-, ds, hds, rfl⟩ := h
  refine ⟨List.append_ne_nil_of_right_ne_nil cs (List.cons_ne_nil c []), ds ++ [d],
    List.rel_append hds (.cons hd .nil), ?_⟩
  rw [List.reverse_concat, Nat.ofDigits_cons, Nat.add_comm]

/-- The digits in which a number is written denote it. -/
theorem denotes_toDigits (hone : 1 < base) (hbase : base ≤ 16) (n : Nat) :
    Denotes base (Nat.toDigits base n) n := by
  induction n using Nat.base_induction base hone with
  | single n hn =>
      rw [Nat.toDigits_of_lt_base hn]
      exact denotes_digit (isDigit_digitChar hbase hn)
  | digit n d hd hn ih =>
      rw [← Nat.toDigits_append_toDigits hone hn hd, Nat.toDigits_of_lt_base hd]
      exact ih.concat (isDigit_digitChar hbase hd)

end Retrace.Text
