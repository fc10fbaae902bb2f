import Mathlib.Tactic.Ring
import Retrace.Bytes.Parser

/-!
# What parsers read

A parser reads a value from bytes if it takes these bytes and no more, whatever comes after them.
Parsers that are put together read bytes that are put together.
-/

namespace Retrace.Bytes

/-- The lowest bytes of a number, lowest first. -/
def littleEndian : Nat → Nat → List UInt8
  | 0, _ => []
  | size + 1, n => UInt8.ofNat n :: littleEndian size (n / 256)

@[simp]
theorem length_littleEndian (size n : Nat) : (littleEndian size n).length = size := by
  induction size generalizing n with
  | zero => rfl
  | succ size ih => rw [littleEndian, List.length_cons, ih]

theorem ofLittleEndian_littleEndian {size n : Nat} (h : n < 256 ^ size) :
    ofLittleEndian (littleEndian size n) = n := by
  induction size generalizing n with
  | zero => exact (Nat.lt_one_iff.mp h).symm
  | succ size ih =>
      have hrest : n / 256 < 256 ^ size := Nat.div_lt_of_lt_mul (by rwa [← Nat.pow_succ'])
      rw [littleEndian, ofLittleEndian, ih hrest, UInt8.toNat_ofNat']
      exact Nat.mod_add_div n 256

theorem littleEndian_ofLittleEndian (bytes : List UInt8) :
    littleEndian bytes.length (ofLittleEndian bytes) = bytes := by
  induction bytes with
  | nil => rfl
  | cons b bytes ih =>
      have hb := b.toNat_lt
      have hlow : UInt8.ofNat (b.toNat + 256 * ofLittleEndian bytes) = b := by
        rw [← UInt8.toNat_inj, UInt8.toNat_ofNat', Nat.add_mul_mod_self_left]
        exact Nat.mod_eq_of_lt hb
      have hhigh : (b.toNat + 256 * ofLittleEndian bytes) / 256 = ofLittleEndian bytes := by
        omega
      rw [ofLittleEndian, List.length_cons, littleEndian, hlow, hhigh, ih]

theorem ofLittleEndian_lt (bytes : List UInt8) : ofLittleEndian bytes < 256 ^ bytes.length := by
  induction bytes with
  | nil => exact Nat.one_pos
  | cons b bytes ih =>
      have hb := b.toNat_lt
      rw [ofLittleEndian, List.length_cons, Nat.pow_succ]
      omega

theorem ofLittleEndian_append (xs ys : List UInt8) :
    ofLittleEndian (xs ++ ys) = ofLittleEndian xs + 256 ^ xs.length * ofLittleEndian ys := by
  induction xs with
  | nil => simp [ofLittleEndian]
  | cons b xs ih =>
      rw [List.cons_append, ofLittleEndian, ofLittleEndian, ih, List.length_cons, Nat.pow_succ]
      ring

theorem ofLittleEndian_zeros {bytes : List UInt8} (h : ∀ b ∈ bytes, b = 0) :
    ofLittleEndian bytes = 0 := by
  induction bytes with
  | nil => rfl
  | cons b bytes ih =>
      obtain ⟨rfl, hbytes⟩ := List.forall_mem_cons.mp h
      rw [ofLittleEndian, ih hbytes]
      rfl

/-- The bytes stand in the data at an offset. -/
def At (data : List UInt8) (offset : Nat) (bytes : List UInt8) : Prop :=
  ∃ before after, data = before ++ (bytes ++ after) ∧ before.length = offset

namespace At

variable {data xs : List UInt8} {offset : Nat}

theorem start (xs rest : List UInt8) : At (xs ++ rest) 0 xs :=
  ⟨[], rest, rfl, rfl⟩

theorem drop (h : At data offset xs) : ∃ rest, data.drop offset = xs ++ rest := by
  obtain ⟨before, after, rfl, rfl⟩ := h
  exact ⟨after, List.drop_left⟩

theorem le_length (h : At data offset xs) : offset + xs.length ≤ data.length := by
  obtain ⟨before, after, rfl, rfl⟩ := h
  simp

end At

namespace Parser

/-- The parser takes the bytes, whatever comes after them, and gives the value. -/
def Reads {α : Type} (p : Parser α) (bytes : List UInt8) (a : α) : Prop :=
  ∀ rest, p (bytes ++ rest) = some (a, rest)

namespace Reads

variable {α β : Type} {p : Parser α} {f : α → Parser β} {xs ys : List UInt8} {a : α} {b : β}

theorem pure (a : α) : Reads (Pure.pure a) [] a :=
  fun _ => rfl

theorem bind_apply (hp : Reads p xs a) (rest : List UInt8) : (p >>= f) (xs ++ rest) = f a rest := by
  change (p (xs ++ rest)).bind (fun x => f x.1 x.2) = f a rest
  rw [hp, Option.bind_some]

theorem bind (hp : Reads p xs a) (hf : Reads (f a) ys b) : Reads (p >>= f) (xs ++ ys) b := by
  intro rest
  rw [List.append_assoc, hp.bind_apply, hf]

theorem map (hp : Reads p xs a) (g : α → β) : Reads (p >>= fun a => Pure.pure (g a)) xs (g a) := by
  have hbind := hp.bind (f := fun a => Pure.pure (g a)) (.pure (g a))
  rwa [List.append_nil] at hbind

theorem require {c : Prop} [Decidable c] {f : Unit → Parser β} (hc : c) (hf : Reads (f ()) ys b) :
    Reads (Parser.require c >>= f) ys b := by
  rw [Parser.require, if_pos hc]
  exact hf

theorem byte (b : UInt8) : Reads Parser.byte [b] b :=
  fun _ => rfl

theorem take {count : Nat} (h : xs.length = count) : Reads (Parser.take count) xs xs := by
  intro rest
  subst h
  simp [Parser.take]

theorem number {size n : Nat} (h : n < 256 ^ size) :
    Reads (Parser.number size) (littleEndian size n) n := by
  have hmap := (take (length_littleEndian size n)).map ofLittleEndian
  rwa [ofLittleEndian_littleEndian h] at hmap

theorem untilZero (h : ∀ b ∈ xs, b ≠ 0) : Reads Parser.untilZero (xs ++ [0]) xs := by
  intro rest
  induction xs with
  | nil => rfl
  | cons b xs ih =>
      obtain ⟨hb, hxs⟩ := List.forall_mem_cons.mp h
      rw [List.cons_append, List.cons_append, Parser.untilZero, if_neg hb, ih hxs]
      rfl

theorem times {γ : Type} (cs : List γ) {bytes : γ → List UInt8} {value : γ → α}
    (h : ∀ c ∈ cs, Reads p (bytes c) (value c)) :
    Reads (p.times cs.length) (cs.flatMap bytes) (cs.map value) := by
  induction cs with
  | nil => exact .pure []
  | cons c cs ih =>
      obtain ⟨hc, hcs⟩ := List.forall_mem_cons.mp h
      exact hc.bind ((ih hcs).map (value c :: ·))

theorem run? (h : Reads p xs a) (ys : List UInt8) : p.run? (xs ++ ys) = some a := by
  rw [Parser.run?, h ys]
  rfl

theorem run?_self (h : Reads p xs a) : p.run? xs = some a := by
  have hrun := h.run? []
  rwa [List.append_nil] at hrun

theorem run?_at {data : List UInt8} {offset : Nat} (h : Reads p xs a) (hat : At data offset xs) :
    p.run? (data.drop offset) = some a := by
  obtain ⟨rest, hrest⟩ := hat.drop
  rw [hrest, h.run?]

theorem within (h : p.run? xs = some a) : Reads (p.within xs) [] a := by
  rw [Parser.within, h]
  exact .pure a

end Reads

end Parser

end Retrace.Bytes
