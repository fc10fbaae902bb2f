import Retrace.Bytes.Number

/-!
# Parsers of bytes

A parser reads a value from the front of a byte string and gives the rest, or fails. Parsers
are put together in `do` blocks. `Parser.Shrinks` says that a parser never gives back more than
it was given, which is what loops over the rest need to end.
-/

namespace Retrace.Bytes

/-- Reads a value from the front of a byte string and gives the rest, or fails. -/
abbrev Parser (α : Type) := StateT (List UInt8) Option α

namespace Parser

def fail {α : Type} : Parser α := fun _ => none

/-- Fails unless a condition holds. -/
def require (p : Prop) [Decidable p] : Parser Unit :=
  if p then pure () else fail

/-- The first byte. -/
def byte : Parser UInt8
  | [] => none
  | b :: rest => some (b, rest)

/-- The first `count` bytes. -/
def take (count : Nat) : Parser (List UInt8) := fun s =>
  if count ≤ s.length then some (s.take count, s.drop count) else none

/-- A number of `size` bytes, lowest first. -/
def number (size : Nat) : Parser Nat := do
  return ofLittleEndian (← take size)

/-- The bytes up to the first zero, which is read too. -/
def untilZero : Parser (List UInt8)
  | [] => none
  | b :: rest =>
    if b = 0 then some ([], rest)
    else (untilZero rest).map fun (bytes, rest) => (b :: bytes, rest)

/-- What `p` reads `count` times. -/
def times {α : Type} (p : Parser α) : Nat → Parser (List α)
  | 0 => pure []
  | count + 1 => do
    let a ← p
    let as ← times p count
    return a :: as

/-- What a parser reads from a byte string, whatever comes after it. -/
def run? {α : Type} (p : Parser α) (bytes : List UInt8) : Option α :=
  (p bytes).map (·.1)

/-- What a parser reads from a byte string of its own. -/
def within {α : Type} (p : Parser α) (bytes : List UInt8) : Parser α :=
  match p.run? bytes with
  | some a => pure a
  | none => fail

/-! ## No parser adds bytes -/

theorem length_of_untilZero {s a r : List UInt8} (h : untilZero s = some (a, r)) :
    r.length < s.length := by
  induction s generalizing a with
  | nil => simp [untilZero] at h
  | cons b s ih =>
    simp only [untilZero] at h
    split at h
    · cases h
      exact Nat.lt_succ_self _
    · cases hs : untilZero s with
      | none => simp [hs] at h
      | some x =>
        simp only [hs, Option.map_some, Option.some.injEq, Prod.mk.injEq] at h
        have hs' : untilZero s = some (x.1, r) := by rw [hs, ← h.2]
        exact Nat.lt_succ_of_lt (ih hs')

theorem length_of_take {count : Nat} {s a r : List UInt8} (h : Parser.take count s = some (a, r)) :
    count + r.length = s.length := by
  unfold Parser.take at h
  split at h
  · cases h
    rw [List.length_drop]
    omega
  · cases h

/-- The rest is no longer than what was given. -/
def Shrinks {α : Type} (p : Parser α) : Prop :=
  ∀ s a r, p s = some (a, r) → r.length ≤ s.length

namespace Shrinks

variable {α β : Type}

theorem pure (a : α) : Shrinks (Pure.pure a : Parser α) := by
  intro s b r h
  cases h
  exact Nat.le_refl _

theorem fail : Shrinks (Parser.fail : Parser α) := by
  intro s b r h
  cases h

theorem bind {p : Parser α} {f : α → Parser β} (hp : Shrinks p) (hf : ∀ a, Shrinks (f a)) :
    Shrinks (p >>= f) := by
  intro s b r h
  change (p s).bind (fun x => f x.1 x.2) = some (b, r) at h
  cases hs : p s with
  | none => simp [hs] at h
  | some x =>
    simp only [hs, Option.bind_some] at h
    exact Nat.le_trans (hf _ _ _ _ h) (hp _ _ _ hs)

theorem ite {c : Prop} [Decidable c] {p q : Parser α} (hp : Shrinks p) (hq : Shrinks q) :
    Shrinks (if c then p else q) := by
  split
  · exact hp
  · exact hq

theorem take (count : Nat) : Shrinks (Parser.take count) := fun _ _ _ h =>
  length_of_take h ▸ Nat.le_add_left _ count

theorem number (size : Nat) : Shrinks (Parser.number size) :=
  bind (take size) fun _ => pure _

theorem times {p : Parser α} (hp : Shrinks p) (count : Nat) : Shrinks (p.times count) := by
  induction count with
  | zero => exact pure []
  | succ n ih => exact bind hp fun _ => bind ih fun _ => pure _

theorem within (p : Parser α) (bytes : List UInt8) : Shrinks (p.within bytes) := by
  unfold Parser.within
  split
  · exact pure _
  · exact fail

end Shrinks

/-- What `p` reads after each string that ends with a zero, up to an empty one. -/
def untilEmpty {α : Type} (p : List UInt8 → Parser α) (hp : ∀ text, (p text).Shrinks)
    (s : List UInt8) : Option (List α × List UInt8) :=
  match h : untilZero s with
  | none => none
  | some ([], rest) => some ([], rest)
  | some (b :: text, rest) =>
    match h' : p (b :: text) rest with
    | none => none
    | some (a, rest') =>
      have : rest'.length < s.length :=
        Nat.lt_of_le_of_lt (hp _ _ _ _ h') (length_of_untilZero h)
      (untilEmpty p hp rest').map fun (as, rest) => (a :: as, rest)
termination_by s.length

end Parser

end Retrace.Bytes
