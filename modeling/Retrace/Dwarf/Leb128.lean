import Retrace.Bytes.Parser

/-!
# Numbers of variable length

Seven bits of a number per byte, lowest first; all bytes but the last have their highest bit
set. In a signed number the second highest bit of the last byte is the sign. Numbers of more
than 64 bits are refused.
-/

namespace Retrace.Dwarf.Leb128

open Bytes

/-- Whether another byte follows. -/
def goesOn (b : UInt8) : Bool :=
  128 ≤ b.toNat

/-- The seven bits that a byte carries. -/
def digit (b : UInt8) : Nat :=
  b.toNat % 128

/-- An unsigned number, after `shift` bits of it. Bits beyond the 64th must be zero. -/
def unsignedFrom (shift : Nat) : Parser Nat
  | [] => none
  | b :: rest =>
    if shift = 63 ∧ b.toNat > 1 then none
    else if goesOn b then
      (unsignedFrom (shift + 7) rest).map fun (high, rest) => (digit b + 128 * high, rest)
    else some (digit b, rest)

/-- An unsigned number. -/
def unsigned : Parser Nat :=
  unsignedFrom 0

/-- A signed number, after `shift` bits of it. The bits beyond the 64th must equal the sign. -/
def signedFrom (shift : Nat) : Parser Int
  | [] => none
  | b :: rest =>
    if shift = 63 ∧ b.toNat ≠ 0 ∧ b.toNat ≠ 127 then none
    else if goesOn b then
      (signedFrom (shift + 7) rest).map fun (high, rest) => (digit b + 128 * high, rest)
    else some (if digit b < 64 then (digit b : Int) else digit b - 128, rest)

/-- A signed number. -/
def signed : Parser Int :=
  signedFrom 0

/-- An unsigned number below 65536, in at most three bytes. -/
def unsigned16 : Parser Nat := do
  let a ← Parser.byte
  if goesOn a then
    let b ← Parser.byte
    if goesOn b then
      let c ← Parser.byte
      Parser.require (c.toNat ≤ 3)
      return digit a + 128 * digit b + 16384 * c.toNat
    else return digit a + 128 * digit b
  else return digit a

theorem unsignedFrom_shrinks (shift : Nat) : (unsignedFrom shift).Shrinks := by
  intro s
  induction s generalizing shift with
  | nil =>
    intro a r h
    simp [unsignedFrom] at h
  | cons b s ih =>
    intro a r h
    simp only [unsignedFrom] at h
    split at h
    · simp at h
    · split at h
      · cases hs : unsignedFrom (shift + 7) s with
        | none => simp [hs] at h
        | some x =>
          simp only [hs, Option.map_some, Option.some.injEq, Prod.mk.injEq] at h
          rw [← h.2]
          exact Nat.le_succ_of_le (ih _ _ _ hs)
      · cases h
        exact Nat.le_succ _

theorem unsigned_shrinks : unsigned.Shrinks :=
  unsignedFrom_shrinks 0

theorem signedFrom_shrinks (shift : Nat) : (signedFrom shift).Shrinks := by
  intro s
  induction s generalizing shift with
  | nil =>
    intro a r h
    simp [signedFrom] at h
  | cons b s ih =>
    intro a r h
    simp only [signedFrom] at h
    split at h
    · simp at h
    · split at h
      · cases hs : signedFrom (shift + 7) s with
        | none => simp [hs] at h
        | some x =>
          simp only [hs, Option.map_some, Option.some.injEq, Prod.mk.injEq] at h
          rw [← h.2]
          exact Nat.le_succ_of_le (ih _ _ _ hs)
      · cases h
        exact Nat.le_succ _

theorem signed_shrinks : signed.Shrinks :=
  signedFrom_shrinks 0

end Retrace.Dwarf.Leb128
