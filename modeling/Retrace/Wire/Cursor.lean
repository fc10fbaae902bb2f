import Retrace.Wire.Slice

/-!
# Reading fields

The fields of a message follow one another from the lowest bit of its first slice on. A fixed
field has a width that the message type gives; a variable field extends to the end of the first
slice that ends a field or the message, and the next field starts with a new slice.

A `Cursor` is a position in the slices of one message. Each read gives a value or a cause and
the position after it, so that reading can go on after an error too.
-/

namespace Retrace.Wire

/-- Why a field could not be read. -/
inductive FieldError where
  /-- The message ends before the field. -/
  | missing
  /-- A fixed field crosses the end of a field. -/
  | boundary
  /-- A variable field has more than 64 significant bits. -/
  | oversized
  deriving DecidableEq, Repr

def FieldError.message : FieldError → String
  | missing => "message ends before its mandatory fields"
  | boundary => "fixed field crosses a field boundary"
  | oversized => "variable field exceeds 64 bits"

/-- A position in a message: the slices from the current one on, and the number of bits of the
current slice that are used up. -/
structure Cursor where
  slices : List UInt8
  bit : Nat
  deriving DecidableEq, Repr

namespace Cursor

/-- The start of a message. -/
def start (slices : List UInt8) : Cursor :=
  ⟨slices, 0⟩

/-- Reads a fixed field of `width` bits, lowest bits first. -/
def readFixed (width : Nat) (c : Cursor) : Except FieldError Nat × Cursor :=
  if width = 0 then (.ok 0, c)
  else
    match c with
    | ⟨[], bit⟩ => (.error .missing, ⟨[], bit⟩)
    | ⟨s :: rest, bit⟩ =>
      if bit < sliceBits then
        let taken := min (sliceBits - bit) width
        let chunk := (Slice.payload s >>> bit) % (1 <<< taken)
        let (high, c) := readFixed (width - taken) ⟨s :: rest, bit + taken⟩
        (high.map fun v => chunk + v <<< taken, c)
      else if Slice.marker s ≠ .more then (.error .boundary, ⟨s :: rest, bit⟩)
      else readFixed width ⟨rest, 0⟩
termination_by width + c.slices.length

/-- Reads a variable field whose lowest `used` bits are known, from bit `bit` of the current
slice on. -/
def readVariableFrom (used bit : Nat) : List UInt8 → Except FieldError Nat × Cursor
  | [] => (.error .missing, ⟨[], bit⟩)
  | s :: rest =>
    let chunk := (Slice.payload s >>> bit) <<< used
    if UInt64.size ≤ chunk then (.error .oversized, ⟨s :: rest, bit⟩)
    else if Slice.marker s ≠ .more then (.ok chunk, ⟨s :: rest, sliceBits⟩)
    else
      let (high, c) := readVariableFrom (used + (sliceBits - bit)) 0 rest
      (high.map (chunk + ·), c)

/-- Reads a variable field. It starts at the current bit, or in the next slice if the current
one is used up. -/
def readVariable (c : Cursor) : Except FieldError Nat × Cursor :=
  if c.bit < sliceBits then readVariableFrom 0 c.bit c.slices
  else
    match c.slices with
    | [] => (.error .missing, c)
    | s :: rest =>
      if Slice.marker s = .endMessage then (.error .missing, c) else readVariableFrom 0 0 rest

/-- Whether the message holds a further field. -/
def hasMore (c : Cursor) : Bool :=
  match c.slices with
  | [] => false
  | s :: rest => c.bit < sliceBits || (Slice.marker s ≠ .endMessage && !rest.isEmpty)

/-! ## Reading variable fields makes progress -/

theorem length_of_readVariableFrom {used bit : Nat} {s : List UInt8} {v : Nat} {c : Cursor}
    (h : readVariableFrom used bit s = (.ok v, c)) :
    c.bit = sliceBits ∧ c.slices.length ≤ s.length := by
  induction s generalizing used bit v with
  | nil => simp [readVariableFrom] at h
  | cons a s ih =>
    simp only [readVariableFrom] at h
    split at h
    · simp at h
    · split at h
      · simp only [Prod.mk.injEq] at h
        rw [← h.2]
        exact ⟨rfl, Nat.le_refl _⟩
      · simp only [Prod.mk.injEq] at h
        obtain ⟨hv, hc⟩ := h
        cases hr : (readVariableFrom (used + (sliceBits - bit)) 0 s).1 with
        | error e => simp [hr, Except.map] at hv
        | ok w =>
          have hs : readVariableFrom (used + (sliceBits - bit)) 0 s = (.ok w, c) := by
            rw [← hc, ← hr]
          have := ih hs
          exact ⟨this.1, Nat.le_succ_of_le this.2⟩

/-- The slices left, where a slice that is not used up counts twice. -/
def remaining (c : Cursor) : Nat :=
  2 * c.slices.length + if c.bit < sliceBits then 1 else 0

theorem remaining_of_readVariable {c c' : Cursor} {v : Nat} (hm : c.hasMore = true)
    (h : c.readVariable = (.ok v, c')) : c'.remaining < c.remaining := by
  unfold readVariable at h
  unfold remaining
  cases hs : c.slices with
  | nil => simp [hasMore, hs] at hm
  | cons a s =>
    rw [hs] at h
    split at h
    · rename_i hb
      have := length_of_readVariableFrom h
      simp only [this.1, hb, Nat.lt_irrefl, ite_true, ite_false]
      omega
    · rename_i hb
      simp only at h
      split at h
      · simp at h
      · have := length_of_readVariableFrom h
        simp only [this.1, hb, Nat.lt_irrefl, ite_false, List.length_cons]
        omega

end Cursor

end Retrace.Wire
