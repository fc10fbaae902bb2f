import Retrace.Dwarf.Reader
import Retrace.Proofs.Dwarf.Leb128

/-!
# The machine of line programs

Which rows a line program of one file emits, and what a reader tells of a unit with such a program.
This is all that is relied on of readers. The machine is that of DWARF 3, for addresses of 32 bits.
-/

namespace Retrace.Dwarf

open Bytes

/-- The row of the only file at an address. -/
def rowAt (file : List UInt8) (address line : Nat) (isEnd : Bool) : Row :=
  ⟨address.toUInt64, 1, some ⟨.text file, none⟩, line.toUInt64, isEnd⟩

/-- From an address and a line on, the program emits the rows. Addresses before the current one, and
the two greatest ones, would mark code that has been removed. -/
inductive Emits (file : List UInt8) : Nat → Nat → List UInt8 → List Row → Prop
  | stop {address line} : Emits file address line [] []
  | copy {address line program rows} : Emits file address line program rows →
      Emits file address line (1 :: program) (rowAt file address line false :: rows)
  | advanceAddress {address line bytes distance program rows} :
      Leb128.Unsigned bytes distance → bytes.length ≤ 9 → address + distance < 2 ^ 32 →
      Emits file (address + distance) line program rows →
      Emits file address line (2 :: (bytes ++ program)) rows
  | advanceLine {address line line' : Nat} {distance : Int} {bytes program rows} :
      Leb128.Signed bytes distance → bytes.length ≤ 9 → (line' : Int) = line + distance →
      line' < 2 ^ 64 → Emits file address line' program rows →
      Emits file address line (3 :: (bytes ++ program)) rows
  | setAddress {address line address' program rows} : address ≤ address' →
      address' < 2 ^ 32 - 2 → Emits file address' line program rows →
      Emits file address line ([0, 5, 2] ++ littleEndian 4 address' ++ program) rows
  | endSequence {address line program rows} : Emits file 0 1 program rows →
      Emits file address line ([0, 1, 1] ++ program) (rowAt file address line true :: rows)

/-- The numbers of arguments of the standard instructions. -/
def argumentCounts : List UInt8 :=
  [0, 1, 1, 1, 1, 0, 0, 0, 1, 0, 0, 1]

/-- What stands in a unit of one file without a directory. -/
structure UnitLayout where
  isStatement : UInt8
  lineBase : UInt8
  lineRange : UInt8
  file : List UInt8
  program : List UInt8

namespace UnitLayout

variable (u : UnitLayout)

/-- The parameters of the program and the names that it refers to. -/
def header : List UInt8 :=
  [1, u.isStatement, u.lineBase, u.lineRange, 13] ++ argumentCounts ++ [0] ++ u.file ++
    [0, 0, 0, 0] ++ [0]

def body : List UInt8 :=
  littleEndian 2 3 ++ littleEndian 4 u.header.length ++ u.header ++ u.program

def bytes : List UInt8 :=
  littleEndian 4 u.body.length ++ u.body

/-- The file has a name, and there is room for the length. -/
structure Fits : Prop where
  named : u.file ≠ []
  plain : ∀ b ∈ u.file, b ≠ 0
  lineRange : u.lineRange ≠ 0
  length : u.body.length < 0xfffffff0

end UnitLayout

/-- What the reader tells of a line program is what the program emits. -/
structure Reader.Tells (r : Reader) (u : UnitLayout) (program : r.Program) : Prop where
  length : r.unitLength program = u.body.length
  offsets32 : r.is64 program = false
  rows : ∀ rows, Emits u.file 0 1 u.program rows → r.rows? program = some rows

/-- The reader finds the line programs of units and runs them. -/
def Reader.RunsPrograms (r : Reader) : Prop :=
  ∀ (u : UnitLayout) (data : List UInt8) (offset : Nat), u.Fits → At data offset u.bytes →
    ∃ program, r.program? data offset 4 = some program ∧ r.Tells u program

end Retrace.Dwarf
