import Retrace.Dwarf.LineHeader

/-!
# Line programs

A line program is run by a state machine that emits rows: an address and the file and line of
the code from there on. Sequences of rows end with a row that gives the address behind them.

An address that a linker has marked as removed starts a gap: up to the next address or the end
of the sequence nothing is emitted and the address stands still.
-/

namespace Retrace.Dwarf

open Bytes

/-! ## Instructions -/

/-- An instruction of a line program. Instructions without influence on rows are `ignored`. -/
inductive Instruction where
  | special (opcode : Nat)
  | copy
  | advanceAddress (operations : Nat)
  | advanceLine (lines : Int)
  | setFile (file : Nat)
  | addConstant
  | addFixed (bytes : Nat)
  | endSequence
  | setAddress (address : Nat)
  | defineFile (entry : FileEntry)
  | ignored
  deriving DecidableEq, Repr

/-- An extended instruction, which has a length of its own. -/
def extendedInstruction (h : LineHeader) : Parser Instruction := do
  match (← Parser.byte).toNat with
  | 1 => return .endSequence
  | 2 =>
    Parser.require (isAddressSize h.addressSize)
    return .setAddress (← Parser.number h.addressSize)
  | 3 =>
    if h.version ≤ 4 then
      let path ← Parser.untilZero
      return .defineFile (← fileEntry path)
    else return .ignored
  | 4 =>
    let _discriminator ← Leb128.unsigned
    return .ignored
  | _ => return .ignored

/-- The arguments of a standard instruction without a meaning, as many as the header says. -/
def unknownInstruction (h : LineHeader) (opcode : Nat) : Parser Instruction :=
  match h.opcodeLengths[opcode - 1]? with
  | none => Parser.fail
  | some count => do
    let _ ← Leb128.unsigned.times count.toNat
    return .ignored

/-- A standard instruction. -/
def standardInstruction (h : LineHeader) (opcode : Nat) : Parser Instruction :=
  match opcode with
  | 1 => return .copy
  | 2 => return .advanceAddress (← Leb128.unsigned)
  | 3 => return .advanceLine (← Leb128.signed)
  | 4 => return .setFile (← Leb128.unsigned)
  | 5 | 12 => do
    let _ ← Leb128.unsigned
    return .ignored
  | 6 | 7 | 10 | 11 => return .ignored
  | 8 => return .addConstant
  | 9 => return .addFixed (← Parser.number 2)
  | _ => unknownInstruction h opcode

/-- The rest of an instruction, the opcode of which is known. -/
def instruction (h : LineHeader) (opcode : Nat) : Parser Instruction :=
  if opcode = 0 then do
    let length ← Leb128.unsigned
    (extendedInstruction h).within (← Parser.take length)
  else if h.opcodeBase ≤ opcode then return .special opcode
  else standardInstruction h opcode

theorem standardInstruction_shrinks (h : LineHeader) (opcode : Nat) :
    (standardInstruction h opcode).Shrinks := by
  unfold standardInstruction
  split
  case h_1 => exact .pure _
  case h_2 => exact .bind Leb128.unsigned_shrinks fun _ => .pure _
  case h_3 => exact .bind Leb128.signed_shrinks fun _ => .pure _
  case h_4 => exact .bind Leb128.unsigned_shrinks fun _ => .pure _
  case h_5 => exact .bind Leb128.unsigned_shrinks fun _ => .pure _
  case h_6 => exact .bind Leb128.unsigned_shrinks fun _ => .pure _
  case h_11 => exact .pure _
  case h_12 => exact .bind (.number 2) fun _ => .pure _
  case h_13 =>
    unfold unknownInstruction
    split
    · exact .fail
    · exact .bind (.times Leb128.unsigned_shrinks _) fun _ => .pure _
  all_goals exact .pure _

theorem instruction_shrinks (h : LineHeader) (opcode : Nat) : (instruction h opcode).Shrinks :=
  .ite (.bind Leb128.unsigned_shrinks fun _ => .bind (.take _) fun _ => .within _ _)
    (.ite (.pure _) (standardInstruction_shrinks h opcode))

/-! ## The state machine -/

/-- The number of addresses of some bytes. -/
def addressLimit (size : Nat) : Nat :=
  1 <<< (8 * size)

/-- The registers of the state machine. -/
structure Registers where
  address : UInt64 := 0
  operation : UInt64 := 0
  file : UInt64 := 1
  line : UInt64 := 1
  /-- Whether the code has been removed. -/
  isGap : Bool := false
  deriving DecidableEq, Repr, Inhabited

namespace Registers

/-- The line moved by a distance; lines below zero are zero. -/
def moveLine (r : Registers) (distance : Int) : Registers :=
  let line :=
    if 0 ≤ distance then r.line + distance.toNat.toUInt64
    else if distance.natAbs ≤ r.line.toNat then r.line - distance.natAbs.toUInt64
    else 0
  { r with line }

/-- The address moved by some bytes, unless it leaves the addresses of that size. -/
def moveAddress? (r : Registers) (addressSize : Nat) (bytes : UInt64) : Option Registers :=
  if r.address.toNat + bytes.toNat < addressLimit addressSize then
    some { r with address := r.address + bytes }
  else none

/-- The address moved by operations, several of which may make up one instruction. -/
def moveOperations? (h : LineHeader) (r : Registers) (operations : UInt64) : Option Registers :=
  if r.isGap then some r
  else
    let length := h.minimumInstructionLength.toUInt64
    if h.maximumOperations = 1 then
      { r with operation := 0 }.moveAddress? h.addressSize (length * operations)
    else
      let total := r.operation + operations
      let maximum := h.maximumOperations.toUInt64
      { r with operation := total % maximum }.moveAddress? h.addressSize
        (length * (total / maximum))

/-- The registers at a given address. Addresses before the current one, and the two greatest
ones, mark removed code. -/
def setAddress (h : LineHeader) (r : Registers) (address : Nat) : Registers :=
  if address < r.address.toNat ∨ addressLimit h.addressSize - 2 ≤ address then
    { r with isGap := true }
  else { r with address := address.toUInt64, operation := 0, isGap := false }

end Registers

/-- The state of a line program: its registers and the files that it knows. -/
structure LineState where
  registers : Registers
  files : List FileEntry
  deriving Repr

/-- What an instruction emits. -/
inductive Emission where
  | nothing
  | row
  | endOfSequence
  deriving DecidableEq, Repr

/-- The state after an instruction, and what it emits; fails if the address overflows. -/
def LineState.execute? (h : LineHeader) (s : LineState) (i : Instruction) :
    Option (LineState × Emission) :=
  let r := s.registers
  match i with
  | .special opcode =>
    let code := opcode - h.opcodeBase
    let r := r.moveLine (h.lineBase + (code % h.lineRange : Nat))
    (r.moveOperations? h (code / h.lineRange).toUInt64).map fun r =>
      ({ s with registers := r }, .row)
  | .copy => some (s, .row)
  | .advanceAddress operations =>
    (r.moveOperations? h operations.toUInt64).map fun r => ({ s with registers := r }, .nothing)
  | .advanceLine lines => some ({ s with registers := r.moveLine lines }, .nothing)
  | .setFile file => some ({ s with registers := { r with file := file.toUInt64 } }, .nothing)
  | .addConstant =>
    (r.moveOperations? h ((255 - h.opcodeBase) / h.lineRange).toUInt64).map fun r =>
      ({ s with registers := r }, .nothing)
  | .addFixed bytes =>
    if r.isGap then some (s, .nothing)
    else
      ({ r with operation := 0 }.moveAddress? h.addressSize bytes.toUInt64).map fun r =>
        ({ s with registers := r }, .nothing)
  | .endSequence => some (s, .endOfSequence)
  | .setAddress address => some ({ s with registers := r.setAddress h address }, .nothing)
  | .defineFile entry => some ({ s with files := s.files ++ [entry] }, .nothing)
  | .ignored => some (s, .nothing)

/-! ## Rows -/

/-- The string that starts at an offset of a section. -/
def stringAt? (data : List UInt8) (offset : Nat) : Option (List UInt8) :=
  if offset ≤ data.length then Parser.untilZero.run? (data.drop offset) else none

/-- The entry of an index. Up to version 4, indices start with one. -/
def LineHeader.indexed? {α : Type} (h : LineHeader) (entries : List α) (index : Nat) : Option α :=
  if 5 ≤ h.version then entries[index]?
  else if index = 0 then none
  else entries[index - 1]?

/-- The file of an index with its directory. -/
def LineHeader.source? (h : LineHeader) (files : List FileEntry) (index : Nat) :
    Option SourceFile :=
  (h.indexed? files index).map fun file => ⟨file.path, h.indexed? h.directories file.directory⟩

/-- The row of a state. -/
def LineState.row (h : LineHeader) (s : LineState) (isEnd : Bool) : Row :=
  let r := s.registers
  ⟨r.address, r.file, h.source? s.files r.file.toNat, r.line, isEnd⟩

/-- A row that an instruction emits, and whether it is dropped since its code has been removed. -/
structure Emitted where
  row : Row
  isDropped : Bool
  deriving DecidableEq, Repr

/-- The rows that are not dropped. -/
def yielded (es : List Emitted) : List Row :=
  (es.filter (!·.isDropped)).map Emitted.row

/-- The rows that a program emits from a state on; fails at an instruction that is cut off or
moves the address too far. -/
def emitted? (h : LineHeader) (s : LineState) (program : List UInt8) : Option (List Emitted) :=
  match program with
  | [] => some []
  | opcode :: rest =>
    match hi : instruction h opcode.toNat rest with
    | none => none
    | some (i, rest') =>
      have : rest'.length < (opcode :: rest).length :=
        Nat.lt_succ_of_le (instruction_shrinks h _ _ _ _ hi)
      match s.execute? h i with
      | none => none
      | some (s, emission) =>
        let isEnd := emission = .endOfSequence
        let e := ⟨s.row h isEnd, s.registers.isGap⟩
        let later := emitted? h (if isEnd then { s with registers := {} } else s) rest'
        if emission = .nothing then later else later.map (e :: ·)
termination_by program.length
decreasing_by exact this

def LineUnit.emitted? (u : LineUnit) : Option (List Emitted) :=
  Dwarf.emitted? u.header ⟨{}, u.header.files⟩ u.program

/-- The reader of these programs. -/
def reader : Reader where
  Program := LineUnit
  program? data offset addressSize := (unit addressSize).run? (data.drop offset)
  unitLength u := u.length
  is64 u := u.offsetSize = 8
  rows? u := u.emitted?.map yielded
  string? := stringAt?

end Retrace.Dwarf
