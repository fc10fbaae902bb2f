import Retrace.Isa.Compressed
import Retrace.Isa.Computation
import Retrace.Isa.Encoding

/-!
# Instructions

An instruction is an encoding together with the operation that it means on a base set.
`Instruction.decode?` gives the meaning of an encoding, `Instruction.split?` reads the first
instruction of a byte string, and `Instruction.listing` all of them up to the first that cannot
be read.
-/

namespace Retrace.Isa

/-- Why a byte string does not start with an instruction. -/
inductive DecodeError where
  /-- There are fewer bytes than the length of the encoding. -/
  | truncated
  /-- The encoding is longer than 64 bits. -/
  | unsupportedLength
  /-- The encoding has no known meaning. -/
  | unknown (encoding : Encoding)
  deriving DecidableEq, Repr

namespace DecodeError

def ofEncodingError : EncodingError → DecodeError
  | .truncated => truncated
  | .unsupportedLength => unsupportedLength

def message : DecodeError → String
  | truncated => "not enough bytes for an instruction"
  | unsupportedLength => "unsupported instruction length"
  | unknown e => "unknown instruction " ++ e.text

end DecodeError

/-- An encoding and what it means. -/
structure Instruction where
  encoding : Encoding
  operation : Operation
  deriving DecidableEq, Repr

/-- The system instructions whose fields are all fixed, by the bits above the opcode. -/
def system? (upper : BitVec 25) : Option Operation :=
  match upper with
  | 0b000000000000_00000_000_00000#25 => some .ecall
  | 0b000000000001_00000_000_00000#25 => some .ebreak
  | 0b000000000010_00000_000_00000#25 => some .uret
  | 0b000100000010_00000_000_00000#25 => some .sret
  | 0b001100000010_00000_000_00000#25 => some .mret
  | 0b011110110010_00000_000_00000#25 => some .dret
  | 0b000100000101_00000_000_00000#25 => some .wfi
  | _ =>
    if upper.extractLsb 24 18 = 0b0001001#7 ∧ upper.extractLsb 4 0 = 0#5 then some .sfenceVma
    else none

/-- The test that a branch makes. -/
def branchTest? (funct3 : BitVec 3) : Option BranchTest :=
  match funct3 with
  | 0b000#3 => some .eq
  | 0b001#3 => some .ne
  | 0b100#3 => some .lt
  | 0b101#3 => some .ge
  | 0b110#3 => some .ltu
  | 0b111#3 => some .geu
  | _ => none

/-- The control transfers, fences, upper immediates and system instructions of a 32-bit word. -/
def transfer? (w : BitVec 32) : Option Operation :=
  let funct3 := w.extractLsb 14 12
  match w.extractLsb 6 0 with
  | 0b0001111#7 =>
    if funct3 = 0#3 then some .fence else if funct3 = 1#3 then some .fenceI else none
  | 0b0110111#7 => some (.lui (.ofWord w))
  | 0b0010111#7 => some (.auipc (.ofWord w))
  | 0b1100011#7 => (branchTest? funct3).map (.branch · (.ofWord w))
  | 0b1100111#7 => if funct3 = 0#3 then some (.jalr (.ofWord w)) else none
  | 0b1101111#7 => some (.jal (.ofWord w))
  | 0b1110011#7 => if funct3 = 0#3 then system? (w.extractLsb 31 7) else none
  | _ => none

/-- The operation of a 32-bit word. -/
def ofWord? (base : BaseSet) (w : BitVec 32) : Option Operation :=
  transfer? w <|> Computation.ofWord? base w

/-- The operation of an encoding. Encodings longer than 32 bits have none that is known. -/
def operation? (base : BaseSet) : Encoding → Option Operation
  | .bits16 w => Compressed.ofHalf? base w
  | .bits32 w => ofWord? base w
  | .bits48 _ | .bits64 _ => none

namespace Instruction

/-- The instruction of an encoding. -/
def decode? (base : BaseSet) (e : Encoding) : Except DecodeError Instruction :=
  match operation? base e with
  | some op => .ok ⟨e, op⟩
  | none => .error (.unknown e)

/-- The first instruction of a byte string and the bytes after it. -/
def split? (base : BaseSet) (data : List UInt8) : Except DecodeError (Instruction × List UInt8) :=
  match Encoding.split? data with
  | .error e => .error (.ofEncodingError e)
  | .ok (e, rest) => (decode? base e).map (·, rest)

/-- The length in bytes. -/
def size (i : Instruction) : Nat :=
  i.encoding.size

/-- The number of half-words, which is what traces count. -/
def halves (i : Instruction) : Nat :=
  i.size / 2

def mnemonic (i : Instruction) : String :=
  i.operation.mnemonic

/-- The mnemonic and the operands. -/
def text (i : Instruction) : String :=
  i.operation.text

end Instruction

/-! ## Cutting off an encoding makes progress -/

theorem Encoding.sizeOfFirst?_pos {first : UInt8} {size : Nat}
    (h : Encoding.sizeOfFirst? first = some size) : 0 < size := by
  unfold Encoding.sizeOfFirst? at h
  repeat' split at h
  all_goals simp at h
  all_goals omega

theorem Encoding.length_of_split? {data rest : List UInt8} {e : Encoding}
    (h : Encoding.split? data = .ok (e, rest)) : rest.length < data.length := by
  unfold Encoding.split? at h
  split at h
  · simp at h
  · split at h
    · simp at h
    · rename_i first tail size hs
      have := Encoding.sizeOfFirst?_pos hs
      simp only at h
      split at h
      · simp at h
      · cases h
        simp only [List.length_drop, List.length_cons]
        omega

theorem Instruction.length_of_split? {base : BaseSet} {data rest : List UInt8} {i : Instruction}
    (h : Instruction.split? base data = .ok (i, rest)) : rest.length < data.length := by
  unfold Instruction.split? at h
  split at h
  · simp at h
  · rename_i e r hs
    have hl := Encoding.length_of_split? hs
    cases hd : Instruction.decode? base e with
    | error _ => simp [hd, Except.map] at h
    | ok j =>
      simp only [hd, Except.map, Except.ok.injEq, Prod.mk.injEq] at h
      rw [← h.2]
      exact hl

/-- The instructions at the start of a byte string: as many as can be read, the bytes left, and
why no further one could be read, if there are any. -/
def Instruction.listing (base : BaseSet) (data : List UInt8) :
    List Instruction × List UInt8 × Option DecodeError :=
  if data.isEmpty then ([], [], none)
  else
    match h : Instruction.split? base data with
    | .error e => ([], data, some e)
    | .ok (i, rest) =>
      have : rest.length < data.length := Instruction.length_of_split? h
      let (is, left, e) := listing base rest
      (i :: is, left, e)
termination_by data.length

end Retrace.Isa
