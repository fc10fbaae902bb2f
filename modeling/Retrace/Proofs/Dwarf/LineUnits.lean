import Retrace.Dwarf.LineProgram
import Retrace.Proofs.Dwarf.LineMachine

/-!
# The reader runs line programs

A unit is read from where it stands, and running its program gives the rows that it emits.
-/

namespace Retrace.Dwarf

open Bytes

/-- The header of the program of a unit as it is read. -/
def UnitLayout.readHeader (u : UnitLayout) : LineHeader :=
  ⟨3, 4, 1, 1, u.lineBase.toInt8.toInt, u.lineRange.toNat, 13, argumentCounts, [],
    [⟨.text u.file, 0⟩]⟩

def UnitLayout.unit (u : UnitLayout) : LineUnit :=
  ⟨u.body.length, 4, u.readHeader, u.program⟩

/-- The state of the machine at an address and a line. -/
def UnitLayout.stateAt (u : UnitLayout) (address line : Nat) : LineState :=
  ⟨{ address := address.toUInt64, line := line.toUInt64 }, u.readHeader.files⟩

variable {α : Type} {p : List UInt8 → Parser α} {hp : ∀ text, (p text).Shrinks}
  {text xs ys : List UInt8} {a : α} {as : List α} {u : UnitLayout} {h : LineHeader} {s : LineState}
  {i : Instruction} {bytes : List UInt8} {address line : Nat}

/-! ## Tables of names -/

theorem reads_untilEmpty_nil : Parser.Reads (Parser.untilEmpty p hp) [0] [] := by
  intro rest
  rw [Parser.untilEmpty]
  split
  · rename_i hnone
    cases hnone
  · rename_i hsome
    cases hsome
    rfl
  · rename_i hsome
    cases hsome

theorem reads_untilEmpty_cons (hne : text ≠ []) (hplain : ∀ b ∈ text, b ≠ 0)
    (ha : (p text).Reads xs a) (has : Parser.Reads (Parser.untilEmpty p hp) ys as) :
    Parser.Reads (Parser.untilEmpty p hp) (text ++ [0] ++ (xs ++ ys)) (a :: as) := by
  intro rest
  obtain ⟨b, text, rfl⟩ := List.exists_cons_of_ne_nil hne
  have htext := Parser.Reads.untilZero hplain (xs ++ ys ++ rest)
  rw [List.append_assoc _ (xs ++ ys), Parser.untilEmpty]
  split
  · rename_i hnone
    rw [htext] at hnone
    cases hnone
  · rename_i hsome
    rw [htext] at hsome
    cases hsome
  · rename_i hsome
    rw [htext] at hsome
    cases hsome
    split
    · rename_i hnone
      rw [List.append_assoc, ha] at hnone
      cases hnone
    · rename_i hsome
      rw [List.append_assoc, ha] at hsome
      cases hsome
      rw [has]
      rfl

namespace UnitLayout.Fits

theorem reads_tables (hu : u.Fits) :
    (tables 3 4).Reads ([0] ++ (u.file ++ [0] ++ ([0, 0, 0] ++ [0])))
      ([], [⟨.text u.file, 0⟩]) := by
  have hzero : Leb128.unsigned.Reads [0] 0 := fun _ => rfl
  have hentry : (fileEntry u.file).Reads [0, 0, 0] ⟨.text u.file, 0⟩ :=
    hzero.bind (hzero.bind (hzero.map fun _ => FileEntry.mk (.text u.file) 0))
  have hfiles : Parser.Reads (Parser.untilEmpty fileEntry fileEntry_shrinks) _ _ :=
    reads_untilEmpty_cons hu.named hu.plain hentry reads_untilEmpty_nil
  exact reads_untilEmpty_nil.bind (hfiles.map fun files => ([], files))

theorem reads_parameters (hu : u.Fits) : (parameters 3 4 4).Reads u.header u.readHeader := by
  have hnumber (b : UInt8) : (Parser.number 1).Reads [b] b.toNat :=
    (show (Parser.take 1).Reads [b] [b] from .take rfl).map ofLittleEndian
  have hrange : u.lineRange.toNat ≠ 0 := fun hzero => hu.lineRange (UInt8.toNat_inj.mp hzero)
  have hcounts : (Parser.take 12).Reads argumentCounts _ := .take rfl
  have htables := hu.reads_tables.map fun t =>
    LineHeader.mk 3 4 1 1 u.lineBase.toInt8.toInt u.lineRange.toNat 13 argumentCounts t.1 t.2
  have hbytes : u.header = [1] ++ ([u.isStatement] ++ ([u.lineBase] ++ ([u.lineRange] ++ ([13] ++
      (argumentCounts ++ ([0] ++ (u.file ++ [0] ++ ([0, 0, 0] ++ [0])))))))) := by
    simp [header]
  rw [hbytes]
  exact (hnumber 1).bind (.require (by decide)
    ((Parser.Reads.pure 1).bind (.require (by decide) ((Parser.Reads.byte u.isStatement).bind
      ((Parser.Reads.byte u.lineBase).bind ((hnumber u.lineRange).bind (.require hrange
        ((hnumber 13).bind (.require (by decide) (hcounts.bind htables))))))))))

/-! ## Units -/

theorem reads_unit (hu : u.Fits) : (Dwarf.unit 4).Reads u.bytes u.unit := by
  have hroom := hu.length
  have hheader : u.header.length < 256 ^ 4 := by
    have hlength : u.header.length ≤ u.body.length := by
      simp [body]
      omega
    omega
  have hlength : initialLength.Reads (littleEndian 4 u.body.length) (u.body.length, 4) := by
    have hnumber : (Parser.number 4).Reads _ u.body.length := .number (by omega)
    have hbind := hnumber.bind (f := fun length =>
      if length < 0xfffffff0 then pure (length, 4)
      else do
        Parser.require (length = 0xffffffff)
        return (← Parser.number 8, 8)) (by rw [if_pos hroom]; exact .pure _)
    rwa [List.append_nil] at hbind
  have hbody : (unitBody 4 u.body.length 4).run? u.body = some u.unit := by
    have hversion : (Parser.number 2).Reads (littleEndian 2 3) 3 := .number (by decide)
    have hsize : (Parser.number 4).Reads _ u.header.length := .number hheader
    have htake : (Parser.take _).Reads u.header _ := .take rfl
    have hparameters : ((parameters 3 4 4).within u.header).Reads [] u.readHeader :=
      .within hu.reads_parameters.run?_self
    have hread : unitBody 4 u.body.length 4 u.body = some (u.unit, u.program) := by
      rw [body, unitBody, List.append_assoc, List.append_assoc, hversion.bind_apply,
        Parser.require, if_pos (by decide), pure_bind, if_neg (by decide), pure_bind]
      beta_reduce
      rw [hsize.bind_apply, htake.bind_apply]
      exact hparameters.bind_apply _
    rw [Parser.run?, hread]
    rfl
  have hbytes := (Parser.Reads.take rfl).bind
    (f := fun bytes => (unitBody 4 u.body.length 4).within bytes) (.within hbody)
  rw [List.append_nil] at hbytes
  exact hlength.bind hbytes

end UnitLayout.Fits

/-! ## Instructions -/

/-- The next instruction is read, and then the rest is run. -/
theorem emitted?_step (opcode : UInt8) (hi : (instruction h opcode.toNat).Reads bytes i)
    (rest : List UInt8) :
    emitted? h s (opcode :: (bytes ++ rest)) =
      match s.execute? h i with
      | none => none
      | some (s, emission) =>
        let isEnd := emission = .endOfSequence
        let e := ⟨s.row h isEnd, s.registers.isGap⟩
        let later := emitted? h (if isEnd then { s with registers := {} } else s) rest
        if emission = .nothing then later else later.map (e :: ·) := by
  rw [emitted?]
  split
  · rename_i hn
    rw [hi rest] at hn
    cases hn
  · rename_i hn
    rw [hi rest] at hn
    cases hn
    rfl

theorem reads_extended {length : UInt8} (hlength : length < 128)
    (hbytes : bytes.length = length.toNat) (hi : (extendedInstruction h).run? bytes = some i) :
    (instruction h 0).Reads (length :: bytes) i := by
  have hsize : Leb128.unsigned.Reads [length] length.toNat :=
    (Leb128.Unsigned.last (UInt8.lt_iff_toNat_lt.mp hlength)).reads (by simp)
  have htake := (Parser.Reads.take hbytes).bind
    (f := fun bytes => (extendedInstruction h).within bytes) (.within hi)
  rw [List.append_nil] at htake
  exact hsize.bind htake

namespace UnitLayout

variable {distance : Nat}

theorem reads_setAddress (haddress : address < 2 ^ 32) :
    (instruction u.readHeader 0).Reads ([5, 2] ++ littleEndian 4 address)
      (.setAddress address) := by
  have hread : (extendedInstruction u.readHeader).Reads (2 :: littleEndian 4 address)
      (.setAddress address) :=
    (Parser.Reads.byte 2).bind (.require rfl
      ((Parser.Reads.number haddress).map Instruction.setAddress))
  exact reads_extended (by decide) (by simp) hread.run?_self

/-! ## What instructions do -/

theorem execute_advanceAddress (haddress : address + distance < 2 ^ 32) :
    (u.stateAt address line).execute? u.readHeader (.advanceAddress distance) =
      some (u.stateAt (address + distance) line, .nothing) := by
  have hbytes : (1 * distance.toUInt64).toNat = distance := by
    simp
    omega
  have hstart : address.toUInt64.toNat = address := by
    simp
    omega
  have hin : address.toUInt64.toNat + (1 * distance.toUInt64).toNat < addressLimit 4 := by
    rw [hbytes, hstart, addressLimit]
    omega
  have hsum : address.toUInt64 + 1 * distance.toUInt64 = (address + distance).toUInt64 := by
    rw [← UInt64.toNat_inj, UInt64.toNat_add, hbytes, hstart]
    simp
  have hmove : Registers.moveAddress? { address := address.toUInt64, line := line.toUInt64 } 4
      (1 * distance.toUInt64) =
        some { address := (address + distance).toUInt64, line := line.toUInt64 } := by
    rw [Registers.moveAddress?, if_pos hin, hsum]
  simp only [LineState.execute?, Registers.moveOperations?, stateAt, readHeader, if_false,
    Bool.false_eq_true, if_true]
  exact congrArg (Option.map _) hmove

theorem execute_advanceLine {distance : Int} {line' : Nat} (hline : line < 2 ^ 64)
    (hline' : line' < 2 ^ 64) (hmove : (line' : Int) = line + distance) :
    (u.stateAt address line).execute? u.readHeader (.advanceLine distance) =
      some (u.stateAt address line', .nothing) := by
  have hstart : line.toUInt64.toNat = line := by
    simp
    omega
  have hmoved : (Registers.moveLine { address := address.toUInt64, line := line.toUInt64 }
      distance).line = line'.toUInt64 := by
    rw [← UInt64.toNat_inj]
    simp only [Registers.moveLine, hstart]
    split_ifs with hforth hback
    · rw [UInt64.toNat_add, hstart]
      simp
      omega
    · have hsize : distance.natAbs.toUInt64.toNat = distance.natAbs := by
        simp
        omega
      rw [UInt64.toNat_sub_of_le _ _ (UInt64.le_iff_toNat_le.mpr (by omega)), hstart, hsize]
      simp
      omega
    · omega
  simp only [LineState.execute?, stateAt]
  rw [← hmoved]
  rfl

theorem execute_setAddress {address' : Nat} (hle : address ≤ address')
    (haddress : address' < 2 ^ 32 - 2) :
    (u.stateAt address line).execute? u.readHeader (.setAddress address') =
      some (u.stateAt address' line, .nothing) := by
  have hstart : address.toUInt64.toNat = address := by
    simp
    omega
  have hkept : ¬ (address' < address.toUInt64.toNat ∨ addressLimit 4 - 2 ≤ address') := by
    rw [hstart, addressLimit]
    omega
  have hset : Registers.setAddress u.readHeader
      { address := address.toUInt64, line := line.toUInt64 } address' =
        { address := address'.toUInt64, line := line.toUInt64 } := if_neg hkept
  exact congrArg (fun registers => some (LineState.mk registers u.readHeader.files, _)) hset

end UnitLayout

/-! ## Programs -/

/-- Running a program gives the rows that it emits, none of which is dropped. -/
theorem Emits.emitted? {program : List UInt8} {rows : List Row}
    (h : Emits u.file address line program rows) (hline : line < 2 ^ 64) :
    Dwarf.emitted? u.readHeader (u.stateAt address line) program =
      some (rows.map (⟨·, false⟩)) := by
  induction h with
  | stop => rw [Dwarf.emitted?, List.map_nil]
  | copy _ ih =>
      have hread : (instruction u.readHeader 1).Reads [] .copy := .pure Instruction.copy
      refine (emitted?_step 1 hread _).trans ?_
      rw [LineState.execute?]
      exact congrArg (Option.map _) (ih hline)
  | advanceAddress hdistance hlength haddress _ ih =>
      have hread : (instruction u.readHeader 2).Reads _ (.advanceAddress _) :=
        (hdistance.reads hlength).map Instruction.advanceAddress
      refine (emitted?_step 2 hread _).trans ?_
      rw [UnitLayout.execute_advanceAddress haddress]
      exact ih hline
  | advanceLine hdistance hlength hmove hline' _ ih =>
      have hread : (instruction u.readHeader 3).Reads _ (.advanceLine _) :=
        (hdistance.reads hlength).map Instruction.advanceLine
      refine (emitted?_step 3 hread _).trans ?_
      rw [UnitLayout.execute_advanceLine hline hline' hmove]
      exact ih hline'
  | setAddress hle haddress _ ih =>
      refine (emitted?_step 0 (UnitLayout.reads_setAddress (by omega)) _).trans ?_
      rw [UnitLayout.execute_setAddress hle haddress]
      exact ih hline
  | endSequence _ ih =>
      have hread : (instruction u.readHeader 0).Reads [1, 1] .endSequence :=
        reads_extended (by decide) rfl rfl
      refine (emitted?_step 0 hread _).trans ?_
      rw [LineState.execute?]
      exact congrArg (Option.map _) (ih (by decide))

theorem yielded_of_rows (rows : List Row) : yielded (rows.map (⟨·, false⟩)) = rows := by
  simp [yielded, List.filter_map, Function.comp_def]

/-- The reader finds units where they stand, and runs their programs. -/
theorem reader_runsPrograms : reader.RunsPrograms := by
  intro u data offset hu hat
  refine ⟨u.unit, hu.reads_unit.run?_at hat, rfl, rfl, fun rows h => ?_⟩
  have hemitted : u.unit.emitted? = some _ := h.emitted? (by decide)
  have hrows : reader.rows? u.unit = u.unit.emitted?.map yielded := rfl
  rw [hrows, hemitted, Option.map_some, yielded_of_rows]

end Retrace.Dwarf
