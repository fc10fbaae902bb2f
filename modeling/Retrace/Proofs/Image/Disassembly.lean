import Retrace.Proofs.Image.Lookup

/-!
# Where an image holds instructions

The instruction at an address is read from one section, the latest of those that cover the address.
If that one holds no instructions there is none, also where another section would have one.
-/

namespace Retrace

open Isa

/-- The first instruction of these bytes. -/
def Image.firstInstruction (base : BaseSet) (data : List UInt8) : Except Obstacle Instruction :=
  match Instruction.split? base data with
  | .error e => .error (.instruction e)
  | .ok (i, _) => .ok i

variable {base : BaseSet} {sections : List Section} {symbols : List Symbol} {lines : List LineRange}
  {a : UInt64} {s : Section} {image : Image}

theorem Section.Covers.dataFrom? (h : s.Covers a) :
    s.dataFrom? a = some (s.data.drop (a.toNat - s.address.toNat)) := by
  have hle : s.address ≤ a := UInt64.le_iff_toNat_le.mpr h.1
  have hlength : (s.data.drop (a.toNat - s.address.toNat)).length ≠ 0 := by
    obtain ⟨hstart, hstop⟩ := h
    rw [List.length_drop]
    omega
  rw [Section.dataFrom?, if_pos hle, UInt64.toNat_sub_of_le _ _ hle]
  split
  · rename_i hnil
    exact absurd (congrArg List.length hnil) hlength
  · rfl

namespace Image

theorem firstInstruction_ne (base : BaseSet) (data : List UInt8) :
    firstInstruction base data ≠ .error .notExecutable := by
  rw [firstInstruction]
  split <;> exact nofun

theorem instructionAt_of_none (h : image.sectionAt? a = none) :
    image.instructionAt a = .error .notExecutable := by
  rw [instructionAt, h]
  rfl

theorem instructionAt_of_section (h : image.sectionAt? a = some s) (ha : s.Covers a) :
    image.instructionAt a =
      if s.executable then firstInstruction image.base (s.data.drop (a.toNat - s.address.toNat))
      else .error .notExecutable := by
  rw [instructionAt, h]
  simp only [Option.bind_eq_bind, Option.bind_some, ha.dataFrom?]
  cases s.executable <;> rfl

/-- There is no instruction at an address precisely if the latest section that covers it holds none,
or no section covers it. Else the bytes of that section tell. -/
theorem latest_section_decides (base : BaseSet) (sections : List Section) (symbols : List Symbol)
    (lines : List LineRange) (a : UInt64) :
    let r := (ofParts base sections symbols lines).instructionAt a
    let latest := Latest (fun s s' : Section => s.address ≤ s'.address) (·.Covers a) sections
    (r = .error .notExecutable ↔ ¬ ∃ s, latest s ∧ s.executable = true) ∧
      ∀ s, latest s → s.executable = true →
        r = firstInstruction base (s.data.drop (a.toNat - s.address.toNat)) := by
  intro r latest
  have hexecutable (s : Section) (hs : latest s) (he : s.executable = true) :
      r = firstInstruction base (s.data.drop (a.toNat - s.address.toNat)) := by
    refine (instructionAt_of_section (sectionAt?_ofParts.mpr hs) hs.holds).trans ?_
    rw [if_pos he]
    rfl
  refine ⟨⟨?_, fun hnone => ?_⟩, hexecutable⟩
  · rintro hr ⟨s, hs, he⟩
    exact firstInstruction_ne _ _ ((hexecutable s hs he).symm.trans hr)
  · cases hfind : (ofParts base sections symbols lines).sectionAt? a with
    | none => exact instructionAt_of_none hfind
    | some s =>
        have hs : latest s := sectionAt?_ofParts.mp hfind
        refine (instructionAt_of_section hfind hs.holds).trans (if_neg fun he => ?_)
        exact hnone ⟨s, hs, he⟩

/-- A section without instructions that lies in another one hides the instructions of that one. -/
theorem nested_section_hides_instruction :
    let text : Section :=
      ⟨".text", 0x100, [0x13, 0x05, 0x15, 0x00, 0x13, 0x05, 0x15, 0x00], true⟩
    let table : Section := ⟨".rodata", 0x104, [0x00, 0x00, 0x00, 0x00], false⟩
    text.executable = true ∧ text.Covers 0x104 ∧
      (firstInstruction .rv32 (text.data.drop (0x104 - 0x100))).isOk = true ∧
      (ofParts .rv32 [text, table] [] []).instructionAt 0x104 = .error .notExecutable := by
  intro text table
  have htable : table.Covers 0x104 := ⟨by decide, by decide⟩
  have hlatest : Latest (fun s s' : Section => s.address ≤ s'.address) (·.Covers 0x104)
      [text, table] table := by
    refine ⟨[text], [], rfl, htable, ?_, List.forall_mem_nil _⟩
    rintro s hs -
    exact List.mem_singleton.mp hs ▸ by decide
  refine ⟨rfl, ⟨by decide, by decide⟩, by decide +kernel, ?_⟩
  exact instructionAt_of_section (sectionAt?_ofParts.mpr hlatest) htable

end Image

end Retrace
