import Retrace.Proofs.Isa.Layouts

/-!
# Control transfers decode to what was assembled

A control transfer is assembled by the layouts of the manual. Decoding its encoding gives the same
registers and the same offset, and every encoding that decodes to a control transfer is the one that
is assembled of it.
-/

namespace Retrace.Isa

/-- A control transfer, its offset in bytes. The registers that a 16-bit encoding implies are
among its own. -/
inductive Transfer where
  | branch (test : BranchTest) (rs1 rs2 : Reg) (offset : Int)
  | jal (rd : Reg) (offset : Int)
  | jalr (rd rs1 : Reg) (offset : Int)
  | cBranch (test : ZeroTest) (rs1 rs2 : Reg) (offset : Int)
  | cJ (rd : Reg) (offset : Int)
  | cJal (rd : Reg) (offset : Int)
  | cJr (rs1 : Reg)
  | cJalr (rs1 : Reg)
  deriving DecidableEq, Repr

/-- The control transfer that an operation is. -/
def Operation.transfer? : Operation → Option Transfer
  | branch test d => some (.branch test d.rs1 d.rs2 d.offset)
  | jal d => some (.jal d.rd d.offset)
  | jalr d => some (.jalr d.rd d.rs1 d.value)
  | cBranch test d => some (.cBranch test d.rs1 d.rs2 d.offset)
  | cJ d => some (.cJ d.rd d.offset)
  | cJal d => some (.cJal d.rd d.offset)
  | cJr rs1 => some (.cJr rs1)
  | cJalr rs1 => some (.cJalr rs1)
  | _ => none

/-- The offset is a number of half-words that fits `bits` bits. -/
def IsOffset (bits : Nat) (offset : Int) : Prop :=
  offset % 2 = 0 ∧ -2 ^ bits ≤ offset ∧ offset < 2 ^ bits

def BranchTest.funct3 : BranchTest → BitVec 3
  | eq => 0b000
  | ne => 0b001
  | lt => 0b100
  | ge => 0b101
  | ltu => 0b110
  | geu => 0b111

def ZeroTest.funct3 : ZeroTest → BitVec 3
  | eqz => 0b110
  | nez => 0b111

namespace Transfer

def mnemonic : Transfer → String
  | branch .eq .. => "beq"
  | branch .ne .. => "bne"
  | branch .lt .. => "blt"
  | branch .ge .. => "bge"
  | branch .ltu .. => "bltu"
  | branch .geu .. => "bgeu"
  | jal .. => "jal"
  | jalr .. => "jalr"
  | cBranch .eqz .. => "c.beqz"
  | cBranch .nez .. => "c.bnez"
  | cJ .. => "c.j"
  | cJal .. => "c.jal"
  | cJr _ => "c.jr"
  | cJalr _ => "c.jalr"

/-- What the encoding can hold: offsets in its range, the registers `x8` to `x15` in the place of a
short one, `x0` or `x1` where one is implied, and no jump through `x0` in 16 bits. -/
def Fits (base : BaseSet) : Transfer → Prop
  | branch _ _ _ offset => IsOffset 12 offset
  | jal _ offset => IsOffset 20 offset
  | jalr _ _ offset => -2 ^ 11 ≤ offset ∧ offset < 2 ^ 11
  | cBranch _ rs1 rs2 offset => (8 ≤ rs1.toNat ∧ rs1.toNat < 16) ∧ rs2 = 0#5 ∧ IsOffset 8 offset
  | cJ rd offset => rd = 0#5 ∧ IsOffset 11 offset
  | cJal rd offset => base = .rv32 ∧ rd = 1#5 ∧ IsOffset 11 offset
  | cJr rs1 | cJalr rs1 => rs1 ≠ 0#5

/-- The encoding by the layouts of the manual. -/
def assemble : Transfer → Encoding
  | branch test rs1 rs2 offset => .bits32 (branchWord test.funct3 rs1 rs2 (.ofInt 13 offset))
  | jal rd offset => .bits32 (jalWord rd (.ofInt 21 offset))
  | jalr rd rs1 offset => .bits32 (jalrWord rd rs1 (.ofInt 12 offset))
  | cBranch test rs1 _ offset =>
    .bits16 (branchHalf test.funct3 (rs1.extractLsb 2 0) (.ofInt 9 offset))
  | cJ _ offset => .bits16 (jumpHalf 0b101 (.ofInt 12 offset))
  | cJal _ offset => .bits16 (jumpHalf 0b001 (.ofInt 12 offset))
  | cJr rs1 => .bits16 (registerHalf 0b1000 rs1)
  | cJalr rs1 => .bits16 (registerHalf 0b1001 rs1)

end Transfer

instance (bits : Nat) (offset : Int) : Decidable (IsOffset bits offset) :=
  inferInstanceAs (Decidable (_ ∧ _))

instance (base : BaseSet) : (t : Transfer) → Decidable (t.Fits base)
  | .branch _ _ _ offset => inferInstanceAs (Decidable (IsOffset 12 offset))
  | .jal _ offset => inferInstanceAs (Decidable (IsOffset 20 offset))
  | .jalr .. | .cBranch .. | .cJ .. | .cJal .. => inferInstanceAs (Decidable (_ ∧ _))
  | .cJr rs1 | .cJalr rs1 => inferInstanceAs (Decidable (rs1 ≠ 0#5))

variable {base : BaseSet} {op : Operation} {t : Transfer}

/-! ## Offsets and registers -/

theorem isOffset_halves {bits : Nat} (hbits : 0 < bits) (halves : BitVec bits) :
    IsOffset bits (2 * halves.toInt) := by
  have hlow := BitVec.le_toInt halves
  have hhigh := BitVec.toInt_lt (x := halves)
  obtain ⟨n, rfl⟩ := Nat.exists_eq_succ_of_ne_zero hbits.ne'
  rw [Nat.succ_sub_one] at hlow hhigh
  refine ⟨by omega, ?_, ?_⟩ <;> rw [pow_succ] <;> omega

theorem IsOffset.exists_halves {bits : Nat} {offset : Int} (h : IsOffset bits offset)
    (hbits : 0 < bits) : ∃ halves : BitVec bits, offset = 2 * halves.toInt := by
  obtain ⟨heven, hlow, hhigh⟩ := h
  obtain ⟨n, rfl⟩ := Nat.exists_eq_succ_of_ne_zero hbits.ne'
  rw [pow_succ] at hlow hhigh
  refine ⟨.ofInt (n + 1) (offset / 2), ?_⟩
  rw [BitVec.toInt_ofInt, Int.bmod_eq_of_le]
  · omega
  · rw [Nat.pow_succ]
    push_cast
    omega
  · rw [Nat.pow_succ]
    push_cast
    omega

theorem ofInt_halves {bits : Nat} (hbits : 0 < bits) (halves : BitVec bits) :
    BitVec.ofInt (bits + 1) (2 * halves.toInt) = halves ++ 0#1 := by
  rw [← BitVec.ofInt_toInt (x := halves ++ 0#1), BitVec.toInt_append,
    if_neg (by simpa using hbits.ne')]
  simp

theorem Reg.toNat_ofShort (short : BitVec 3) : (ofShort short).toNat = 8 + short.toNat := by
  decide +revert

theorem Reg.extractLsb_ofShort (short : BitVec 3) : (ofShort short).extractLsb 2 0 = short :=
  BitVec.extractLsb'_append_eq_right

theorem Reg.exists_short {r : Reg} (h : 8 ≤ r.toNat ∧ r.toNat < 16) : ∃ short, r = ofShort short :=
  ⟨r.extractLsb 2 0, by decide +revert⟩

/-! ## Decoding what was assembled -/

theorem ofWord?_branchWord (base : BaseSet) (test : BranchTest) (rs1 rs2 : Reg)
    (halves : BitVec 12) :
    ofWord? base (branchWord test.funct3 rs1 rs2 (halves ++ 0#1)) =
      some (.branch test ⟨rs1, rs2, halves⟩) := by
  obtain ⟨hopcode, hfunct3⟩ := opcode_branchWord test.funct3 rs1 rs2 (halves ++ 0#1)
  have htest : branchTest? test.funct3 = some test := by cases test <;> rfl
  have hfields := ofWord_branchWord test.funct3 rs1 rs2 (halves ++ 0#1)
  have hhalves : (halves ++ 0#1).extractLsb 12 1 = halves := extractLsb_append_zero halves
  rw [hhalves] at hfields
  simp only [ofWord?, transfer?, hopcode, hfunct3, htest, hfields]
  rfl

theorem ofWord?_jalWord (base : BaseSet) (rd : Reg) (halves : BitVec 20) :
    ofWord? base (jalWord rd (halves ++ 0#1)) = some (.jal ⟨rd, halves⟩) := by
  have hfields := ofWord_jalWord rd (halves ++ 0#1)
  have hhalves : (halves ++ 0#1).extractLsb 20 1 = halves := extractLsb_append_zero halves
  rw [hhalves] at hfields
  simp only [ofWord?, transfer?, opcode_jalWord, hfields]
  rfl

theorem ofWord?_jalrWord (base : BaseSet) (rd rs1 : Reg) (imm : BitVec 12) :
    ofWord? base (jalrWord rd rs1 imm) = some (.jalr ⟨rd, rs1, imm⟩) := by
  obtain ⟨hopcode, hfunct3⟩ := opcode_jalrWord rd rs1 imm
  simp only [ofWord?, transfer?, hopcode, hfunct3, ofWord_jalrWord]
  rfl

theorem ofHalf?_branchHalf (base : BaseSet) (test : ZeroTest) (short : BitVec 3)
    (halves : BitVec 8) :
    Compressed.ofHalf? base (branchHalf test.funct3 short (halves ++ 0#1)) =
      some (.cBranch test ⟨Reg.ofShort short, 0#5, halves.signExtend 12⟩) := by
  obtain ⟨hop, hfunct3⟩ := opcode_branchHalf test.funct3 short (halves ++ 0#1)
  have hfields := ofHalf_branchHalf test.funct3 short (halves ++ 0#1)
  rw [extractLsb_append_zero halves] at hfields
  cases test <;>
  · rw [ZeroTest.funct3] at hop hfunct3 hfields ⊢
    simp only [Compressed.ofHalf?, Compressed.transfer?, hop, hfunct3, hfields]
    rfl

theorem ofHalf_jumpHalf (funct3 : BitVec 3) (halves : BitVec 11) :
    JType.ofHalf (jumpHalf funct3 (halves ++ 0#1)) = ⟨0#5, halves.signExtend 20⟩ := by
  have hhalves : (halves ++ 0#1).extractLsb 11 1 = halves := extractLsb_append_zero halves
  rw [JType.ofHalf, offsetOfHalf_jumpHalf, hhalves]

theorem ofHalf?_jumpHalf (base : BaseSet) (halves : BitVec 11) :
    Compressed.ofHalf? base (jumpHalf 0b101 (halves ++ 0#1)) =
      some (.cJ ⟨0#5, halves.signExtend 20⟩) := by
  obtain ⟨hop, hfunct3⟩ := opcode_jumpHalf 0b101 (halves ++ 0#1)
  simp only [Compressed.ofHalf?, Compressed.transfer?, hop, hfunct3, ofHalf_jumpHalf]
  rfl

theorem ofHalf?_jumpHalf_link (halves : BitVec 11) :
    Compressed.ofHalf? .rv32 (jumpHalf 0b001 (halves ++ 0#1)) =
      some (.cJal ⟨1#5, halves.signExtend 20⟩) := by
  obtain ⟨hop, hfunct3⟩ := opcode_jumpHalf 0b001 (halves ++ 0#1)
  simp only [Compressed.ofHalf?, Compressed.transfer?, hop, hfunct3, ofHalf_jumpHalf]
  rfl

theorem ofHalf?_registerHalf (base : BaseSet) {rs1 : Reg} (h : rs1 ≠ 0#5) :
    Compressed.ofHalf? base (registerHalf 0b1000 rs1) = some (.cJr rs1) ∧
      Compressed.ofHalf? base (registerHalf 0b1001 rs1) = some (.cJalr rs1) := by
  constructor
  · obtain ⟨hop, hfunct3, hlink⟩ := opcode_registerHalf 0b1000 rs1
    obtain ⟨hupper, hlower⟩ := registers_registerHalf 0b1000 rs1
    simp only [Compressed.ofHalf?, Compressed.transfer?, hop, hfunct3, hlink, hupper, hlower]
    simp [h]
  · obtain ⟨hop, hfunct3, hlink⟩ := opcode_registerHalf 0b1001 rs1
    obtain ⟨hupper, hlower⟩ := registers_registerHalf 0b1001 rs1
    simp only [Compressed.ofHalf?, Compressed.transfer?, hop, hfunct3, hlink, hupper, hlower]
    simp [h]

/-- Decoding what was assembled gives the transfer again. -/
theorem Transfer.Fits.exists_operation (h : t.Fits base) :
    ∃ op, operation? base t.assemble = some op ∧ op.transfer? = some t := by
  cases t with
  | branch test rs1 rs2 offset =>
    obtain ⟨halves, rfl⟩ := h.exists_halves (by omega)
    refine ⟨.branch test ⟨rs1, rs2, halves⟩, ?_, rfl⟩
    rw [assemble, ofInt_halves (by omega)]
    exact ofWord?_branchWord base test rs1 rs2 halves
  | jal rd offset =>
    obtain ⟨halves, rfl⟩ := h.exists_halves (by omega)
    refine ⟨.jal ⟨rd, halves⟩, ?_, rfl⟩
    rw [assemble, ofInt_halves (by omega)]
    exact ofWord?_jalWord base rd halves
  | jalr rd rs1 offset =>
    obtain ⟨hlow, hhigh⟩ := h
    refine ⟨_, ofWord?_jalrWord base rd rs1 (.ofInt 12 offset), ?_⟩
    have hvalue : (BitVec.ofInt 12 offset).toInt = offset := by
      rw [BitVec.toInt_ofInt, Int.bmod_eq_of_le] <;> omega
    rw [Operation.transfer?, IType.value, hvalue]
  | cBranch test rs1 rs2 offset =>
    obtain ⟨hshort, rfl, hoffset⟩ := h
    obtain ⟨short, rfl⟩ := Reg.exists_short hshort
    obtain ⟨halves, rfl⟩ := hoffset.exists_halves (by omega)
    refine ⟨.cBranch test ⟨Reg.ofShort short, 0#5, halves.signExtend 12⟩, ?_, ?_⟩
    · rw [assemble, ofInt_halves (by omega), Reg.extractLsb_ofShort]
      exact ofHalf?_branchHalf base test short halves
    · rw [Operation.transfer?, BType.offset, BitVec.toInt_signExtend_of_le (by omega)]
  | cJ rd offset =>
    obtain ⟨rfl, hoffset⟩ := h
    obtain ⟨halves, rfl⟩ := hoffset.exists_halves (by omega)
    refine ⟨.cJ ⟨0#5, halves.signExtend 20⟩, ?_, ?_⟩
    · rw [assemble, ofInt_halves (by omega)]
      exact ofHalf?_jumpHalf base halves
    · rw [Operation.transfer?, JType.offset, BitVec.toInt_signExtend_of_le (by omega)]
  | cJal rd offset =>
    obtain ⟨rfl, rfl, hoffset⟩ := h
    obtain ⟨halves, rfl⟩ := hoffset.exists_halves (by omega)
    refine ⟨.cJal ⟨1#5, halves.signExtend 20⟩, ?_, ?_⟩
    · rw [assemble, ofInt_halves (by omega)]
      exact ofHalf?_jumpHalf_link halves
    · rw [Operation.transfer?, JType.offset, BitVec.toInt_signExtend_of_le (by omega)]
  | cJr rs1 => exact ⟨.cJr rs1, (ofHalf?_registerHalf base h).1, rfl⟩
  | cJalr rs1 => exact ⟨.cJalr rs1, (ofHalf?_registerHalf base h).2, rfl⟩

/-! ## Assembling what was decoded -/

theorem transfer?_of_shortArithmetic? {w : BitVec 16}
    (h : Compressed.shortArithmetic? base w = some op) : op.transfer? = none := by
  simp only [Compressed.shortArithmetic?] at h
  repeat' split at h
  all_goals cases h <;> rfl

theorem transfer?_of_computation? {w : BitVec 16}
    (h : Compressed.computation? base w = some op) : op.transfer? = none := by
  simp only [Compressed.computation?] at h
  repeat' split at h
  all_goals first
    | exact transfer?_of_shortArithmetic? h
    | cases h
  all_goals rfl

theorem transfer?_of_system? {upper : BitVec 25} (h : system? upper = some op) :
    op.transfer? = none := by
  unfold system? at h
  repeat' split at h
  all_goals cases h <;> rfl

theorem funct3_of_branchTest? {funct3 : BitVec 3} {test : BranchTest}
    (h : branchTest? funct3 = some test) : funct3 = test.funct3 := by
  unfold branchTest? at h
  split at h <;> cases h <;> rfl

theorem assemble_of_ofWord? {w : BitVec 32} (h : ofWord? base w = some op)
    (ht : op.transfer? = some t) : t.Fits base ∧ .bits32 w = t.assemble := by
  obtain h | ⟨-, h⟩ := (Option.orElse_eq_some _ _ _).1 h
  · simp only [transfer?] at h
    split at h
    case h_1 => split_ifs at h <;> cases h <;> cases ht
    case h_2 => cases h; cases ht
    case h_3 => cases h; cases ht
    case h_4 hopcode =>
      obtain ⟨test, htest, rfl⟩ := Option.map_eq_some_iff.1 h
      cases ht
      refine ⟨isOffset_halves (by omega) _, ?_⟩
      rw [Transfer.assemble, BType.offset, ofInt_halves (by omega), ← funct3_of_branchTest? htest,
        branchWord_ofWord hopcode]
    case h_5 hopcode =>
      split_ifs at h with hfunct3
      cases h
      cases ht
      refine ⟨⟨BitVec.le_toInt _, BitVec.toInt_lt⟩, ?_⟩
      rw [Transfer.assemble, IType.value, BitVec.ofInt_toInt, jalrWord_ofWord hopcode hfunct3]
    case h_6 hopcode =>
      cases h
      cases ht
      refine ⟨isOffset_halves (by omega) _, ?_⟩
      rw [Transfer.assemble, JType.offset, ofInt_halves (by omega), jalWord_ofWord hopcode]
    case h_7 =>
      split_ifs at h
      rw [transfer?_of_system? h] at ht
      cases ht
    case h_8 => cases h
  · obtain ⟨c, -, rfl⟩ := Option.map_eq_some_iff.1 h
    cases ht

theorem assemble_cBranch {w : BitVec 16} (test : ZeroTest) (hop : w.extractLsb 1 0 = 0b01#2)
    (hfunct3 : w.extractLsb 15 13 = test.funct3)
    (ht : (Operation.cBranch test (.ofHalf w)).transfer? = some t) :
    t.Fits base ∧ .bits16 w = t.assemble := by
  obtain ⟨short, halves, hfields, hw⟩ := exists_branchHalf hop
  cases ht
  rw [hfields, BType.offset, BitVec.toInt_signExtend_of_le (by omega)]
  refine ⟨⟨?_, rfl, isOffset_halves (by omega) halves⟩, ?_⟩
  · rw [Reg.toNat_ofShort]
    omega
  · rw [Transfer.assemble, Reg.extractLsb_ofShort, ofInt_halves (by omega), ← hfunct3, ← hw]

theorem offset_ofHalf (w : BitVec 16) :
    (JType.ofHalf w).offset = 2 * (offsetOfHalf w).toInt := by
  rw [JType.offset, JType.ofHalf, BitVec.toInt_signExtend_of_le (by omega)]

theorem jumpHalf_ofHalf {w : BitVec 16} (hop : w.extractLsb 1 0 = 0b01#2) :
    jumpHalf (w.extractLsb 15 13) (.ofInt 12 (JType.ofHalf w).offset) = w := by
  rw [offset_ofHalf, ofInt_halves (by omega), jumpHalf_offsetOfHalf hop]

theorem isOffset_ofHalf (w : BitVec 16) : IsOffset 11 (JType.ofHalf w).offset := by
  rw [offset_ofHalf]
  exact isOffset_halves (by omega) _

theorem assemble_of_ofHalf? {w : BitVec 16} (h : Compressed.ofHalf? base w = some op)
    (ht : op.transfer? = some t) : t.Fits base ∧ .bits16 w = t.assemble := by
  obtain h | ⟨-, h⟩ := (Option.orElse_eq_some _ _ _).1 h
  · simp only [Compressed.transfer?] at h
    split at h
    case h_1 hop hfunct3 =>
      cases base with
      | rv64 => cases h
      | rv32 =>
        cases h
        cases ht
        have hw := jumpHalf_ofHalf hop
        rw [hfunct3] at hw
        exact ⟨⟨rfl, rfl, isOffset_ofHalf w⟩, congrArg Encoding.bits16 hw.symm⟩
    case h_2 => split_ifs at h; cases h; cases ht
    case h_3 hop hfunct3 =>
      cases h
      cases ht
      have hw := jumpHalf_ofHalf hop
      rw [hfunct3] at hw
      exact ⟨⟨rfl, isOffset_ofHalf w⟩, congrArg Encoding.bits16 hw.symm⟩
    case h_4 hop hfunct3 =>
      cases h
      exact assemble_cBranch .eqz hop hfunct3 ht
    case h_5 hop hfunct3 =>
      cases h
      exact assemble_cBranch .nez hop hfunct3 ht
    case h_6 hop hfunct3 =>
      split_ifs at h with hlower hlink hupper hupper
      · have hw := registerHalf_upperReg hop (not_not.1 hlower)
        rw [hfunct3, hlink] at hw
        cases h
        cases ht
        exact ⟨hupper, congrArg Encoding.bits16 hw.symm⟩
      · cases h
        cases ht
      · have hw := registerHalf_upperReg hop (not_not.1 hlower)
        rw [hfunct3, (BitVec.eq_zero_or_eq_one _).resolve_left hlink] at hw
        cases h
        cases ht
        exact ⟨hupper, congrArg Encoding.bits16 hw.symm⟩
    case h_7 => cases h
  · rw [transfer?_of_computation? h] at ht
    cases ht

theorem Operation.mnemonic_of_transfer? (h : op.transfer? = some t) : op.mnemonic = t.mnemonic := by
  cases op <;> cases h <;> first | rfl | (rename_i test _; cases test <;> rfl)

theorem exists_decode?_iff {e : Encoding} :
    (∃ i, Instruction.decode? base e = .ok i ∧ i.operation.transfer? = some t) ↔
      ∃ op, operation? base e = some op ∧ op.transfer? = some t := by
  unfold Instruction.decode?
  constructor
  · rintro ⟨i, hi, ht⟩
    split at hi
    case h_1 op hop =>
      cases hi
      exact ⟨op, hop, ht⟩
    case h_2 => cases hi
  · rintro ⟨op, hop, ht⟩
    rw [hop]
    exact ⟨_, rfl, ht⟩

/-- The encodings that decode to a control transfer are those that are assembled of one that fits,
and they decode to the same mnemonic, registers and offset. -/
theorem transfers_decode_as_assembled (base : BaseSet) (e : Encoding) (t : Transfer) :
    ((∃ i, Instruction.decode? base e = .ok i ∧ i.operation.transfer? = some t) ↔
      t.Fits base ∧ e = t.assemble) ∧
    ∀ op : Operation, op.transfer? = some t → op.mnemonic = t.mnemonic := by
  refine ⟨exists_decode?_iff.trans ⟨?_, ?_⟩, fun op => Operation.mnemonic_of_transfer?⟩
  · rintro ⟨op, hop, ht⟩
    cases e with
    | bits16 w => exact assemble_of_ofHalf? hop ht
    | bits32 w => exact assemble_of_ofWord? hop ht
    | bits48 w => cases hop
    | bits64 w => cases hop
  · rintro ⟨hfits, rfl⟩
    exact hfits.exists_operation

/-- A branch back by six bytes. -/
theorem backward_branch_decodes :
    ∃ i, Instruction.decode? .rv64 (.bits16 0xfc6d#16) = .ok i ∧
      i.operation.transfer? = some (.cBranch .nez 8#5 0#5 (-6)) ∧ i.mnemonic = "c.bnez" := by
  obtain ⟨hdecode, hmnemonic⟩ := transfers_decode_as_assembled .rv64 (.bits16 0xfc6d#16)
    (.cBranch .nez 8#5 0#5 (-6))
  obtain ⟨i, hi, ht⟩ := hdecode.2 (by decide)
  exact ⟨i, hi, ht, hmnemonic i.operation ht⟩

end Retrace.Isa
