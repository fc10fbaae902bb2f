import Retrace.Isa.Flow
import Retrace.Proofs.Isa.Transfers

/-!
# Classes of control flow

Whether an operation is a branch, a jump or another discontinuity, and whether it is a call, a
return or a swap, is told by predicates of their own. They fit together for every operation that an
encoding decodes to: classes exclude each other, and calls, returns and swaps are the jumps for
which the manual's table of link registers has a push, a pop or both.
-/

namespace Retrace.Isa

/-! ## The table of link registers -/

/-- What a jump does to a stack of return addresses. -/
inductive StackAction where
  | none
  | push
  | pop
  | popAndPush
  deriving DecidableEq, Repr

/-- The registers `x1` and `x5`. -/
def linkRegisters : List Reg :=
  [1#5, 5#5]

namespace StackAction

def ofJal (rd : Reg) : StackAction :=
  if rd ∈ linkRegisters then push else none

def ofJalr (rd rs1 : Reg) : StackAction :=
  if rd ∈ linkRegisters then
    if rs1 ∈ linkRegisters ∧ rd ≠ rs1 then popAndPush else push
  else if rs1 ∈ linkRegisters then pop
  else none

end StackAction

namespace Operation

/-- What the manual says of the operation. A jump of 16 bits does what the one of 32 bits does that
it stands for, which links to `x0` or `x1`. -/
def stackAction : Operation → StackAction
  | jal d => .ofJal d.rd
  | cJ _ => .ofJal 0#5
  | cJal _ => .ofJal 1#5
  | jalr d => .ofJalr d.rd d.rs1
  | cJr rs1 => .ofJalr 0#5 rs1
  | cJalr rs1 => .ofJalr 1#5 rs1
  | _ => .none

/-- The registers are ones that an encoding of the operation can have. -/
def Encodable : Operation → Prop
  | cJal d => d.rd = 1#5
  | cJr rs1 | cJalr rs1 => rs1 ≠ 0#5
  | _ => True

/-- The classes of control flow exclude each other, and calls, returns and swaps are those of the
table. -/
structure Classified (op : Operation) : Prop where
  successors : [op.isBranch, op.isInferableJump, op.isUninferable].count true ≤ 1
  transfers : [op.isCall, op.isReturn, op.isSwap].count true ≤ 1
  jump_of_return : op.isReturn = true → op.isUninferableJump = true
  jump_of_swap : op.isSwap = true → op.isUninferableJump = true
  jump_of_call : op.isCall = true → op.isInferableJump = true ∨ op.isUninferableJump = true
  flow_sequential : Flow.of op = .sequential ↔
    op.isBranch = false ∧ op.isInferableJump = false ∧ op.isUninferable = false
  flow_branch : Flow.of op = .branch ↔ op.isBranch = true
  flow_call : Flow.of op = .call ↔ op.isCall = true
  flow_return : Flow.of op = .return ↔ op.isReturn = true
  flow_swap : Flow.of op = .swap ↔ op.isSwap = true
  call_pushes : op.isCall = true ↔ op.stackAction = .push
  return_pops : op.isReturn = true ↔ op.stackAction = .pop
  swap_pops_and_pushes : op.isSwap = true ↔ op.stackAction = .popAndPush

end Operation

variable {base : BaseSet} {e : Encoding} {i : Instruction} {op : Operation} {r rd rs1 : Reg}

/-! ## Link registers -/

theorem Reg.isLink_iff : r.isLink = true ↔ r ∈ linkRegisters := by
  simp [isLink, linkRegisters]

theorem Reg.ne_zero_of_isLink (h : r.isLink = true) : r ≠ 0#5 := by
  rintro rfl
  exact absurd h (by decide)

theorem zero_not_link : 0#5 ∉ linkRegisters := by
  decide

theorem one_link : 1#5 ∈ linkRegisters := by
  decide

theorem other_link_iff : r ∈ linkRegisters ∧ 1#5 ≠ r ↔ r = 5#5 := by
  decide +revert

namespace StackAction

theorem ofJal_eq_push_iff : ofJal rd = push ↔ rd ∈ linkRegisters := by
  unfold ofJal
  split_ifs <;> simp_all

theorem ofJal_ne_pop : ofJal rd ≠ pop ∧ ofJal rd ≠ popAndPush := by
  unfold ofJal
  split_ifs <;> decide

theorem ofJalr_eq_push_iff :
    ofJalr rd rs1 = push ↔ rd ∈ linkRegisters ∧ ¬ (rs1 ∈ linkRegisters ∧ rd ≠ rs1) := by
  unfold ofJalr
  split_ifs <;> simp_all

theorem ofJalr_eq_pop_iff : ofJalr rd rs1 = pop ↔ rs1 ∈ linkRegisters ∧ rd ∉ linkRegisters := by
  unfold ofJalr
  split_ifs <;> simp_all

theorem ofJalr_eq_popAndPush_iff :
    ofJalr rd rs1 = popAndPush ↔ rd ∈ linkRegisters ∧ rs1 ∈ linkRegisters ∧ rd ≠ rs1 := by
  unfold ofJalr
  split_ifs <;> simp_all

end StackAction

open StackAction

namespace Operation

/-! ## Calls, returns and swaps -/

theorem isSwap_iff : op.isSwap = true ↔ op.stackAction = .popAndPush := by
  cases op with
  | jal d | cJ d | cJal d => simp [isSwap, stackAction, ofJal_ne_pop]
  | jalr d => simp [isSwap, stackAction, ofJalr_eq_popAndPush_iff, Reg.isLink_iff, and_assoc]
  | cJr rs1 => simp [isSwap, stackAction, ofJalr_eq_popAndPush_iff, zero_not_link]
  | cJalr rs1 =>
      rw [stackAction, ofJalr_eq_popAndPush_iff, other_link_iff]
      simp [isSwap, one_link]
  | _ => simp [isSwap, stackAction]

theorem isReturn_iff : op.isReturn = true ↔ op.stackAction = .pop := by
  cases op with
  | jal d | cJ d | cJal d => simp [isReturn, stackAction, ofJal_ne_pop]
  | jalr d => simp [isReturn, stackAction, ofJalr_eq_pop_iff, ← Reg.isLink_iff]
  | cJr rs1 => simp [isReturn, stackAction, ofJalr_eq_pop_iff, zero_not_link, Reg.isLink_iff]
  | cJalr rs1 => simp [isReturn, stackAction, ofJalr_eq_pop_iff, one_link]
  | _ => simp [isReturn, stackAction]

theorem isCall_iff (h : op.Encodable) : op.isCall = true ↔ op.stackAction = .push := by
  cases op with
  | jal d => simp [isCall, stackAction, ofJal_eq_push_iff, Reg.isLink_iff]
  | cJ d => simp [isCall, stackAction, ofJal_eq_push_iff, zero_not_link]
  | cJal d =>
      have hrd : d.rd = 1#5 := h
      simp [isCall, stackAction, ofJal_eq_push_iff, Reg.isLink_iff, hrd]
  | jalr d =>
      have hswap := (@isSwap_iff (jalr d)).trans ofJalr_eq_popAndPush_iff
      rw [stackAction, ofJalr_eq_push_iff, isCall, Bool.and_eq_true, Bool.not_eq_true',
        ← Bool.not_eq_true, hswap, Reg.isLink_iff]
      exact and_congr_right fun hrd => not_congr (and_iff_right hrd)
  | cJr rs1 => simp [isCall, stackAction, ofJalr_eq_push_iff, zero_not_link]
  | cJalr rs1 =>
      rw [stackAction, ofJalr_eq_push_iff, other_link_iff]
      simp [isCall, isSwap, one_link]
  | _ => simp [isCall, stackAction]

/-- The table has one action for each operation. -/
theorem count_transfers (h : op.Encodable) :
    [op.isCall, op.isReturn, op.isSwap].count true ≤ 1 := by
  have hcall : op.isCall = decide (op.stackAction = .push) :=
    Bool.eq_iff_iff.mpr ((isCall_iff h).trans decide_eq_true_iff.symm)
  have hreturn : op.isReturn = decide (op.stackAction = .pop) :=
    Bool.eq_iff_iff.mpr (isReturn_iff.trans decide_eq_true_iff.symm)
  have hswap : op.isSwap = decide (op.stackAction = .popAndPush) :=
    Bool.eq_iff_iff.mpr (isSwap_iff.trans decide_eq_true_iff.symm)
  rw [hcall, hreturn, hswap]
  cases op.stackAction <;> decide

/-! ## Jumps -/

theorem isUninferableJump_of_isReturn (h : op.isReturn = true) : op.isUninferableJump = true := by
  cases op with
  | jalr d =>
      have hlink : d.rs1.isLink = true := (Bool.and_eq_true_iff.mp h).1
      simp [isUninferableJump, uninferableTarget?, Reg.ne_zero_of_isLink hlink]
  | cJr rs1 => simp [isUninferableJump, uninferableTarget?, Reg.ne_zero_of_isLink h]
  | _ => cases h

theorem isUninferableJump_of_isSwap (h : op.isSwap = true) : op.isUninferableJump = true := by
  cases op with
  | jalr d =>
      have hlink : d.rs1.isLink = true := (Bool.and_eq_true_iff.mp (Bool.and_eq_true_iff.mp h).1).2
      simp [isUninferableJump, uninferableTarget?, Reg.ne_zero_of_isLink hlink]
  | cJalr rs1 =>
      obtain rfl : rs1 = 5#5 := of_decide_eq_true h
      rfl
  | _ => cases h

theorem isJump_of_isCall (he : op.Encodable) (h : op.isCall = true) :
    op.isInferableJump = true ∨ op.isUninferableJump = true := by
  cases op with
  | jal d | cJal d => exact .inl rfl
  | jalr d =>
      by_cases hzero : d.rs1 = 0#5
      · exact .inl (by simp [isInferableJump, inferableTarget?, hzero])
      · exact .inr (by simp [isUninferableJump, uninferableTarget?, hzero])
  | cJalr rs1 =>
      -- With `x0` it would be a jump that neither is inferable nor needs a register.
      have hne : rs1 ≠ 0#5 := he
      exact .inr (by simp [isUninferableJump, uninferableTarget?, hne])
  | _ => cases h

/-- Jumps are neither branches nor traps. -/
theorem only_jump (h : op.isInferableJump = true ∨ op.isUninferableJump = true) :
    op.isBranch = false ∧ op.isTrapReturn = false ∧ op.isEnvironmentCall = false := by
  cases op with
  | jal d | cJ d | cJal d | jalr d | cJr rs1 | cJalr rs1 => exact ⟨rfl, rfl, rfl⟩
  | _ => rcases h with h | h <;> cases h

theorem only_branch (h : op.isBranch = true) :
    op.isInferableJump = false ∧ op.isUninferable = false := by
  cases op with
  | branch test d | cBranch test d => exact ⟨rfl, rfl⟩
  | _ => cases h

theorem only_inferable (h : op.isInferableJump = true) : op.isUninferable = false := by
  obtain ⟨-, htrap, henvironment⟩ := only_jump (.inl h)
  have hjump : op.isUninferableJump = false := by
    cases op with
    | jalr d =>
        have hzero : d.rs1 = 0#5 := by
          by_contra hne
          simp [isInferableJump, inferableTarget?, hne] at h
        simp [isUninferableJump, uninferableTarget?, hzero]
    | jal d | cJ d | cJal d => rfl
    | _ => cases h
  rw [isUninferable, hjump, htrap, henvironment]
  rfl

theorem count_successors (op : Operation) :
    [op.isBranch, op.isInferableJump, op.isUninferable].count true ≤ 1 := by
  cases hbranch : op.isBranch with
  | true =>
      obtain ⟨hinferable, huninferable⟩ := only_branch hbranch
      rw [hinferable, huninferable]
      decide
  | false =>
      cases hinferable : op.isInferableJump with
      | true =>
          rw [only_inferable hinferable]
          decide
      | false => cases op.isUninferable <;> decide

/-! ## Roles -/

/-- What must hold of an operation with this role. -/
def Demands (op : Operation) : Flow → Prop
  | .sequential => op.isBranch = false ∧ op.isInferableJump = false ∧ op.isUninferable = false
  | .branch => op.isBranch = true
  | .jump => op.isInferableJump = true ∨ op.isUninferableJump = true
  | .call => op.isCall = true
  | .return => op.isReturn = true
  | .swap => op.isSwap = true
  | .exception => op.isEnvironmentCall = true
  | .exceptionReturn => op.isTrapReturn = true

theorem demands_of_flow {role : Flow} (h : Flow.of op = role) : op.Demands role := by
  subst h
  unfold Flow.of
  split_ifs with henvironment htrap hbranch hswap hcall hreturn hjump
  · exact henvironment
  · exact htrap
  · exact hbranch
  · exact hswap
  · exact hcall
  · exact hreturn
  · exact Bool.or_eq_true_iff.mp hjump
  · simp only [Bool.not_eq_true, Bool.or_eq_false_iff] at henvironment htrap hbranch hjump
    simp [Demands, isUninferable, henvironment, htrap, hbranch, hjump]

theorem flow_of_jump (h : op.isInferableJump = true ∨ op.isUninferableJump = true) :
    Flow.of op = if op.isSwap then .swap else if op.isCall then .call
      else if op.isReturn then .return else .jump := by
  obtain ⟨hbranch, htrap, henvironment⟩ := only_jump h
  have hjump : (op.isInferableJump || op.isUninferableJump) = true := Bool.or_eq_true_iff.mpr h
  simp [Flow.of, hbranch, htrap, henvironment, hjump]

theorem flow_eq_branch_iff : Flow.of op = .branch ↔ op.isBranch = true := by
  refine ⟨demands_of_flow, fun h => ?_⟩
  obtain ⟨-, huninferable⟩ := only_branch h
  simp only [isUninferable, Bool.or_eq_false_iff] at huninferable
  simp [Flow.of, h, huninferable]

theorem flow_eq_swap_iff : Flow.of op = .swap ↔ op.isSwap = true := by
  refine ⟨demands_of_flow, fun h => ?_⟩
  rw [flow_of_jump (.inr (isUninferableJump_of_isSwap h)), if_pos h]

theorem flow_eq_return_iff (he : op.Encodable) : Flow.of op = .return ↔ op.isReturn = true := by
  refine ⟨demands_of_flow, fun h => ?_⟩
  have hpop := isReturn_iff.mp h
  have hswap : ¬ op.isSwap = true := by simp [isSwap_iff, hpop]
  have hcall : ¬ op.isCall = true := by simp [isCall_iff he, hpop]
  rw [flow_of_jump (.inr (isUninferableJump_of_isReturn h)), if_neg hswap, if_neg hcall, if_pos h]

theorem flow_eq_call_iff (he : op.Encodable) : Flow.of op = .call ↔ op.isCall = true := by
  refine ⟨demands_of_flow, fun h => ?_⟩
  have hswap : ¬ op.isSwap = true := by simp [isSwap_iff, (isCall_iff he).mp h]
  rw [flow_of_jump (isJump_of_isCall he h), if_neg hswap, if_pos h]

theorem flow_eq_sequential_iff (he : op.Encodable) : Flow.of op = .sequential ↔
    op.isBranch = false ∧ op.isInferableJump = false ∧ op.isUninferable = false := by
  refine ⟨demands_of_flow, ?_⟩
  rintro ⟨hbranch, hinferable, huninferable⟩
  simp only [isUninferable, Bool.or_eq_false_iff] at huninferable
  obtain ⟨⟨hjump, htrap⟩, henvironment⟩ := huninferable
  have hnone : ¬ (op.isInferableJump = true ∨ op.isUninferableJump = true) := by
    simp [hinferable, hjump]
  have hswap : ¬ op.isSwap = true := fun h => hnone (.inr (isUninferableJump_of_isSwap h))
  have hcall : ¬ op.isCall = true := fun h => hnone (isJump_of_isCall he h)
  have hreturn : ¬ op.isReturn = true := fun h => hnone (.inr (isUninferableJump_of_isReturn h))
  simp [Flow.of, hbranch, hinferable, hjump, htrap, henvironment, hswap, hcall, hreturn]

theorem Encodable.classified (h : op.Encodable) : op.Classified where
  successors := count_successors op
  transfers := count_transfers h
  jump_of_return := isUninferableJump_of_isReturn
  jump_of_swap := isUninferableJump_of_isSwap
  jump_of_call := isJump_of_isCall h
  flow_sequential := flow_eq_sequential_iff h
  flow_branch := flow_eq_branch_iff
  flow_call := flow_eq_call_iff h
  flow_return := flow_eq_return_iff h
  flow_swap := flow_eq_swap_iff
  call_pushes := isCall_iff h
  return_pops := isReturn_iff
  swap_pops_and_pushes := isSwap_iff

/-! ## What decodes -/

/-- Encodings give the registers that their layouts allow. -/
theorem encodable_of_operation? (h : operation? base e = some op) : op.Encodable := by
  have hfits : ∀ t, op.transfer? = some t → t.Fits base := by
    intro t ht
    cases e with
    | bits16 w => exact (assemble_of_ofHalf? h ht).1
    | bits32 w => exact (assemble_of_ofWord? h ht).1
    | bits48 w => cases h
    | bits64 w => cases h
  cases op with
  | cJal d => exact (hfits _ rfl).2.1
  | cJr rs1 | cJalr rs1 => exact hfits _ rfl
  | _ => trivial

end Operation

namespace Instruction

theorem operation?_of_decode? (h : decode? base e = .ok i) :
    operation? base e = some i.operation := by
  rw [decode?] at h
  split at h
  · rename_i op hop
    cases h
    exact hop
  · cases h

/-- Every instruction that an encoding decodes to is in one class, and a call, return or swap is one
by the manual's table. -/
theorem decoded_control_flow_is_partitioned (h : decode? base e = .ok i) :
    i.operation.Classified :=
  (Operation.encodable_of_operation? (operation?_of_decode? h)).classified

/-- A 16-bit jump through `x5`, which links to `x1`. -/
theorem coroutine_swap_is_classified :
    decode? .rv64 (.bits16 0x9282#16) = .ok ⟨.bits16 0x9282#16, .cJalr 5#5⟩ ∧
      (Operation.cJalr 5#5).Classified ∧ Flow.of (.cJalr 5#5) = .swap := by
  have hdecode : decode? .rv64 (.bits16 0x9282#16) = .ok ⟨.bits16 0x9282#16, .cJalr 5#5⟩ := rfl
  have hclassified := decoded_control_flow_is_partitioned hdecode
  exact ⟨hdecode, hclassified, hclassified.flow_swap.mpr rfl⟩

end Instruction

end Retrace.Isa
