import Mathlib.Algebra.Order.Ring.Nat
import Retrace.Trace.Walk

/-!
# Ways through the code

How execution goes from one instruction to the next, as a relation that mentions no tracer, and
what walks do at an instruction in terms of it: they go on where there is only one way, and park
where there are several or where it leads back to the instruction itself.
-/

namespace Retrace

open Isa

/-! ## Addresses -/

namespace Isa.BaseSet

theorem toNat_truncate (base : BaseSet) (a : UInt64) :
    (base.truncate a).toNat = a.toNat % 2 ^ base.addressBits := by
  cases base with
  | rv32 =>
      simp only [truncate, addressBits, UInt64.toNat_and]
      exact Nat.and_two_pow_sub_one_eq_mod a.toNat 32
  | rv64 => exact (Nat.mod_eq_of_lt a.toNat_lt).symm

theorem toNat_truncate_lt (base : BaseSet) (a : UInt64) :
    (base.truncate a).toNat < 2 ^ base.addressBits := by
  rw [toNat_truncate]
  exact Nat.mod_lt _ (Nat.two_pow_pos _)

@[simp]
theorem truncate_truncate (base : BaseSet) (a : UInt64) :
    base.truncate (base.truncate a) = base.truncate a := by
  apply UInt64.toNat_inj.mp
  rw [toNat_truncate, Nat.mod_eq_of_lt (toNat_truncate_lt base a)]

end Isa.BaseSet

/-! ## Exits -/

/-- How execution leaves an instruction. -/
inductive Exit where
  /-- With the outcome of a conditional branch. -/
  | outcome (taken : Bool)
  /-- To an address that the code does not determine. -/
  | target (address : UInt64)
  /-- The only way there is. -/
  | onward
  deriving DecidableEq, Repr

/-- Execution that leaves the instruction by the exit continues at the address. -/
inductive Leads (base : BaseSet) (s : Stop) : Exit → UInt64 → Prop
  | taken {d} : s.instruction.operation.branchOffset? = some d →
      Leads base s (.outcome true) (base.truncate (s.relative d))
  | notTaken : s.instruction.operation.isBranch = true →
      Leads base s (.outcome false) (base.truncate s.after)
  | target {a} : s.instruction.operation.isUninferable = true →
      Leads base s (.target a) (base.truncate a)
  | jump {d} : s.instruction.operation.inferableTarget? = some (.relative d) →
      Leads base s .onward (base.truncate (s.relative d))
  | absolute {a} : s.instruction.operation.inferableTarget? = some (.absolute a) →
      Leads base s .onward (base.truncate (UInt64.ofInt a &&& ~~~1))
  | fallThrough : s.instruction.operation.isBranch = false →
      s.instruction.operation.isInferableJump = false →
      s.instruction.operation.isUninferable = false →
      Leads base s .onward (base.truncate s.after)

/-- Only a message leads on from the instruction, or it is a jump to itself. -/
def Parks (base : BaseSet) (s : Stop) : Prop :=
  s.instruction.operation.needsEvidence = true ∨ Leads base s .onward s.address

theorem Leads.truncate_eq {base s e a} (h : Leads base s e a) : base.truncate a = a := by
  cases h <;> exact BaseSet.truncate_truncate _ _

theorem Isa.Operation.needsEvidence_of_inferable {op : Operation} (h : op.isInferableJump = true) :
    op.needsEvidence = false := by
  cases op <;> simp_all [isInferableJump, inferableTarget?, needsEvidence, isBranch, branchOffset?,
    isUninferable, isUninferableJump, uninferableTarget?, isTrapReturn, isEnvironmentCall]

variable {t : Terrain} {s : Stop} {a : UInt64}

/-! ## The way onward -/

theorem Leads.onward_iff :
    Leads t.image.base s .onward a ↔
      s.instruction.operation.needsEvidence = false ∧ a = t.next s := by
  constructor
  · intro h
    cases h with
    | jump h =>
        exact ⟨Operation.needsEvidence_of_inferable (by simp [Operation.isInferableJump, h]),
          by simp only [Terrain.next, h]; rfl⟩
    | absolute h =>
        exact ⟨Operation.needsEvidence_of_inferable (by simp [Operation.isInferableJump, h]),
          by simp only [Terrain.next, h]; rfl⟩
    | fallThrough hb hj hu =>
        have hn : s.instruction.operation.inferableTarget? = none := by
          simpa [Operation.isInferableJump] using hj
        exact ⟨by simp [Operation.needsEvidence, hb, hu], by simp only [Terrain.next, hn]; rfl⟩
  · rintro ⟨he, rfl⟩
    obtain ⟨hb, hu⟩ : s.instruction.operation.isBranch = false ∧
        s.instruction.operation.isUninferable = false := by
      simpa [Operation.needsEvidence] using he
    cases hj : s.instruction.operation.inferableTarget? with
    | none =>
        simp only [Terrain.next, hj]
        exact .fallThrough hb (by simp [Operation.isInferableJump, hj]) hu
    | some j =>
        cases j with
        | relative d => simp only [Terrain.next, hj]; exact .jump hj
        | absolute d => simp only [Terrain.next, hj]; exact .absolute hj

theorem parks_iff :
    Parks t.image.base s ↔
      s.instruction.operation.needsEvidence = true ∨ t.next s = s.address := by
  rw [Parks, Leads.onward_iff]
  cases s.instruction.operation.needsEvidence <;> simp [eq_comm]

instance {image : Image} : Decidable (Parks image.base s) :=
  decidable_of_iff _ (parks_iff (t := ⟨image, 0⟩)).symm

/-! ## What walks do at an instruction -/

/-- A walk goes on to a return address or the only way. -/
theorem Terrain.leads_of_continuation? {stack : ReturnStack}
    (h : t.continuation? s stack = some a) :
    Leads t.image.base s .onward a ∨
      (s.instruction.operation.isReturn || s.instruction.operation.isSwap) = true ∧
        ∃ r ∈ stack.toList, a = t.image.base.truncate r := by
  simp only [continuation?] at h
  split at h
  · rename_i target ht
    split at ht
    · rename_i hr
      rw [ReturnStack.fst_pop] at ht
      exact .inr ⟨hr, target, List.mem_of_mem_head? ht, (Option.some.inj h).symm⟩
    · simp at ht
  · split at h
    · simp at h
    · rename_i hp
      simp only [Bool.or_eq_true, decide_eq_true_eq, not_or, Bool.not_eq_true] at hp
      exact .inl (Leads.onward_iff.mpr ⟨hp.1, (Option.some.inj h).symm⟩)

theorem Terrain.parks_of_continuation? {stack : ReturnStack}
    (h : t.continuation? s stack = none) : Parks t.image.base s := by
  simp only [continuation?] at h
  split at h
  · simp at h
  · split at h
    · rename_i hp
      exact parks_iff.mpr (by simpa using hp)
    · simp at h

/-- Without return addresses, walks park where only a message leads on. -/
theorem Terrain.continuation?_of_empty {stack : ReturnStack} (h : stack.toList = []) :
    t.continuation? s stack = if Parks t.image.base s then none else some (t.next s) := by
  have hp : stack.pop.1 = none := by rw [ReturnStack.fst_pop, h]; rfl
  simp only [continuation?, hp, ite_self, parks_iff, Bool.or_eq_true, decide_eq_true_eq]

/-! ## What messages lead to -/

theorem Terrain.outcome?_eq_some {taken : Bool} :
    (s.outcome? taken).map t.truncate = some a ↔ Leads t.image.base s (.outcome taken) a := by
  simp only [Stop.outcome?, Option.map_map, Option.map_eq_some_iff, Function.comp]
  constructor
  · rintro ⟨d, hd, rfl⟩
    cases taken
    · exact .notTaken (by simp [Operation.isBranch, hd])
    · exact .taken hd
  · intro h
    cases h with
    | taken hd => exact ⟨_, hd, rfl⟩
    | notTaken hb =>
        obtain ⟨d, hd⟩ := Option.isSome_iff_exists.mp hb
        exact ⟨d, hd, rfl⟩

theorem Terrain.jump?_eq_some {target : UInt64} :
    (s.jump? target).map t.truncate = some a ↔ Leads t.image.base s (.target target) a := by
  simp only [Stop.jump?]
  constructor
  · intro h
    split at h
    · rename_i hu
      rw [← Option.some.inj h]
      exact .target hu
    · simp at h
  · intro h
    cases h with
    | target hu => simp [hu, truncate]

/-- Counted messages pass over the exit: it is the only way or a branch that is not taken. -/
def Exit.isSilent : Exit → Bool
  | outcome taken => !taken
  | target _ => false
  | onward => true

theorem Terrain.silent?_eq_some (hp : Parks t.image.base s) :
    s.silent?.map t.truncate = some a ↔
      ∃ e : Exit, e.isSilent = true ∧ Leads t.image.base s e a := by
  constructor
  · intro h
    simp only [Stop.silent?] at h
    split at h
    · rename_i hb
      rw [← Option.some.inj h]
      exact ⟨.outcome false, rfl, .notTaken hb⟩
    · split at h
      · simp at h
      · rename_i he
        rcases hp with hp | hp
        · exact absurd hp he
        · rw [← Option.some.inj h, truncate, hp.truncate_eq]
          exact ⟨.onward, rfl, hp⟩
  · rintro ⟨e, hs, h⟩
    cases e with
    | outcome taken =>
        cases h with
        | taken _ => cases hs
        | notTaken hb => simp [Stop.silent?, hb, truncate]
    | target _ => cases hs
    | onward =>
        have ⟨he, ha⟩ := Leads.onward_iff.mp h
        have hb : s.instruction.operation.isBranch = false := by
          simp_all [Operation.needsEvidence]
        rcases hp with hp | hp
        · simp [he] at hp
        · have hs : s.address = a := by rw [ha, (Leads.onward_iff.mp hp).2]
          simp [Stop.silent?, hb, Stop.needsEvidence, he, truncate, hs, h.truncate_eq]

end Retrace
