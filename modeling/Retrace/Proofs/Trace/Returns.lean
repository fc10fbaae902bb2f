import Retrace.Proofs.Trace.Effects
import Retrace.Proofs.Trace.Paths

/-!
# Return addresses along a path

The return addresses that calls leave and returns find, as a list, and what of a path they tell.
-/

namespace Retrace

open Isa

/-- Whether the instruction goes to the latest return address, if there is one. -/
def Stop.goesBack (s : Stop) : Bool :=
  s.instruction.operation.isReturn || s.instruction.operation.isSwap

/-- Whether the instruction is one that execution will come back behind. -/
def Stop.links (s : Stop) : Bool :=
  s.instruction.operation.isCall || s.instruction.operation.isSwap

/-- The return addresses after an instruction, the latest first, of which `depth` are kept. -/
def returnsAfter (base : BaseSet) (depth : Nat) (returns : List UInt64) (s : Stop) : List UInt64 :=
  let rest := if s.goesBack then returns.tail else returns
  if s.links then (base.truncate s.after :: rest).take depth else rest

/-- The return address that the instruction finds. -/
def Stop.implied? (s : Stop) (returns : List UInt64) : Option UInt64 :=
  if s.goesBack then returns.head? else none

/-- Every return or swap that finds a return address goes there. -/
def Obeys (base : BaseSet) (depth : Nat) : List UInt64 → List (Stop × Exit) → Prop
  | _, [] => True
  | returns, (s, e) :: steps =>
    (∀ r, s.implied? returns = some r → ∃ a, e = .target a ∧ base.truncate a = r) ∧
      Obeys base depth (returnsAfter base depth returns s) steps

/-- The steps as they are reported if return addresses are known: one to a return address that is
found is the only way. -/
def implying (base : BaseSet) (depth : Nat) :
    List UInt64 → List (Stop × Exit) → List (Stop × Exit)
  | _, [] => []
  | returns, (s, e) :: steps =>
    (s, if (s.implied? returns).isSome then .onward else e) ::
      implying base depth (returnsAfter base depth returns s) steps

variable {T : Terrain} {s : Stop} {r : UInt64} {stack : ReturnStack}

@[simp]
theorem stopsOf_implying (base : BaseSet) (depth : Nat) (returns : List UInt64)
    (steps : List (Stop × Exit)) : stopsOf (implying base depth returns steps) = stopsOf steps := by
  induction steps generalizing returns with
  | nil => rfl
  | cons x steps ih => rw [implying, stopsOf_cons, ih]; rfl

@[simp]
theorem length_implying (base : BaseSet) (depth : Nat) (returns : List UInt64)
    (steps : List (Stop × Exit)) : (implying base depth returns steps).length = steps.length := by
  rw [← length_stopsOf, stopsOf_implying, length_stopsOf]

/-! ## Without return addresses -/

@[simp]
theorem Stop.implied?_nil (s : Stop) : s.implied? [] = none := by
  simp [implied?]

@[simp]
theorem returnsAfter_zero (base : BaseSet) (s : Stop) : returnsAfter base 0 [] s = [] := by
  simp [returnsAfter]

@[simp]
theorem foldl_returnsAfter_zero (base : BaseSet) (ss : List Stop) :
    ss.foldl (returnsAfter base 0) [] = [] := by
  induction ss with
  | nil => rfl
  | cons s ss ih => simpa using ih

theorem obeys_zero (base : BaseSet) (steps : List (Stop × Exit)) : Obeys base 0 [] steps := by
  induction steps with
  | nil => trivial
  | cons x steps ih => exact ⟨by simp, by simpa using ih⟩

@[simp]
theorem implying_zero (base : BaseSet) (steps : List (Stop × Exit)) :
    implying base 0 [] steps = steps := by
  induction steps with
  | nil => rfl
  | cons x steps ih => simp [implying, ih]

/-! ## What walks do at an instruction -/

theorem Terrain.toList_stackAfter (t : Terrain) (s : Stop) (stack : ReturnStack) :
    (t.stackAfter s stack).toList = returnsAfter t.image.base stack.limit stack.toList s := by
  have hafter : t.stackAfter s stack =
      let rest := if s.goesBack then stack.pop.2 else stack
      if s.links then rest.push (t.image.base.truncate s.after) else rest := rfl
  rw [hafter, returnsAfter]
  cases s.goesBack <;> cases s.links <;> simp [ReturnStack.toList_push, ReturnStack.toList_pop]

theorem Terrain.continuation?_eq (t : Terrain) (s : Stop) (stack : ReturnStack) :
    t.continuation? s stack =
      match s.implied? stack.toList with
      | some r => some (t.truncate r)
      | none => if Parks t.image.base s then none else some (t.next s) := by
  rw [Stop.implied?, ← ReturnStack.fst_pop]
  change (match if s.goesBack then stack.pop.1 else none with
    | some r => some (t.truncate r)
    | none => _) = _
  cases (if s.goesBack then stack.pop.1 else none) with
  | some r => rfl
  | none => simp only [parks_iff, Bool.or_eq_true, decide_eq_true_eq]

theorem Terrain.continuation?_of_implied (h : s.implied? stack.toList = some r) :
    T.continuation? s stack = some (T.truncate r) := by
  rw [continuation?_eq, h]

theorem Terrain.continuation?_of_not_implied (h : s.implied? stack.toList = none) :
    T.continuation? s stack = if Parks T.image.base s then none else some (T.next s) := by
  rw [continuation?_eq, h]

end Retrace
