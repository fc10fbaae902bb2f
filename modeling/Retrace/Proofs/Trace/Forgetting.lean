import Mathlib.Data.List.Infix
import Retrace.Proofs.Trace.Effects

/-!
# Return stacks only forget

Return stacks of any depth that see the same calls and returns are compared with a stack without a
limit. A bounded stack holds the topmost addresses of that one, and a deeper one holds at least as
many. So an address that a stack has forgotten is missing, but it is never replaced by another.
-/

namespace Retrace.ReturnStack

/-- What calls and returns do to a stack. -/
inductive Use where
  | push (address : UInt64)
  | pop
  deriving DecidableEq, Repr

namespace Use

/-- The addresses of a stack without a limit, the latest first. Popping an empty one does
nothing. -/
def apply (addresses : List UInt64) : Use → List UInt64
  | push address => address :: addresses
  | pop => addresses.tail

/-- The number of addresses of a stack with a limit. -/
def count (limit n : Nat) : Use → Nat
  | push _ => min (n + 1) limit
  | pop => n - 1

end Use

def use (s : ReturnStack) : Use → ReturnStack
  | .push address => s.push address
  | .pop => s.pop.2

/-- The stack that the uses leave of an empty one. -/
def after (limit : Nat) (uses : List Use) : ReturnStack :=
  uses.foldl use (empty limit)

/-- What a stack without a limit holds. -/
def unbounded (uses : List Use) : List UInt64 :=
  uses.foldl Use.apply []

/-- How many addresses a stack with a limit holds. -/
def held (limit : Nat) (uses : List Use) : Nat :=
  uses.foldl (Use.count limit) 0

variable {s t : ReturnStack} {xs ys : List UInt64}

/-! ## One operation -/

@[simp]
theorem limit_use (s : ReturnStack) (u : Use) : (s.use u).limit = s.limit := by
  cases u with
  | push address => exact limit_push s address
  | pop => exact limit_pop s

theorem length_toList_le (s : ReturnStack) : s.toList.length ≤ s.limit :=
  s.length_toList ▸ s.depth_le_limit

/-- A bounded stack does what one without a limit does, and then forgets what is too much. -/
theorem toList_use (s : ReturnStack) (u : Use) :
    (s.use u).toList = (u.apply s.toList).take s.limit := by
  cases u with
  | push address => exact toList_push s address
  | pop =>
      have hlength : s.toList.tail.length ≤ s.limit := by
        rw [List.length_tail]
        exact (Nat.sub_le _ _).trans s.length_toList_le
      exact (toList_pop s).trans (List.take_of_length_le hlength).symm

theorem length_apply (limit : Nat) (u : Use) (h : xs.length ≤ limit) :
    ((u.apply xs).take limit).length = u.count limit xs.length := by
  cases u with
  | push address => rw [List.length_take, Use.apply, List.length_cons, Use.count, Nat.min_comm]
  | pop =>
      rw [List.length_take, Use.apply, List.length_tail, Use.count]
      exact Nat.min_eq_right ((Nat.sub_le _ _).trans h)

theorem apply_mono (u : Use) (h : xs <+: ys) : u.apply xs <+: u.apply ys := by
  cases u with
  | push address => exact (List.prefix_cons_inj address).mpr h
  | pop =>
      rw [Use.apply, Use.apply, ← List.drop_one, ← List.drop_one]
      exact h.drop 1

theorem use_prefix_apply (u : Use) (h : s.toList <+: xs) : (s.use u).toList <+: u.apply xs := by
  rw [toList_use]
  exact (List.take_prefix _ _).trans (apply_mono u h)

theorem use_prefix_use (u : Use) (hlimit : s.limit ≤ t.limit) (h : s.toList <+: t.toList) :
    (s.use u).toList <+: (t.use u).toList := by
  rw [toList_use, toList_use]
  exact (List.take_prefix_take_left hlimit).trans ((apply_mono u h).take _)

/-! ## All operations -/

-- The runs start anywhere, so that the induction on the uses can move their starts.

theorem limit_foldl_use (s : ReturnStack) (uses : List Use) :
    (uses.foldl use s).limit = s.limit := by
  induction uses generalizing s with
  | nil => rfl
  | cons u uses ih => exact (ih (s.use u)).trans (limit_use s u)

theorem foldl_use_prefix_apply (uses : List Use) (h : s.toList <+: xs) :
    (uses.foldl use s).toList <+: uses.foldl Use.apply xs := by
  induction uses generalizing s xs with
  | nil => exact h
  | cons u uses ih => exact ih (use_prefix_apply u h)

theorem foldl_use_prefix_use (uses : List Use) (hlimit : s.limit ≤ t.limit)
    (h : s.toList <+: t.toList) : (uses.foldl use s).toList <+: (uses.foldl use t).toList := by
  induction uses generalizing s t with
  | nil => exact h
  | cons u uses ih =>
      refine ih ?_ (use_prefix_use u hlimit h)
      rwa [limit_use, limit_use]

theorem length_foldl_use (s : ReturnStack) (uses : List Use) :
    (uses.foldl use s).toList.length = uses.foldl (Use.count s.limit) s.toList.length := by
  induction uses generalizing s with
  | nil => rfl
  | cons u uses ih =>
      rw [List.foldl_cons, List.foldl_cons, ih, limit_use, toList_use,
        length_apply s.limit u s.length_toList_le]

theorem length_after (limit : Nat) (uses : List Use) :
    (after limit uses).toList.length = held limit uses :=
  length_foldl_use (empty limit) uses

theorem limit_after (limit : Nat) (uses : List Use) : (after limit uses).limit = limit :=
  limit_foldl_use (empty limit) uses

theorem held_le_limit (limit : Nat) (uses : List Use) : held limit uses ≤ limit := by
  have hlength := (after limit uses).length_toList_le
  rwa [length_after, limit_after] at hlength

theorem after_prefix_unbounded (limit : Nat) (uses : List Use) :
    (after limit uses).toList <+: unbounded uses :=
  foldl_use_prefix_apply uses List.nil_prefix

theorem after_prefix_after {limit deeper : Nat} (h : limit ≤ deeper) (uses : List Use) :
    (after limit uses).toList <+: (after deeper uses).toList :=
  foldl_use_prefix_use uses h List.nil_prefix

theorem head?_of_pop (h : s.toList <+: xs) {a : UInt64} (hpop : s.pop.1 = some a) :
    xs.head? = some a := by
  rw [fst_pop] at hpop
  obtain ⟨rest, rfl⟩ := h
  rw [List.head?_append, hpop, Option.some_or]

/-- A bounded stack holds the topmost addresses of one without a limit, as many as calls and returns
leave below the limit, so it gives no address but the one that is on top there, and a deeper stack
gives the same one. -/
theorem stacks_only_forget (limit : Nat) (uses : List Use) :
    (after limit uses).toList = (unbounded uses).take (held limit uses) ∧
      (after limit uses).toList.length = held limit uses ∧ held limit uses ≤ limit ∧
      (∀ a, (after limit uses).pop.1 = some a → (unbounded uses).head? = some a) ∧
      ∀ deeper, limit ≤ deeper → ∀ a, (after limit uses).pop.1 = some a →
        (after deeper uses).pop.1 = some a := by
  have htop := after_prefix_unbounded limit uses
  refine ⟨?_, length_after limit uses, held_le_limit limit uses, fun a => head?_of_pop htop, ?_⟩
  · rw [← length_after]
    exact List.prefix_iff_eq_take.mp htop
  · intro deeper hdeeper a hpop
    rw [fst_pop]
    exact head?_of_pop (after_prefix_after hdeeper uses) hpop

/-- A push onto a full stack, and the return that misses the address which that push evicted. -/
theorem evicted_address_is_missing :
    let uses : List Use := [.push 0x10, .push 0x20, .push 0x30, .pop]
    (after 2 uses).pop.1 = some 0x20 ∧ (unbounded uses).head? = some 0x20 ∧
      (after 3 uses).pop.1 = some 0x20 ∧ (after 2 (uses ++ [.pop])).pop.1 = none ∧
      (after 3 (uses ++ [.pop])).pop.1 = some 0x10 := by
  intro uses
  obtain ⟨-, -, -, htop, hdeeper⟩ := stacks_only_forget 2 uses
  exact ⟨rfl, htop 0x20 rfl, hdeeper 3 (by omega) 0x20 rfl, rfl, rfl⟩

end Retrace.ReturnStack
