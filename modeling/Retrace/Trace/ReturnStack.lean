/-!
# Return stacks

The return addresses of the calls that have not returned. A stack has a greatest depth: a push
onto a full stack forgets the oldest address. `ReturnStack.toList` is what the stack still holds,
the latest first.
-/

namespace Retrace

/-- Return addresses, of which the latest ones may be popped. -/
structure ReturnStack where
  /-- The greatest depth. -/
  limit : Nat
  /-- Addresses that were pushed and not popped, the latest first. -/
  addresses : List UInt64
  /-- How many of the addresses are not forgotten. -/
  depth : Nat
  depth_le_limit : depth ≤ limit
  depth_le_length : depth ≤ addresses.length
  deriving Repr

namespace ReturnStack

/-- The empty stack of a greatest depth. -/
def empty (limit : Nat) : ReturnStack :=
  ⟨limit, [], 0, Nat.zero_le _, Nat.zero_le _⟩

/-- The addresses that the stack holds, the latest first. -/
def toList (s : ReturnStack) : List UInt64 :=
  s.addresses.take s.depth

/-- Adds an address. A stack that is full forgets the oldest one. -/
def push (s : ReturnStack) (address : UInt64) : ReturnStack :=
  if s.limit = 0 then s
  else
    have := s.depth_le_length
    ⟨s.limit, address :: s.addresses, min (s.depth + 1) s.limit, by omega,
      by rw [List.length_cons]; omega⟩

/-- The latest address and the stack without it. -/
def pop (s : ReturnStack) : Option UInt64 × ReturnStack :=
  if s.depth = 0 then (none, s)
  else
    have := s.depth_le_limit
    have := s.depth_le_length
    (s.addresses.head?, ⟨s.limit, s.addresses.tail, s.depth - 1, by omega,
      by rw [List.length_tail]; omega⟩)

/-- The stack without its addresses. -/
def clear (s : ReturnStack) : ReturnStack :=
  empty s.limit

/-! ## What the operations do to the addresses -/

theorem length_toList (s : ReturnStack) : s.toList.length = s.depth := by
  have := s.depth_le_length
  simp only [toList, List.length_take]
  omega

@[simp]
theorem toList_empty (limit : Nat) : (empty limit).toList = [] := rfl

@[simp]
theorem toList_clear (s : ReturnStack) : s.clear.toList = [] := rfl

theorem toList_push (s : ReturnStack) (address : UInt64) :
    (s.push address).toList = (address :: s.toList).take s.limit := by
  have := s.depth_le_limit
  unfold push
  split
  · simp only [toList]
    have : s.depth = 0 := by omega
    simp_all
  · obtain ⟨n, hn⟩ : ∃ n, s.limit = n + 1 := ⟨s.limit - 1, by omega⟩
    simp only [toList, hn, List.take_succ_cons, List.take_take]
    rw [show min (s.depth + 1) (n + 1) = min n s.depth + 1 by omega, List.take_succ_cons]

theorem fst_pop (s : ReturnStack) : s.pop.1 = s.toList.head? := by
  unfold pop toList
  split
  · simp_all
  · rename_i h
    change s.addresses.head? = _
    rw [← Nat.succ_pred h]
    cases s.addresses <;> rfl

theorem toList_pop (s : ReturnStack) : s.pop.2.toList = s.toList.tail := by
  unfold pop toList
  split
  · simp_all
  · rename_i h
    change s.addresses.tail.take s.depth.pred = _
    rw [← Nat.succ_pred h]
    cases s.addresses <;> simp

end ReturnStack

end Retrace
