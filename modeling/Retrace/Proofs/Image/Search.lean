import Mathlib.Data.List.Basic
import Retrace.Image.Search

/-!
# Bisection finds what a scan finds

In a list where no element with a property is behind one without, halving leads to the border
between the two. A search in front of the border is then one of the whole list.
-/

namespace Retrace.Search

variable {α : Type} {p q : α → Bool} {xs : List α} {k base size : Nat}

/-- No element with the property is behind one without. -/
def Partitioned (p : α → Bool) (xs : List α) : Prop :=
  xs.Pairwise fun x y => p y = true → p x = true

/-- While the border is in the stretch that is left, halving leads to it. -/
theorem bisect_eq (hk : ∀ i, (xs[i]?).any p = true ↔ i < k) (hlow : base ≤ k)
    (hhigh : k ≤ base + size) : bisect p xs base size = k := by
  fun_induction bisect p xs base size with
  | case1 base size hsize half next ih =>
      -- The middle tells on which side the border is.
      refine ih ?_ ?_ <;> simp only [next, hk] <;> split <;> omega
  | case2 base size hsize hbase =>
      rw [hk] at hbase
      omega
  | case3 base size hsize hbase =>
      rw [hk] at hbase
      omega

namespace Partitioned

theorem any_iff (h : Partitioned p xs) (i : Nat) :
    (xs[i]?).any p = true ↔ i < (xs.takeWhile p).length := by
  induction xs generalizing i with
  | nil => simp
  | cons x xs ih =>
      obtain ⟨hx, hrest⟩ := List.pairwise_cons.mp h
      cases hp : p x with
      | true => cases i <;> simp [hp, ih hrest]
      | false =>
          have hnone (y : α) (hy : y ∈ xs) : p y = false :=
            Bool.eq_false_iff.mpr fun hpy => by simp [hx y hy hpy] at hp
          cases i with
          | zero => simp [hp]
          | succ i =>
              cases hi : xs[i]? with
              | none => simp [hp, hi]
              | some y => simp [hp, hi, hnone y (List.mem_of_getElem? hi)]

theorem partitionPoint_eq (h : Partitioned p xs) :
    partitionPoint p xs = (xs.takeWhile p).length :=
  bisect_eq h.any_iff (Nat.zero_le _) (by simpa using (List.takeWhile_prefix p).length_le)

theorem takeWhile_eq_filter (h : Partitioned p xs) : xs.takeWhile p = xs.filter p := by
  induction xs with
  | nil => rfl
  | cons x xs ih =>
      obtain ⟨hx, hrest⟩ := List.pairwise_cons.mp h
      cases hp : p x with
      | true => simp [hp, ih hrest]
      | false =>
          have hnone : xs.filter p = [] := List.filter_eq_nil_iff.mpr fun y hy hpy => by
            simp [hx y hy hpy] at hp
          simp [hp, hnone]

theorem front_eq (h : Partitioned p xs) : front p xs = xs.filter p := by
  rw [front, h.partitionPoint_eq, ← List.prefix_iff_eq_take.mp (List.takeWhile_prefix p),
    h.takeWhile_eq_filter]

/-- A search from behind that starts at the border is one of the whole list. -/
theorem find?_front (h : Partitioned p xs) :
    (front p xs).reverse.find? q = xs.reverse.find? fun x => decide (p x = true ∧ q x = true) := by
  rw [h.front_eq, ← List.filter_reverse, List.find?_filter]

theorem last?_eq (h : Partitioned p xs) : last? p xs = xs.reverse.find? p := by
  have hlast : last? p xs = (front p xs).getLast? := by
    rw [front, last?, List.getLast?_take]
    cases hpoint : partitionPoint p xs with
    | zero => rfl
    | succ i =>
        have hlt : i < xs.length := by
          have hle := (List.takeWhile_prefix p (l := xs)).length_le
          rw [← h.partitionPoint_eq] at hle
          omega
        simp [List.getElem?_eq_getElem hlt]
  rw [hlast, h.front_eq, ← List.head?_reverse, ← List.filter_reverse, List.head?_filter]

end Partitioned

end Retrace.Search
