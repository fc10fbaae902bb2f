import Retrace.Image.Basic
import Retrace.Proofs.Image.Search

/-!
# What is known about an address

The tables of an image are sorted when it is built, and searched from the border between the
addresses up to one and those beyond it. What they give is what one finds in the sections, symbols
and line ranges in the order in which they were added: of those that an address lies in, the last
one of the greatest ones.
-/

namespace Retrace

/-- The element has the property, none with it is beyond, and of equal ones it is the last. -/
def Latest {α : Type} (r : α → α → Prop) (q : α → Prop) (xs : List α) (x : α) : Prop :=
  ∃ before behind, xs = before ++ x :: behind ∧ q x ∧
    (∀ y ∈ before, q y → r y x) ∧ ∀ y ∈ behind, q y → ¬ r x y

/-- The address is that of a byte of the section. -/
def Section.Covers (s : Section) (a : UInt64) : Prop :=
  s.address.toNat ≤ a.toNat ∧ a.toNat < s.address.toNat + s.data.length

def LineRange.Covers (r : LineRange) (a : UInt64) : Prop :=
  r.start ≤ a ∧ a < r.stop

/-- The address belongs to the function: it is within the size, or if that is not known, in front of
the next function. -/
def Symbol.Encloses (symbols : List Symbol) (f : Symbol) (a : UInt64) : Prop :=
  f.address ≤ a ∧
    if f.size = 0 then ∀ g ∈ symbols, g.isFunction = true → f.address < g.address → a < g.address
    else a.toNat < f.address.toNat + f.size.toNat

/-- The order of symbols for labels: by address, and functions behind others. -/
def Symbol.Precedes (s s' : Symbol) : Prop :=
  s.address < s'.address ∨ s.address = s'.address ∧ (s.isFunction = true → s'.isFunction = true)

variable {α : Type} {r r' : α → α → Prop} {q : α → Prop} {x y : α} {xs : List α}
  {le : α → α → Bool} {p p' : α → Bool}

/-! ## The latest element -/

namespace Latest

theorem holds (h : Latest r q xs x) : q x := by
  obtain ⟨before, behind, -, hx, -⟩ := h
  exact hx

theorem mem (h : Latest r q xs x) : x ∈ xs := by
  obtain ⟨before, behind, rfl, -⟩ := h
  exact List.mem_append_right _ List.mem_cons_self

theorem congr (hr : ∀ y z, q y → q z → (r y z ↔ r' y z)) :
    Latest r q xs x ↔ Latest r' q xs x := by
  refine exists_congr fun before => exists_congr fun behind => and_congr_right fun _ =>
    and_congr_right fun hx => and_congr ?_ ?_
  · exact forall₃_congr fun y _ hy => hr y x hy hx
  · exact forall₃_congr fun y _ hy => not_congr (hr x y hx hy)

theorem not_nil : ¬ Latest r q [] x := by
  rintro ⟨before, behind, hxs, -⟩
  simp at hxs

/-- An element in front is the latest only if it is beyond all others. -/
theorem cons_iff : Latest r q (y :: xs) x ↔
    Latest r q xs x ∧ (q y → r y x) ∨ y = x ∧ q y ∧ ∀ z ∈ xs, q z → ¬ r y z := by
  constructor
  · rintro ⟨before, behind, hxs, hx, hle, hlt⟩
    cases before with
    | nil =>
        obtain ⟨rfl, rfl⟩ := List.cons.inj hxs
        exact .inr ⟨rfl, hx, hlt⟩
    | cons z before =>
        obtain ⟨rfl, rfl⟩ := List.cons.inj hxs
        obtain ⟨hy, hle⟩ := List.forall_mem_cons.mp hle
        exact .inl ⟨⟨before, behind, rfl, hx, hle, hlt⟩, hy⟩
  · rintro (⟨⟨before, behind, rfl, hx, hle, hlt⟩, hy⟩ | ⟨rfl, hx, hlt⟩)
    · exact ⟨y :: before, behind, rfl, hx, List.forall_mem_cons.mpr ⟨hy, hle⟩, hlt⟩
    · exact ⟨[], xs, rfl, hx, List.forall_mem_nil _, hlt⟩

/-- Elements without the property do not count. -/
theorem filter_iff (hp : ∀ y, q y → p y = true) : Latest r q (xs.filter p) x ↔ Latest r q xs x := by
  induction xs with
  | nil => rfl
  | cons y xs ih =>
      rw [List.filter_cons]
      split
      · rw [cons_iff, cons_iff, ih]
        have hall : (∀ z ∈ xs.filter p, q z → ¬ r y z) ↔ ∀ z ∈ xs, q z → ¬ r y z := by
          refine forall_congr' fun z => ?_
          rw [List.mem_filter]
          exact ⟨fun h hz hqz => h ⟨hz, hp z hqz⟩ hqz, fun h hz => h hz.1⟩
        rw [hall]
      · rename_i hy
        have hqy : ¬ q y := fun h => hy (hp y h)
        rw [ih, cons_iff]
        exact ⟨fun h => .inl ⟨h, fun h' => absurd h' hqy⟩,
          fun h => h.elim And.left fun h' => absurd h'.2.1 hqy⟩

end Latest

/-- Sorting one more element in keeps what a search from behind finds. -/
theorem find?_reverse_insert {l₁ l₂ : List α} (hp : ∀ y, p y = true ↔ q y)
    (hmem : ∀ z, z ∈ xs ↔ z ∈ l₁ ++ l₂) (hbefore : ∀ z ∈ l₁, ¬ r y z) (hbehind : ∀ z ∈ l₂, r y z)
    (h : ∀ x, (l₁ ++ l₂).reverse.find? p = some x ↔ Latest r q xs x) :
    (l₁ ++ y :: l₂).reverse.find? p = some x ↔ Latest r q (y :: xs) x := by
  have hrest := h x
  rw [List.reverse_append, List.find?_append] at hrest
  rw [List.reverse_append, List.reverse_cons, List.append_assoc, List.find?_append,
    List.singleton_append, List.find?_cons, Latest.cons_iff]
  cases hfind : l₂.reverse.find? p with
  | some z =>
      have hz : z ∈ l₂ := List.mem_reverse.mp (List.mem_of_find?_eq_some hfind)
      have hqz : q z := (hp z).mp (List.find?_some hfind)
      rw [hfind, Option.some_or] at hrest
      rw [Option.some_or]
      refine hrest.trans ⟨fun hx => ?_, ?_⟩
      · obtain rfl : z = x := Option.some.inj (hrest.mpr hx)
        exact .inl ⟨hx, fun _ => hbehind z hz⟩
      · rintro (⟨hx, -⟩ | ⟨-, -, hnone⟩)
        · exact hx
        · exact absurd (hbehind z hz) (hnone z ((hmem z).mpr (List.mem_append_right _ hz)) hqz)
  | none =>
      rw [hfind, Option.none_or] at hrest
      rw [Option.none_or]
      cases hy : p y with
      | true =>
          have hqy : q y := (hp y).mp hy
          have hnone : ∀ z ∈ xs, q z → ¬ r y z := fun z hz hqz => by
            rcases List.mem_append.mp ((hmem z).mp hz) with hz | hz
            · exact hbefore z hz
            · exact absurd ((hp z).mpr hqz)
                (List.find?_eq_none.mp hfind z (List.mem_reverse.mpr hz))
          rw [Option.some.injEq]
          constructor
          · exact fun hx => .inr ⟨hx, hqy, hnone⟩
          · rintro (⟨hx, hle⟩ | ⟨hx, -⟩)
            · exact absurd (hle hqy) (hnone x hx.mem hx.holds)
            · exact hx
      | false =>
          have hqy : ¬ q y := fun h => by rw [(hp y).mpr h] at hy; cases hy
          exact hrest.trans ⟨fun hx => .inl ⟨hx, fun h => absurd h hqy⟩,
            fun hx => hx.elim And.left fun h => absurd h.2.1 hqy⟩

/-- Searching a sorted list from behind finds the latest element of the list as it was. -/
theorem find?_reverse_mergeSort (hr : ∀ y z, le y z = true ↔ r y z) (hp : ∀ y, p y = true ↔ q y)
    (htrans : ∀ x y z, r x y → r y z → r x z) (htotal : ∀ y z, r y z ∨ r z y) :
    (xs.mergeSort le).reverse.find? p = some x ↔ Latest r q xs x := by
  have hle (a b c : α) : le a b = true → le b c = true → le a c = true := by
    rw [hr, hr, hr]
    exact htrans a b c
  have htotal' (a b : α) : (le a b || le b a) = true := by
    rw [Bool.or_eq_true, hr, hr]
    exact htotal a b
  induction xs generalizing x with
  | nil => simp [Latest.not_nil]
  | cons y xs ih =>
      obtain ⟨l₁, l₂, hcons, hrest, hbefore⟩ := List.mergeSort_cons hle htotal' y xs
      have hsorted := hcons ▸ List.pairwise_mergeSort hle htotal' (y :: xs)
      rw [hcons]
      refine find?_reverse_insert hp (fun z => ?_) (fun z hz h => ?_) (fun z hz => ?_) fun x => ?_
      · rw [← hrest, List.mem_mergeSort]
      · simpa [(hr y z).mpr h] using hbefore z hz
      · exact (hr y z).mp (List.rel_of_pairwise_cons (List.pairwise_append.mp hsorted).2.1 hz)
      · rw [← hrest]
        exact ih

theorem pairwise_mergeSort_of (hr : ∀ y z, le y z = true ↔ r y z)
    (htrans : ∀ x y z, r x y → r y z → r x z) (htotal : ∀ y z, r y z ∨ r z y) :
    (xs.mergeSort le).Pairwise r := by
  refine (List.pairwise_mergeSort (fun a b c => ?_) (fun a b => ?_) xs).imp fun {y z} => (hr y z).mp
  · rw [hr, hr, hr]
    exact htrans a b c
  · rw [Bool.or_eq_true, hr, hr]
    exact htotal a b

/-- Sorting by an order leaves no element below a bound behind one beyond it. -/
theorem partitioned_mergeSort (hr : ∀ y z, le y z = true ↔ r y z)
    (htrans : ∀ x y z, r x y → r y z → r x z) (htotal : ∀ y z, r y z ∨ r z y)
    (hp : ∀ y z, r y z → p z = true → p y = true) : Search.Partitioned p (xs.mergeSort le) :=
  (pairwise_mergeSort_of hr htrans htotal).imp fun {y z} => hp y z

/-- The search of a sorted list may start at the border between the elements below a bound and those
beyond it. -/
theorem find?_front_mergeSort (hr : ∀ y z, le y z = true ↔ r y z)
    (hp : ∀ y, p y = true ∧ p' y = true ↔ q y) (htrans : ∀ x y z, r x y → r y z → r x z)
    (htotal : ∀ y z, r y z ∨ r z y) (hbound : ∀ y z, r y z → p z = true → p y = true) :
    (Search.front p (xs.mergeSort le)).reverse.find? p' = some x ↔ Latest r q xs x := by
  rw [(partitioned_mergeSort hr htrans htotal hbound).find?_front]
  exact find?_reverse_mergeSort hr (fun y => decide_eq_true_iff.trans (hp y)) htrans htotal

theorem Latest.exists_iff (htrans : ∀ x y z, r x y → r y z → r x z)
    (htotal : ∀ y z, r y z ∨ r z y) : (∃ x, Latest r q xs x) ↔ ∃ x ∈ xs, q x := by
  classical
  constructor
  · rintro ⟨x, h⟩
    exact ⟨x, h.mem, h.holds⟩
  · rintro ⟨y, hy, hqy⟩
    have hfind (x : α) : (xs.mergeSort fun y z => decide (r y z)).reverse.find?
        (fun y => decide (q y)) = some x ↔ Latest r q xs x :=
      find?_reverse_mergeSort (fun _ _ => decide_eq_true_iff) (fun _ => decide_eq_true_iff) htrans
        htotal
    have hsome : ((xs.mergeSort fun y z => decide (r y z)).reverse.find?
        fun y => decide (q y)).isSome = true := by
      rw [List.find?_isSome]
      exact ⟨y, List.mem_reverse.mpr (List.mem_mergeSort.mpr hy), decide_eq_true hqy⟩
    obtain ⟨x, hx⟩ := Option.isSome_iff_exists.mp hsome
    exact ⟨x, (hfind x).mp hx⟩

/-! ## Sections and line ranges -/

theorem Section.contains_iff (s : Section) (a : UInt64) : s.contains a = true ↔ s.Covers a := by
  simp only [contains, Covers, Bool.and_eq_true, decide_eq_true_eq, UInt64.le_iff_toNat_le]
  refine and_congr_right fun hle => ?_
  rw [UInt64.toNat_sub_of_le _ _ (UInt64.le_iff_toNat_le.mpr hle)]
  omega

/-- No range reaches the greatest address. -/
theorem LineRange.Covers.lt_maxWord {r : LineRange} {a : UInt64} (h : r.Covers a) :
    a < maxWord := by
  have hmax : maxWord.toNat = 2 ^ 64 - 1 := rfl
  have hlt := UInt64.lt_iff_toNat_lt.mp h.2
  have hstop := r.stop.toNat_lt
  rw [UInt64.lt_iff_toNat_lt]
  omega

theorem Image.sectionAt?_ofParts {base : Isa.BaseSet} {sections : List Section}
    {symbols : List Symbol} {lines : List LineRange} {a : UInt64} {s : Section} :
    (ofParts base sections symbols lines).sectionAt? a = some s ↔
      Latest (fun s s' => s.address ≤ s'.address) (·.Covers a) sections s := by
  have hcovers (s : Section) :
      decide (s.address ≤ a) = true ∧ s.contains a = true ↔ s.Covers a := by
    rw [s.contains_iff, decide_eq_true_iff]
    exact and_iff_right_of_imp fun h => UInt64.le_iff_toNat_le.mpr h.1
  refine find?_front_mergeSort (fun _ _ => decide_eq_true_iff) hcovers
    (fun _ _ _ => UInt64.le_trans) (fun _ _ => UInt64.le_total _ _) fun s s' h h' => ?_
  exact decide_eq_true (UInt64.le_trans h (of_decide_eq_true h'))

theorem LineTable.find?_ofList {lines : List LineRange} {a : UInt64} {range : LineRange} :
    (ofList lines).find? a = some range ↔
      Latest (fun r r' => r.start ≤ r'.start) (·.Covers a) lines range := by
  have hcovers (r : LineRange) (h : r.Covers a) : decide (r.start < r.stop) = true :=
    decide_eq_true (UInt64.lt_of_le_of_lt h.1 h.2)
  rw [← Latest.filter_iff hcovers]
  refine find?_front_mergeSort (fun _ _ => decide_eq_true_iff)
    (fun _ => and_congr decide_eq_true_iff decide_eq_true_iff) (fun _ _ _ => UInt64.le_trans)
    (fun _ _ => UInt64.le_total _ _) fun r r' h h' => ?_
  exact decide_eq_true (UInt64.le_trans h (of_decide_eq_true h'))

/-! ## Symbols -/

namespace Symbol

variable {symbols fs : List Symbol} {a : UInt64}

theorem le_iff (s s' : Symbol) : s.le s' = true ↔ s.Precedes s' := by
  simp only [le, Precedes, Bool.or_eq_true, Bool.and_eq_true, decide_eq_true_eq,
    Bool.not_eq_eq_eq_not, Bool.not_true]
  cases s.isFunction <;> simp

theorem Precedes.trans {s s' s'' : Symbol} (h : s.Precedes s') (h' : s'.Precedes s'') :
    s.Precedes s'' := by
  rcases h with h | ⟨h, hf⟩
  · rcases h' with h' | ⟨h', -⟩
    · exact .inl (UInt64.lt_trans h h')
    · exact .inl (h' ▸ h)
  · rcases h' with h' | ⟨h', hf'⟩
    · exact .inl (h ▸ h')
    · exact .inr ⟨h.trans h', fun hs => hf' (hf hs)⟩

theorem Precedes.of_le {s s' : Symbol} (h : s.address ≤ s'.address) :
    s.Precedes s' ∨ s'.Precedes s := by
  rcases UInt64.lt_or_eq_of_le h with h | h
  · exact .inl (.inl h)
  · cases hf : s'.isFunction with
    | true => exact .inl (.inr ⟨h, fun _ => hf⟩)
    | false => exact .inr (.inr ⟨h.symm, fun hs => by rw [hf] at hs; cases hs⟩)

theorem Precedes.total (s s' : Symbol) : s.Precedes s' ∨ s'.Precedes s :=
  (UInt64.le_total s.address s'.address).elim of_le fun h => (of_le h).symm

theorem Precedes.address_le {s s' : Symbol} (h : s.Precedes s') : s.address ≤ s'.address :=
  h.elim UInt64.le_of_lt fun h => h.1 ▸ UInt64.le_refl _

/-- The order of functions is that of their addresses. -/
theorem precedes_iff_of_function {s s' : Symbol} (h' : s'.isFunction = true) :
    s.Precedes s' ↔ s.address ≤ s'.address := by
  rw [Precedes, UInt64.le_iff_lt_or_eq]
  exact or_congr_right ⟨And.left, fun h => ⟨h, fun _ => h'⟩⟩

/-- The range of a function among others. -/
def rangeAmong (fs : List Symbol) (f : Symbol) : FunctionRange :=
  ⟨f.address,
    if f.size ≠ 0 then addCapped f.address f.size
    else ((fs.map (·.address)).find? (f.address < ·)).getD maxWord,
    f.name⟩

/-- Behind functions that are not greater, the ranges are those among all functions. -/
theorem functionRanges_eq_map (before fs : List Symbol)
    (hbefore : ∀ g ∈ before, ∀ f ∈ fs, g.address ≤ f.address)
    (hsorted : fs.Pairwise (·.address ≤ ·.address)) :
    functionRanges fs = fs.map (rangeAmong (before ++ fs)) := by
  induction fs generalizing before with
  | nil => rfl
  | cons f fs ih =>
      obtain ⟨hf, hsorted⟩ := List.pairwise_cons.mp hsorted
      have hnone : ((before ++ [f]).map (·.address)).find? (f.address < ·) = none := by
        simp only [List.find?_eq_none, List.mem_map, List.mem_append, List.mem_singleton,
          decide_eq_true_eq, UInt64.not_lt]
        rintro _ ⟨g, hg | rfl, rfl⟩
        · exact hbefore g hg f List.mem_cons_self
        · exact UInt64.le_refl _
      have hrest := ih (before ++ [f]) (fun g hg g' hg' => by
        rcases List.mem_append.mp hg with hg | hg
        · exact hbefore g hg g' (List.mem_cons_of_mem _ hg')
        · exact List.mem_singleton.mp hg ▸ hf g' hg') hsorted
      rw [List.append_cons, List.map_cons, functionRanges, hrest]
      refine congrArg (· :: _) ?_
      rw [rangeAmong, List.map_append, List.find?_append, hnone, Option.none_or]

/-- In ascending order, the first address that is greater than another is the least one. -/
theorem lt_first_greater_iff {addresses : List UInt64} {b : UInt64}
    (hsorted : addresses.Pairwise (· ≤ ·)) (ha : a < maxWord) :
    a < (addresses.find? (b < ·)).getD maxWord ↔ ∀ c ∈ addresses, b < c → a < c := by
  cases hfind : addresses.find? (b < ·) with
  | none =>
      refine iff_of_true ha fun c hc hlt => ?_
      exact absurd (decide_eq_true hlt) (List.find?_eq_none.mp hfind c hc)
  | some d =>
      obtain ⟨hd, before, behind, rfl, hbefore⟩ := List.find?_eq_some_iff_append.mp hfind
      rw [Option.getD_some]
      constructor
      · intro hlt c hc hbc
        rcases List.mem_append.mp hc with hc | hc
        · simpa [hbc] using hbefore c hc
        · rcases List.mem_cons.mp hc with rfl | hc
          · exact hlt
          · have hle := List.rel_of_pairwise_cons (List.pairwise_append.mp hsorted).2.1 hc
            exact UInt64.lt_of_lt_of_le hlt hle
      · intro hall
        exact hall d (List.mem_append_right _ List.mem_cons_self) (of_decide_eq_true hd)

theorem lt_addCapped_iff {b size : UInt64} (ha : a < maxWord) :
    a < addCapped b size ↔ a.toNat < b.toNat + size.toNat := by
  have hmax : maxWord.toNat = 2 ^ 64 - 1 := rfl
  rw [UInt64.lt_iff_toNat_lt] at ha
  rw [addCapped, UInt64.lt_iff_toNat_lt, UInt64.size]
  split
  · rw [UInt64.toNat_add]
    omega
  · omega

/-- At any address but the greatest one, the range of a function holds what the function
encloses. -/
theorem rangeAmong_iff (hsorted : fs.Pairwise (·.address ≤ ·.address))
    (hfs : ∀ g, g ∈ fs ↔ g ∈ symbols ∧ g.isFunction = true) (ha : a < maxWord) (f : Symbol) :
    (rangeAmong fs f).start ≤ a ∧ a < (rangeAmong fs f).stop ↔ f.Encloses symbols a := by
  refine and_congr_right fun _ => ?_
  rw [rangeAmong]
  by_cases hsize : f.size = 0
  · rw [if_neg (not_not.mpr hsize), if_pos hsize,
      lt_first_greater_iff (List.pairwise_map.mpr hsorted) ha, List.forall_mem_map]
    simp only [hfs, and_imp]
  · rw [if_pos hsize, if_neg hsize, lt_addCapped_iff ha]

end Symbol

namespace SymbolTable

variable {symbols : List Symbol} {a : UInt64}

theorem label?_ofList {label : Label} :
    (ofList symbols).label? a = some label ↔
      ∃ s, Latest Symbol.Precedes (·.address ≤ a) symbols s ∧ label = ⟨s.name, a - s.address⟩ := by
  have hsorted : Search.Partitioned (·.address ≤ a) (symbols.mergeSort Symbol.le) :=
    partitioned_mergeSort Symbol.le_iff (fun _ _ _ => Symbol.Precedes.trans) Symbol.Precedes.total
      fun s s' h h' => decide_eq_true (UInt64.le_trans h.address_le (of_decide_eq_true h'))
  simp only [label?, ofList, hsorted.last?_eq, Option.map_eq_some_iff]
  refine exists_congr fun s => and_congr ?_ eq_comm
  exact find?_reverse_mergeSort Symbol.le_iff (fun _ => decide_eq_true_iff)
    (fun _ _ _ => Symbol.Precedes.trans) Symbol.Precedes.total

theorem function?_ofList {name : String} (ha : a < maxWord) :
    (ofList symbols).function? a = some name ↔
      ∃ f, Latest (fun f f' => f.address ≤ f'.address)
        (fun f => f.isFunction = true ∧ f.Encloses symbols a) symbols f ∧ f.name = name := by
  let fs := (symbols.mergeSort Symbol.le).filter (·.isFunction)
  have hall : (symbols.mergeSort Symbol.le).Pairwise Symbol.Precedes :=
    pairwise_mergeSort_of Symbol.le_iff (fun _ _ _ => Symbol.Precedes.trans) Symbol.Precedes.total
  have hsorted : fs.Pairwise (·.address ≤ ·.address) :=
    (hall.filter _).imp Symbol.Precedes.address_le
  have hfs (g : Symbol) : g ∈ fs ↔ g ∈ symbols ∧ g.isFunction = true := by
    rw [List.mem_filter, List.mem_mergeSort]
  have hranges : Symbol.functionRanges fs = fs.map (Symbol.rangeAmong fs) :=
    Symbol.functionRanges_eq_map [] fs (List.forall_mem_nil _) hsorted
  have hpartitioned : Search.Partitioned (·.start ≤ a) (fs.map (Symbol.rangeAmong fs)) :=
    List.pairwise_map.mpr (hsorted.imp fun {s s'} h h' =>
      decide_eq_true (UInt64.le_trans h (of_decide_eq_true h')))
  have hencloses (f : Symbol) :
      decide (f.isFunction = true ∧ decide (decide ((Symbol.rangeAmong fs f).start ≤ a) = true ∧
        decide (a < (Symbol.rangeAmong fs f).stop) = true) = true) = true ↔
        f.isFunction = true ∧ f.Encloses symbols a := by
    simp only [decide_eq_true_eq, Symbol.rangeAmong_iff hsorted hfs ha]
  simp only [function?, ofList]
  rw [hranges, hpartitioned.find?_front, ← List.map_reverse, List.find?_map, Option.map_map,
    ← List.filter_reverse, List.find?_filter, Option.map_eq_some_iff]
  refine exists_congr fun f => and_congr_left fun _ => ?_
  rw [← Latest.congr (r := Symbol.Precedes) fun f f' _ h' => Symbol.precedes_iff_of_function h'.1]
  exact find?_reverse_mergeSort Symbol.le_iff hencloses (fun _ _ _ => Symbol.Precedes.trans)
    Symbol.Precedes.total

end SymbolTable

namespace Image

variable {base : Isa.BaseSet} {sections : List Section} {symbols : List Symbol}
  {lines : List LineRange} {a : UInt64}

theorem exists_sectionAt?_iff :
    (∃ s, (ofParts base sections symbols lines).sectionAt? a = some s) ↔
      ∃ s ∈ sections, s.Covers a := by
  simp only [sectionAt?_ofParts]
  exact Latest.exists_iff (fun _ _ _ => UInt64.le_trans) fun _ _ => UInt64.le_total _ _

theorem lookup_source?_eq_some {image : Image} {source : Source} :
    (image.lookup a).source? = some source ↔
      (∃ s, image.sectionAt? a = some s) ∧ ∃ range, image.lines.find? a = some range ∧
        source = ⟨range.file, range.line, image.symbols.function? a⟩ := by
  simp only [lookup]
  cases image.sectionAt? a with
  | none => simp
  | some s =>
      cases image.lines.find? a with
      | none => simp
      | some range => simp [eq_comm]

/-- What an image tells about an address is what its parts tell, in any order: the source if a
section and a line range cover the address, and then the latest range that does, the latest function
that encloses it, and the latest symbol at or before it. -/
theorem lookups_find_latest (base : Isa.BaseSet) (sections : List Section) (symbols : List Symbol)
    (lines : List LineRange) (a : UInt64) :
    let c := (ofParts base sections symbols lines).lookup a
    c.address = a ∧
    (c.source?.isSome = true ↔ (∃ s ∈ sections, s.Covers a) ∧ ∃ r ∈ lines, r.Covers a) ∧
    (∀ source, c.source? = some source ↔ (∃ s ∈ sections, s.Covers a) ∧
      (∃ r, Latest (fun r r' => r.start ≤ r'.start) (·.Covers a) lines r ∧
        source.file = r.file ∧ source.line = r.line) ∧
      ∀ name, source.function? = some name ↔
        ∃ f, Latest (fun f f' => f.address ≤ f'.address)
          (fun f => f.isFunction = true ∧ f.Encloses symbols a) symbols f ∧ f.name = name) ∧
    ∀ label, c.label? = some label ↔
      ∃ s, Latest Symbol.Precedes (·.address ≤ a) symbols s ∧
        label = ⟨s.name, a - s.address⟩ := by
  intro c
  refine ⟨rfl, ?_, fun source => ?_, fun label => SymbolTable.label?_ofList⟩
  · rw [Option.isSome_iff_exists]
    simp only [c, lookup_source?_eq_some, exists_sectionAt?_iff]
    constructor
    · rintro ⟨_, hs, range, hfind, -⟩
      have hlatest := LineTable.find?_ofList.mp hfind
      exact ⟨hs, range, hlatest.mem, hlatest.holds⟩
    · rintro ⟨hs, range, hrange⟩
      obtain ⟨latest, hlatest⟩ := (Latest.exists_iff (r := fun r r' => r.start ≤ r'.start)
        (q := (·.Covers a)) (fun _ _ _ => UInt64.le_trans) fun _ _ => UInt64.le_total _ _).mpr
        ⟨range, hrange⟩
      exact ⟨_, hs, latest, LineTable.find?_ofList.mpr hlatest, rfl⟩
  · simp only [c, lookup_source?_eq_some, exists_sectionAt?_iff]
    refine and_congr_right fun _ => ?_
    constructor
    · rintro ⟨range, hfind, rfl⟩
      have hlatest := LineTable.find?_ofList.mp hfind
      exact ⟨⟨range, hlatest, rfl, rfl⟩, fun name =>
        SymbolTable.function?_ofList hlatest.holds.lt_maxWord⟩
    · rintro ⟨⟨range, hlatest, hfile, hline⟩, hfunction⟩
      have hname : source.function? = (SymbolTable.ofList symbols).function? a :=
        Option.ext fun name =>
          (hfunction name).trans (SymbolTable.function?_ofList hlatest.holds.lt_maxWord).symm
      obtain ⟨file, line, function?⟩ := source
      obtain rfl : file = range.file := hfile
      obtain rfl : line = range.line := hline
      obtain rfl : function? = _ := hname
      exact ⟨range, LineTable.find?_ofList.mpr hlatest, rfl⟩

end Image

end Retrace
