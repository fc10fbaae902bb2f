import Retrace.Proofs.Session.Independence

/-!
# What a session counts

Each reading is counted once, as a message of its kind or as a packet that was passed over. Records
and printed lines are counted as they are given.
-/

namespace Retrace

open Wire

/-! ## Tallies -/

namespace MessageKind

instance : Std.TransOrd MessageKind :=
  inferInstanceAs (Std.TransCmp (compareOn MessageKind.ctorIdx))

instance : Std.LawfulEqOrd MessageKind where
  eq_of_compare {a b} h := by
    cases a <;> cases b <;> first | rfl | cases h

end MessageKind

namespace Tally

variable {κ : Type} {t : Tally κ} {counts : List (κ × Nat)} {key k : κ}

theorem lookup_of_ne [DecidableEq κ] (h : k ≠ key) (n : Nat) :
    ((key, n) :: counts).lookup k = counts.lookup k := by
  rw [List.lookup_cons, beq_false_of_ne h]

variable [Ord κ]

/-- Each key is counted in one place, and the keys are in order. -/
def Ascending (t : Tally κ) : Prop :=
  t.counts.Pairwise fun p q => compare p.1 q.1 = .lt

theorem key_of_mem_bump {p : κ × Nat} (h : p ∈ bump key counts) :
    p.1 = key ∨ ∃ q ∈ counts, q.1 = p.1 := by
  fun_induction bump key counts with
  | case1 => exact .inl (congrArg Prod.fst (List.mem_singleton.mp h))
  | case2 k n rest hlt =>
      rcases List.mem_cons.mp h with rfl | h
      · exact .inl rfl
      · exact .inr ⟨p, h, rfl⟩
  | case3 k n rest heq =>
      rcases List.mem_cons.mp h with rfl | h
      · exact .inr ⟨(k, n), List.mem_cons_self, rfl⟩
      · exact .inr ⟨p, List.mem_cons_of_mem _ h, rfl⟩
  | case4 k n rest hgt ih =>
      rcases List.mem_cons.mp h with rfl | h
      · exact .inr ⟨(k, n), List.mem_cons_self, rfl⟩
      · rcases ih h with hk | ⟨q, hq, hk⟩
        · exact .inl hk
        · exact .inr ⟨q, List.mem_cons_of_mem _ hq, hk⟩

variable [Std.TransOrd κ]

theorem Ascending.add (h : t.Ascending) (key : κ) : (t.add key).Ascending := by
  obtain ⟨counts⟩ := t
  change (bump key counts).Pairwise _
  unfold Ascending at h
  fun_induction bump key counts with
  | case1 => exact List.pairwise_singleton _ _
  | case2 k n rest hlt =>
      refine List.pairwise_cons.mpr ⟨List.forall_mem_cons.mpr ⟨hlt, fun p hp => ?_⟩, h⟩
      exact Std.TransCmp.lt_trans hlt ((List.pairwise_cons.mp h).1 p hp)
  | case3 k n rest heq => exact List.pairwise_cons.mpr (List.pairwise_cons.mp h)
  | case4 k n rest hgt ih =>
      obtain ⟨hk, hrest⟩ := List.pairwise_cons.mp h
      refine List.pairwise_cons.mpr ⟨fun p hp => ?_, ih hrest⟩
      rcases key_of_mem_bump hp with hkey | ⟨q, hq, hkey⟩
      · exact hkey ▸ Std.OrientedCmp.gt_iff_lt.mp hgt
      · exact hkey ▸ hk q hq

variable [DecidableEq κ]

theorem lookup_of_below (h : ∀ p ∈ counts, compare key p.1 = .lt) : counts.lookup key = none := by
  refine List.lookup_eq_none_iff.mpr fun p hp => ?_
  have hne : key ≠ p.1 := by
    intro heq
    have hlt := h p hp
    rw [heq, Std.compare_self] at hlt
    cases hlt
  simpa using hne

theorem Ascending.count_add [Std.LawfulEqOrd κ] (h : t.Ascending) (key k : κ) :
    (t.add key).count k = t.count k + if k = key then 1 else 0 := by
  obtain ⟨counts⟩ := t
  change ((bump key counts).lookup k).getD 0 = (counts.lookup k).getD 0 + _
  unfold Ascending at h
  fun_induction bump key counts with
  | case1 =>
      by_cases hk : k = key
      · simp [hk]
      · rw [lookup_of_ne hk, if_neg hk, Nat.add_zero]
  | case2 k' n rest hlt =>
      by_cases hk : k = key
      · subst hk
        have hbelow : ((k', n) :: rest).lookup k = none :=
          lookup_of_below (List.forall_mem_cons.mpr ⟨hlt, fun p hp =>
            Std.TransCmp.lt_trans hlt ((List.pairwise_cons.mp h).1 p hp)⟩)
        rw [hbelow]
        simp
      · rw [lookup_of_ne hk, if_neg hk, Nat.add_zero]
  | case3 k' n rest heq =>
      obtain rfl : key = k' := Std.LawfulEqCmp.eq_of_compare heq
      by_cases hk : k = key
      · simp [hk]
      · rw [lookup_of_ne hk, lookup_of_ne hk, if_neg hk, Nat.add_zero]
  | case4 k' n rest hgt ih =>
      have hrest := ih (List.pairwise_cons.mp h).2
      by_cases hk : k = k'
      · have hne : k ≠ key := by
          rintro rfl
          rw [hk, Std.compare_self] at hgt
          cases hgt
        simp [hk, hk ▸ hne]
      · rwa [lookup_of_ne hk, lookup_of_ne hk]

end Tally

/-! ## Readings -/

/-- What a reading counts as. -/
inductive Counter where
  | message (kind : MessageKind)
  | unreadable
  | unsupported
  deriving DecidableEq

def Counter.ofReading : Except PacketError Message → Counter
  | .ok m => .message m.kind
  | .error (.unsupported ..) => .unsupported
  | .error _ => .unreadable

namespace Statistics

def counted (st : Statistics) : Counter → Nat
  | .message kind => st.messages.count kind
  | .unreadable => st.unreadable
  | .unsupported => st.unsupported

def addCounter (st : Statistics) : Counter → Statistics
  | .message kind => st.addMessage kind
  | .unreadable => st.addUnreadable
  | .unsupported => st.addUnsupported

theorem counted_addCounter {st : Statistics} (h : st.messages.Ascending) (c c' : Counter) :
    (st.addCounter c).counted c' = st.counted c' + if c' = c then 1 else 0 := by
  cases c with
  | message kind =>
      cases c' with
      | message kind' =>
          simp only [counted, addCounter, addMessage, h.count_add, Counter.message.injEq]
      | _ => rfl
  | unreadable => cases c' <;> rfl
  | unsupported => cases c' <;> rfl

theorem ascending_addCounter {st : Statistics} (h : st.messages.Ascending) (c : Counter) :
    (st.addCounter c).messages.Ascending := by
  cases c with
  | message kind => exact h.add kind
  | _ => exact h

/-! ## Records -/

/-- The statistics tell how many records there are, on each core, and with a source. -/
structure Accounts (st : Statistics) (records : List Record) : Prop where
  executed : st.executed = records.length
  total : st.instructions.total = records.length
  ascending : st.instructions.Ascending
  cores : ∀ id, st.instructions.count id = records.countP (·.core = id)
  resolved : st.resolved = records.countP (·.source?.isSome)
  unresolved : st.unresolved = records.countP (!·.source?.isSome)

variable {st : Statistics} {records : List Record}

theorem Accounts.sources (h : st.Accounts records) :
    st.resolved + st.unresolved = records.length := by
  rw [h.resolved, h.unresolved, List.length_eq_countP_add_countP (·.source?.isSome)]
  simp only [Bool.not_eq_true, Bool.decide_eq_false]

theorem Accounts.add (h : st.Accounts records) (r : Record) :
    (st.addInstruction r.core r.source?.isSome).Accounts (records ++ [r]) where
  executed := by rw [List.length_append, ← h.executed]; rfl
  total := by rw [List.length_append, ← h.total]; exact Tally.total_add _ _
  ascending := h.ascending.add r.core
  cores id := by
    rw [List.countP_append, ← h.cores id, addInstruction, h.ascending.count_add]
    simp [List.countP_singleton, eq_comm]
  resolved := by
    rw [List.countP_append, ← h.resolved, List.countP_singleton]
    cases r.source?.isSome <;> rfl
  unresolved := by
    rw [List.countP_append, ← h.unresolved, List.countP_singleton]
    cases r.source?.isSome <;> rfl

theorem Accounts.addRecords (h : st.Accounts records) (more : List Record) :
    (st.addRecords more).Accounts (records ++ more) := by
  induction more generalizing st records with
  | nil => rwa [List.append_nil]
  | cons r more ih =>
      have hrest := ih (h.add r)
      rwa [List.append_assoc] at hrest

theorem Accounts.empty : Accounts {} [] :=
  ⟨rfl, rfl, .nil, fun _ => rfl, rfl, rfl⟩

theorem Accounts.addMessage (h : st.Accounts records) (kind : MessageKind) :
    (st.addMessage kind).Accounts records :=
  { h with }

theorem Accounts.addCounter (h : st.Accounts records) (c : Counter) :
    (st.addCounter c).Accounts records := by
  cases c <;> exact { h with }

theorem Accounts.frame (h : st.Accounts records) (faults printLines : Nat)
    (timestamps? : Option (UInt64 × UInt64)) :
    Accounts { st with faults, printLines, timestamps? } records :=
  { h with }

theorem addRecords_keeps (st : Statistics) (records : List Record) :
    (st.addRecords records).counted = st.counted ∧
      (st.addRecords records).messages = st.messages ∧
      (st.addRecords records).printLines = st.printLines ∧
      (st.addRecords records).faults = st.faults := by
  induction records generalizing st with
  | nil => exact ⟨rfl, rfl, rfl, rfl⟩
  | cons r records ih => exact ih (st.addInstruction r.core r.source?.isSome)

theorem addRecords_frame (st : Statistics) (records : List Record) (faults printLines : Nat)
    (timestamps? : Option (UInt64 × UInt64)) :
    addRecords { st with faults, printLines, timestamps? } records =
      { st.addRecords records with faults, printLines, timestamps? } := by
  induction records generalizing st with
  | nil => rfl
  | cons r records ih => exact ih (st.addInstruction r.core r.source?.isSome)

end Statistics

/-! ## Steps -/

/-- A step counts its reading, the records that it gives and the line that ends with it. -/
theorem Session.statistics_consume (s : Session) (x : Except PacketError Message) :
    ∃ faults timestamps?, (s.consume x).2.statistics =
      { (s.statistics.addCounter (.ofReading x)).addRecords (given [(s.consume x).1]) with
        faults
        timestamps?
        printLines := s.statistics.printLines + (s.joined x).1.toList.length } := by
  cases x with
  | error e => cases e <;> exact ⟨_, _, rfl⟩
  | ok m =>
      rw [consume, take_eq, joined]
      cases m.fragment? with
      | some f =>
          refine ⟨s.statistics.faults, (s.note m).statistics.timestamps?, ?_⟩
          simp only [succeed, deliver, given, List.flatMap_singleton]
          rw [← Statistics.addRecords_frame]
          cases hc : s.configuration.printChannels.contains f.channel.toNat with
          | true => simp only [print, note, hc]; rfl
          | false => simp only [print, note, hc]; rfl
      | none =>
          simp only [reconstruct, note]
          cases s.tracer.process m with
          | mk r t =>
              cases r with
              | error e => exact ⟨_, _, rfl⟩
              | ok records =>
                  refine ⟨s.statistics.faults, (s.note m).statistics.timestamps?, ?_⟩
                  simp only [succeed, deliver, given, List.flatMap_singleton]
                  rw [← Statistics.addRecords_frame]
                  rfl

end Retrace
