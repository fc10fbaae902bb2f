import Retrace.Proofs.Trace.Runs

/-!
# Paths

Ways that execution takes through an image, without regard to tracers, and what is reported along
them. Reports with counts leave out branches that are not taken; a history tells the outcome of
every branch.
-/

namespace Retrace

open Isa

/-- From the address, execution takes steps, each from an instruction of the image by one of its
exits, and comes to the last instruction. -/
inductive Path (image : Image) : UInt64 → List (Stop × Exit) → Stop → Prop
  | last {a : UInt64} {i : Instruction} : image.instructionAt a = .ok i → Path image a [] ⟨a, i⟩
  | step {a : UInt64} {i : Instruction} {e : Exit} {next : UInt64} {steps : List (Stop × Exit)}
      {last : Stop} : image.instructionAt a = .ok i → Leads image.base ⟨a, i⟩ e next →
      Path image next steps last → Path image a ((⟨a, i⟩, e) :: steps) last

def stopsOf (steps : List (Stop × Exit)) : List Stop :=
  steps.map Prod.fst

def Silent (steps : List (Stop × Exit)) : Prop :=
  ∀ step ∈ steps, step.2.isSilent = true

instance {steps : List (Stop × Exit)} : Decidable (Silent steps) :=
  inferInstanceAs (Decidable (∀ step ∈ steps, step.2.isSilent = true))

/-! ## Reports -/

/-- The report of an exit with a count. There is nothing to report of the only way. -/
def Exit.report (count : Nat) : Exit → Payload
  | outcome taken => .directBranch taken count
  | target a => .indirectBranch a count
  | onward => .timestamp

/-- The reports of steps with counts, `n` half-words after the last report. -/
def counted (n : Nat) : List (Stop × Exit) → List Payload
  | [] => []
  | (s, e) :: steps =>
    if e.isSilent then counted (n + s.halves) steps
    else e.report (n + s.halves) :: counted 0 steps

/-- The number of half-words of steps since the last report, which was `n` half-words before. -/
def sinceReport (n : Nat) : List (Stop × Exit) → Nat
  | [] => n
  | (s, e) :: steps => sinceReport (if e.isSilent then n + s.halves else 0) steps

/-- Reports of steps that tell every outcome and every target, `n` half-words after the last target.
A target may have a count. -/
inductive History : Nat → List (Stop × Exit) → List Payload → Prop
  | nil {n : Nat} : History n [] []
  | outcome {n : Nat} {s : Stop} {taken : Bool} {steps : List (Stop × Exit)} {ps : List Payload} :
      History (n + s.halves) steps ps →
      History n ((s, .outcome taken) :: steps) (.directBranch taken 0 :: ps)
  | target {n : Nat} {s : Stop} {a : UInt64} {count : Nat} {steps : List (Stop × Exit)}
      {ps : List Payload} : count = 0 ∨ count = n + s.halves → History 0 steps ps →
      History n ((s, .target a) :: steps) (.indirectBranch a count :: ps)
  | onward {n : Nat} {s : Stop} {steps : List (Stop × Exit)} {ps : List Payload} :
      History (n + s.halves) steps ps → History n ((s, .onward) :: steps) ps

/-- The instructions that reports with counts lead to: those up to the first one that only a message
leads on from and after which nothing is reported. -/
def reach (image : Image) : List (Stop × Exit) → Stop → List Stop
  | [], last => [last]
  | (s, e) :: steps, last =>
    if Parks image.base s ∧ Silent ((s, e) :: steps) then [s] else s :: reach image steps last

variable {image : Image} {t : Terrain} {a : UInt64} {pre steps : List (Stop × Exit)}
  {s last : Stop} {e : Exit}

@[simp]
theorem stopsOf_nil : stopsOf [] = [] := rfl

@[simp]
theorem stopsOf_cons (steps : List (Stop × Exit)) :
    stopsOf ((s, e) :: steps) = s :: stopsOf steps := rfl

@[simp]
theorem stopsOf_append (pre steps : List (Stop × Exit)) :
    stopsOf (pre ++ steps) = stopsOf pre ++ stopsOf steps :=
  List.map_append

@[simp]
theorem length_stopsOf (steps : List (Stop × Exit)) : (stopsOf steps).length = steps.length :=
  List.length_map _

@[simp]
theorem silent_nil : Silent [] := by
  simp [Silent]

theorem silent_cons : Silent ((s, e) :: steps) ↔ e.isSilent = true ∧ Silent steps := by
  simp [Silent]

theorem silent_append : Silent (pre ++ steps) ↔ Silent pre ∧ Silent steps := by
  simp only [Silent, List.mem_append, or_imp, forall_and]

/-! ## Paths without return addresses -/

theorem Leads.next_of_not_parks (h : Leads t.image.base s e a) (hs : ¬Parks t.image.base s) :
    e = .onward ∧ a = t.next s := by
  have hn : s.instruction.operation.needsEvidence = false := by
    simpa using not_or.mp hs |>.1
  cases e with
  | onward => exact ⟨rfl, (Leads.onward_iff.mp h).2⟩
  | outcome taken =>
      have hb : s.instruction.operation.isBranch = true := by
        cases h with
        | taken hd => simp [Operation.isBranch, hd]
        | notTaken hb => exact hb
      simp [Operation.needsEvidence, hb] at hn
  | target b =>
      cases h with
      | target hu => simp [Operation.needsEvidence, hu] at hn

@[simp]
theorem Terrain.stackAfter_empty (t : Terrain) (s : Stop) :
    t.stackAfter s (.empty 0) = .empty 0 := by
  simp [stackAfter, ReturnStack.push, ReturnStack.pop, ReturnStack.empty]

@[simp]
theorem Terrain.stackAfterAll_empty (t : Terrain) (ss : List Stop) :
    t.stackAfterAll ss (.empty 0) = .empty 0 := by
  induction ss with
  | nil => rfl
  | cons s ss ih => simpa [stackAfterAll] using ih

theorem Terrain.continuation?_of_parks (h : Parks t.image.base s) :
    t.continuation? s (.empty 0) = none := by
  rw [continuation?_of_empty rfl, if_pos h]

theorem Terrain.continuation?_of_not_parks (h : ¬Parks t.image.base s) :
    t.continuation? s (.empty 0) = some (t.next s) := by
  rw [continuation?_of_empty rfl, if_neg h]

end Retrace
