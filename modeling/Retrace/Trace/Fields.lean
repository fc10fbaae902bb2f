import Retrace.Trace.Tracer

/-!
# Cores with separate fields

A core may also be kept as a state, a place, and the instruction that is pending there, each set and
cleared on its own. `CoreFields.step` is what a message does to a core that is kept this way. It
does the same as `Core.step`.
-/

namespace Retrace

open Isa

inductive CoreState where
  | unsynced
  | synced
  | branching
  | faulted
  deriving DecidableEq, Repr

/-- What is known about a core, field by field. -/
structure CoreFields where
  state : CoreState
  /-- The address of the next or parked instruction. -/
  pc : UInt64
  /-- The instruction that the core is parked at. -/
  pending? : Option Instruction
  /-- The number of half-words that were executed since the last counted message. -/
  retired : Nat
  stack : ReturnStack

namespace CoreFields

def start (depth : Nat) : CoreFields :=
  ⟨.unsynced, 0, none, 0, .empty depth⟩

/-- The core after a disagreement. The address remains. -/
def fault (c : CoreFields) : CoreFields :=
  { c with state := .faulted, pending? := none, retired := 0, stack := c.stack.clear }

def park (c : CoreFields) (pc : UInt64) (i : Instruction) (state : CoreState) : CoreFields :=
  { c with state, pc, pending? := some i }

def pendingName (c : CoreFields) : String :=
  c.pending?.elim "nothing" Instruction.mnemonic

/-- Where a parked core goes on without a message. -/
def silent? (c : CoreFields) : Option UInt64 :=
  match c.state, c.pending? with
  | .branching, some i => if i.operation.isBranch then some (c.pc + i.size.toUInt64) else none
  | .synced, some _ => some c.pc
  | _, _ => none

/-- Where a branch that is waited for leads. -/
def branch? (c : CoreFields) (taken : Bool) : Option UInt64 :=
  (c.pending?.filter fun _ => c.state = .branching).bind fun i =>
    i.operation.branchOffset?.map fun offset =>
      if taken then c.pc + UInt64.ofInt offset else c.pc + i.size.toUInt64

/-- Where a jump that is waited for leads, given its target. -/
def jump? (c : CoreFields) (target : UInt64) : Option UInt64 :=
  (c.pending?.filter fun i => c.state = .branching && i.operation.isUninferable).map fun _ => target

end CoreFields

/-- A core that follows the code for one message. -/
structure FieldWalk where
  core : CoreFields
  cache : SiteCache
  /-- The visited instructions, the latest first. -/
  visited : List Visit

/-- Whether a walk goes on, or why it cannot, and the walk so far. -/
abbrev FieldOutcome := Except Disagreement Unit × FieldWalk

def FieldOutcome.andThen (o : FieldOutcome) (f : FieldWalk → FieldOutcome) : FieldOutcome :=
  match o with
  | (.ok (), w) => f w
  | (.error e, w) => (.error e, w)

namespace FieldWalk

def conflict (w : FieldWalk) (address : UInt64) (c : TraceConflict) : FieldOutcome :=
  (.error ⟨address, .conflict c⟩, w)

/-- Visits instructions from an address on, up to the next one that only a message leads on from. -/
def run (w : FieldWalk) (t : Terrain) (pc : UInt64) : FieldOutcome :=
  if _ : t.maxRun ≤ w.visited.length then w.conflict pc (.runLimit t.maxRun)
  else
    match w.cache.fetch t.image pc with
    | (.error obstacle, cache) => (.error ⟨pc, obstacle⟩, { w with cache })
    | (.ok site, cache) =>
      let i := site.instruction
      let op := i.operation
      let after := t.truncate (pc + i.size.toUInt64)
      let popped := if op.isReturn || op.isSwap then w.core.stack.pop else (none, w.core.stack)
      let stack := if op.isCall || op.isSwap then popped.2.push after else popped.2
      let core := { w.core with retired := w.core.retired + i.halves, stack }
      let visited := .ofSite pc site :: w.visited
      match popped.1 with
      | some target => run ⟨core, cache, visited⟩ t (t.truncate target)
      | none =>
        if op.isBranch || op.isUninferable then
          (.ok (), ⟨core.park pc i .branching, cache, visited⟩)
        else
          let next := match op.inferableTarget? with
            | some (.absolute target) => t.truncate (UInt64.ofInt target &&& ~~~1)
            | some (.relative offset) => t.truncate (pc + UInt64.ofInt offset)
            | none => after
          if next = pc then (.ok (), ⟨core.park pc i .synced, cache, visited⟩)
          else run ⟨core, cache, visited⟩ t next
termination_by t.maxRun - w.visited.length
decreasing_by all_goals simp only [List.length_cons]; omega

theorem length_of_run {w w' : FieldWalk} {t : Terrain} {pc : UInt64}
    (h : w.run t pc = (.ok (), w')) :
    w.visited.length < w'.visited.length ∧ w'.visited.length ≤ t.maxRun := by
  fun_induction run w t pc with
  | case1 => simp [conflict] at h
  | case2 => simp at h
  | case3 w pc hb site cache hf i op after popped stack core visited target hp ih =>
    have := ih h
    simp only [visited, List.length_cons] at this
    omega
  | case4 w pc hb site cache hf i op after popped stack core visited hp he =>
    cases h
    simp only [visited, List.length_cons]
    omega
  | case5 w pc hb site cache hf i op after popped stack core visited hp he next hn =>
    cases h
    simp only [visited, List.length_cons]
    omega
  | case6 w pc hb site cache hf i op after popped stack core visited hp he next hn ih =>
    have := ih h
    simp only [visited, List.length_cons] at this
    omega

/-- Goes on, without a message, until a count is reached. -/
def catchUp (w : FieldWalk) (t : Terrain) (count : Nat) : FieldOutcome :=
  if w.core.retired < count then
    match w.core.silent? with
    | none => (.ok (), w)
    | some address =>
      match h : w.run t (t.truncate address) with
      | (.error e, w) => (.error e, w)
      | (.ok (), w') =>
        have := length_of_run h
        w'.catchUp t count
  else (.ok (), w)
termination_by t.maxRun - w.visited.length

def retire (w : FieldWalk) (t : Terrain) (count : Nat) : FieldOutcome :=
  if count = 0 then (.ok (), w)
  else
    (w.catchUp t count).andThen fun w =>
      if w.core.retired = count then (.ok (), w)
      else w.conflict w.core.pc (.countMismatch count w.core.retired)

/-- Runs anew: the next count starts at the address. -/
def restart (w : FieldWalk) (t : Terrain) (address : UInt64) : FieldOutcome :=
  { w with core := { w.core with retired := 0 } }.run t (t.truncate address)

/-- The conflict of a message that does not tell what the pending instruction needs. -/
def unexpected (w : FieldWalk) (kind : MessageKind) : FieldOutcome :=
  w.conflict w.core.pc (.unexpectedEvidence kind w.core.pendingName)

/-- Follows a message from where the core is parked. -/
def follow (w : FieldWalk) (t : Terrain) (payload : Payload) : Option FieldOutcome :=
  match payload with
  | .sync address count => some ((w.retire t count).2.restart t address)
  | .exception address count => some <| (w.retire t count).andThen fun w => w.restart t address
  | .directBranch taken count =>
    some <| (w.retire t count).andThen fun w =>
      match w.core.branch? taken with
      | none => w.unexpected .directBranch
      | some address => if count = 0 then w.run t (t.truncate address) else w.restart t address
  | .indirectBranch target count =>
    some <| (w.retire t count).andThen fun w =>
      match w.core.jump? target with
      | none => w.unexpected .indirectBranch
      | some address => w.restart t address
  | .print _ | .timestamp | .error _ => none

end FieldWalk

structure FieldEffect where
  core : CoreFields
  cache : SiteCache
  visits : List Visit
  failure? : Option Disagreement

def FieldEffect.ofOutcome : FieldOutcome → FieldEffect
  | (.ok (), w) => ⟨w.core, w.cache, w.visited.reverse, none⟩
  | (.error e, w) => ⟨w.core.fault, w.cache, w.visited.reverse, some e⟩

namespace CoreFields

/-- What the core does as a message tells, if it does anything. -/
def outcome? (t : Terrain) (cache : SiteCache) (c : CoreFields) (payload : Payload) :
    Option FieldOutcome :=
  let w : FieldWalk := ⟨c, cache, []⟩
  match payload, c.state with
  | .sync address _, .unsynced | .sync address _, .faulted => some (w.restart t address)
  | _, .unsynced | _, .faulted => none
  | payload, .synced | payload, .branching => w.follow t payload

def step (t : Terrain) (cache : SiteCache) (c : CoreFields) (payload : Payload) : FieldEffect :=
  match payload, c.outcome? t cache payload with
  | .error _, _ => ⟨start c.stack.limit, cache, [], none⟩
  | _, none => ⟨c, cache, [], none⟩
  | _, some o => .ofOutcome o

end CoreFields

end Retrace
