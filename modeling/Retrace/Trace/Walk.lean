import Retrace.Trace.Core
import Retrace.Trace.Record

/-!
# Walks

A walk follows the code for one message. `Walk.run` visits instructions from an address on, up to
the next one that only a message leads on from. `Walk.retire` goes on from there as far as the
count of a message says, and fails if the count does not end where the core is parked. A walk has
a budget, which every visit uses up by one, so that it ends even where the code does not.
-/

namespace Retrace

open Isa

/-- The code that is walked through. -/
structure Terrain where
  image : Image
  /-- The greatest number of instructions for one message. -/
  maxRun : Nat

namespace Terrain

/-- An address cut down to the width of the base set. -/
def truncate (t : Terrain) (address : UInt64) : UInt64 :=
  t.image.base.truncate address

/-- The address after an instruction. -/
def after (t : Terrain) (s : Stop) : UInt64 :=
  t.truncate s.after

/-- The address that an instruction which needs no message leads to: the target of a jump, else
the address after the instruction. -/
def next (t : Terrain) (s : Stop) : UInt64 :=
  match s.instruction.operation.inferableTarget? with
  | some (.absolute target) => t.truncate (UInt64.ofInt target &&& ~~~1)
  | some (.relative offset) => t.truncate (s.relative offset)
  | none => t.after s

/-- Where execution continues after an instruction, unless only a message tells. A return or swap
goes to the latest return address, if there is one. -/
def continuation? (t : Terrain) (s : Stop) (stack : ReturnStack) : Option UInt64 :=
  let op := s.instruction.operation
  match if op.isReturn || op.isSwap then stack.pop.1 else none with
  | some target => some (t.truncate target)
  | none => if op.needsEvidence || t.next s = s.address then none else some (t.next s)

/-- The return stack after an instruction. Returns and swaps take an address off it, calls and
swaps put the address after them onto it. -/
def stackAfter (t : Terrain) (s : Stop) (stack : ReturnStack) : ReturnStack :=
  let op := s.instruction.operation
  let stack := if op.isReturn || op.isSwap then stack.pop.2 else stack
  if op.isCall || op.isSwap then stack.push (t.after s) else stack

end Terrain

/-- A walk so far. -/
structure Walk where
  /-- The number of half-words that were executed since the last counted message. -/
  retired : Nat
  stack : ReturnStack
  cache : SiteCache
  /-- The visited instructions, the latest first. -/
  visited : List Visit
  /-- How many instructions may still be visited. -/
  budget : Nat

/-- Where a walk is parked, or why it cannot go on, and the walk so far. -/
abbrev Outcome := Except Disagreement Stop × Walk

/-- Goes on from where a walk is parked. -/
def Outcome.andThen (o : Outcome) (f : Stop → Walk → Outcome) : Outcome :=
  match o with
  | (.ok s, w) => f s w
  | (.error e, w) => (.error e, w)

namespace Walk

/-- A walk that cannot go on, since the trace contradicts the instruction at an address. -/
def conflict (w : Walk) (address : UInt64) (c : TraceConflict) : Outcome :=
  (.error ⟨address, .conflict c⟩, w)

/-- The walk with one more visit. -/
def visit (w : Walk) (t : Terrain) (address : UInt64) (site : Site) : Walk :=
  { w with
    retired := w.retired + site.instruction.halves
    stack := t.stackAfter ⟨address, site.instruction⟩ w.stack
    visited := .ofSite address site :: w.visited
    budget := w.budget - 1 }

/-- Visits instructions from an address on, up to the next one that only a message leads on
from. -/
def run (w : Walk) (t : Terrain) (address : UInt64) : Outcome :=
  if _ : w.budget = 0 then w.conflict address (.runLimit t.maxRun)
  else
    match w.cache.fetch t.image address with
    | (.error obstacle, cache) => (.error ⟨address, obstacle⟩, { w with cache })
    | (.ok site, cache) =>
      let s : Stop := ⟨address, site.instruction⟩
      let visited := { w with cache }.visit t address site
      match t.continuation? s w.stack with
      | some next => visited.run t next
      | none => (.ok s, visited)
termination_by w.budget
decreasing_by
  change w.budget - 1 < w.budget
  omega

/-- Every run that parks has visited an instruction. -/
theorem budget_of_run {w w' : Walk} {t : Terrain} {address : UInt64} {s : Stop}
    (h : w.run t address = (.ok s, w')) : w'.budget < w.budget := by
  fun_induction run w t address with
  | case1 => simp [conflict] at h
  | case2 => simp at h
  | case3 w address hb site cache hf s visited next hn ih =>
    have := ih h
    change w'.budget < w.budget - 1 at this
    omega
  | case4 w address hb site cache hf s visited hn =>
    simp only [Prod.mk.injEq] at h
    rw [← h.2]
    change w.budget - 1 < w.budget
    omega

/-- Runs anew: the next count starts at the address. -/
def restart (w : Walk) (t : Terrain) (address : UInt64) : Outcome :=
  { w with retired := 0 }.run t (t.truncate address)

/-- Goes on, without a message, until a count is reached. -/
def catchUp (w : Walk) (t : Terrain) (count : Nat) (s : Stop) : Outcome :=
  if w.retired < count then
    match s.silent? with
    | none => (.ok s, w)
    | some address =>
      match h : w.run t (t.truncate address) with
      | (.error e, w) => (.error e, w)
      | (.ok s, w') =>
        have : w'.budget < w.budget := budget_of_run h
        w'.catchUp t count s
  else (.ok s, w)
termination_by w.budget

/-- Executes the instructions that a count covers. A count of zero covers none; any other must
end with the instruction that the core is parked at then. -/
def retire (w : Walk) (t : Terrain) (count : Nat) (s : Stop) : Outcome :=
  if count = 0 then (.ok s, w)
  else
    (w.catchUp t count s).andThen fun s w =>
      if w.retired = count then (.ok s, w)
      else w.conflict s.address (.countMismatch count w.retired)

/-- The conflict of a message that does not tell what the parked instruction needs. -/
def unexpected (w : Walk) (s : Stop) (kind : MessageKind) : Outcome :=
  w.conflict s.address (.unexpectedEvidence kind s.instruction.mnemonic)

/-- Follows a message from where a core is parked. A sync counts even if its count does not
match. Outcomes without a count are covered by a later one. Messages that tell nothing of the
code give nothing. -/
def follow (w : Walk) (t : Terrain) (s : Stop) (payload : Payload) : Option Outcome :=
  match payload with
  | .sync address count => some ((w.retire t count s).2.restart t address)
  | .exception address count =>
    some <| (w.retire t count s).andThen fun _ w => w.restart t address
  | .directBranch taken count =>
    some <| (w.retire t count s).andThen fun s w =>
      match s.outcome? taken with
      | none => w.unexpected s .directBranch
      | some address => if count = 0 then w.run t (t.truncate address) else w.restart t address
  | .indirectBranch target count =>
    some <| (w.retire t count s).andThen fun s w =>
      match s.jump? target with
      | none => w.unexpected s .indirectBranch
      | some address => w.restart t address
  | .print _ | .timestamp | .error _ => none

end Walk

end Retrace
