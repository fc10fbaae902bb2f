import Std.Data.TreeMap
import Retrace.Config.Basic
import Retrace.Trace.Walk

/-!
# Tracers

A tracer reconstructs what the cores executed, one message after the other. `Core.step` is what a
message does to its core, `Tracer.process` what it does to all that is known. If the trace and
the image do not agree, the core has faulted; records that were reconstructed before are kept
until they are taken.
-/

namespace Retrace

/-- The effect of a message on its core. -/
structure Effect where
  core : Core
  cache : SiteCache
  /-- The instructions that were executed. -/
  visits : List Visit
  /-- Why the core has faulted, if it has. -/
  failure? : Option Disagreement

/-- The effect of a walk that the core took. -/
def Effect.ofOutcome : Outcome → Effect
  | (.ok s, w) => ⟨⟨.parked s, w.retired, w.stack⟩, w.cache, w.visited.reverse, none⟩
  | (.error e, w) => ⟨⟨.faulted, 0, w.stack.clear⟩, w.cache, w.visited.reverse, some e⟩

namespace Core

/-- What a message tells a core. Lost messages forget the place, a sync tells it; without one,
other messages tell nothing. -/
def step (t : Terrain) (cache : SiteCache) (c : Core) (payload : Payload) : Effect :=
  let walk : Walk := ⟨c.retired, c.stack, cache, [], t.maxRun⟩
  let outcome? :=
    match c.phase, payload with
    | .parked s, payload => walk.follow t s payload
    | _, .sync address _ => some (walk.restart t address)
    | _, _ => none
  match payload, outcome? with
  | .error _, _ => ⟨start c.stack.limit, cache, [], none⟩
  | _, none => ⟨c, cache, [], none⟩
  | _, some outcome => .ofOutcome outcome

end Core

/-- What is fixed while a trace is reconstructed. -/
structure TracerOptions where
  /-- The cores that are reconstructed. -/
  coreMask : Mask := .all
  /-- The greatest number of instructions for one message. -/
  maxRun : Nat := 1000000
  /-- The depth of return stacks. -/
  returnStack : Nat := 0
  deriving DecidableEq, Repr, Inhabited

/-- What has been reconstructed so far. -/
structure Tracer where
  image : Image
  options : TracerOptions
  cache : SiteCache
  /-- The cores that messages were about. -/
  cores : Std.TreeMap UInt16 Core
  /-- Records that were reconstructed before a core faulted and are not yet taken. -/
  undelivered : List Record

namespace Tracer

/-- A tracer at the start of a trace. Return stacks are at most `maxReturnStack` deep. -/
def start (image : Image) (options : TracerOptions) (cache : SiteCache) : Tracer :=
  let returnStack := min options.returnStack maxReturnStack
  ⟨image, { options with returnStack }, cache, {}, []⟩

/-- What is known about a core. -/
def core (t : Tracer) (id : UInt16) : Core :=
  t.cores.getD id (.start t.options.returnStack)

/-- What is known about the place of a core. -/
def phase (t : Tracer) (id : UInt16) : Phase :=
  (t.core id).phase

/-- The number of return addresses that are known of a core. -/
def stackDepth (t : Tracer) (id : UInt16) : Nat :=
  (t.core id).stack.depth

/-- Whether a core is reconstructed. -/
def selects (t : Tracer) (id : UInt16) : Bool :=
  t.options.coreMask.contains id.toNat

/-- Takes a message and gives the records that it leads to, or why there are none. -/
def process (t : Tracer) (m : Message) : Except Disagreement (List Record) × Tracer :=
  if t.selects m.core then
    let effect := (t.core m.core).step ⟨t.image, t.options.maxRun⟩ t.cache m.payload
    let records := effect.visits.map fun v => { v with core := m.core, timestamp := m.timestamp }
    let cores := t.cores.insert m.core effect.core
    let t := { t with cache := effect.cache, cores }
    match effect.failure? with
    | none => (.ok records, t)
    | some e => (.error e, { t with undelivered := t.undelivered ++ records })
  else (.ok [], t)

/-- Takes the records that were reconstructed before cores faulted. -/
def takeUndelivered (t : Tracer) : List Record × Tracer :=
  (t.undelivered, { t with undelivered := [] })

/-- Faults a core and tells whether it had not faulted before. -/
def faultCore (t : Tracer) (id : UInt16) : Bool × Tracer :=
  if t.selects id then
    (t.phase id ≠ .faulted, { t with cores := t.cores.insert id (t.core id).fault })
  else (false, t)

/-- Faults all cores that messages were about, and counts those that had not faulted before. -/
def faultAll (t : Tracer) : Nat × Tracer :=
  (t.cores.values.countP (·.phase ≠ .faulted),
    { t with cores := t.cores.map fun _ c => c.fault })

/-- Faults a core, or all if none is given, and counts those that had not faulted before. -/
def fault (t : Tracer) : Option UInt16 → Nat × Tracer
  | some id => ((t.faultCore id).1.toNat, (t.faultCore id).2)
  | none => t.faultAll

/-- The tracer at the start of the trace. -/
def reset (t : Tracer) : Tracer :=
  { t with cores := {}, undelivered := [] }

end Tracer

end Retrace
