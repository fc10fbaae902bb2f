import Retrace.Message.Basic
import Retrace.Wire.Packet

/-!
# Expansion of packets

A packet shortens what it tells: addresses are differences from the last one of the core,
timestamps hold the low bits only, branch outcomes come as a bit history, and counts that
exceed a field are sent ahead. `Packet.expand` undoes this. It gives any number of messages and
what has to be remembered of the core.
-/

namespace Retrace

/-- What is remembered of a core between its packets. -/
structure CoreContext where
  /-- The last full address. -/
  address : UInt64 := 0
  /-- The running timestamp. -/
  timestamp : UInt64 := 0
  /-- The count that was sent ahead. -/
  pendingCount : Nat := 0
  deriving DecidableEq, Repr, Inhabited

/-- The greatest count; larger sums stop there. -/
def maxCount : Nat := UInt64.size - 1

/-- The sum of two counts. -/
def addCount (a b : Nat) : Nat :=
  min maxCount (a + b)

namespace CoreContext

/-- The least unit above a timestamp of `width` bits, zero if that is beyond 64 bits. -/
def wrapUnit (width : Nat) : UInt64 :=
  if width < 64 then (1 : UInt64) <<< width.toUInt64 else 0

/-- The running timestamp after a timestamp field. A full timestamp replaces the low `width`
bits, another one says which bits differ. The result is not below the timestamp before: the low
bits have wrapped around once. -/
def nextTimestamp (width : Nat) (last value : UInt64) (full : Bool) : UInt64 :=
  let unit := wrapUnit width
  let t :=
    if full then value + (last &&& ~~~(unit - 1))
    else if last ≠ 0 then last ^^^ value
    else 0
  if t < last then t + unit else t

/-- The context with the timestamp of a packet. -/
def stamp (c : CoreContext) (width : Nat) (value? : Option UInt64) (full : Bool) : CoreContext :=
  match value? with
  | none => c
  | some value => { c with timestamp := nextTimestamp width c.timestamp value full }

/-- The count of a message whose field holds `value`. -/
def total (c : CoreContext) (value : UInt64) : Nat :=
  addCount c.pendingCount value.toNat

end CoreContext

/-- The outcomes in a bit history, oldest first. The highest bit that is set marks their end. -/
def history (bits : UInt64) : List Payload :=
  let n := bits.toNat
  (List.range n.log2).reverse.map fun i => .directBranch (n.testBit i) 0

/-- Pieces of written bytes, and whether a newline or NUL ends each. A newline belongs to the
piece that it ends, a NUL does not. A NUL after another terminator ends nothing. `pending` holds
the bytes since the last terminator, `terminated` whether there was one just before. -/
def pieces (pending : List UInt8) (terminated : Bool) : List UInt8 → List (List UInt8 × Bool)
  | [] => if pending.isEmpty then [] else [(pending, false)]
  | b :: rest =>
    if b = 10 then (pending ++ [b], true) :: pieces [] true rest
    else if b = 0 then
      if terminated then pieces [] true rest else (pending, true) :: pieces [] true rest
    else pieces (pending ++ [b]) false rest

/-- The number of channels that carry printed output. -/
def printChannels : Nat := 32

/-- The lowest `count` bytes of a word, lowest first. -/
def lowBytes (word : UInt64) : Nat → List UInt8
  | 0 => []
  | count + 1 => word.toUInt8 :: lowBytes (word >>> 8) count

/-- The fragments of a write to a stimulus port. The tag holds the channel and the number of
bytes. -/
def fragments (core : UInt16) (timestamp tag data : UInt64) : List Payload :=
  let channel := tag.toNat / 4
  if channel < printChannels then
    (pieces [] false (lowBytes data (4 - tag.toNat % 4))).map fun (bytes, terminator) =>
      .print ⟨core, channel.toUInt8, bytes, terminator, timestamp⟩
  else []

/-- The message on a target that the code does not determine. -/
def indirect (branchType address : UInt64) (count : Nat) : Payload :=
  if branchType = 0 then .indirectBranch address count else .exception address count

namespace Wire.Packet

/-- The field at a place in the layout. -/
def mandatory (p : Packet) (i : Nat) : UInt64 :=
  if i < (p.type.layout?.getD []).length then p.fields.getD i 0 else 0

/-- The fields after those of the layout. -/
def optional (p : Packet) : List UInt64 :=
  p.fields.drop (p.type.layout?.getD []).length

/-- Whether the first optional field is a history. -/
def hasOptionalHistory (p : Packet) : Bool :=
  p.type = .correlation && p.mandatory 1 = 1

/-- The timestamp, which is the first optional field that is not a history. -/
def timestamp? (p : Packet) : Option UInt64 :=
  p.optional[if p.hasOptionalHistory then 1 else 0]?

/-- What a packet of a type that is read tells, given the context with its timestamp; `none` if
it is of no use. -/
def payloads? (p : Packet) (c : CoreContext) : Option (List Payload × CoreContext) :=
  let counted (address value : UInt64) (payload : UInt64 → Nat → Payload) :=
    (payload address (c.total value), { c with address := address, pendingCount := 0 })
  let field := p.mandatory
  match p.type with
  | .sync | .directBranchSync =>
    let (m, c) := counted (field 2 <<< 1) (field 1) .sync
    some ([m], c)
  | .indirectBranchSync =>
    let (m, c) := counted (field 3 <<< 1) (field 2) .sync
    some ([m], c)
  | .directBranch =>
    some ([.directBranch true (c.total (field 0))], { c with pendingCount := 0 })
  | .indirectBranch =>
    let (m, c) := counted (c.address ^^^ field 2 <<< 1) (field 1) (indirect (field 0))
    some ([m], c)
  | .indirectBranchHistory =>
    let (m, c) := counted (c.address ^^^ field 2 <<< 1) (field 1) (indirect (field 0))
    some (history (field 3) ++ [m], c)
  | .indirectBranchHistorySync =>
    let (m, c) := counted (field 3 <<< 1) (field 2) .sync
    some (history (field 4) ++ [m], c)
  | .resourceFull =>
    if field 0 = 0 then
      some ([], { c with pendingCount := addCount c.pendingCount (field 1).toNat })
    else if field 0 = 1 then some (history (field 1), c)
    else none
  | .correlation =>
    some (if p.hasOptionalHistory then history (p.optional.headD 0) else [],
      { c with pendingCount := 0 })
  | .dataAcquisition => some (fragments p.core c.timestamp (field 0) (field 1), c)
  | .error => some ([.error (field 1)], c)
  | .ownershipTrace | .auxAccessWrite => some ([], c)
  | _ => none

/-- The messages of a packet and the context after it; `none` instead of the messages if the
packet is of no use. A report of lost messages makes everything before it void. A packet that
tells nothing but the time makes a message of its own. -/
def expand (width : Nat) (p : Packet) (c : CoreContext) :
    Option (List Message) × CoreContext :=
  let c := if p.type = .error then {} else c.stamp width p.timestamp? p.type.isSync
  match p.payloads? c with
  | none => (none, c)
  | some (payloads, c') =>
    let payloads := if payloads.isEmpty && p.timestamp?.isSome then [.timestamp] else payloads
    (some (payloads.map fun payload => ⟨p.core, c.timestamp, payload⟩), c')

end Wire.Packet

end Retrace
