import Retrace.Wire.Cursor
import Retrace.Wire.Packet

/-!
# Reading packets

A packet ends with the first slice that ends a message, whatever its fields are. An error
therefore concerns one packet only: reading goes on behind its last slice.
-/

namespace Retrace.Wire

/-- Why a packet could not be read. Positions are those of its first slice. -/
inductive PacketError where
  /-- The trace ends inside the packet. -/
  | truncated (position : Nat)
  /-- A slice has the reserved marker. -/
  | reservedMarker (position : Nat)
  /-- The type code has no meaning. -/
  | unknownType (number position : Nat)
  /-- The fields do not fit the layout. -/
  | malformed (position : Nat) (core : Option UInt16) (cause : FieldError)
  /-- The packet is intact, but of a type that is never read. -/
  | unsupported (type : TypeCode) (core : UInt16)
  deriving DecidableEq, Repr

namespace PacketError

/-- The core that the packet comes from, if it could be read. -/
def core? : PacketError → Option UInt16
  | malformed _ core _ => core
  | unsupported _ core => some core
  | _ => none

def message : PacketError → String
  | truncated pos => "trace ends inside the message at byte " ++ toString pos
  | reservedMarker pos => "reserved MSEO value in the message at byte " ++ toString pos
  | unknownType number pos =>
    "unknown TCODE " ++ toString number ++ " at byte " ++ toString pos
  | malformed pos _ cause =>
    "malformed message at byte " ++ toString pos ++ ": " ++ cause.message
  | unsupported type core =>
    "unsupported message " ++ type.text ++ " from core " ++ toString core.toNat

end PacketError

/-- The values of fields of the given widths. -/
def readLayout : List FieldWidth → Cursor → Except FieldError (List UInt64 × Cursor)
  | [], c => .ok ([], c)
  | width :: rest, c =>
    let (value, c) := match width with
      | .fixed bits => c.readFixed bits
      | .variable => c.readVariable
    match value with
    | .error e => .error e
    | .ok v => (readLayout rest c).map fun (vs, c) => (v.toUInt64 :: vs, c)

/-- The values of all variable fields up to the end of the message. -/
def readOptional (c : Cursor) : Except FieldError (List UInt64) :=
  if hm : c.hasMore then
    match hr : c.readVariable with
    | (.error e, _) => .error e
    | (.ok v, c') =>
      have : c'.remaining < c.remaining := Cursor.remaining_of_readVariable hm hr
      (readOptional c').map (v.toUInt64 :: ·)
  else .ok []
termination_by c.remaining

/-- The packet in the slices of one message, the first of which is at `position`. -/
def Packet.ofSlices (coreBits position : Nat) (s : List UInt8) : Except PacketError Packet :=
  if s.any (Slice.marker · = .reserved) then .error (.reservedMarker position)
  else
    match (Cursor.start s).readFixed sliceBits with
    | (.error e, _) => .error (.malformed position none e)
    | (.ok number, c) =>
      match TypeCode.ofNumber? number with
      | none => .error (.unknownType number position)
      | some type =>
        match c.readFixed coreBits with
        | (.error e, _) => .error (.malformed position none e)
        | (.ok core, c) =>
          let core := core.toUInt16
          match type.layout? with
          | none => .error (.unsupported type core)
          | some layout =>
            let fields := do
              let (mandatory, c) ← readLayout layout c
              let optional ← readOptional c
              return mandatory ++ optional
            match fields with
            | .error e => .error (.malformed position (some core) e)
            | .ok fields => .ok ⟨type, core, fields⟩

/-- The slices up to and including the first that ends a message, and those after it. -/
def splitMessage? : List UInt8 → Option (List UInt8 × List UInt8)
  | [] => none
  | s :: rest =>
    if Slice.marker s = .endMessage then some ([s], rest)
    else (splitMessage? rest).map fun (message, rest) => (s :: message, rest)

/-- A position in a trace and the slices from there on. -/
structure Position where
  offset : Nat
  rest : List UInt8
  deriving DecidableEq, Repr

namespace Position

/-- The position behind idle slices. -/
def skipIdle (p : Position) : Position :=
  ⟨p.offset + (p.rest.takeWhile (· = Slice.idle)).length, p.rest.dropWhile (· = Slice.idle)⟩

/-- The next packet, or why it could not be read, and the position behind it. There is none at
the end of the trace. -/
def next (coreBits : Nat) (p : Position) : Option (Except PacketError Packet) × Position :=
  let p := p.skipIdle
  if p.rest.isEmpty then (none, p)
  else
    match splitMessage? p.rest with
    | none => (some (.error (.truncated p.offset)), ⟨p.offset + p.rest.length, []⟩)
    | some (message, rest) =>
      (some (Packet.ofSlices coreBits p.offset message), ⟨p.offset + message.length, rest⟩)

end Position

/-! ## Reading packets makes progress -/

theorem length_of_splitMessage? {s message rest : List UInt8}
    (h : splitMessage? s = some (message, rest)) : rest.length < s.length := by
  induction s generalizing message with
  | nil => simp [splitMessage?] at h
  | cons a s ih =>
    simp only [splitMessage?] at h
    split at h
    · simp only [Option.some.injEq, Prod.mk.injEq] at h
      rw [← h.2]
      exact Nat.lt_succ_self _
    · cases hs : splitMessage? s with
      | none => simp [hs] at h
      | some m =>
        simp only [hs, Option.map_some, Option.some.injEq, Prod.mk.injEq] at h
        have hs' : splitMessage? s = some (m.1, rest) := by rw [hs, ← h.2]
        exact Nat.lt_succ_of_lt (ih hs')

theorem length_skipIdle (p : Position) : p.skipIdle.rest.length ≤ p.rest.length :=
  (List.dropWhile_suffix _).length_le

theorem length_of_next {coreBits : Nat} {p q : Position} {r : Except PacketError Packet}
    (h : p.next coreBits = (some r, q)) : q.rest.length < p.rest.length := by
  unfold Position.next at h
  have hs := length_skipIdle p
  simp only at h
  split at h
  · simp at h
  · rename_i hne
    have hpos : 0 < p.skipIdle.rest.length := by
      cases hr : p.skipIdle.rest with
      | nil => simp [hr] at hne
      | cons _ _ => simp
    split at h
    · simp only [Prod.mk.injEq] at h
      rw [← h.2]
      simp only [List.length_nil]
      omega
    · rename_i hm
      have := length_of_splitMessage? hm
      simp only [Prod.mk.injEq] at h
      rw [← h.2]
      simp only
      omega

theorem rest_of_end {coreBits : Nat} {p q : Position} (h : p.next coreBits = (none, q)) :
    q.rest = [] := by
  unfold Position.next at h
  simp only at h
  split at h
  · rename_i hr
    simp only [Prod.mk.injEq, true_and] at h
    rw [← h]
    exact List.isEmpty_iff.1 hr
  · split at h <;> simp at h

/-- All packets from a position on, each read or with the reason why it could not be. -/
def Position.packets (coreBits : Nat) (p : Position) : List (Except PacketError Packet) :=
  match h : p.next coreBits with
  | (none, _) => []
  | (some r, q) =>
    have : q.rest.length < p.rest.length := length_of_next h
    r :: packets coreBits q
termination_by p.rest.length

end Retrace.Wire
