/-!
# Message types

The first six bits of a message are its type code. The layout of a type lists the fields that
its messages must have; types without a layout are known, but their fields are never read.
-/

namespace Retrace.Wire

/-- The width of a field. -/
inductive FieldWidth where
  /-- That many bits. -/
  | fixed (bits : Nat)
  /-- Up to the end of a slice that ends a field or the message. -/
  | variable
  deriving DecidableEq, Repr

/-- The type of a message. -/
inductive TypeCode where
  | debugStatus
  | deviceId
  | ownershipTrace
  | directBranch
  | indirectBranch
  | dataWrite
  | dataRead
  | dataAcquisition
  | error
  | sync
  | correction
  | directBranchSync
  | indirectBranchSync
  | dataWriteSync
  | dataReadSync
  | watchpoint
  | outputPortReplacement
  | inputPortReplacement
  | auxAccessRead
  | auxAccessWrite
  | auxAccessReadNext
  | auxAccessWriteNext
  | auxAccessResponse
  | resourceFull
  | indirectBranchHistory
  | indirectBranchHistorySync
  | repeatBranch
  | repeatInstruction
  | repeatInstructionSync
  | correlation
  | inCircuitTrace
  | inCircuitTraceSync
  deriving DecidableEq, Repr

namespace TypeCode

/-- The number that stands for the type. -/
def number : TypeCode → Nat
  | debugStatus => 0
  | deviceId => 1
  | ownershipTrace => 2
  | directBranch => 3
  | indirectBranch => 4
  | dataWrite => 5
  | dataRead => 6
  | dataAcquisition => 7
  | error => 8
  | sync => 9
  | correction => 10
  | directBranchSync => 11
  | indirectBranchSync => 12
  | dataWriteSync => 13
  | dataReadSync => 14
  | watchpoint => 15
  | outputPortReplacement => 20
  | inputPortReplacement => 21
  | auxAccessRead => 22
  | auxAccessWrite => 23
  | auxAccessReadNext => 24
  | auxAccessWriteNext => 25
  | auxAccessResponse => 26
  | resourceFull => 27
  | indirectBranchHistory => 28
  | indirectBranchHistorySync => 29
  | repeatBranch => 30
  | repeatInstruction => 31
  | repeatInstructionSync => 32
  | correlation => 33
  | inCircuitTrace => 34
  | inCircuitTraceSync => 35

/-- All types, in the order of their numbers. -/
def all : List TypeCode :=
  [debugStatus, deviceId, ownershipTrace, directBranch, indirectBranch, dataWrite, dataRead,
    dataAcquisition, error, sync, correction, directBranchSync, indirectBranchSync,
    dataWriteSync, dataReadSync, watchpoint, outputPortReplacement, inputPortReplacement,
    auxAccessRead, auxAccessWrite, auxAccessReadNext, auxAccessWriteNext, auxAccessResponse,
    resourceFull, indirectBranchHistory, indirectBranchHistorySync, repeatBranch,
    repeatInstruction, repeatInstructionSync, correlation, inCircuitTrace, inCircuitTraceSync]

/-- The type that a number stands for. -/
def ofNumber? (n : Nat) : Option TypeCode :=
  all.find? (·.number = n)

theorem ofNumber?_number (t : TypeCode) : ofNumber? t.number = some t := by
  cases t <;> rfl

/-- The name of the type in messages to the user. -/
def name : TypeCode → String
  | debugStatus => "DebugStatus"
  | deviceId => "DeviceId"
  | ownershipTrace => "OwnershipTrace"
  | directBranch => "DirectBranch"
  | indirectBranch => "IndirectBranch"
  | dataWrite => "DataWrite"
  | dataRead => "DataRead"
  | dataAcquisition => "DataAcquisition"
  | error => "Error"
  | sync => "Sync"
  | correction => "Correction"
  | directBranchSync => "DirectBranchSync"
  | indirectBranchSync => "IndirectBranchSync"
  | dataWriteSync => "DataWriteSync"
  | dataReadSync => "DataReadSync"
  | watchpoint => "Watchpoint"
  | outputPortReplacement => "OutputPortReplacement"
  | inputPortReplacement => "InputPortReplacement"
  | auxAccessRead => "AuxAccessRead"
  | auxAccessWrite => "AuxAccessWrite"
  | auxAccessReadNext => "AuxAccessReadNext"
  | auxAccessWriteNext => "AuxAccessWriteNext"
  | auxAccessResponse => "AuxAccessResponse"
  | resourceFull => "ResourceFull"
  | indirectBranchHistory => "IndirectBranchHistory"
  | indirectBranchHistorySync => "IndirectBranchHistorySync"
  | repeatBranch => "RepeatBranch"
  | repeatInstruction => "RepeatInstruction"
  | repeatInstructionSync => "RepeatInstructionSync"
  | correlation => "Correlation"
  | inCircuitTrace => "InCircuitTrace"
  | inCircuitTraceSync => "InCircuitTraceSync"

/-- The name and the number. -/
def text (t : TypeCode) : String :=
  t.name ++ " (" ++ toString t.number ++ ")"

/-- The fields that a message must have, if messages of the type are read at all. -/
def layout? : TypeCode → Option (List FieldWidth)
  | ownershipTrace => some [.variable]
  | directBranch => some [.variable]
  | indirectBranch => some [.fixed 2, .variable, .variable]
  | dataAcquisition => some [.variable, .variable]
  | error => some [.fixed 4, .variable]
  | sync => some [.fixed 4, .variable, .variable]
  | directBranchSync => some [.fixed 4, .variable, .variable]
  | indirectBranchSync => some [.fixed 4, .fixed 2, .variable, .variable]
  | auxAccessWrite => some [.variable, .variable]
  | resourceFull => some [.fixed 4, .variable]
  | indirectBranchHistory => some [.fixed 2, .variable, .variable, .variable]
  | indirectBranchHistorySync => some [.fixed 4, .fixed 2, .variable, .variable, .variable]
  | correlation => some [.fixed 4, .fixed 2, .variable]
  | _ => none

/-- Whether messages of the type carry a full address and a full timestamp. -/
def isSync : TypeCode → Bool
  | sync | directBranchSync | indirectBranchSync | indirectBranchHistorySync => true
  | _ => false

end TypeCode

end Retrace.Wire
