import Retrace.Config.Basic
import Retrace.Image.Load
import Retrace.Wire.Reader

/-!
# Errors

Everything that can go wrong in a session, with its text. The text of an error is followed by
those of its causes.
-/

namespace Retrace

/-- What can go wrong in a session. -/
inductive Error where
  /-- The image could not be loaded. -/
  | badImage (cause : ImageError)
  /-- A packet could not be read. -/
  | badTrace (cause : Wire.PacketError)
  /-- Nothing is known of the source of an address. -/
  | noSource (address : UInt64)
  /-- The trace and the image do not agree. -/
  | unexpectedEncoding (cause : Disagreement)
  /-- A packet is of a type that is not read. -/
  | unsupportedPacket (cause : Wire.PacketError)
  /-- A setting is out of its range. -/
  | unsupportedConfiguration (cause : ConfigError)
  deriving DecidableEq, Repr

namespace Error

/-- The error of a packet that could not be read. -/
def ofPacketError : Wire.PacketError → Error
  | e@(.unsupported ..) => unsupportedPacket e
  | e => badTrace e

/-- Whether a session can go on. -/
def isRecoverable : Error → Bool
  | badTrace _ | noSource _ | unexpectedEncoding _ | unsupportedPacket _ => true
  | badImage _ | unsupportedConfiguration _ => false

/-- The texts of the error and of its causes. What is wrong with a field is a cause of its own. -/
def texts : Error → List String
  | badImage cause => ["bad image", cause.message]
  | badTrace cause@(.malformed _ _ field) => ["bad trace format", cause.message, field.message]
  | badTrace cause => ["bad trace format", cause.message]
  | noSource address => ["no debug information for address " ++ Text.hex address.toNat]
  | unexpectedEncoding cause =>
    ["unexpected encoding at " ++ Text.hex cause.address.toNat, cause.obstacle.message]
  | unsupportedPacket cause => ["unsupported", cause.message]
  | unsupportedConfiguration cause => ["unsupported", cause.message]

/-- The text of the error and its causes. -/
def message (e : Error) : String :=
  ": ".intercalate e.texts

end Error

/-- The source, or that nothing is known of it. -/
def Correlation.source (c : Correlation) : Except Error Source :=
  match c.source? with
  | some s => .ok s
  | none => .error (.noSource c.address)

end Retrace
