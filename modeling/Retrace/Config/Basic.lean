import Retrace.Config.Mask
import Retrace.Source.Files

/-!
# Configuration

The settings of a session with their defaults and valid ranges. `Configuration.invalid?` finds
the first setting that is out of its range, `Configuration.ofSetting?` reads settings.
-/

namespace Retrace

/-- What a rendered record shows. -/
structure Verbosity where
  address : Bool := true
  instruction : Bool := true
  source : Bool := true
  /-- The text of the source line, if its file can be read. -/
  text : Bool := true
  deriving DecidableEq, Repr, Inhabited

/-- The width of rendered addresses. -/
inductive AddressWidth where
  /-- That of the greatest address of the image. -/
  | auto
  /-- That many bits. -/
  | fixed (bits : Nat)
  deriving DecidableEq, Repr, Inhabited

/-- The settings of a session. -/
structure Configuration where
  /-- The number of bytes that end a printed line without a terminator. -/
  printBufferLimit : Nat := 4096
  /-- The channels that carry printed output. -/
  printChannels : Mask := .all
  verbosity : Verbosity := {}
  addressWidth : AddressWidth := .auto
  /-- The cores that are reconstructed. -/
  coreMask : Mask := .all
  /-- The width of core ids in bits. -/
  coreBits : Nat := 0
  /-- The width of timestamps in bits. -/
  timestampWidth : Nat := 40
  /-- The number of timestamps in a second. -/
  frequency? : Option UInt32 := none
  /-- The greatest number of instructions for one message. -/
  maxRun : Nat := 1000000
  /-- The depth of return stacks; zero if returns are always reported. -/
  returnStack : Nat := 0
  sourcePath? : Option PathSubstitution := none
  deriving DecidableEq, Repr, Inhabited

/-- The greatest depth of return stacks. -/
def maxReturnStack : Nat := 4096

/-- A setting that is out of its range. -/
inductive ConfigError where
  | printBufferLimit
  | coreBits (bits : Nat)
  | timestampWidth (bits : Nat)
  | addressWidth (bits : Nat)
  | frequency
  | maxRun
  | returnStack (depth : Nat)
  deriving DecidableEq, Repr

def ConfigError.message : ConfigError → String
  | printBufferLimit => "print buffer limit must not be zero"
  | coreBits bits => "core id width " ++ toString bits ++ " exceeds 16 bits"
  | timestampWidth bits => "timestamp width " ++ toString bits ++ " is not in 1..=64"
  | addressWidth bits => "address width " ++ toString bits ++ " is not in 1..=64"
  | frequency => "frequency must not be zero"
  | maxRun => "maximum run length must not be zero"
  | returnStack depth =>
    "return stack depth " ++ toString depth ++ " exceeds " ++ toString maxReturnStack

/-- Whether a width is one of words of at most 64 bits. -/
def isWidth (bits : Nat) : Bool :=
  1 ≤ bits && bits ≤ 64

/-- The time of a timestamp in seconds. -/
def seconds (frequency : UInt32) (timestamp : UInt64) : Float :=
  timestamp.toFloat / frequency.toUInt64.toFloat

namespace Configuration

/-- An error unless a condition holds. -/
def demand (condition : Bool) (e : ConfigError) : Option ConfigError :=
  if condition then none else some e

/-- The first setting that is out of its range. -/
def invalid? (c : Configuration) : Option ConfigError :=
  demand (c.printBufferLimit ≠ 0) .printBufferLimit <|>
  demand (c.coreBits ≤ 16) (.coreBits c.coreBits) <|>
  demand (isWidth c.timestampWidth) (.timestampWidth c.timestampWidth) <|>
  (match c.addressWidth with
    | .auto => none
    | .fixed bits => demand (isWidth bits) (.addressWidth bits)) <|>
  demand (c.frequency? ≠ some 0) .frequency <|>
  demand (c.maxRun ≠ 0) .maxRun <|>
  demand (c.returnStack ≤ maxReturnStack) (.returnStack c.returnStack)

/-- The time of a timestamp in seconds, if the frequency is known. -/
def seconds? (c : Configuration) (timestamp : UInt64) : Option Float :=
  c.frequency?.map (seconds · timestamp)

end Configuration

/-! ## Reading settings -/

/-- The greatest number of eight bits. -/
def maxNat8 : Nat := UInt8.size - 1

/-- The greatest number of 32 bits. -/
def maxNat32 : Nat := UInt32.size - 1

/-- The greatest number of 64 bits. -/
def maxNat64 : Nat := UInt64.size - 1

/-- The mask of a value, if it is one. -/
def Mask.ofSetting? (s : Setting) : Option Mask :=
  (Mask.ofSetting s).toOption

def Verbosity.ofSetting? (f : SettingFormat) (s : Setting) : Option Verbosity := do
  let fields ← s.fields? f ["address", "instruction", "source", "text"]
  let default : Verbosity := {}
  return {
    address := ← Setting.field fields "address" Setting.bool? default.address
    instruction := ← Setting.field fields "instruction" Setting.bool? default.instruction
    source := ← Setting.field fields "source" Setting.bool? default.source
    text := ← Setting.field fields "text" Setting.bool? default.text }

/-- The word `auto`, or a table with one entry: `fixed` with a width, or `auto` with nothing. -/
def AddressWidth.ofSetting? (f : SettingFormat) : Setting → Option AddressWidth
  | .text "auto" => some .auto
  | .table [("auto", value)] => if f.isNothing value then some .auto else none
  | .table [("fixed", width)] => (width.nat? maxNat8).map .fixed
  | _ => none

/-- Both parts of a substitution. -/
def PathSubstitution.ofSetting? (f : SettingFormat) (s : Setting) : Option PathSubstitution := do
  let fields ← s.fields? f ["strip", "replace"]
  return {
    strip := ← Setting.field? fields "strip" Setting.text?
    replace := ← Setting.field? fields "replace" Setting.text? }

namespace Configuration

/-- The names of the settings, in order. -/
def names : List String :=
  ["print_buffer_limit", "print_channels", "verbosity", "address_width", "core_mask", "src_bits",
    "timestamp_width", "frequency", "max_run", "return_stack", "source_path"]

/-- The configuration that settings denote. Missing ones have their defaults, unknown ones do not
count. -/
def ofSetting? (f : SettingFormat) (s : Setting) : Option Configuration := do
  let fields ← s.fields? f names
  let default : Configuration := {}
  let field {α : Type} (name : String) (read : Setting → Option α) (value : α) : Option α :=
    Setting.field fields name read value
  return {
    printBufferLimit :=
      ← field "print_buffer_limit" (Setting.nat? maxNat64) default.printBufferLimit
    printChannels := ← field "print_channels" Mask.ofSetting? default.printChannels
    verbosity := ← field "verbosity" (Verbosity.ofSetting? f) default.verbosity
    addressWidth := ← field "address_width" (AddressWidth.ofSetting? f) default.addressWidth
    coreMask := ← field "core_mask" Mask.ofSetting? default.coreMask
    coreBits := ← field "src_bits" (Setting.nat? maxNat8) default.coreBits
    timestampWidth := ← field "timestamp_width" (Setting.nat? maxNat8) default.timestampWidth
    frequency? :=
      (← field "frequency" (Setting.nullable? (Setting.nat? maxNat32)) none).map (·.toUInt32)
    maxRun := ← field "max_run" (Setting.nat? maxNat64) default.maxRun
    returnStack := ← field "return_stack" (Setting.nat? maxNat64) default.returnStack
    sourcePath? := ← field "source_path" (Setting.nullable? (PathSubstitution.ofSetting? f)) none }

end Configuration

end Retrace
