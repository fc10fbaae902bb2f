/-!
# Base instruction sets

The two integer base sets. Extensions do not change the meaning of an encoding, the base set
does: `0x2001` is `c.jal` on RV32I and `c.addiw` on RV64I.
-/

namespace Retrace.Isa

/-- A RISC-V base instruction set. -/
inductive BaseSet where
  | rv32
  | rv64
  deriving DecidableEq, Repr, Inhabited

namespace BaseSet

/-- The width of an address in bits. -/
def addressBits : BaseSet → Nat
  | rv32 => 32
  | rv64 => 64

/-- Whether the base set is RV64I. -/
def is64 : BaseSet → Bool
  | rv32 => false
  | rv64 => true

/-- An address cut down to the width of the base set. -/
def truncate (base : BaseSet) (address : UInt64) : UInt64 :=
  match base with
  | rv32 => address &&& 0xffffffff
  | rv64 => address

end BaseSet

end Retrace.Isa
