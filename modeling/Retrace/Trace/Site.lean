import Retrace.Image.Basic

/-!
# Sites

An instruction in the image together with what is known about its address, and a cache of such
sites. A cache may have a number of slots, and then an address belongs to one of them; storing
evicts what was in its slot. A cache that is disabled, or has no slots, keeps nothing.
-/

namespace Retrace

open Isa

/-- An instruction in the image. -/
structure Site where
  instruction : Instruction
  /-- What is known about its address. -/
  correlation : Correlation
  deriving DecidableEq, Repr

/-- The site at an address. -/
def Image.siteAt (image : Image) (address : UInt64) : Except Obstacle Site :=
  match image.instructionAt address with
  | .ok i => .ok ⟨i, image.lookup address⟩
  | .error o => .error o

/-- Sites that were looked up, by address. -/
inductive SiteCache where
  /-- Nothing is kept. -/
  | disabled
  /-- Each address has one of the slots. -/
  | direct (slots : Array (Option (UInt64 × Site)))
  deriving Repr

namespace SiteCache

/-- The number of slots unless another one is chosen. -/
def defaultSize : Nat := 1024

/-- A cache of empty slots. -/
def empty (size : Nat) : SiteCache :=
  .direct (.replicate size none)

/-- The slot of an address among so many. Instructions start at even addresses. -/
def slot (size : Nat) (address : UInt64) : Nat :=
  (address >>> 1).toNat % size

/-- Keeps a site under an address. -/
def store (c : SiteCache) (address : UInt64) (site : Site) : SiteCache :=
  match c with
  | disabled => disabled
  | direct slots => direct (slots.setIfInBounds (slot slots.size address) (some (address, site)))

/-- The site that is kept under an address. -/
def get? (c : SiteCache) (address : UInt64) : Option Site :=
  match c with
  | disabled => none
  | direct slots =>
    match slots[slot slots.size address]? with
    | some (some (a, site)) => if a = address then some site else none
    | _ => none

/-- The site at an address of an image, from the cache if it is there, and the cache with it. -/
def fetch (c : SiteCache) (image : Image) (address : UInt64) :
    Except Obstacle Site × SiteCache :=
  match c.get? address with
  | some site => (.ok site, c)
  | none =>
    match image.siteAt address with
    | .ok site => (.ok site, c.store address site)
    | .error o => (.error o, c)

end SiteCache

end Retrace
