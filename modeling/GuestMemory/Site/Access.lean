import GuestMemory.Width
import GuestMemory.Page

/-!
Loads and stores of emitted code: what such an access is, the record that says how to divert it, and
where the two ended up.
-/
namespace GuestMemory.Site

/-- A guest load or store that goes straight to the host window. The address register holds the
guest address, zero-extended. A mask has bit `n` for register `n` when that is live. -/
structure Access where
  guestPc : GuestAddress
  width : Width
  isLoad : Bool
  isSigned : Bool
  isVector : Bool
  addressRegister : UInt8
  dataRegister : UInt8
  gprMask : UInt32
  vectorMask : UInt32
  deriving DecidableEq, Repr

/-- All that is needed to divert one access. -/
structure Record extends Access where
  codeSize : UInt32
  /-- Host address of the slow path of this site. -/
  thunk : HostAddress
  deriving DecidableEq, Repr

def Access.record (a : Access) (codeSize : UInt32) (thunk : HostAddress) : Record :=
  { a with codeSize, thunk }

/-- An access as it was put into a buffer. -/
structure Emitted where
  offset : Nat
  codeSize : UInt32
  deriving DecidableEq, Repr

/-- A site whose slow path is in the buffer, while the place of the buffer is not known yet. -/
structure Pending where
  siteOffset : Nat
  thunkOffset : Nat
  record : Record
  deriving DecidableEq, Repr

/-- Host address and complete record once the buffer lies at `base`; `none` if an address leaves
64 bits. -/
def Pending.resolve? (p : Pending) (base : HostAddress) : Option (HostAddress × Record) :=
  if base.toNat + p.thunkOffset < 0x10000000000000000 ∧
      base.toNat + p.siteOffset < 0x10000000000000000 then
    some (base + UInt64.ofNat p.siteOffset,
      { p.record with thunk := base + UInt64.ofNat p.thunkOffset })
  else none

end GuestMemory.Site
