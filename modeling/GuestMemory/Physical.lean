import GuestMemory.Error
import GuestMemory.Table

/-!
The physical map: for every page of the physical window, the host page or the handler behind it.
-/
namespace GuestMemory

inductive PhysicalEntry where
  /-- Host memory, named by the address of its first byte. -/
  | memory (page : HostAddress)
  | handler (id : HandlerId)
  deriving DecidableEq, Repr

/-- Every page starts on the default handler. -/
structure PhysicalMap where
  pages : Table PhysicalEntry 17 := .all (.handler defaultHandler)

namespace PhysicalMap

/-- The checks that all ranges of the physical window pass, in their order. -/
def checkRange (call : MapCall) (start : GuestAddress) (size : UInt32) : Except MapError Unit :=
  if !start.isAligned then .error (.misalignedAddress call start)
  else if !GuestAddress.isAligned size then .error (.misalignedSize call size)
  else if physicalSize < start.toNat + size.toNat then
    .error (.outOfRange call start size physicalSize)
  else .ok ()

/-- What answers a physical address; nothing does outside the window. -/
def lookup (map : PhysicalMap) (a : GuestAddress) : Option PhysicalEntry :=
  if a.toNat < physicalSize then some (map.pages.get a.page) else none

/-- Host address of the byte behind a physical address, if it is memory. -/
def hostAddress? (map : PhysicalMap) (a : GuestAddress) : Option HostAddress :=
  match map.lookup a with
  | some (.memory page) => some (page + a.pageOffset.toUInt64)
  | _ => none

/-- Maps `size` bytes from `start` on to host memory at `base`. A block size other than zero repeats
that many bytes over the range. -/
def mapBlock (map : PhysicalMap) (base : HostAddress) (start : GuestAddress)
    (size blockSize : UInt32) : Except MapError PhysicalMap := do
  checkRange .mapBlock start size
  if !base.isAligned then throw (.misalignedPointer .mapBlock base)
  let blockSize := if blockSize = 0 then size else blockSize
  if !GuestAddress.isAligned blockSize || (size != 0 && size % blockSize != 0) then
    throw (.badBlockSize .mapBlock size blockSize)
  let period := GuestAddress.page blockSize
  return { map with
    pages := map.pages.fill start.page (GuestAddress.page size) fun i =>
      .memory (base + UInt64.ofNat (i % period * pageSize)) }

def mapHandler (map : PhysicalMap) (id : HandlerId) (start : GuestAddress) (size : UInt32) :
    Except MapError PhysicalMap := do
  checkRange .mapHandler start size
  return { map with
    pages := map.pages.fill start.page (GuestAddress.page size) fun _ => .handler id }

/-- Gives the range at `target` what the range at `start` has before the call. -/
def duplicate (map : PhysicalMap) (target start : GuestAddress) (size : UInt32) :
    Except MapError PhysicalMap := do
  checkRange .duplicate start size
  checkRange .duplicate target size
  return { map with
    pages := map.pages.fill target.page (GuestAddress.page size) fun i =>
      map.pages.get (start.page + i) }

end PhysicalMap

end GuestMemory
