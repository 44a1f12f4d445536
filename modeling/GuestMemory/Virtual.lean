import GuestMemory.Physical

/-!
The virtual map. An entry keeps what is behind its page as a distance from the page's own virtual
address, so that `resolve` is one addition: memory distances in 64 bits, physical ones in 32.
-/
namespace GuestMemory

inductive VirtualEntry where
  | memory (distance : HostAddress)
  | handler (id : HandlerId) (distance : GuestAddress)
  | unmapped
  /-- Projected from a physical address outside the window. -/
  | busError (distance : GuestAddress)
  deriving DecidableEq, Repr

/-- Where an access goes. -/
inductive Resolved where
  | host (address : HostAddress)
  | handler (id : HandlerId) (address : GuestAddress)
  | tlbMiss
  | busError (address : GuestAddress)
  deriving DecidableEq, Repr

namespace VirtualEntry

/-- The entry of the page at `vaddr` for the host page at `host`. -/
def ofHost (host : HostAddress) (vaddr : GuestAddress) : VirtualEntry :=
  .memory (host - vaddr.toUInt64)

/-- The entry of the page at `vaddr` for the physical page at `paddr`, which is `behind`. -/
def project (behind : Option PhysicalEntry) (paddr vaddr : GuestAddress) : VirtualEntry :=
  match behind with
  | some (.memory page) => ofHost page vaddr
  | some (.handler id) => .handler id (paddr - vaddr)
  | none => .busError (paddr - vaddr)

def resolve (entry : VirtualEntry) (vaddr : GuestAddress) : Resolved :=
  match entry with
  | .memory distance => .host (distance + vaddr.toUInt64)
  | .handler id distance => .handler id (vaddr + distance)
  | .unmapped => .tlbMiss
  | .busError distance => .busError (vaddr + distance)

def isHandler : VirtualEntry → Bool
  | .handler .. => true
  | _ => false

@[simp] theorem resolve_ofHost (host : HostAddress) (vaddr v : GuestAddress) :
    (ofHost host vaddr).resolve v = .host (host - vaddr.toUInt64 + v.toUInt64) := rfl

end VirtualEntry

/-- Every page starts unmapped and without a physical address. -/
structure VirtualMap where
  entries : Table VirtualEntry 20 := .all .unmapped
  physical : Table (Option GuestAddress) 20 := .all none

namespace VirtualMap

def checkRange (call : MapCall) (start : GuestAddress) (size : UInt32) : Except MapError Unit :=
  if !start.isAligned then .error (.misalignedAddress call start)
  else if !GuestAddress.isAligned size then .error (.misalignedSize call size)
  else if 0x100000000 < start.toNat + size.toNat then
    .error (.outOfRange call start size 0x100000000)
  else .ok ()

def get (map : VirtualMap) (v : GuestAddress) : VirtualEntry := map.entries.get v.page

def resolve (map : VirtualMap) (v : GuestAddress) : Resolved := (map.get v).resolve v

/-- Address of the `i`-th page after the one at `start`. -/
def pageAddress (start : GuestAddress) (i : Nat) : GuestAddress :=
  start + UInt32.ofNat (i * pageSize)

/-- Projects the physical range at `paddr`, which wraps at 32 bits, onto the range at `vaddr`. -/
def project (map : VirtualMap) (physical : PhysicalMap) (vaddr paddr : GuestAddress)
    (size : UInt32) : Except MapError VirtualMap := do
  checkRange .project vaddr size
  if !paddr.isAligned then throw (.misalignedAddress .project paddr)
  let count := GuestAddress.page size
  return {
    entries := map.entries.fill vaddr.page count fun i =>
      let p := pageAddress paddr i
      .project (physical.lookup p) p (pageAddress vaddr i)
    physical := map.physical.fill vaddr.page count fun i => some (pageAddress paddr i) }

/-- Maps host memory at `buffer`, which has no physical address. -/
def projectBuffer (map : VirtualMap) (vaddr : GuestAddress) (buffer : HostAddress) (size : UInt32) :
    Except MapError VirtualMap := do
  checkRange .projectBuffer vaddr size
  if !buffer.isAligned then throw (.misalignedPointer .projectBuffer buffer)
  let count := GuestAddress.page size
  return {
    entries := map.entries.fill vaddr.page count fun i =>
      .ofHost (buffer + UInt64.ofNat (i * pageSize)) (pageAddress vaddr i)
    physical := map.physical.fill vaddr.page count fun _ => none }

def unmap (map : VirtualMap) (vaddr : GuestAddress) (size : UInt32) :
    Except MapError VirtualMap := do
  checkRange .unmap vaddr size
  let count := GuestAddress.page size
  return {
    entries := map.entries.fill vaddr.page count fun _ => .unmapped
    physical := map.physical.fill vaddr.page count fun _ => none }

/-- Physical address behind a virtual one, for pages projected from the physical map. -/
def physicalAddress? (map : VirtualMap) (v : GuestAddress) : Option GuestAddress :=
  (map.physical.get v.page).map (· ||| v.pageOffset)

end VirtualMap

end GuestMemory
