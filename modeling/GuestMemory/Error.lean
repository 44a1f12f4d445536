import GuestMemory.Page
import GuestMemory.Text.Hex

/-!
Causes of refusal and their wording. A call that sets up the address space is refused with one of
these; guest accesses never are, they raise guest exceptions instead.
-/
namespace GuestMemory

open Text

/-- Most devices that can be registered, the default one included. -/
abbrev maxHandlers : Nat := 128

/-- Slot of a registered device. -/
abbrev HandlerId := Fin maxHandlers

/-- Slot of the device that answers where nothing else does. -/
def defaultHandler : HandlerId := 0

/-- What the host lets an access to a page do. -/
inductive Protection where
  | noAccess | readOnly | readWrite
  deriving DecidableEq, Repr, Inhabited

namespace Protection

def name : Protection → String
  | noAccess => "NoAccess"
  | readOnly => "ReadOnly"
  | readWrite => "ReadWrite"

def allowsLoad : Protection → Bool
  | noAccess => false
  | _ => true

def allowsStore : Protection → Bool
  | readWrite => true
  | _ => false

end Protection

/-- The calls whose refusals name them. -/
inductive MapCall where
  | mapBlock | mapHandler | duplicate | project | projectBuffer | unmap | reassign
  deriving DecidableEq, Repr

def MapCall.name : MapCall → String
  | mapBlock => "map_block"
  | mapHandler => "map_handler"
  | duplicate => "mirror"
  | project => "vmap"
  | projectBuffer => "vmap_buffer"
  | unmap => "vmap_unmap"
  | reassign => "reassign_handler"

/-- Malformed arguments of a mapping or registration call. -/
inductive MapError where
  | misalignedAddress (call : MapCall) (address : GuestAddress)
  | misalignedSize (call : MapCall) (size : UInt32)
  | misalignedPointer (call : MapCall) (pointer : HostAddress)
  | outOfRange (call : MapCall) (start : GuestAddress) (size : UInt32) (limit : Nat)
  | badBlockSize (call : MapCall) (size blockSize : UInt32)
  | blockTooSmall (call : MapCall) (needed available : Nat)
  | handlerPoolExhausted
  | unknownHandler (call : MapCall) (id : HandlerId)
  deriving DecidableEq, Repr

def MapError.message : MapError → String
  | misalignedAddress call address =>
    s!"{call.name}: address 0x{upperHex8 address.toNat} is not page aligned"
  | misalignedSize call size =>
    s!"{call.name}: size 0x{upperHex size.toNat} is not a whole number of pages"
  | misalignedPointer call pointer =>
    s!"{call.name}: host pointer 0x{hex pointer.toNat} is not page aligned"
  | outOfRange call start size limit =>
    s!"{call.name}: range 0x{upperHex8 start.toNat}+0x{upperHex size.toNat} exceeds the 0x{upperHex limit} byte window"
  | badBlockSize call size blockSize =>
    s!"{call.name}: block size 0x{upperHex blockSize.toNat} does not evenly tile 0x{upperHex size.toNat} bytes"
  | blockTooSmall call needed available =>
    s!"{call.name}: 0x{upperHex needed} bytes requested from a 0x{upperHex available} byte block"
  | handlerPoolExhausted => s!"register_handler: all {maxHandlers} handler slots are in use"
  | unknownHandler call id => s!"{call.name}: handler HandlerId({id.val}) is not registered"

/-- Name of the cause. -/
def MapError.name : MapError → String
  | misalignedAddress .. => "MisalignedAddress"
  | misalignedSize .. => "MisalignedSize"
  | misalignedPointer .. => "MisalignedPointer"
  | outOfRange .. => "OutOfRange"
  | badBlockSize .. => "BadBlockSize"
  | blockTooSmall .. => "BlockTooSmall"
  | handlerPoolExhausted => "HandlerPoolExhausted"
  | unknownHandler .. => "UnknownHandler"

/-- The calls of the host whose refusals name them. -/
inductive HostCall where
  | createObject | resizeObject | mapArena | reserve | installFaults | mapPage | protectPage
  deriving DecidableEq, Repr

def HostCall.name : HostCall → String
  | createObject => "memfd_create"
  | resizeObject => "ftruncate arena"
  | mapArena => "map arena"
  | reserve => "reserve fastmem range"
  | installFaults => "install fastmem fault handler"
  | mapPage => "map fastmem page"
  | protectPage => "protect fastmem page"

/-- Error number of the host, with its wording. -/
structure OsError where
  code : Nat
  text : String
  deriving DecidableEq, Repr

def OsError.noMemory : OsError := ⟨12, "Cannot allocate memory"⟩

def OsError.invalid : OsError := ⟨22, "Invalid argument"⟩

/-- Host memory could not be reserved, mapped or handed out. -/
inductive ArenaError where
  | os (call : HostCall) (cause : OsError)
  | exhausted (requested remaining : Nat)
  deriving DecidableEq, Repr

def ArenaError.message : ArenaError → String
  | os call cause => s!"failed to {call.name}: {cause.text} (os error {cause.code})"
  | exhausted requested remaining =>
    s!"arena exhausted: 0x{upperHex requested} bytes requested, 0x{upperHex remaining} remaining"

def ArenaError.name : ArenaError → String
  | os .. => "Os"
  | exhausted .. => "Exhausted"

/-- Overwriting a load or store in emitted code failed. -/
inductive PatchError where
  | unknownSite (site : HostAddress)
  | siteTooSmall (site : HostAddress) (codeSize needed : UInt32)
  | thunkOutOfRange (site thunk : HostAddress)
  | unsupported
  | protection (site : HostAddress) (errno : Nat)
  deriving DecidableEq, Repr

def PatchError.message : PatchError → String
  | unknownSite site => s!"no backpatch record for host code address 0x{hex site.toNat}"
  | siteTooSmall site codeSize needed =>
    s!"site 0x{hex site.toNat} is {codeSize.toNat} bytes, a patch needs at least {needed.toNat}"
  | thunkOutOfRange site thunk =>
    s!"slow-path thunk 0x{hex thunk.toNat} is out of rel32 range of site 0x{hex site.toNat}"
  | unsupported => "the active code generator cannot patch load/store sites"
  | protection site errno =>
    s!"failed to change code protection at 0x{hex site.toNat} (errno {errno})"

def PatchError.name : PatchError → String
  | unknownSite _ => "UnknownSite"
  | siteTooSmall .. => "SiteTooSmall"
  | thunkOutOfRange .. => "ThunkOutOfRange"
  | unsupported => "PatchUnsupported"
  | protection .. => "Protection"

/-- Causes that a call of several parts can meet. -/
inductive SetupError where
  | map (cause : MapError)
  | arena (cause : ArenaError)
  deriving DecidableEq, Repr

def SetupError.message : SetupError → String
  | map cause => cause.message
  | arena cause => cause.message

/-- Why a call did not finish: a cause, or arithmetic on host sizes or addresses that left 64 bits. -/
inductive Failure (ε : Type) where
  | refused (cause : ε)
  | overflow
  deriving DecidableEq, Repr

end GuestMemory
