import GuestMemory.Arena
import GuestMemory.Handler
import GuestMemory.Site.Access

/-!
What an address space reports while it works: the calls that devices and patchers see, and the lines
of its log. The journal keeps a line only if its level is asked for.
-/
namespace GuestMemory

open Text

/-- A guest-visible fault, for the processor to deliver. -/
inductive GuestException where
  | tlbMiss (address : GuestAddress) (isStore : Bool)
  | busError (address : GuestAddress) (isStore : Bool)
  deriving DecidableEq, Repr

/-- Importance of a log line. -/
inductive Level where
  | error | warn | info | debug | trace
  deriving DecidableEq, Repr

namespace Level

def rank : Level → Nat
  | error => 1
  | warn => 2
  | info => 3
  | debug => 4
  | trace => 5

def name : Level → String
  | error => "ERROR"
  | warn => "WARN"
  | info => "INFO"
  | debug => "DEBUG"
  | trace => "TRACE"

def ofName? (s : String) : Option Level :=
  [error, warn, info, debug, trace].find? (·.name == s)

end Level

inductive Event where
  | handler (id : HandlerId) (act : HandlerAct)
  | patchTried (site : HostAddress) (record : Site.Record)
  | guestFault (e : GuestException)
  | regionCarved (name : String) (block : Block)
  | windowRefused
  | created (arenaSize : Nat) (window cacheModel : Bool)
  | routeMoved
  | pageMapped (page : GuestAddress) (offset : Nat) (protection : Protection)
  | pageUnmapped (page : GuestAddress)
  | windowCleared
  | reset
  | windowDisabled
  | windowReleased
  | shutDown
  | siteUnknown (guest : GuestAddress) (cause : PatchError)
  | patchFailed (site : HostAddress) (record : Site.Record) (guest : GuestAddress)
      (cause : PatchError)
  | patched (site : HostAddress) (record : Site.Record) (guest : GuestAddress)
  deriving Repr

namespace Event

/-- Level of the log line of an event, if it has one. -/
def level? : Event → Option Level
  | handler _ (.call _) | patchTried .. => none
  | handler _ (.stray ..) | guestFault _ | windowRefused => some .warn
  | siteUnknown .. | patchFailed .. => some .error
  | patched .. => some .info
  | pageMapped .. | pageUnmapped _ => some .trace
  | _ => some .debug

def direction (isStore : Bool) : String := if isStore then "write" else "read"

def patchedMessage (site : HostAddress) (r : Site.Record) (guest : GuestAddress) : String :=
  let sign := if r.isSigned then "signed" else "unsigned"
  let kind := if r.isLoad then "load" else "store"
  let file := if r.isVector then "xmm" else "r"
  s!"backpatched {sign} {r.width.bits}-bit {kind} at guest pc 0x{upperHex8 r.guestPc.toNat}: " ++
    s!"host 0x{hex site.toNat}, guest address 0x{upperHex8 guest.toNat}, " ++
    s!"addr r{r.addressRegister.toNat}, data {file}{r.dataRegister.toNat}, " ++
    s!"gprs 0x{hex r.gprMask.toNat}, fprs 0x{hex r.vectorMask.toNat}"

/-- Text of the log line of an event, empty for events that have none. -/
def message : Event → String
  | handler _ (.call _) | patchTried .. => ""
  | handler _ (.stray isStore w a) =>
    s!"default physical {direction isStore}{w.bits}: 0x{upperHex8 a.toNat}"
  | guestFault (.tlbMiss a isStore) =>
    s!"guest tlb miss: {direction isStore} 0x{upperHex8 a.toNat}"
  | guestFault (.busError a isStore) =>
    s!"guest bus error: {direction isStore} 0x{upperHex8 a.toNat}"
  | regionCarved name block =>
    s!"arena region {name}: offset=0x{upperHex block.offset}, size=0x{upperHex block.size}"
  | windowRefused => "fastmem bypasses the cache model; disabled while cache emulation is on"
  | created size window cacheModel =>
    s!"address space initialized: arena 0x{upperHex size} bytes, fastmem {window}, cache {cacheModel}"
  | routeMoved => "fastmem fault route moved to a new address space"
  | pageMapped page offset protection =>
    s!"fastmem map 0x{upperHex8 page.toNat} -> arena 0x{upperHex offset} ({protection.name})"
  | pageUnmapped page => s!"fastmem unmap 0x{upperHex8 page.toNat}"
  | windowCleared => "fastmem area cleared"
  | reset => "address space reset"
  | windowDisabled => "fastmem disabled"
  | windowReleased => "fastmem area released"
  | shutDown => "address space shut down"
  | siteUnknown guest cause =>
    s!"unrecoverable fastmem fault at guest address 0x{upperHex8 guest.toNat}: {cause.message}"
  | patchFailed site r guest cause =>
    s!"failed to backpatch guest pc 0x{upperHex8 r.guestPc.toNat} " ++
      s!"(host 0x{hex site.toNat}, guest address 0x{upperHex8 guest.toNat}): {cause.message}"
  | patched site r guest => patchedMessage site r guest

/-- Level and text of an event's log line. -/
def line? (e : Event) : Option String := e.level?.map fun l => s!"{l.name} {e.message}"

end Event

/-- Events in their order, log lines up to a level only. -/
structure Journal where
  level : Option Level := none
  events : Array Event := #[]

namespace Journal

instance : Inhabited Journal := ⟨{}⟩

def keeps (j : Journal) (e : Event) : Bool :=
  match e.level?, j.level with
  | none, _ => true
  | some _, none => false
  | some l, some limit => l.rank ≤ limit.rank

def add (j : Journal) (e : Event) : Journal :=
  if j.keeps e then { j with events := j.events.push e } else j

def addAll (j : Journal) (es : List Event) : Journal := es.foldl add j

/-- Starts afresh at the same level. -/
def drained (j : Journal) : Journal := { j with events := #[] }

end Journal

end GuestMemory
