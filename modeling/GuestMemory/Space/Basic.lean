import GuestMemory.Cache.Model
import GuestMemory.Journal
import GuestMemory.Settings
import GuestMemory.Virtual
import GuestMemory.Window.Basic

/-!
The guest address space: devices, the physical and the virtual map, the data cache, the host memory
behind them and, if asked for, the host window. Here are its construction and the calls that set up
its maps; a call that is refused leaves everything as it was.
-/
namespace GuestMemory

/-- A guest address space whose devices have states in `σ`. -/
structure Space (σ : Type) where
  settings : Settings
  handlers : HandlerTable σ := {}
  physical : PhysicalMap := {}
  virtual : VirtualMap := {}
  cache : Cache := {}
  control : Cache.Control := {}
  arena : Arena
  memory : Memory := {}
  window : Option Window
  pending : Option GuestException := none
  /-- Guest faults that are still reported. -/
  faultBudget : Nat := 50
  journal : Journal := {}

/-- Host addresses that the host chose for an address space. -/
structure Placement where
  arena : HostAddress
  window : HostAddress
  deriving Repr

namespace Space

variable {σ : Type}

def note (s : Space σ) (e : Event) : Space σ := { s with journal := s.journal.add e }

/-- The journal up to now is left out. -/
def drained (s : Space σ) : Space σ := { s with journal := s.journal.drained }

/-- A fresh space on a host. The cache model rules out the host window, which would bypass it;
`routed` says that host faults went to another space, and a window takes them over. -/
def create (place : Placement) (settings : Settings) (level : Option Level) (routed : Bool)
    (kernel : Kernel := .linux) : Except (Failure ArenaError) (Space σ) := do
  let arena ← Arena.create place.arena settings.arenaSize kernel
  let wanted := settings.window && !settings.cacheModel
  if let some e := if wanted then kernel.windowRefusal else none then throw (.refused e)
  let s : Space σ := {
    settings, arena
    window := if wanted then some (Window.create place.window kernel) else none
    journal := { level } }
  let s := if settings.window && settings.cacheModel then s.note .windowRefused else s
  let s := if wanted && routed then s.note .routeMoved else s
  return s.note (.created arena.size wanted settings.cacheModel)

def register (s : Space σ) (h : Handler σ) : Except MapError (HandlerId × Space σ) := do
  let (id, handlers) ← s.handlers.register h
  return (id, { s with handlers })

/-- Replaces a handler; every page that names its slot follows. -/
def reassign (s : Space σ) (id : HandlerId) (h : Handler σ) :
    Except MapError (Handler σ × Space σ) := do
  let (old, handlers) ← s.handlers.reassign id h
  return (old, { s with handlers })

def allocate (s : Space σ) (name : String) (size : Nat) (protection : Protection) :
    Except (Failure ArenaError) (Block × Space σ) := do
  let (block, arena) ← s.arena.allocate name size protection
  return (block, { s with arena }.note (.regionCarved name block))

/-- Maps host memory that need not be in the arena. -/
def mapMemory (s : Space σ) (base : HostAddress) (start : GuestAddress) (size blockSize : UInt32) :
    Except MapError (Space σ) := do
  return { s with physical := ← s.physical.mapBlock base start size blockSize }

/-- Maps a block of the arena, or its first `blockSize` bytes over and over. -/
def mapBlock (s : Space σ) (block : Block) (start : GuestAddress) (size blockSize : UInt32) :
    Except MapError (Space σ) := do
  let needed := (if blockSize = 0 then size else blockSize).toNat
  if block.size < needed then throw (.blockTooSmall .mapBlock needed block.size)
  s.mapMemory (s.arena.address block) start size blockSize

def mapHandler (s : Space σ) (id : HandlerId) (start : GuestAddress) (size : UInt32) :
    Except MapError (Space σ) := do
  if !s.handlers.contains id then throw (.unknownHandler .mapHandler id)
  return { s with physical := ← s.physical.mapHandler id start size }

def duplicate (s : Space σ) (target start : GuestAddress) (size : UInt32) :
    Except MapError (Space σ) := do
  return { s with physical := ← s.physical.duplicate target start size }

/-- What the host window has to show at a page: the arena page that the virtual map leads to. -/
def windowTarget (s : Space σ) (v : GuestAddress) : Option (Nat × Protection) :=
  match s.virtual.get v with
  | .memory distance => s.arena.locate? (distance + v.toUInt64)
  | _ => none

/-- Brings the pages from `v` on into the window as the virtual map has them, up to the first that the
host refuses. -/
def syncWindow (s : Space σ) (v : GuestAddress) (size : UInt32) : Option ArenaError × Space σ :=
  match s.window with
  | none => (none, s)
  | some window =>
    let k := Window.Walk.visitAll { window, journal := s.journal } v s.windowTarget
      (GuestAddress.page size)
    (k.refusal, { s with window := some k.window, journal := k.journal })

/-- Projects physical pages onto virtual ones. Later changes of the physical map do not follow. The
virtual map has changed also where the window could not follow it. -/
def project (s : Space σ) (v p : GuestAddress) (size : UInt32) :
    Except MapError (Option ArenaError × Space σ) := do
  let virtual ← s.virtual.project s.physical v p size
  return { s with virtual }.syncWindow v size

/-- Maps host memory at virtual pages, with no physical address. -/
def projectBuffer (s : Space σ) (v : GuestAddress) (buffer : HostAddress) (size : UInt32) :
    Except MapError (Option ArenaError × Space σ) := do
  let virtual ← s.virtual.projectBuffer v buffer size
  return { s with virtual }.syncWindow v size

def projectBlock (s : Space σ) (v : GuestAddress) (block : Block) (size : UInt32) :
    Except MapError (Option ArenaError × Space σ) := do
  if block.size < size.toNat then
    throw (.blockTooSmall .projectBuffer size.toNat block.size)
  s.projectBuffer v (s.arena.address block) size

def unmap (s : Space σ) (v : GuestAddress) (size : UInt32) :
    Except MapError (Option ArenaError × Space σ) := do
  let virtual ← s.virtual.unmap v size
  return { s with virtual }.syncWindow v size

/-- Answers through the handler in a slot. -/
def readHandler (s : Space σ) (id : HandlerId) (w : Width) (a : GuestAddress) : Word w × Space σ :=
  let (x, handlers, acts) := s.handlers.read id w a
  (x, { s with handlers, journal := s.journal.addAll (acts.map (.handler id)) })

def writeHandler {w : Width} (s : Space σ) (id : HandlerId) (a : GuestAddress) (x : Word w) :
    Space σ :=
  let (handlers, acts) := s.handlers.write id a x
  { s with handlers, journal := s.journal.addAll (acts.map (.handler id)) }

/-- Latches a guest exception unless an earlier one waits, and reports it while the budget lasts. -/
def raise (s : Space σ) (e : GuestException) : Space σ :=
  let s :=
    if s.settings.logFaults && 0 < s.faultBudget then
      { s with faultBudget := s.faultBudget - 1, journal := s.journal.add (.guestFault e) }
    else s
  { s with pending := s.pending.or (some e) }

/-- The oldest exception that has not been delivered. -/
def takeException (s : Space σ) : Option GuestException × Space σ :=
  (s.pending, { s with pending := none })

end Space

end GuestMemory
