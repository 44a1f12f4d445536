import GuestMemory.Space.Window

/-!
The memory map of the console: which regions there are, where they lie in the physical window, and
the virtual segments that show them.
-/
namespace GuestMemory

namespace Layout

def mainRamSize : UInt32 := 0x02000000
def romBase : GuestAddress := 0x1FC00000
def romSize : UInt32 := 0x00400000
def rom1Base : GuestAddress := 0x1E000000
def rom1Size : UInt32 := 0x00040000
def rom2Base : GuestAddress := 0x1E400000
def rom2Size : UInt32 := 0x00080000
def iopRamBase : GuestAddress := 0x1C000000
def iopRamSize : UInt32 := 0x00200000
/-- The IOP's memory repeats in a window of four times its size. -/
def iopRamWindow : UInt32 := 0x00800000
def hardwareBase : GuestAddress := 0x10000000
def hardwarePages : Nat := 16
def gsBase : GuestAddress := 0x12000000
def gsSize : UInt32 := 0x2000
def iopHardwarePages : List GuestAddress := [0x1F801000, 0x1F803000, 0x1F808000]
def vu0MicroBase : GuestAddress := 0x11000000
def vu0MemoryBase : GuestAddress := 0x11004000
def vu1MicroBase : GuestAddress := 0x11008000
def vu1MemoryBase : GuestAddress := 0x1100C000
def vu0Size : UInt32 := 0x1000
def vu1Size : UInt32 := 0x4000
/-- Every window of a vector unit is 16 KB, whatever memory is behind it. -/
def vuWindow : UInt32 := 0x4000
def scratchpadBase : GuestAddress := 0x70000000
def scratchpadSize : UInt32 := 0x4000
def segmentSize : UInt32 := 0x20000000
def uncachedRam : GuestAddress := 0x20000000
def uncachedAcceleratedRam : GuestAddress := 0x30000000
def kernelSegment0 : GuestAddress := 0x80000000
def kernelSegment1 : GuestAddress := 0xA0000000

/-- Handlers of the board's devices; a page without one reads zero. A micro memory without one is
plain memory. -/
structure Hardware where
  /-- By page from `hardwareBase` on; entries past the last page do not count. -/
  pages : List (Option HandlerId) := []
  gs : Option HandlerId := none
  iop : Option HandlerId := none
  vu0Micro : Option HandlerId := none
  vu1Micro : Option HandlerId := none
  deriving Repr

end Layout

/-- The blocks of the installed regions. -/
structure Layout where
  mainRam : Block
  rom : Block
  rom1 : Block
  rom2 : Block
  iopRam : Block
  vu0Micro : Block
  vu0Memory : Block
  vu1Micro : Block
  vu1Memory : Block
  scratchpad : Block
  nullHandler : HandlerId
  deriving Repr

namespace Layout

/-- In the order in which they are carved. -/
def blocks (l : Layout) : Array Block :=
  #[l.mainRam, l.rom, l.rom1, l.rom2, l.iopRam, l.vu0Micro, l.vu0Memory, l.vu1Micro, l.vu1Memory,
    l.scratchpad]

variable {σ : Type}

/-- Why installing stopped, and what it left behind. -/
abbrev Attempt (σ α : Type) := EStateM (Failure SetupError) (Space σ) α

def allocating (name : String) (size : UInt32) (protection : Protection) : Attempt σ Block :=
  fun s =>
    match s.allocate name size.toNat protection with
    | .ok (block, s) => .ok block s
    | .error (.refused e) => .error (.refused (.arena e)) s
    | .error .overflow => .error .overflow s

def registering (h : Handler σ) : Attempt σ HandlerId := fun s =>
  match s.register h with
  | .ok (id, s) => .ok id s
  | .error e => .error (.refused (.map e)) s

def mapping (f : Space σ → Except MapError (Space σ)) : Attempt σ Unit := fun s =>
  match f s with
  | .ok s => .ok () s
  | .error e => .error (.refused (.map e)) s

/-- A call that changes the virtual map, and then the window. -/
def projecting (f : Space σ → Except MapError (Option ArenaError × Space σ)) : Attempt σ Unit :=
  fun s =>
    match f s with
    | .ok (none, s) => .ok () s
    | .ok (some e, s) => .error (.refused (.arena e)) s
    | .error e => .error (.refused (.map e)) s

def allocateRegions : Attempt σ Layout := do
  return {
    mainRam := ← allocating "main ram" mainRamSize .readWrite
    rom := ← allocating "rom" romSize .readOnly
    rom1 := ← allocating "rom1" rom1Size .readOnly
    rom2 := ← allocating "rom2" rom2Size .readOnly
    iopRam := ← allocating "iop ram" iopRamSize .readWrite
    vu0Micro := ← allocating "vu0 micro" vu0Size .readWrite
    vu0Memory := ← allocating "vu0 mem" vu0Size .readWrite
    vu1Micro := ← allocating "vu1 micro" vu1Size .readWrite
    vu1Memory := ← allocating "vu1 mem" vu1Size .readWrite
    scratchpad := ← allocating "scratchpad" scratchpadSize .readWrite
    nullHandler := ← registering .null }

/-- A window that is a handler's, or else memory. -/
def mapMicro (id : Option HandlerId) (block : Block) (base : GuestAddress) (blockSize : UInt32) :
    Attempt σ Unit :=
  match id with
  | some id => mapping (·.mapHandler id base vuWindow)
  | none => mapping (·.mapBlock block base vuWindow blockSize)

def mapPhysical (layout : Layout) (hardware : Hardware) : Attempt σ Unit := do
  let orNull := fun (id : Option HandlerId) => id.getD layout.nullHandler
  mapping (·.mapBlock layout.mainRam 0 mainRamSize 0)
  mapping (·.mapHandler layout.nullHandler mainRamSize (hardwareBase - mainRamSize))
  for i in List.range hardwarePages do
    mapping (·.mapHandler (orNull (hardware.pages[i]?.join)) (VirtualMap.pageAddress hardwareBase i)
      0x1000)
  mapping (·.mapHandler (orNull hardware.gs) gsBase gsSize)
  for page in iopHardwarePages do
    mapping (·.mapHandler (orNull hardware.iop) page 0x1000)
  mapMicro hardware.vu0Micro layout.vu0Micro vu0MicroBase vu0Size
  mapping (·.mapBlock layout.vu0Memory vu0MemoryBase vuWindow vu0Size)
  mapMicro hardware.vu1Micro layout.vu1Micro vu1MicroBase 0
  mapping (·.mapBlock layout.vu1Memory vu1MemoryBase vuWindow 0)
  mapping (·.mapBlock layout.iopRam iopRamBase iopRamWindow iopRamSize)
  mapping (·.mapBlock layout.rom1 rom1Base rom1Size 0)
  mapping (·.mapBlock layout.rom2 rom2Base rom2Size 0)
  mapping (·.mapBlock layout.rom romBase romSize 0)

def mapVirtual (layout : Layout) : Attempt σ Unit := do
  projecting (·.project 0 0 segmentSize)
  projecting (·.project uncachedRam 0 mainRamSize)
  projecting (·.project uncachedAcceleratedRam 0 mainRamSize)
  projecting (·.project kernelSegment0 0 segmentSize)
  projecting (·.project kernelSegment1 0 segmentSize)
  projecting (·.projectBlock scratchpadBase layout.scratchpad scratchpadSize)

/-- Carves the regions, fills the physical map and projects it. What was done before a refusal
stays. -/
def install (hardware : Hardware) : Attempt σ Layout := do
  let layout ← allocateRegions
  mapPhysical layout hardware
  mapVirtual layout
  return layout

end Layout

end GuestMemory
