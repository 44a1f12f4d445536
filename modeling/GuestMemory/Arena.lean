import GuestMemory.Kernel

/-!
The shared host memory of every directly mapped region. Regions are carved off the front in whole
pages, so they lie side by side in the order of allocation and a host address inside them goes back
to an offset.
-/
namespace GuestMemory

/-- A piece of the arena, as `Arena.allocate` hands it out. -/
structure Block where
  offset : Nat
  size : Nat
  deriving DecidableEq, Repr, Inhabited

structure Region where
  name : String
  offset : Nat
  size : Nat
  protection : Protection
  deriving DecidableEq, Repr

structure Arena where
  base : HostAddress
  size : Nat
  used : Nat := 0
  regions : List Region := []
  deriving Repr

namespace Arena

/-- Reserves whole pages for `size` bytes at `base`, if the host has them. -/
def create (base : HostAddress) (size : Nat) (kernel : Kernel := .linux) :
    Except (Failure ArenaError) Arena :=
  match roundUpToPage size with
  | none => .error .overflow
  | some total =>
    match kernel.arenaRefusal total with
    | some e => .error (.refused e)
    | none => .ok { base, size := total }

def remaining (arena : Arena) : Nat := arena.size - arena.used

/-- Carves off the next `size` bytes, in whole pages. -/
def allocate (arena : Arena) (name : String) (size : Nat) (protection : Protection) :
    Except (Failure ArenaError) (Block × Arena) :=
  match roundUpToPage size with
  | none => .error .overflow
  | some size =>
    if arena.remaining < size then .error (.refused (.exhausted size arena.remaining))
    else
      let region := { name, offset := arena.used, size, protection }
      .ok (⟨arena.used, size⟩,
        { arena with used := arena.used + size, regions := arena.regions ++ [region] })

/-- Host address of the first byte of a block. -/
def address (arena : Arena) (block : Block) : HostAddress := arena.base + UInt64.ofNat block.offset

/-- Offset and protection of the region that holds a host address. -/
def locate? (arena : Arena) (a : HostAddress) : Option (Nat × Protection) :=
  if a.toNat < arena.base.toNat ∨ arena.base.toNat + arena.used ≤ a.toNat then none
  else
    let offset := a.toNat - arena.base.toNat
    (arena.regions.find? fun r => r.offset ≤ offset && offset < r.offset + r.size).map
      fun r => (offset, r.protection)

end Arena

end GuestMemory
