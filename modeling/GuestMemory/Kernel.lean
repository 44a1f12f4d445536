import GuestMemory.Error

/-!
The host under an address space, as far as it can refuse. It is asked for the object behind the arena,
for the window, and then for each change of the window; what it answers is data, so that a space can be
run on any host.
-/
namespace GuestMemory

/-- Answers of the host; it grants what it has no error for. -/
structure Kernel where
  createObject : Option OsError := none
  resizeObject : Nat → Option OsError := fun _ => none
  mapArena : Nat → Option OsError := fun _ => none
  reserveWindow : Option OsError := none
  installFaults : Option OsError := none
  /-- Answers to the changes of the window, in their order; it grants all that come after. -/
  changes : List (Option OsError) := []
  /-- Error number for a change of protection where no code is. -/
  unmappedCode : Nat := OsError.noMemory.code

namespace Kernel

/-- Bytes below the place of a program, at two thirds of the 47-bit addresses that a host program
has: the largest gap there is. -/
def largestGap : Nat := 0x800000000000 / 3 * 2

/-- A host with memory to spare. It takes a length as a signed number of 64 bits, maps no empty range,
and needs a gap for what it maps. -/
def linux : Kernel where
  resizeObject length := if 0x8000000000000000 ≤ length then some .invalid else none
  mapArena length :=
    if length = 0 then some .invalid
    else if largestGap < length then some .noMemory
    else none

/-- Why there is no arena of a length. -/
def arenaRefusal (k : Kernel) (length : Nat) : Option ArenaError :=
  match k.createObject, k.resizeObject length, k.mapArena length with
  | some e, _, _ => some (.os .createObject e)
  | none, some e, _ => some (.os .resizeObject e)
  | none, none, some e => some (.os .mapArena e)
  | none, none, none => none

/-- Why there is no window. -/
def windowRefusal (k : Kernel) : Option ArenaError :=
  match k.reserveWindow, k.installFaults with
  | some e, _ => some (.os .reserve e)
  | none, some e => some (.os .installFaults e)
  | none, none => none

end Kernel

end GuestMemory
