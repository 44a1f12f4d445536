import GuestMemory.Error
import GuestMemory.Table

/-!
The host window itself: a reservation as large as the guest space. A guest page is either backed by
a page of the arena, under some protection, or refuses every access. Every change is asked of the host,
and one that it refuses is not made.
-/
namespace GuestMemory.Window

def windowSize : Nat := 0x100000000

/-- What backs a page: its offset in the arena and what may be done with it. -/
structure Backing where
  offset : Nat
  protection : Protection
  deriving DecidableEq, Repr

structure Pages where
  base : HostAddress
  backing : Table (Option Backing) 20 := .all none
  /-- Answers of the host to the changes to come; it grants all that come after. -/
  answers : List (Option OsError) := []

namespace Pages

def contains (w : Pages) (a : HostAddress) : Bool :=
  w.base ≤ a && (a - w.base).toNat < windowSize

/-- Guest address of a host address in the window. -/
def guest? (w : Pages) (a : HostAddress) : Option GuestAddress :=
  if w.contains a then some (a - w.base).toUInt32 else none

def get (w : Pages) (v : GuestAddress) : Option Backing := w.backing.get v.page

def map (w : Pages) (v : GuestAddress) (offset : Nat) (protection : Protection) : Pages :=
  { w with backing := w.backing.set v.page (some ⟨offset, protection⟩) }

def unmap (w : Pages) (v : GuestAddress) : Pages :=
  { w with backing := w.backing.set v.page none }

/-- Changes the protection of a page that is backed. -/
def protect (w : Pages) (v : GuestAddress) (protection : Protection) : Pages :=
  { w with
    backing := w.backing.modify (·.map fun b => { b with protection }) v.page }

def unmapAll (w : Pages) : Pages := { w with backing := .all none }

/-- The host's next answer, an error if it refuses. -/
def ask (w : Pages) : Option OsError × Pages :=
  match w.answers with
  | [] => (none, w)
  | answer :: answers => (answer, { w with answers })

end Pages

end GuestMemory.Window
