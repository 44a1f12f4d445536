import GuestMemory.Page
import GuestMemory.Table

/-!
Which page of the arena each guest page shows in the host window, and which guest pages show a given
page of the arena. Offsets are kept as 32-bit words. A word that is the offset of no page marks the
guest pages that show nothing, and an arena page that none of them shows has no list.
-/
namespace GuestMemory.Window

/-- Kept for a guest page that shows nothing. -/
def noOffset : UInt32 := 0xFFFFFFFF

structure Aliases where
  /-- Offset that a guest page shows. -/
  offsets : Table UInt32 20 := .all noOffset
  /-- Guest pages that show an arena page, in the order in which they came to. -/
  showing : Table (Option (Array GuestAddress)) 20 := .all none

namespace Aliases

instance : Inhabited Aliases := ⟨{}⟩

/-- Offset that the page of `v` shows. -/
def offset? (t : Aliases) (v : GuestAddress) : Option UInt32 :=
  let offset := t.offsets.get v.page
  if offset = noOffset then none else some offset

/-- Number of guest pages that show something. -/
def size (t : Aliases) : Nat := t.showing.sum fun pages => pages.elim 0 Array.size

/-- Whether no arena page has a list. -/
def isEmpty (t : Aliases) : Bool := t.showing.sum (fun pages => pages.elim 0 fun _ => 1) == 0

/-- A list without the page at `v`; with its last page the list goes. -/
def without (v : GuestAddress) (pages : Option (Array GuestAddress)) : Option (Array GuestAddress) :=
  (pages.map (·.filter (· != v))).filter (!·.isEmpty)

/-- Forgets what the page of `v` shows and gives its offset. -/
def remove (t : Aliases) (v : GuestAddress) : Option UInt32 × Aliases :=
  match t.offset? v with
  | none => (none, t)
  | some offset =>
    (some offset, {
      offsets := t.offsets.set v.page noOffset
      showing := t.showing.modify (without v.pageBase) (GuestAddress.page offset) })

/-- Lets the page of `v` show the arena page at `offset`; gives the offset that it showed before. -/
def create (t : Aliases) (v : GuestAddress) (offset : UInt32) : Option UInt32 × Aliases :=
  let (previous, t) := t.remove v
  (previous, {
    offsets := t.offsets.set v.page (GuestAddress.pageBase offset)
    showing := t.showing.modify (fun pages => some ((pages.getD #[]).push v.pageBase))
      (GuestAddress.page offset) })

/-- Offset of the byte that `v` shows. -/
def resolve (t : Aliases) (v : GuestAddress) : Option UInt32 :=
  (t.offset? v).map (· ||| v.pageOffset)

/-- Guest pages that show the arena page of `offset`. -/
def ofOffset (t : Aliases) (offset : UInt32) : Array GuestAddress :=
  (t.showing.get (GuestAddress.page offset)).getD #[]

/-- Guest pages that show a page of the range at `offset`, which ends at the last 32-bit address at
the latest. -/
def ofRange (t : Aliases) (offset size : UInt32) : List GuestAddress :=
  let first := (GuestAddress.pageBase offset).toNat
  let last := min (offset.toNat + size.toNat) 0xFFFFFFFF
  (List.range ((last - first + pageSize - 1) / pageSize)).flatMap fun i =>
    (t.ofOffset (UInt32.ofNat (first + i * pageSize))).toList

end Aliases

end GuestMemory.Window
