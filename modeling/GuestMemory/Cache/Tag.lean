import GuestMemory.Page

/-!
Cache tags and their packed form. A tag is matched by the host page behind its line; the guest
physical page is kept for reading the tag back.
-/
namespace GuestMemory.Cache

structure Tag where
  hostPage : HostAddress := 0
  physicalPage : GuestAddress := 0
  valid : Bool := false
  dirty : Bool := false
  /-- Flips each time the way is filled. -/
  lrf : Bool := false
  /-- Kept in the packed form and consulted by nothing. -/
  locked : Bool := false
  deriving DecidableEq, Repr, Inhabited

namespace Tag

def dirtyFlag : UInt64 := 0x20

def validFlag : UInt64 := 0x10

def lrfFlag : UInt64 := 0x08

def lockFlag : UInt64 := 0x04

def isSet (packed flag : UInt64) : Bool := packed &&& flag != 0

/-- Whether the line holds the bytes around a host address. -/
def holds (tag : Tag) (host : HostAddress) : Bool := tag.valid && tag.hostPage == host.pageBase

/-- Host address of the line that the tag describes in a set. -/
def lineAddress (tag : Tag) (set : Nat) : HostAddress := tag.hostPage ||| (UInt64.ofNat set <<< 6)

/-- Physical page in the upper bits, flags in the low six. -/
def packed (tag : Tag) : UInt64 :=
  tag.physicalPage.pageBase.toUInt64
    ||| (if tag.dirty then dirtyFlag else 0)
    ||| (if tag.valid then validFlag else 0)
    ||| (if tag.lrf then lrfFlag else 0)
    ||| (if tag.locked then lockFlag else 0)

/-- A tag with no memory behind it, which no access finds. -/
def ofPacked (packed : UInt64) : Tag where
  physicalPage := GuestAddress.pageBase packed.toUInt32
  valid := isSet packed validFlag
  dirty := isSet packed dirtyFlag
  lrf := isSet packed lrfFlag
  locked := isSet packed lockFlag

/-- Takes over the flags only. A way without memory behind it becomes neither valid nor dirty. -/
def storeFlags (tag : Tag) (packed : UInt64) : Tag :=
  { tag with
    valid := tag.hostPage != 0 && isSet packed validFlag
    dirty := tag.hostPage != 0 && isSet packed dirtyFlag
    lrf := isSet packed lrfFlag
    locked := isSet packed lockFlag }

end Tag

end GuestMemory.Cache
