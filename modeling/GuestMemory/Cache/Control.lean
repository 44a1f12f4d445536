import GuestMemory.Page

/-!
Which accesses go through the data cache. Each TLB entry covers an even and an odd half of one
size; a half whose cache mode is 3 is cached. Bit 16 of the configuration register switches the
whole cache.
-/
namespace GuestMemory.Cache

def tlbSlots : Nat := 48

structure TlbEntry where
  mask : UInt32 := 0
  hi : UInt32 := 0
  lo0 : UInt32 := 0
  lo1 : UInt32 := 0
  deriving DecidableEq, Repr, Inhabited

namespace TlbEntry

/-- Bytes that each half covers. -/
def halfSize (e : TlbEntry) : UInt32 := (((e.mask >>> 13) &&& 0xFFF) + 1) <<< 12

/-- First address of the even half. -/
def base (e : TlbEntry) : GuestAddress := e.hi &&& ~~~(e.mask ||| 0x1FFF)

def isWriteBack (lo : UInt32) : Bool := (lo >>> 3) &&& 7 == 3

def evenCached (e : TlbEntry) : Bool := isWriteBack e.lo0

def oddCached (e : TlbEntry) : Bool := isWriteBack e.lo1

/-- Whether an address lies in a half of this entry that is cached. -/
def caches (e : TlbEntry) (v : GuestAddress) : Bool :=
  let even := e.base.toNat
  let odd := even + e.halfSize.toNat
  (e.evenCached && even ≤ v.toNat && v.toNat < odd) ||
    (e.oddCached && odd ≤ v.toNat && v.toNat < odd + e.halfSize.toNat)

end TlbEntry

structure Control where
  config : UInt32 := 0
  tlb : List TlbEntry := List.replicate tlbSlots {}
  deriving DecidableEq, Repr

namespace Control

instance : Inhabited Control := ⟨{}⟩

/-- Clears the register and every slot there is. -/
def reset (c : Control) : Control := { config := 0, tlb := c.tlb.map fun _ => {} }

def setConfig (c : Control) (config : UInt32) : Control := { c with config }

def enabled (c : Control) : Bool := c.config &&& 0x10000 != 0

/-- A slot that does not exist is left alone. -/
def setEntry (c : Control) (i : Nat) (e : TlbEntry) : Control := { c with tlb := c.tlb.set i e }

def entry? (c : Control) (i : Nat) : Option TlbEntry := c.tlb[i]?

def isCached (c : Control) (v : GuestAddress) : Bool := c.enabled && c.tlb.any (·.caches v)

/-- The calls that change the control. -/
inductive Command where
  | setConfig (config : UInt32)
  | setEntry (i : Nat) (e : TlbEntry)
  | reset
  deriving DecidableEq, Repr

def perform (c : Control) : Command → Control
  | .setConfig config => c.setConfig config
  | .setEntry i e => c.setEntry i e
  | .reset => c.reset

end Control

end GuestMemory.Cache
