import GuestMemory.Cache.Op
import GuestMemory.Cache.Tag
import GuestMemory.Memory

/-!
The data cache: 64 sets of two ways of 64-byte lines, chosen by address bits 6 to 11. A hit is
served from the line; a store reaches memory when its line is evicted or written back.
-/
namespace GuestMemory.Cache

def lineSize : Nat := 64

def setCount : Nat := 64

abbrev Way := Fin 2

structure Line where
  tag : Tag := {}
  data : Table UInt8 6 := .all 0

instance : Inhabited Line := ⟨{}⟩

namespace Line

/-- The `n` bytes from offset `start` on. -/
def slice (line : Line) (start n : Nat) : List UInt8 :=
  (List.range n).map fun i => line.data.get (start + i)

def bytes (line : Line) : List UInt8 := line.slice 0 lineSize

def put (line : Line) (start : Nat) (bs : List UInt8) : Line :=
  { line with data := line.data.fill start bs.length fun i => bs.getD i 0 }

end Line

structure LineSet where
  first : Line := {}
  second : Line := {}

instance : Inhabited LineSet := ⟨{}⟩

namespace LineSet

def line (s : LineSet) (way : Way) : Line := if way = 0 then s.first else s.second

def setLine (s : LineSet) (way : Way) (l : Line) : LineSet :=
  if way = 0 then { s with first := l } else { s with second := l }

@[simp] theorem line_setLine_same (s : LineSet) (way : Way) (l : Line) :
    (s.setLine way l).line way = l := by
  by_cases h : way = 0 <;> simp [line, setLine, h]

theorem line_setLine_other (s : LineSet) {way other : Way} (l : Line) (h : other ≠ way) :
    (s.setLine way l).line other = s.line other := by
  by_cases hw : way = 0
  · subst hw
    simp [line, setLine, h]
  · by_cases ho : other = 0
    · simp [line, setLine, hw, ho]
    · have hw' : way.val ≠ 0 := fun e => hw (Fin.ext e)
      have ho' : other.val ≠ 0 := fun e => ho (Fin.ext e)
      exact absurd (Fin.ext (by omega)) h

/-- The first way that holds the bytes around a host address. -/
def find? (s : LineSet) (host : HostAddress) : Option Way :=
  if s.first.tag.holds host then some 0
  else if s.second.tag.holds host then some 1
  else none

/-- The way that the next miss fills. -/
def victim (s : LineSet) : Way := if s.first.tag.lrf ^^ s.second.tag.lrf then 1 else 0

end LineSet

structure Stats where
  hits : Nat := 0
  misses : Nat := 0
  writebacks : Nat := 0
  deriving DecidableEq, Repr

end Cache

/-- Contents and counters of the data cache. -/
structure Cache where
  sets : Table Cache.LineSet 6 := .all {}
  stats : Cache.Stats := {}

namespace Cache

instance : Inhabited Cache := ⟨{}⟩

/-- Set of an address. -/
def index (a : GuestAddress) : Nat := ((a >>> 6) &&& 0x3F).toNat

/-- Offset of an address in its line. -/
def offset (a : GuestAddress) : Nat := (a &&& 0x3F).toNat

def set (c : Cache) (i : Nat) : LineSet := c.sets.get i

/-- The set of a given number, if there is one. -/
def set? (c : Cache) (i : Nat) : Option LineSet := if i < setCount then some (c.set i) else none

def line (c : Cache) (i : Nat) (way : Way) : Line := (c.set i).line way

def setLine (c : Cache) (i : Nat) (way : Way) (l : Line) : Cache :=
  { c with sets := c.sets.modify (·.setLine way l) i }

theorem index_lt (a : GuestAddress) : index a < setCount := by
  have h : (a >>> 6 &&& 0x3F).toNat ≤ 63 := by
    rw [UInt32.toNat_and]
    exact Nat.and_le_right
  exact Nat.lt_succ_of_le h

theorem set_setLine (c : Cache) {i j : Nat} (way : Way) (l : Line) (hi : i < setCount)
    (hj : j < setCount) :
    (c.setLine i way l).set j = if i = j then (c.set j).setLine way l else c.set j :=
  Table.get_modify _ c.sets hi hj

/-- Writes a valid dirty line back to the memory behind it. -/
def writeBack (c : Cache) (m : Memory) (i : Nat) (way : Way) : Cache × Memory :=
  let l := c.line i way
  if l.tag.valid && l.tag.dirty then
    let c := c.setLine i way { l with tag := { l.tag with dirty := false } }
    ({ c with stats := { c.stats with writebacks := c.stats.writebacks + 1 } },
      m.write (l.tag.lineAddress i) l.bytes)
  else (c, m)

/-- Empties a way. -/
def clear (c : Cache) (i : Nat) (way : Way) : Cache := c.setLine i way {}

/-- Fills a way with the line around a host address; the way counts as filled once more. -/
def load (c : Cache) (m : Memory) (i : Nat) (way : Way) (host : HostAddress)
    (phys : GuestAddress) : Cache :=
  let tag := (c.line i way).tag
  let lineBase := host &&& 0xFFFFFFFFFFFFFFC0
  c.setLine i way {
    tag := { tag with
      hostPage := host.pageBase, physicalPage := phys.pageBase
      valid := true, dirty := false, lrf := !tag.lrf }
    data := (Table.all 0).fill 0 lineSize fun k => m.byte (lineBase + UInt64.ofNat k) }

/-- The way that holds the line of `v`, whose host address is `host`. On a miss the victim is
written back if needed and filled. -/
def touch (c : Cache) (m : Memory) (v : GuestAddress) (host : HostAddress) (phys : GuestAddress) :
    Way × Cache × Memory :=
  let i := index v
  match (c.set i).find? host with
  | some way => (way, { c with stats := { c.stats with hits := c.stats.hits + 1 } }, m)
  | none =>
    let way := (c.set i).victim
    let c := { c with stats := { c.stats with misses := c.stats.misses + 1 } }
    let (c, m) := c.writeBack m i way
    (way, c.load m i way host phys, m)

/-- An access that lies in one line. -/
def Fits (v : GuestAddress) (w : Width) : Prop := offset v + w.bytes ≤ lineSize

instance (v : GuestAddress) (w : Width) : Decidable (Fits v w) :=
  inferInstanceAs (Decidable (_ ≤ _))

def read (c : Cache) (m : Memory) (w : Width) (v : GuestAddress) (host : HostAddress)
    (phys : GuestAddress) (_fits : Fits v w) : Word w × Cache × Memory :=
  let (way, c, m) := c.touch m v host phys
  (Word.ofBytes w ((c.line (index v) way).slice (offset v) w.bytes), c, m)

def write {w : Width} (c : Cache) (m : Memory) (v : GuestAddress) (host : HostAddress)
    (phys : GuestAddress) (x : Word w) (_fits : Fits v w) : Cache × Memory :=
  let (way, c, m) := c.touch m v host phys
  let l := (c.line (index v) way).put (offset v) x.bytes
  (c.setLine (index v) way { l with tag := { l.tag with dirty := true } }, m)

/-- Like `read` for any access. One that leaves its line fails after the line has been brought in. -/
def read? (c : Cache) (m : Memory) (w : Width) (v : GuestAddress) (host : HostAddress)
    (phys : GuestAddress) : Option (Word w) × Cache × Memory :=
  if fits : Fits v w then
    let (x, c, m) := c.read m w v host phys fits
    (some x, c, m)
  else (none, (c.touch m v host phys).2)

/-- Like `write` for any access. One that leaves its line fails after the line has been brought
in. -/
def write? {w : Width} (c : Cache) (m : Memory) (v : GuestAddress) (host : HostAddress)
    (phys : GuestAddress) (x : Word w) : Bool × Cache × Memory :=
  if fits : Fits v w then (true, c.write m v host phys x fits)
  else (false, (c.touch m v host phys).2)

/-- Way that an operation by set and way is about. -/
def wayOf (a : GuestAddress) : Way := if a &&& 1 = 0 then 0 else 1

/-- An operation by set and way; bit 0 of the address is the way. The packed tag is the answer of
`indexLoadTag` and gives the flags of `indexStoreTag`. -/
def indexOp (c : Cache) (m : Memory) (op : Op) (a : GuestAddress) (packed : UInt64) :
    Option UInt64 × Cache × Memory :=
  let i := index a
  let way := wayOf a
  match op with
  | .indexLoadTag => (some (c.line i way).tag.packed, c, m)
  | .indexStoreTag =>
    let l := c.line i way
    (none, c.setLine i way { l with tag := l.tag.storeFlags packed }, m)
  | .indexWritebackInvalidate =>
    let (c, m) := c.writeBack m i way
    (none, c.clear i way, m)
  | .indexInvalidate => (none, c.clear i way, m)
  | _ => (none, c, m)

/-- An operation on the line around a host address, if the cache holds it. -/
def hitOp (c : Cache) (m : Memory) (op : Op) (v : GuestAddress) (host : HostAddress) :
    Cache × Memory :=
  let i := index v
  match (c.set i).find? host with
  | none => (c, m)
  | some way =>
    match op with
    | .hitInvalidate => (c.clear i way, m)
    | .hitWritebackInvalidate =>
      let (c, m) := c.writeBack m i way
      (c.clear i way, m)
    | .hitWriteback => c.writeBack m i way
    | _ => (c, m)

end Cache

end GuestMemory
