import GuestMemory.Space.Basic

/-!
Guest loads and stores. An access goes where the page of its first byte leads; in memory, one that
leaves its page, or its line in the cache, is carried out byte by byte, each byte on its own page.
-/
namespace GuestMemory.Space

variable {σ : Type}

/-- Whether an access leaves the page of its first byte. -/
def straddles (v : GuestAddress) (w : Width) : Bool := pageSize < v.pageOffset.toNat + w.bytes

/-- Whether memory at an address is reached through the data cache. -/
def isCached (s : Space σ) (v : GuestAddress) : Bool :=
  s.settings.cacheModel && s.control.isCached v

/-- Physical address that a cache line is tagged with; without one the virtual address serves. -/
def tagAddress (s : Space σ) (v : GuestAddress) : GuestAddress :=
  (s.virtual.physicalAddress? v).getD v

theorem fits_w8 (v : GuestAddress) : Cache.Fits v .w8 := by
  have h : (v &&& 0x3F).toNat ≤ 63 := by
    rw [UInt32.toNat_and]
    exact Nat.and_le_right
  show (v &&& 0x3F).toNat + 1 ≤ 64
  omega

def readCached (s : Space σ) (w : Width) (v : GuestAddress) (host : HostAddress)
    (fits : Cache.Fits v w) : Word w × Space σ :=
  let (x, cache, memory) := s.cache.read s.memory w v host (s.tagAddress v) fits
  (x, { s with cache, memory })

def writeCached {w : Width} (s : Space σ) (v : GuestAddress) (host : HostAddress) (x : Word w)
    (fits : Cache.Fits v w) : Space σ :=
  let (cache, memory) := s.cache.write s.memory v host (s.tagAddress v) x fits
  { s with cache, memory }

def readByte (s : Space σ) (v : GuestAddress) : Word .w8 × Space σ :=
  match s.virtual.resolve v with
  | .host a =>
    if s.isCached v then s.readCached .w8 v a (fits_w8 v) else (s.memory.load .w8 a, s)
  | .handler id p => s.readHandler id .w8 p
  | .tlbMiss => (0, s.raise (.tlbMiss v false))
  | .busError p => (0, s.raise (.busError p false))

def writeByte (s : Space σ) (v : GuestAddress) (x : Word .w8) : Space σ :=
  match s.virtual.resolve v with
  | .host a =>
    if s.isCached v then s.writeCached v a x (fits_w8 v)
    else { s with memory := s.memory.store a x }
  | .handler id p => s.writeHandler id p x
  | .tlbMiss => s.raise (.tlbMiss v true)
  | .busError p => s.raise (.busError p true)

/-- The `n` bytes from `v` on, one after the other. -/
def readBytes (s : Space σ) (v : GuestAddress) : Nat → List UInt8 × Space σ
  | 0 => ([], s)
  | n + 1 =>
    let (b, s) := s.readByte v
    let (bs, s) := s.readBytes (v + 1) n
    (b.bytes ++ bs, s)

def writeBytes (s : Space σ) (v : GuestAddress) : List UInt8 → Space σ
  | [] => s
  | b :: bs => (s.writeByte v (Word.ofBytes .w8 [b])).writeBytes (v + 1) bs

def readBytewise (s : Space σ) (w : Width) (v : GuestAddress) : Word w × Space σ :=
  let (bs, s) := s.readBytes v w.bytes
  (Word.ofBytes w bs, s)

/-- A guest load. A fault is latched as an exception and reads as zero. -/
def read (s : Space σ) (w : Width) (v : GuestAddress) : Word w × Space σ :=
  match s.virtual.resolve v with
  | .host a =>
    if straddles v w then s.readBytewise w v
    else if s.isCached v then
      if fits : Cache.Fits v w then s.readCached w v a fits else s.readBytewise w v
    else (s.memory.load w a, s)
  | .handler id p => s.readHandler id w p
  | .tlbMiss => (0, s.raise (.tlbMiss v false))
  | .busError p => (0, s.raise (.busError p false))

/-- A guest store. A fault is latched as an exception and stores nothing. -/
def write {w : Width} (s : Space σ) (v : GuestAddress) (x : Word w) : Space σ :=
  match s.virtual.resolve v with
  | .host a =>
    if straddles v w then s.writeBytes v x.bytes
    else if s.isCached v then
      if fits : Cache.Fits v w then s.writeCached v a x fits else s.writeBytes v x.bytes
    else { s with memory := s.memory.store a x }
  | .handler id p => s.writeHandler id p x
  | .tlbMiss => s.raise (.tlbMiss v true)
  | .busError p => s.raise (.busError p true)

/-- The `n` bytes from `v` on as they lie in memory, if they all do. -/
def memoryBytes? (s : Space σ) (v : GuestAddress) : Nat → Option (List UInt8)
  | 0 => some []
  | n + 1 =>
    match s.virtual.resolve v with
    | .host a => (s.memoryBytes? (v + 1) n).map (s.memory.byte a :: ·)
    | _ => none

/-- Whether the `n` bytes from `v` on are all memory. -/
def isMemory (s : Space σ) (v : GuestAddress) : Nat → Bool
  | 0 => true
  | n + 1 =>
    match s.virtual.resolve v with
    | .host _ => s.isMemory (v + 1) n
    | _ => false

/-- Loads plain memory: no device, no cache, no exception. -/
def ramRead? (s : Space σ) (w : Width) (v : GuestAddress) : Option (Word w) :=
  if straddles v w then (s.memoryBytes? v w.bytes).map (Word.ofBytes w)
  else
    match s.virtual.resolve v with
    | .host a => some (s.memory.load w a)
    | _ => none

/-- Stores bytes to plain memory, each on its own page. -/
def storeBytes (s : Space σ) (v : GuestAddress) : List UInt8 → Space σ
  | [] => s
  | b :: bs =>
    let s :=
      match s.virtual.resolve v with
      | .host a => { s with memory := s.memory.setByte a b }
      | _ => s
    s.storeBytes (v + 1) bs

/-- Stores to plain memory; false, and nothing is stored, if a byte is not memory. -/
def ramWrite {w : Width} (s : Space σ) (v : GuestAddress) (x : Word w) : Bool × Space σ :=
  if straddles v w then
    if s.isMemory v w.bytes then (true, s.storeBytes v x.bytes) else (false, s)
  else
    match s.virtual.resolve v with
    | .host a => (true, { s with memory := s.memory.store a x })
    | _ => (false, s)

/-- A guest cache instruction. The packed tag is the answer of `indexLoadTag`. -/
def cacheOp (s : Space σ) (op : Cache.Op) (v : GuestAddress) (packed : UInt64) :
    Option UInt64 × Space σ :=
  if op.isHit then
    match s.virtual.resolve v with
    | .host a =>
      let (cache, memory) := s.cache.hitOp s.memory op v a
      (none, { s with cache, memory })
    | _ => (none, s)
  else
    let (tag, cache, memory) := s.cache.indexOp s.memory op v packed
    (tag, { s with cache, memory })

end GuestMemory.Space
