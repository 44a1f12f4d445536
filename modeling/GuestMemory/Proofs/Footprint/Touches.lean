import GuestMemory.Proofs.Access.Path
import GuestMemory.Space.Command

/-!
The host bytes that a call works on, in the order in which it does. A guest access goes to memory
directly or through the cache, where a miss writes a line back and copies another one in; a list of
touches says which. Calls that are not listed touch nothing.
-/
namespace GuestMemory

open Cache (Tag Way Op)

inductive Touch where
  /-- `n` bytes of memory from `a` on, the byte behind `v`. -/
  | direct (isStore : Bool) (v : GuestAddress) (a : HostAddress) (n : Nat)
  /-- The 64 bytes around `a`, the byte behind `v`, are copied into a way of the set of `v`. -/
  | fill (v : GuestAddress) (a : HostAddress) (way : Way)
  /-- The line of a way of set `i`, with this tag, is copied to memory. -/
  | writeBack (tag : Tag) (i : Nat) (way : Way)
  /-- Bytes of a line in the cache, at the offset of `v`. -/
  | line (v : GuestAddress) (w : Width)
  deriving DecidableEq, Repr

namespace Touch

def start : Touch → HostAddress
  | direct _ _ a _ => a
  | fill _ a _ => a &&& 0xFFFFFFFFFFFFFFC0
  | writeBack tag i _ => tag.lineAddress i
  | line .. => 0

def size : Touch → Nat
  | direct _ _ _ n => n
  | fill .. => Cache.lineSize
  | writeBack .. => Cache.lineSize
  | line .. => 0

def isStore : Touch → Bool
  | direct isStore .. => isStore
  | writeBack .. => true
  | _ => false

/-- The host page to which the touch has to keep. -/
def page : Touch → HostAddress
  | direct _ _ a _ => a.pageBase
  | fill _ a _ => a.pageBase
  | writeBack tag .. => tag.hostPage
  | line .. => 0

def Reaches (t : Touch) (b : HostAddress) : Prop := (b - t.start).toNat < t.size

def Loads (t : Touch) (b : HostAddress) : Prop := t.isStore = false ∧ t.Reaches b

def Stores (t : Touch) (b : HostAddress) : Prop := t.isStore = true ∧ t.Reaches b

end Touch

namespace Cache

def writeBackTouches (c : Cache) (i : Nat) (way : Way) : List Touch :=
  let tag := (c.line i way).tag
  if tag.valid && tag.dirty then [.writeBack tag i way] else []

def touchTouches (c : Cache) (v : GuestAddress) (host : HostAddress) : List Touch :=
  match (c.set (index v)).find? host with
  | some _ => []
  | none =>
    let way := (c.set (index v)).victim
    c.writeBackTouches (index v) way ++ [.fill v host way]

def accessTouches (c : Cache) (w : Width) (v : GuestAddress) (host : HostAddress) : List Touch :=
  c.touchTouches v host ++ [.line v w]

def indexOpTouches (c : Cache) (op : Op) (a : GuestAddress) : List Touch :=
  match op with
  | .indexWritebackInvalidate => c.writeBackTouches (index a) (wayOf a)
  | _ => []

def hitOpTouches (c : Cache) (op : Op) (v : GuestAddress) (host : HostAddress) : List Touch :=
  match (c.set (index v)).find? host with
  | none => []
  | some way =>
    match op with
    | .hitWritebackInvalidate | .hitWriteback => c.writeBackTouches (index v) way
    | _ => []

end Cache

namespace Space

variable {σ : Type}

def byteTouches (s : Space σ) (isStore : Bool) (v : GuestAddress) : List Touch :=
  match s.virtual.resolve v with
  | .host a =>
    if s.isCached v then s.cache.accessTouches .w8 v a else [.direct isStore v a 1]
  | _ => []

def readBytesTouches (s : Space σ) (v : GuestAddress) : Nat → List Touch
  | 0 => []
  | n + 1 => s.byteTouches false v ++ (s.readByte v).2.readBytesTouches (v + 1) n

def writeBytesTouches (s : Space σ) (v : GuestAddress) : List UInt8 → List Touch
  | [] => []
  | b :: bs =>
    s.byteTouches true v ++ (s.writeByte v (Word.ofBytes .w8 [b])).writeBytesTouches (v + 1) bs

def readTouches (s : Space σ) (w : Width) (v : GuestAddress) : List Touch :=
  match s.virtual.resolve v with
  | .host a =>
    if straddles v w then s.readBytesTouches v w.bytes
    else if s.isCached v then
      if Cache.Fits v w then s.cache.accessTouches w v a else s.readBytesTouches v w.bytes
    else [.direct false v a w.bytes]
  | _ => []

def writeTouches {w : Width} (s : Space σ) (v : GuestAddress) (x : Word w) : List Touch :=
  match s.virtual.resolve v with
  | .host a =>
    if straddles v w then s.writeBytesTouches v x.bytes
    else if s.isCached v then
      if Cache.Fits v w then s.cache.accessTouches w v a else s.writeBytesTouches v x.bytes
    else [.direct true v a w.bytes]
  | _ => []

def ramTouches (s : Space σ) (isStore : Bool) (v : GuestAddress) : Nat → List Touch
  | 0 => []
  | n + 1 =>
    match s.virtual.resolve v with
    | .host a => .direct isStore v a 1 :: s.ramTouches isStore (v + 1) n
    | _ => []

def ramReadTouches (s : Space σ) (w : Width) (v : GuestAddress) : List Touch :=
  if straddles v w then s.ramTouches false v w.bytes
  else
    match s.virtual.resolve v with
    | .host a => [.direct false v a w.bytes]
    | _ => []

def ramWriteTouches (s : Space σ) (w : Width) (v : GuestAddress) : List Touch :=
  if straddles v w then if s.isMemory v w.bytes then s.ramTouches true v w.bytes else []
  else
    match s.virtual.resolve v with
    | .host a => [.direct true v a w.bytes]
    | _ => []

def cacheOpTouches (s : Space σ) (op : Op) (v : GuestAddress) : List Touch :=
  if op.isHit then
    match s.virtual.resolve v with
    | .host a => s.cache.hitOpTouches op v a
    | _ => []
  else s.cache.indexOpTouches op v

def touches (s : Space σ) : Command σ → List Touch
  | .read w v => s.readTouches w v
  | .write _ v x => s.writeTouches v x
  | .ramRead w v => s.ramReadTouches w v
  | .ramWrite w v _ => s.ramWriteTouches w v
  | .cacheOp op v _ => s.cacheOpTouches op v
  | _ => []

/-- What an access touches on a path; `bytes` are the touches of one that is split. -/
def pathTouches {w : Width} {v : GuestAddress} (s : Space σ) (isStore : Bool)
    (bytes : List Touch) : Path w v → List Touch
  | .memory a => [.direct isStore v a w.bytes]
  | .cached a _ => s.cache.accessTouches w v a
  | .bytewise => bytes
  | .handler .. | .fault _ => []

/-- A load touches what its path does. -/
theorem readTouches_eq (s : Space σ) (w : Width) (v : GuestAddress) :
    s.readTouches w v =
      s.pathTouches false (s.readBytesTouches v w.bytes) (s.path w v) := by
  rw [readTouches, path]
  cases s.virtual.resolve v with
  | host a =>
    simp only
    split
    · rfl
    · split
      · split <;> rfl
      · rfl
  | _ => rfl

/-- A store touches what its path does. -/
theorem writeTouches_eq {w : Width} (s : Space σ) (v : GuestAddress) (x : Word w) :
    s.writeTouches v x = s.pathTouches true (s.writeBytesTouches v x.bytes) (s.path w v) := by
  rw [writeTouches, path]
  cases s.virtual.resolve v with
  | host a =>
    simp only
    split
    · rfl
    · split
      · split <;> rfl
      · rfl
  | _ => rfl

theorem byteTouches_eq (s : Space σ) (isStore : Bool) (v : GuestAddress) (bytes : List Touch) :
    s.byteTouches isStore v = s.pathTouches isStore bytes (s.path .w8 v) := by
  rw [byteTouches, path_w8]
  cases s.virtual.resolve v with
  | host a =>
    simp only
    split <;> rfl
  | _ => rfl

end Space

end GuestMemory
