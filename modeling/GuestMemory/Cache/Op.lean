/-!
Operations of the guest's cache instruction on the data cache.
-/
namespace GuestMemory.Cache

inductive Op where
  | indexLoadTag
  | indexStoreTag
  | indexWritebackInvalidate
  | indexInvalidate
  | hitInvalidate
  | hitWritebackInvalidate
  | hitWriteback
  deriving DecidableEq, Repr

namespace Op

/-- Operation field of the instruction. -/
def code : Op → Nat
  | indexLoadTag => 0x10
  | indexStoreTag => 0x12
  | indexWritebackInvalidate => 0x14
  | indexInvalidate => 0x16
  | hitInvalidate => 0x18
  | hitWritebackInvalidate => 0x1A
  | hitWriteback => 0x1C

def ofCode? : Nat → Option Op
  | 0x10 => some indexLoadTag
  | 0x12 => some indexStoreTag
  | 0x14 => some indexWritebackInvalidate
  | 0x16 => some indexInvalidate
  | 0x18 => some hitInvalidate
  | 0x1A => some hitWritebackInvalidate
  | 0x1C => some hitWriteback
  | _ => none

/-- Whether the line is chosen by its address and not by set and way. -/
def isHit : Op → Bool
  | hitInvalidate | hitWritebackInvalidate | hitWriteback => true
  | _ => false

def name : Op → String
  | indexLoadTag => "IndexLoadTag"
  | indexStoreTag => "IndexStoreTag"
  | indexWritebackInvalidate => "IndexWritebackInvalidate"
  | indexInvalidate => "IndexInvalidate"
  | hitInvalidate => "HitInvalidate"
  | hitWritebackInvalidate => "HitWritebackInvalidate"
  | hitWriteback => "HitWriteback"

theorem ofCode?_code (op : Op) : ofCode? op.code = some op := by cases op <;> rfl

end Op

end GuestMemory.Cache
