/-!
Pages and addresses. Guest addresses are 32-bit words and host addresses 64-bit words; both wrap.
A page is 4096 bytes, so a guest address is a page number and an offset of twelve bits.
-/
namespace GuestMemory

/-- A word falls into the bits under a mask and the rest. -/
theorem toNat_and_not_add {n : Nat} (x mask : BitVec n) :
    (x &&& ~~~mask).toNat + (x &&& mask).toNat = x.toNat := by
  have hd : (x &&& ~~~mask) &&& (mask &&& x) = 0#n := by
    rw [BitVec.and_assoc, ← BitVec.and_assoc (~~~mask), BitVec.not_and_self]
    simp
  rw [BitVec.and_comm x mask, ← BitVec.toNat_add_of_and_eq_zero hd,
    BitVec.add_eq_or_of_and_eq_zero _ _ hd, BitVec.and_comm mask x, ← BitVec.and_or_distrib_left,
    BitVec.not_or_self, BitVec.and_allOnes]

abbrev GuestAddress := UInt32

abbrev HostAddress := UInt64

def pageSize : Nat := 4096

/-- Bytes of the physical address space that the physical map covers. -/
def physicalSize : Nat := 0x20000000

namespace GuestAddress

/-- Number of the page that holds an address. -/
def page (a : GuestAddress) : Nat := (a >>> 12).toNat

/-- First address of the page that holds an address. -/
def pageBase (a : GuestAddress) : GuestAddress := a &&& 0xFFFFF000

/-- Offset of an address in its page. -/
def pageOffset (a : GuestAddress) : GuestAddress := a &&& 0xFFF

def isAligned (a : GuestAddress) : Bool := a.pageOffset == 0

theorem page_eq (a : GuestAddress) : a.page = a.toNat / 4096 := by
  simp only [page, UInt32.toNat_shiftRight, UInt32.reduceToNat, Nat.reduceMod,
    Nat.shiftRight_eq_div_pow, Nat.reducePow]

theorem page_lt (a : GuestAddress) : a.page < 0x100000 := by
  have h := a.toNat_lt
  rw [page_eq]
  omega

theorem toNat_pageOffset (a : GuestAddress) : a.pageOffset.toNat = a.toNat % 4096 := by
  rw [pageOffset, UInt32.toNat_and]
  exact Nat.and_two_pow_sub_one_eq_mod _ 12

theorem toNat_pageBase (a : GuestAddress) : a.pageBase.toNat = a.toNat - a.toNat % 4096 := by
  have h : _ + _ = a.toNat := toNat_and_not_add a.toBitVec 0xFFF#32
  have ho : (a.toBitVec &&& 0xFFF#32).toNat = a.toNat % 4096 := toNat_pageOffset a
  have hb : (a.toBitVec &&& ~~~0xFFF#32).toNat = a.pageBase.toNat := rfl
  rw [ho, hb] at h
  omega

theorem isAligned_iff {a : GuestAddress} : a.isAligned = true ↔ a.toNat % 4096 = 0 := by
  rw [isAligned, beq_iff_eq, ← UInt32.toNat_inj, toNat_pageOffset]
  rfl

end GuestAddress

namespace HostAddress

def pageBase (a : HostAddress) : HostAddress := a &&& 0xFFFFFFFFFFFFF000

def isAligned (a : HostAddress) : Bool := a &&& 0xFFF == 0

theorem toNat_pageBase (a : HostAddress) : a.pageBase.toNat = a.toNat - a.toNat % 4096 := by
  have h : _ + _ = a.toNat := toNat_and_not_add a.toBitVec 0xFFF#64
  have ho : (a.toBitVec &&& 0xFFF#64).toNat = a.toNat % 4096 :=
    Nat.and_two_pow_sub_one_eq_mod a.toNat 12
  have hb : (a.toBitVec &&& ~~~0xFFF#64).toNat = a.pageBase.toNat := rfl
  rw [ho, hb] at h
  omega

theorem isAligned_iff {a : HostAddress} : a.isAligned = true ↔ a.toNat % 4096 = 0 := by
  have h : a.toNat &&& 0xFFF = a.toNat % 4096 := Nat.and_two_pow_sub_one_eq_mod a.toNat 12
  rw [isAligned, beq_iff_eq, ← UInt64.toNat_inj, UInt64.toNat_and]
  exact h ▸ Iff.rfl

end HostAddress

/-- The number of bytes that fill whole pages and hold `size` bytes. The sum is formed in 64 bits,
a page above the size first; `none` means that it does not fit. -/
def roundUpToPage (size : Nat) : Option Nat :=
  if size + pageSize < 0x10000000000000000 then some ((size + pageSize - 1) / pageSize * pageSize) else none

end GuestMemory
