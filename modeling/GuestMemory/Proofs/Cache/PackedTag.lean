import GuestMemory.Cache.Tag
import GuestMemory.Proofs.Maps.Addresses
import Mathlib.Data.Nat.Bitwise

/-!
The packed form of a tag, bit by bit. It has the page and the four flags at places of their own, so
nothing of them is lost on the way there and back; the host page behind the line is not part of it.
-/
namespace GuestMemory

theorem GuestAddress.testBit_pageBase (a : GuestAddress) (i : Nat) :
    a.pageBase.toNat.testBit i = (decide (12 ≤ i) && a.toNat.testBit i) := by
  have hp : a.pageBase.toNat = 2 ^ 12 * (a.toNat / 2 ^ 12) := by
    rw [toNat_pageBase]
    omega
  rw [hp, Nat.testBit_two_pow_mul, Nat.testBit_div_two_pow]
  by_cases h : 12 ≤ i
  · rw [Nat.sub_add_cancel h]
  · simp [h]

namespace Cache.Tag

variable {t : Tag} {flag : UInt64} {k : Nat}

theorem isSet_eq_testBit (x : UInt64) (h : flag.toNat = 2 ^ k) :
    isSet x flag = x.toNat.testBit k := by
  have hbit : (x &&& flag).toNat = (x.toNat.testBit k).toNat * 2 ^ k := by
    rw [UInt64.toNat_and, h]
    exact Nat.and_two_pow _ k
  have hpos := Nat.two_pow_pos k
  rw [isSet, Bool.eq_iff_iff, bne_iff_ne, Ne, ← UInt64.toNat_inj, hbit]
  cases x.toNat.testBit k <;> simp

theorem testBit_flag (b : Bool) (i : Nat) (h : flag.toNat = 2 ^ k) :
    (if b then flag else 0).toNat.testBit i = (b && decide (k = i)) := by
  cases b with
  | false => simp
  | true =>
    rw [if_pos rfl, h, Nat.testBit_two_pow]
    rfl

/-- The bits of the packed form: those of the page, and one for each flag. -/
theorem testBit_packed (t : Tag) (i : Nat) : t.packed.toNat.testBit i =
    (decide (12 ≤ i) && t.physicalPage.toNat.testBit i || t.dirty && decide (5 = i) ||
      t.valid && decide (4 = i) || t.lrf && decide (3 = i) || t.locked && decide (2 = i)) := by
  rw [packed, UInt64.toNat_or, UInt64.toNat_or, UInt64.toNat_or, UInt64.toNat_or, Nat.testBit_or,
    Nat.testBit_or, Nat.testBit_or, Nat.testBit_or, UInt32.toNat_toUInt64,
    GuestAddress.testBit_pageBase, testBit_flag t.dirty i (k := 5) rfl,
    testBit_flag t.valid i (k := 4) rfl, testBit_flag t.lrf i (k := 3) rfl,
    testBit_flag t.locked i (k := 2) rfl]

theorem isSet_packed (t : Tag) :
    isSet t.packed dirtyFlag = t.dirty ∧ isSet t.packed validFlag = t.valid ∧
      isSet t.packed lrfFlag = t.lrf ∧ isSet t.packed lockFlag = t.locked := by
  rw [isSet_eq_testBit _ (k := 5) rfl, isSet_eq_testBit _ (k := 4) rfl,
    isSet_eq_testBit _ (k := 3) rfl, isSet_eq_testBit _ (k := 2) rfl]
  simp [testBit_packed]

/-- The page of a tag comes through packing. -/
theorem pageBase_packed (t : Tag) :
    GuestAddress.pageBase t.packed.toUInt32 = t.physicalPage.pageBase := by
  apply UInt32.toNat_inj.1
  apply Nat.eq_of_testBit_eq
  intro i
  rw [GuestAddress.testBit_pageBase, GuestAddress.testBit_pageBase, UInt64.toNat_toUInt32,
    Nat.testBit_mod_two_pow, testBit_packed]
  by_cases hlow : 12 ≤ i
  · by_cases hhigh : i < 32
    · simp [hlow, hhigh, show ¬5 = i by omega, show ¬4 = i by omega, show ¬3 = i by omega,
        show ¬2 = i by omega]
    · have hp : t.physicalPage.toNat.testBit i = false :=
        Nat.testBit_lt_two_pow (Nat.lt_of_lt_of_le t.physicalPage.toNat_lt
          (Nat.pow_le_pow_right (by decide) (by omega)))
      simp [hhigh, hp]
  · simp [hlow]

/-- Packing a tag and reading it back loses the host page, and the offset of an address in its guest
page. -/
theorem ofPacked_packed (t : Tag) :
    ofPacked t.packed = { t with hostPage := 0, physicalPage := t.physicalPage.pageBase } := by
  obtain ⟨hdirty, hvalid, hlrf, hlocked⟩ := t.isSet_packed
  rw [ofPacked, pageBase_packed, hdirty, hvalid, hlrf, hlocked]

/-- The bits that a packed tag can have: of a page, and the four flags. -/
def isPackedBit (i : Nat) : Bool := 12 ≤ i && i < 32 || 2 ≤ i && i < 6

/-- Reading a tag and packing it keeps exactly those bits. -/
theorem testBit_packed_ofPacked (x : UInt64) (i : Nat) :
    (ofPacked x).packed.toNat.testBit i = (x.toNat.testBit i && isPackedBit i) := by
  have hpage : (ofPacked x).physicalPage.toNat.testBit i =
      (decide (12 ≤ i) && (decide (i < 32) && x.toNat.testBit i)) := by
    rw [ofPacked, GuestAddress.testBit_pageBase, UInt64.toNat_toUInt32, Nat.testBit_mod_two_pow]
  have hdirty : (ofPacked x).dirty = x.toNat.testBit 5 := isSet_eq_testBit x rfl
  have hvalid : (ofPacked x).valid = x.toNat.testBit 4 := isSet_eq_testBit x rfl
  have hlrf : (ofPacked x).lrf = x.toNat.testBit 3 := isSet_eq_testBit x rfl
  have hlocked : (ofPacked x).locked = x.toNat.testBit 2 := isSet_eq_testBit x rfl
  rw [testBit_packed, hpage, hdirty, hvalid, hlrf, hlocked, isPackedBit]
  by_cases hflag : 2 ≤ i ∧ i < 6
  · obtain rfl | rfl | rfl | rfl : i = 2 ∨ i = 3 ∨ i = 4 ∨ i = 5 := by omega
    all_goals simp
  · simp only [show ¬5 = i by omega, show ¬4 = i by omega, show ¬3 = i by omega,
      show ¬2 = i by omega, decide_false, Bool.and_false, Bool.or_false, ← Bool.decide_and, hflag]
    by_cases hlow : 12 ≤ i <;> by_cases hhigh : i < 32 <;> simp [hlow, hhigh]

/-- The tags that there are: of an empty way, read from a packed form, of a line that was filled,
and any of them with other flags. -/
inductive Arises : Tag → Prop where
  | empty : Arises {}
  | ofPacked (x : UInt64) : Arises (ofPacked x)
  | filled {t : Tag} (h : Arises t) (host : HostAddress) (phys : GuestAddress) :
      Arises { t with hostPage := host.pageBase, physicalPage := phys.pageBase }
  | flagged {t : Tag} (h : Arises t) (valid dirty lrf locked : Bool) :
      Arises { t with valid, dirty, lrf, locked }

/-- Each of them names a guest page by its first address. -/
theorem Arises.pageBase_eq (h : t.Arises) : t.physicalPage.pageBase = t.physicalPage := by
  induction h with
  | empty => rfl
  | ofPacked x => exact GuestAddress.pageBase_pageBase _
  | filled h host phys ih => exact GuestAddress.pageBase_pageBase _
  | flagged h valid dirty lrf locked ih => exact ih

/-- Without memory behind it a way is neither valid nor dirty. -/
def IsSound (t : Tag) : Prop := t.hostPage = 0 → t.valid = false ∧ t.dirty = false

theorem isSound_storeFlags (t : Tag) (x : UInt64) : (t.storeFlags x).IsSound := by
  intro h
  have hp : t.hostPage = 0 := h
  simp [storeFlags, hp]

/-- Storing the flags that the tag already has changes nothing. -/
theorem IsSound.storeFlags_packed (h : t.IsSound) : t.storeFlags t.packed = t := by
  obtain ⟨hdirty, hvalid, hlrf, hlocked⟩ := t.isSet_packed
  have hkeeps : (t.hostPage != 0 && t.valid) = t.valid ∧
      (t.hostPage != 0 && t.dirty) = t.dirty := by
    by_cases hp : t.hostPage = 0
    · obtain ⟨hv, hd⟩ := h hp
      simp [hv, hd]
    · simp [hp]
  rw [storeFlags, hdirty, hvalid, hlrf, hlocked, hkeeps.1, hkeeps.2]

end Cache.Tag

end GuestMemory
