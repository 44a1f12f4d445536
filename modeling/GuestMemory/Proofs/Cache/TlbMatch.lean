import GuestMemory.Cache.Control
import Mathlib.Algebra.Group.Nat.Defs

/-!
What a TLB entry covers, as hardware decides it: an address is compared with the entry bit by bit
outside the mask, and one bit of it chooses the half. The entry keeps two intervals instead. They
consist of whole pages whatever the mask, and for the masks of the page sizes that there are they
hold exactly the addresses that hardware finds cached, up to the top of the address space.
-/
namespace GuestMemory.Cache

namespace TlbEntry

variable {e : TlbEntry} {u v : GuestAddress} {k : Nat}

/-- Cache mode in the word of a half: three bits, from bit 3 on. -/
def cacheMode (lo : UInt32) : Nat := lo.toNat / 8 % 8

theorem isWriteBack_iff {lo : UInt32} : isWriteBack lo = true ↔ cacheMode lo = 3 := by
  have hmode : (lo.toNat >>> 3) &&& 7 = cacheMode lo := by
    rw [Nat.shiftRight_eq_div_pow]
    exact Nat.and_two_pow_sub_one_eq_mod _ 3
  rw [isWriteBack, beq_iff_eq, ← UInt32.toNat_inj, UInt32.toNat_and, UInt32.toNat_shiftRight,
    ← hmode]
  rfl

/-- The address has the bits of the entry wherever the mask leaves them to be compared. -/
def Matches (e : TlbEntry) (v : GuestAddress) : Prop :=
  ∀ i, (e.mask ||| 0x1FFF).toNat.testBit i = false → v.toNat.testBit i = e.hi.toNat.testBit i

def chosen (e : TlbEntry) (v : GuestAddress) (bit : Nat) : UInt32 :=
  if v.toNat.testBit bit then e.lo1 else e.lo0

theorem base_aligned (e : TlbEntry) : e.base.toNat % 4096 = 0 := by
  have h : e.hi.toBitVec &&& ~~~(e.mask.toBitVec ||| 0x1FFF#32) &&& 0xFFF#32 = 0#32 := by
    rw [BitVec.not_or, BitVec.and_assoc, BitVec.and_assoc,
      show ~~~0x1FFF#32 &&& 0xFFF#32 = 0#32 from rfl, BitVec.and_zero, BitVec.and_zero]
  rw [← GuestAddress.toNat_pageOffset]
  exact congrArg BitVec.toNat h

theorem halfSize_aligned (e : TlbEntry) : e.halfSize.toNat % 4096 = 0 := by
  rw [halfSize, UInt32.toNat_shiftLeft, Nat.shiftLeft_eq]
  simp only [UInt32.reduceToNat, Nat.reduceMod, Nat.reducePow]
  omega

/-- All bytes of a page are cached by an entry, or none. -/
theorem caches_congr (e : TlbEntry) (h : u.page = v.page) : e.caches u = e.caches v := by
  rw [GuestAddress.page_eq, GuestAddress.page_eq] at h
  have hb := e.base_aligned
  have hs := e.halfSize_aligned
  have h₀ : e.base.toNat ≤ u.toNat ↔ e.base.toNat ≤ v.toNat := by omega
  have h₁ : e.base.toNat + e.halfSize.toNat ≤ u.toNat ↔
    e.base.toNat + e.halfSize.toNat ≤ v.toNat := by omega
  have h₂ : e.base.toNat + e.halfSize.toNat + e.halfSize.toNat ≤ u.toNat ↔
    e.base.toNat + e.halfSize.toNat + e.halfSize.toNat ≤ v.toNat := by omega
  simp only [caches, ← Nat.not_le, h₀, h₁, h₂]

/-- The mask of halves of `2 ^ k` pages. -/
def IsSized (e : TlbEntry) (k : Nat) : Prop := e.mask.toNat = (2 ^ k - 1) * 2 ^ 13

/-- A size leaves all bits from `13 + k` on to be compared. -/
theorem IsSized.toNat_mask_or (h : e.IsSized k) :
    (e.mask ||| 0x1FFF).toNat = 2 ^ (13 + k) - 1 := by
  have hpos := Nat.two_pow_pos k
  have hlow : (2 ^ 13 - 1 : Nat) < 2 ^ 13 := by decide
  rw [UInt32.toNat_or, h, Nat.mul_comm]
  show 2 ^ 13 * (2 ^ k - 1) ||| (2 ^ 13 - 1) = _
  rw [← Nat.two_pow_add_eq_or_of_lt hlow, Nat.pow_add]
  omega

/-- The mask leaves the bits above those of the two halves to be compared. -/
theorem IsSized.matches_iff (h : e.IsSized k) :
    e.Matches v ↔ v.toNat / 2 ^ (13 + k) = e.hi.toNat / 2 ^ (13 + k) := by
  simp only [Matches, h.toNat_mask_or, Nat.testBit_two_pow_sub_one, decide_eq_false_iff_not,
    Nat.not_lt]
  constructor
  · intro hbits
    apply Nat.eq_of_testBit_eq
    intro i
    rw [Nat.testBit_div_two_pow, Nat.testBit_div_two_pow]
    exact hbits _ (Nat.le_add_left _ i)
  · intro hquot i hi
    obtain ⟨j, rfl⟩ := Nat.exists_eq_add_of_le' hi
    rw [← Nat.testBit_div_two_pow, hquot, Nat.testBit_div_two_pow]

theorem IsSized.toNat_base (h : e.IsSized k) :
    e.base.toNat = e.hi.toNat / 2 ^ (13 + k) * 2 ^ (13 + k) := by
  have hsum : e.base.toNat + (e.hi &&& (e.mask ||| 0x1FFF)).toNat = e.hi.toNat :=
    toNat_and_not_add e.hi.toBitVec (e.mask ||| 0x1FFF).toBitVec
  rw [UInt32.toNat_and, h.toNat_mask_or, Nat.and_two_pow_sub_one_eq_mod] at hsum
  have hdiv := Nat.div_add_mod' e.hi.toNat (2 ^ (13 + k))
  omega

theorem IsSized.toNat_halfSize (h : e.IsSized k) (hk : k ≤ 12) :
    e.halfSize.toNat = 2 ^ (12 + k) := by
  have hpos := Nat.two_pow_pos k
  have hle : 2 ^ k ≤ 2 ^ 12 := Nat.pow_le_pow_right (by decide) hk
  have hpages : (e.mask.toNat >>> 13) &&& 0xFFF = 2 ^ k - 1 := by
    rw [h, Nat.shiftRight_eq_div_pow, Nat.mul_div_cancel _ (Nat.two_pow_pos 13)]
    exact (Nat.and_two_pow_sub_one_eq_mod _ 12).trans (Nat.mod_eq_of_lt (by omega))
  have hshift : (e.mask >>> 13 &&& 0xFFF).toNat = 2 ^ k - 1 := hpages
  rw [halfSize, UInt32.toNat_shiftLeft, UInt32.toNat_add, hshift, Nat.shiftLeft_eq, Nat.pow_add]
  simp only [UInt32.reduceToNat, Nat.reduceMod, Nat.reducePow]
  omega

/-- Counted in halves, the even half is twice the number of the entry, and the odd one follows. -/
theorem IsSized.caches_iff (h : e.IsSized k) (hk : k ≤ 12) :
    e.caches v = true ↔
      (cacheMode e.lo0 = 3 ∧ v.toNat / 2 ^ (12 + k) = 2 * (e.hi.toNat / 2 ^ (13 + k))) ∨
      (cacheMode e.lo1 = 3 ∧ v.toNat / 2 ^ (12 + k) = 2 * (e.hi.toNat / 2 ^ (13 + k)) + 1) := by
  have hpos := Nat.two_pow_pos (12 + k)
  have hbase : e.base.toNat = 2 * (e.hi.toNat / 2 ^ (13 + k)) * 2 ^ (12 + k) := by
    rw [h.toNat_base, show 13 + k = 12 + k + 1 by omega, Nat.pow_succ 2 (12 + k),
      Nat.mul_comm (2 ^ (12 + k)), Nat.mul_left_comm, Nat.mul_assoc]
  have hlast : ∀ a b, a ≤ b + 2 ^ (12 + k) - 1 ↔ a < b + 2 ^ (12 + k) := by omega
  simp only [caches, evenCached, oddCached, Bool.or_eq_true, Bool.and_eq_true, decide_eq_true_eq,
    isWriteBack_iff, and_assoc, h.toNat_halfSize hk, hbase, Nat.div_eq_iff hpos, Nat.succ_mul,
    hlast]

/-- An address is cached exactly if it matches and the half that it chooses is cached. -/
theorem IsSized.caches_iff_matches (h : e.IsSized k) (hk : k ≤ 12) :
    e.caches v = true ↔ e.Matches v ∧ cacheMode (e.chosen v (12 + k)) = 3 := by
  have hhalf : v.toNat / 2 ^ (13 + k) = v.toNat / 2 ^ (12 + k) / 2 := by
    rw [Nat.div_div_eq_div_mul, ← Nat.pow_succ, show 13 + k = (12 + k).succ by omega]
  rw [h.caches_iff hk, h.matches_iff, hhalf, chosen, Nat.testBit_eq_decide_div_mod_eq]
  by_cases hodd : v.toNat / 2 ^ (12 + k) % 2 = 1
  · rw [if_pos (decide_eq_true hodd)]
    omega
  · rw [if_neg (by rwa [decide_eq_true_eq])]
    omega

/-- All addresses of a page are cached alike, whatever the entry. If the mask is one of the sizes,
the cached addresses are those that hardware finds by comparing bits: the ones outside the mask with
the entry, and one bit to choose the half. -/
theorem caches_by_bits (e : TlbEntry) :
    (∀ u v : GuestAddress, u.toNat / 4096 = v.toNat / 4096 → e.caches u = e.caches v) ∧
    ∀ k ≤ 12, e.mask.toNat = (2 ^ k - 1) * 2 ^ 13 → ∀ v : GuestAddress,
      (e.caches v = true ↔ e.Matches v ∧ cacheMode (e.chosen v (12 + k)) = 3) := by
  refine ⟨fun u v h => e.caches_congr ?_, fun k hk h v => IsSized.caches_iff_matches h hk⟩
  rw [GuestAddress.page_eq, GuestAddress.page_eq, h]

/-- Two halves of four pages at the top of the address space, the odd one cached. The word of the
entry has bits under its mask, as an address space identifier leaves them. -/
def top : TlbEntry := { mask := 0x6000, hi := 0xFFFFA0AB, lo0 := 0x10, lo1 := 0x1F }

/-- Addresses of the odd half are cached, and those of the even one are not. -/
theorem caches_by_bits_top :
    ((0xFFFFC000 : GuestAddress).toNat / 4096 = (0xFFFFCFFF : GuestAddress).toNat / 4096 ∧
      top.caches 0xFFFFC000 = top.caches 0xFFFFCFFF) ∧
    (2 ≤ 12 ∧ top.mask.toNat = (2 ^ 2 - 1) * 2 ^ 13 ∧
      (top.caches 0xFFFFFFFF = true ↔
        top.Matches 0xFFFFFFFF ∧ cacheMode (top.chosen 0xFFFFFFFF (12 + 2)) = 3)) ∧
    top.caches 0xFFFFFFFF = true ∧ top.caches 0xFFFFBFFF = false := by
  refine ⟨⟨rfl, (caches_by_bits top).1 _ _ rfl⟩, ⟨by decide, rfl, ?_⟩, by decide, by decide⟩
  exact (caches_by_bits top).2 2 (by decide) rfl _

end TlbEntry

/-- All bytes of a page are cached, or none. -/
theorem Control.isCached_congr (c : Control) {u v : GuestAddress} (h : u.page = v.page) :
    c.isCached u = c.isCached v := by
  simp only [isCached, TlbEntry.caches_congr _ h]

end GuestMemory.Cache
