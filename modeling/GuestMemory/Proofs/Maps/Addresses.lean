import GuestMemory.Page

/-!
Guest addresses as a page and an offset in it.
-/
namespace GuestMemory.GuestAddress

theorem page_pageBase (v : GuestAddress) : v.pageBase.page = v.page := by
  simp only [page_eq, toNat_pageBase]
  omega

theorem pageBase_eq_iff {u v : GuestAddress} : u.pageBase = v.pageBase ↔ u.page = v.page := by
  rw [← UInt32.toNat_inj, toNat_pageBase, toNat_pageBase, page_eq, page_eq]
  omega

@[simp] theorem pageBase_pageBase (v : GuestAddress) : v.pageBase.pageBase = v.pageBase := by
  rw [pageBase_eq_iff, page_pageBase]

theorem eq_pageBase_iff {u v : GuestAddress} :
    u = v.pageBase ↔ pageBase u = u ∧ v.page = u.page := by
  constructor
  · rintro rfl
    exact ⟨pageBase_pageBase v, (page_pageBase v).symm⟩
  · rintro ⟨hu, hp⟩
    rw [← hu, pageBase_eq_iff, hp]

/-- A page and an offset in a page make up an address. -/
theorem toNat_pageBase_or (a b : GuestAddress) :
    (a.pageBase ||| b.pageOffset).toNat = a.toNat - a.toNat % 4096 + b.toNat % 4096 := by
  have hb := Nat.mod_lt b.toNat (show 4096 > 0 by decide)
  have ha : a.toNat - a.toNat % 4096 = 2 ^ 12 * (a.toNat / 4096) := by omega
  rw [UInt32.toNat_or, toNat_pageBase, toNat_pageOffset, ha]
  exact (Nat.two_pow_add_eq_or_of_lt hb _).symm

/-- An address is made up of its page and its offset in it. -/
theorem or_pageOffset {p q v : GuestAddress} (hp : p.toNat % 4096 = 0) (page : q.page = p.page)
    (offset : q.pageOffset = v.pageOffset) : p ||| v.pageOffset = q := by
  have hb : p.pageBase = p := by
    apply UInt32.toNat_inj.1
    rw [toNat_pageBase, hp, Nat.sub_zero]
  have hq := congrArg UInt32.toNat offset
  rw [toNat_pageOffset, toNat_pageOffset] at hq
  rw [page_eq, page_eq] at page
  apply UInt32.toNat_inj.1
  rw [← hb, toNat_pageBase_or]
  omega

end GuestMemory.GuestAddress
