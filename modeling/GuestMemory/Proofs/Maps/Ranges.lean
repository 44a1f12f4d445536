import GuestMemory.Virtual
import Mathlib.Algebra.Group.Nat.Defs

/-!
What the calls of the two maps do to single addresses. A call that is accepted has a range of whole
pages; it gives the addresses of the range what it says and leaves all others as they were.
-/
namespace GuestMemory

theorem bind_eq_ok {ε α β : Type} {x : Except ε α} {f : α → Except ε β} {b : β} :
    x >>= f = .ok b ↔ ∃ a, x = .ok a ∧ f a = .ok b := by
  cases x <;> simp [bind, Except.bind]

/-- A check that throws does not stand in the way of what succeeds. -/
theorem unless_throw_eq_ok {ε α β : Type} {c : Prop} [Decidable c] {e : ε}
    {f : β → Except ε α} {x : Except ε α} {a : α} :
    (if c then throw e >>= f else x) = .ok a ↔ ¬c ∧ x = .ok a := by
  by_cases h : c <;> simp [h, bind, Except.bind, throw, throwThe, MonadExceptOf.throw]

/-- The addresses of a range; the range may end at the top of the space but not wrap there. -/
def Covers (start : GuestAddress) (size : UInt32) (a : GuestAddress) : Prop :=
  start.toNat ≤ a.toNat ∧ a.toNat < start.toNat + size.toNat

instance (start : GuestAddress) (size : UInt32) (a : GuestAddress) :
    Decidable (Covers start size a) :=
  inferInstanceAs (Decidable (_ ∧ _))

/-- A range of whole pages covers an address when it covers its page. -/
theorem covers_iff_page {start : GuestAddress} {size : UInt32} (a : GuestAddress)
    (hs : start.toNat % 4096 = 0) (hz : size.toNat % 4096 = 0) :
    Covers start size a ↔
      start.page ≤ a.page ∧ a.page < start.page + GuestAddress.page size := by
  simp only [Covers, GuestAddress.page_eq]
  omega

/-- Distance of an address from the start of a range that covers it. -/
theorem Covers.toNat_sub {start : GuestAddress} {size : UInt32} {a : GuestAddress}
    (h : Covers start size a) : (a - start).toNat = a.toNat - start.toNat := by
  have ha := a.toNat_lt
  have hs := start.toNat_lt
  have hle := h.1
  rw [UInt32.toNat_sub]
  omega

theorem Covers.page_sub {start : GuestAddress} {size : UInt32} {a : GuestAddress}
    (h : Covers start size a) (hs : start.toNat % 4096 = 0) :
    a.page - start.page = (a - start).toNat / 4096 := by
  have hle := h.1
  rw [GuestAddress.page_eq, GuestAddress.page_eq, h.toNat_sub]
  omega

/-- Walking page by page from `start` leads to the page of every address. -/
theorem pageAddress_page {start : GuestAddress} {size : UInt32} {a : GuestAddress}
    (h : Covers start size a) (hs : start.toNat % 4096 = 0) :
    VirtualMap.pageAddress start (a.page - start.page) = a.pageBase := by
  have ha := a.toNat_lt
  have hle := h.1
  apply UInt32.toNat_inj.1
  rw [VirtualMap.pageAddress, UInt32.toNat_add, GuestAddress.toNat_pageBase, h.page_sub hs,
    h.toNat_sub, UInt32.toNat_ofNat', pageSize]
  omega

/-- Bytes after which a block that is mapped repeats. -/
def blockBytes (size blockSize : UInt32) : UInt32 := if blockSize = 0 then size else blockSize

namespace PhysicalMap

theorem checkRange_ok_iff {call : MapCall} {start : GuestAddress} {size : UInt32} :
    checkRange call start size = .ok () ↔
      start.toNat % 4096 = 0 ∧ size.toNat % 4096 = 0 ∧
        start.toNat + size.toNat ≤ physicalSize := by
  have hs := GuestAddress.isAligned_iff (a := start)
  have hz := GuestAddress.isAligned_iff (a := size)
  rw [checkRange, ← hs, ← hz]
  cases start.isAligned <;> cases GuestAddress.isAligned size <;> simp

/-- The entry behind an address after a run of pages has been given new ones. -/
theorem lookup_fill (map : PhysicalMap) {start : GuestAddress} {size : UInt32}
    (f : Nat → PhysicalEntry) (hs : start.toNat % 4096 = 0) (hz : size.toNat % 4096 = 0)
    (hr : start.toNat + size.toNat ≤ physicalSize) (p : GuestAddress) :
    { map with pages := map.pages.fill start.page (GuestAddress.page size) f }.lookup p =
      if Covers start size p then some (f (p.page - start.page)) else map.lookup p := by
  simp only [lookup, covers_iff_page p hs hz]
  by_cases hp : p.toNat < physicalSize
  · have hc : start.page + GuestAddress.page size ≤ 2 ^ 17 := by
      simp only [GuestAddress.page_eq]
      rw [physicalSize] at hr
      omega
    have hj : p.page < 2 ^ 17 := by
      rw [GuestAddress.page_eq]
      rw [physicalSize] at hp
      omega
    rw [if_pos hp, if_pos hp, Table.get_fill _ _ hc hj]
    split <;> rfl
  · have hn : ¬(start.page ≤ p.page ∧ p.page < start.page + GuestAddress.page size) := by
      rw [← covers_iff_page p hs hz, Covers]
      omega
    rw [if_neg hp, if_neg hp, if_neg hn]

/-- A block that is mapped shows its pages in order, and again from the first one when they run
out. -/
theorem lookup_mapBlock {map map' : PhysicalMap} {base : HostAddress} {start : GuestAddress}
    {size blockSize : UInt32} (h : map.mapBlock base start size blockSize = .ok map') :
    base.toNat % 4096 = 0 ∧ start.toNat % 4096 = 0 ∧ size.toNat % 4096 = 0 ∧
      (blockBytes size blockSize).toNat % 4096 = 0 ∧
      ∀ p, map'.lookup p =
        if Covers start size p then
          some (.memory (base + UInt64.ofNat ((p.page - start.page) %
            GuestAddress.page (blockBytes size blockSize) * 4096)))
        else map.lookup p := by
  simp only [mapBlock, bind_eq_ok, unless_throw_eq_ok, pure, Except.pure, Except.ok.injEq] at h
  obtain ⟨⟨⟩, hc, hb, hbad, rfl⟩ := h
  obtain ⟨hs, hz, hr⟩ := checkRange_ok_iff.1 hc
  rw [Bool.or_eq_true, not_or, Bool.not_eq_true', Bool.not_eq_false] at hbad
  exact ⟨HostAddress.isAligned_iff.1 (by simpa using hb), hs, hz,
    GuestAddress.isAligned_iff.1 hbad.1, fun p => map.lookup_fill _ hs hz hr p⟩

theorem lookup_mapHandler {map map' : PhysicalMap} {id : HandlerId} {start : GuestAddress}
    {size : UInt32} (h : map.mapHandler id start size = .ok map') (p : GuestAddress) :
    map'.lookup p = if Covers start size p then some (.handler id) else map.lookup p := by
  simp only [mapHandler, bind_eq_ok, pure, Except.pure, Except.ok.injEq] at h
  obtain ⟨⟨⟩, hc, rfl⟩ := h
  obtain ⟨hs, hz, hr⟩ := checkRange_ok_iff.1 hc
  exact map.lookup_fill _ hs hz hr p

/-- The copy of a range has what the range had before the call, also where the two overlap. -/
theorem lookup_duplicate {map map' : PhysicalMap} {target start : GuestAddress} {size : UInt32}
    (h : map.duplicate target start size = .ok map') :
    start.toNat % 4096 = 0 ∧ target.toNat % 4096 = 0 ∧ ∀ p, map'.lookup p =
      if Covers target size p then map.lookup (start + (p - target)) else map.lookup p := by
  simp only [duplicate, bind_eq_ok, pure, Except.pure, Except.ok.injEq] at h
  obtain ⟨⟨⟩, hc, ⟨⟩, hc', rfl⟩ := h
  obtain ⟨hs, hz, hr⟩ := checkRange_ok_iff.1 hc
  obtain ⟨hs', -, hr'⟩ := checkRange_ok_iff.1 hc'
  refine ⟨hs, hs', fun p => ?_⟩
  rw [map.lookup_fill _ hs' hz hr' p]
  by_cases hp : Covers target size p
  · obtain ⟨hle, hlt⟩ := id hp
    have hsub := hp.toNat_sub
    have hadd : (start + (p - target)).toNat = start.toNat + (p - target).toNat := by
      rw [physicalSize] at hr
      rw [UInt32.toNat_add]
      omega
    have hpage : start.page + (p.page - target.page) = (start + (p - target)).page := by
      rw [hp.page_sub hs', GuestAddress.page_eq, GuestAddress.page_eq, hadd]
      omega
    have hin : (start + (p - target)).toNat < physicalSize := by omega
    rw [if_pos hp, if_pos hp, lookup, if_pos hin, hpage]
  · rw [if_neg hp, if_neg hp]

end PhysicalMap

namespace VirtualMap

theorem checkRange_ok_iff {call : MapCall} {start : GuestAddress} {size : UInt32} :
    checkRange call start size = .ok () ↔
      start.toNat % 4096 = 0 ∧ size.toNat % 4096 = 0 ∧
        start.toNat + size.toNat ≤ 2 ^ 32 := by
  have hs := GuestAddress.isAligned_iff (a := start)
  have hz := GuestAddress.isAligned_iff (a := size)
  rw [checkRange, ← hs, ← hz]
  cases start.isAligned <;> cases GuestAddress.isAligned size <;> simp

/-- An entry of a table over pages, after a run of pages has been given new ones. -/
theorem get_fill {α : Type} (t : Table α 20) {start : GuestAddress} {size : UInt32} (f : Nat → α)
    (hs : start.toNat % 4096 = 0) (hz : size.toNat % 4096 = 0)
    (hr : start.toNat + size.toNat ≤ 2 ^ 32) (v : GuestAddress) :
    (t.fill start.page (GuestAddress.page size) f).get v.page =
      if Covers start size v then f (v.page - start.page) else t.get v.page := by
  have hc : start.page + GuestAddress.page size ≤ 2 ^ 20 := by
    simp only [GuestAddress.page_eq]
    omega
  rw [Table.get_fill _ _ hc v.page_lt]
  simp only [covers_iff_page v hs hz]

/-- Walking page by page from a physical address leads as far as the virtual page is into its range. -/
theorem pageAddress_distance {start v : GuestAddress} {size : UInt32} (h : Covers start size v)
    (hs : start.toNat % 4096 = 0) (p : GuestAddress) :
    pageAddress p (v.page - start.page) = p + (v.pageBase - start) := by
  have hd : UInt32.ofNat ((v.page - start.page) * pageSize) = v.pageBase - start := by
    rw [← pageAddress_page h hs, pageAddress, UInt32.add_comm, UInt32.add_sub_cancel]
  rw [pageAddress, hd]

/-- A virtual page that is projected gets what the physical map has at the same distance from the
start; physical addresses wrap. -/
theorem get_project {map map' : VirtualMap} {physical : PhysicalMap} {start p : GuestAddress}
    {size : UInt32} (h : map.project physical start p size = .ok map') :
    start.toNat % 4096 = 0 ∧ p.toNat % 4096 = 0 ∧ ∀ v, map'.get v =
      if Covers start size v then
        .project (physical.lookup (p + (v.pageBase - start))) (p + (v.pageBase - start)) v.pageBase
      else map.get v := by
  simp only [project, bind_eq_ok, unless_throw_eq_ok, pure, Except.pure, Except.ok.injEq] at h
  obtain ⟨⟨⟩, hc, hp, rfl⟩ := h
  obtain ⟨hs, hz, hr⟩ := checkRange_ok_iff.1 hc
  refine ⟨hs, GuestAddress.isAligned_iff.1 (by simpa using hp), fun v => ?_⟩
  rw [get, get_fill _ _ hs hz hr v]
  by_cases hv : Covers start size v
  · rw [if_pos hv, if_pos hv, pageAddress_page hv hs, pageAddress_distance hv hs]
  · rw [if_neg hv, if_neg hv, get]

/-- Which entries host memory gets, and where it has to begin. -/
theorem get_projectBuffer {map map' : VirtualMap} {start : GuestAddress} {buffer : HostAddress}
    {size : UInt32} (h : map.projectBuffer start buffer size = .ok map') :
    start.toNat % 4096 = 0 ∧ size.toNat % 4096 = 0 ∧ buffer.toNat % 4096 = 0 ∧
      ∀ v, map'.get v =
        if Covers start size v then
          .ofHost (buffer + UInt64.ofNat ((v.page - start.page) * 4096)) v.pageBase
        else map.get v := by
  simp only [projectBuffer, bind_eq_ok, unless_throw_eq_ok, pure, Except.pure,
    Except.ok.injEq] at h
  obtain ⟨⟨⟩, hc, hb, rfl⟩ := h
  obtain ⟨hs, hz, hr⟩ := checkRange_ok_iff.1 hc
  refine ⟨hs, hz, HostAddress.isAligned_iff.1 (by simpa using hb), fun v => ?_⟩
  rw [get, get_fill _ _ hs hz hr v]
  by_cases hv : Covers start size v
  · rw [if_pos hv, if_pos hv, pageAddress_page hv hs, pageSize]
  · rw [if_neg hv, if_neg hv, get]

theorem get_unmap {map map' : VirtualMap} {start : GuestAddress} {size : UInt32}
    (h : map.unmap start size = .ok map') (v : GuestAddress) :
    map'.get v = if Covers start size v then .unmapped else map.get v := by
  simp only [unmap, bind_eq_ok, pure, Except.pure, Except.ok.injEq] at h
  obtain ⟨⟨⟩, hc, rfl⟩ := h
  obtain ⟨hs, hz, hr⟩ := checkRange_ok_iff.1 hc
  rw [get, get_fill _ _ hs hz hr v, get]

/-- The physical address behind a page is that of the projection that covers it. -/
theorem physicalAddress?_project {map map' : VirtualMap} {physical : PhysicalMap}
    {start p : GuestAddress} {size : UInt32}
    (h : map.project physical start p size = .ok map') (v : GuestAddress) :
    map'.physicalAddress? v =
      if Covers start size v then some (p + (v.pageBase - start) ||| v.pageOffset)
      else map.physicalAddress? v := by
  simp only [project, bind_eq_ok, unless_throw_eq_ok, pure, Except.pure, Except.ok.injEq] at h
  obtain ⟨⟨⟩, hc, -, rfl⟩ := h
  obtain ⟨hs, hz, hr⟩ := checkRange_ok_iff.1 hc
  rw [physicalAddress?, get_fill _ _ hs hz hr v]
  split
  · rename_i hv
    rw [pageAddress_distance hv hs, Option.map_some]
  · rfl

theorem physicalAddress?_unmap {map map' : VirtualMap} {start : GuestAddress} {size : UInt32}
    (h : map.unmap start size = .ok map') (v : GuestAddress) :
    map'.physicalAddress? v = if Covers start size v then none else map.physicalAddress? v := by
  simp only [unmap, bind_eq_ok, pure, Except.pure, Except.ok.injEq] at h
  obtain ⟨⟨⟩, hc, rfl⟩ := h
  obtain ⟨hs, hz, hr⟩ := checkRange_ok_iff.1 hc
  rw [physicalAddress?, get_fill _ _ hs hz hr v]
  split <;> rfl

/-- Whether a call on a range is accepted depends on nothing but its arguments. -/
theorem exists_project_iff {map : VirtualMap} {physical : PhysicalMap} {start p : GuestAddress}
    {size : UInt32} :
    (∃ map', map.project physical start p size = .ok map') ↔
      (start.toNat % 4096 = 0 ∧ size.toNat % 4096 = 0 ∧ start.toNat + size.toNat ≤ 2 ^ 32) ∧
        p.toNat % 4096 = 0 := by
  simp only [project, bind_eq_ok, unless_throw_eq_ok, pure, Except.pure, Except.ok.injEq,
    Bool.not_eq_true', Bool.not_eq_false, GuestAddress.isAligned_iff]
  constructor
  · rintro ⟨-, ⟨⟩, hc, hp, -⟩
    exact ⟨checkRange_ok_iff.1 hc, hp⟩
  · rintro ⟨hc, hp⟩
    exact ⟨_, (), checkRange_ok_iff.2 hc, hp, rfl⟩

theorem exists_projectBuffer_iff {map : VirtualMap} {start : GuestAddress} {buffer : HostAddress}
    {size : UInt32} :
    (∃ map', map.projectBuffer start buffer size = .ok map') ↔
      (start.toNat % 4096 = 0 ∧ size.toNat % 4096 = 0 ∧ start.toNat + size.toNat ≤ 2 ^ 32) ∧
        buffer.toNat % 4096 = 0 := by
  simp only [projectBuffer, bind_eq_ok, unless_throw_eq_ok, pure, Except.pure, Except.ok.injEq,
    Bool.not_eq_true', Bool.not_eq_false, HostAddress.isAligned_iff]
  constructor
  · rintro ⟨-, ⟨⟩, hc, hb, -⟩
    exact ⟨checkRange_ok_iff.1 hc, hb⟩
  · rintro ⟨hc, hb⟩
    exact ⟨_, (), checkRange_ok_iff.2 hc, hb, rfl⟩

theorem exists_unmap_iff {map : VirtualMap} {start : GuestAddress} {size : UInt32} :
    (∃ map', map.unmap start size = .ok map') ↔
      start.toNat % 4096 = 0 ∧ size.toNat % 4096 = 0 ∧ start.toNat + size.toNat ≤ 2 ^ 32 := by
  simp only [unmap, bind_eq_ok, pure, Except.pure, Except.ok.injEq]
  constructor
  · rintro ⟨-, ⟨⟩, hc, -⟩
    exact checkRange_ok_iff.1 hc
  · exact fun hc => ⟨_, (), checkRange_ok_iff.2 hc, rfl⟩

/-- A map that differs from another one in a range of whole pages only. -/
structure Remaps (map map' : VirtualMap) (start : GuestAddress) (size : UInt32) : Prop where
  start_aligned : start.toNat % 4096 = 0
  size_aligned : size.toNat % 4096 = 0
  fits : start.toNat + size.toNat ≤ 2 ^ 32
  outside : ∀ v, ¬Covers start size v → map'.get v = map.get v

theorem remaps_project {map map' : VirtualMap} {physical : PhysicalMap} {start p : GuestAddress}
    {size : UInt32} (h : map.project physical start p size = .ok map') :
    map.Remaps map' start size := by
  have hg := (get_project h).2.2
  simp only [project, bind_eq_ok] at h
  obtain ⟨⟨⟩, hc, -⟩ := h
  obtain ⟨hs, hz, hr⟩ := checkRange_ok_iff.1 hc
  exact ⟨hs, hz, hr, fun v hv => (hg v).trans (if_neg hv)⟩

theorem remaps_projectBuffer {map map' : VirtualMap} {start : GuestAddress}
    {buffer : HostAddress} {size : UInt32} (h : map.projectBuffer start buffer size = .ok map') :
    map.Remaps map' start size := by
  have hg := (get_projectBuffer h).2.2.2
  simp only [projectBuffer, bind_eq_ok] at h
  obtain ⟨⟨⟩, hc, -⟩ := h
  obtain ⟨hs, hz, hr⟩ := checkRange_ok_iff.1 hc
  exact ⟨hs, hz, hr, fun v hv => (hg v).trans (if_neg hv)⟩

theorem remaps_unmap {map map' : VirtualMap} {start : GuestAddress} {size : UInt32}
    (h : map.unmap start size = .ok map') : map.Remaps map' start size := by
  have hg := get_unmap h
  simp only [unmap, bind_eq_ok] at h
  obtain ⟨⟨⟩, hc, -⟩ := h
  obtain ⟨hs, hz, hr⟩ := checkRange_ok_iff.1 hc
  exact ⟨hs, hz, hr, fun v hv => (hg v).trans (if_neg hv)⟩

end VirtualMap

end GuestMemory
