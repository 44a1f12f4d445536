import GuestMemory.Cache.Model

/-!
Where the lines of the cache lie in host memory. A host byte belongs to one set and one offset; a
tag with an aligned page and a set name 64 bytes, and different pages or sets name different ones.
-/
namespace GuestMemory.Cache

def hostIndex (b : HostAddress) : Nat := b.toNat / 64 % 64

def hostOffset (b : HostAddress) : Nat := b.toNat % 64

theorem index_eq (a : GuestAddress) : index a = a.toNat / 64 % 64 := by
  have h : (a.toNat >>> 6) &&& (2 ^ 6 - 1) = a.toNat >>> 6 % 2 ^ 6 :=
    Nat.and_two_pow_sub_one_eq_mod _ 6
  rw [Nat.shiftRight_eq_div_pow] at h
  simpa [index, UInt32.toNat_and, Nat.shiftRight_eq_div_pow] using h

theorem offset_eq (a : GuestAddress) : offset a = a.toNat % 64 := by
  have h : a.toNat &&& (2 ^ 6 - 1) = a.toNat % 2 ^ 6 := Nat.and_two_pow_sub_one_eq_mod _ 6
  simpa [offset, UInt32.toNat_and] using h

theorem hostIndex_lt (b : HostAddress) : hostIndex b < setCount := by
  have h : b.toNat / 64 % 64 < 64 := Nat.mod_lt _ (by decide)
  exact h

theorem hostOffset_lt (b : HostAddress) : hostOffset b < lineSize := by
  have h : b.toNat % 64 < 64 := Nat.mod_lt _ (by decide)
  exact h

/-- A guest byte and the host byte behind it belong to one set and one offset. -/
theorem hostIndex_of_mod {v : GuestAddress} {b : HostAddress} (h : b.toNat % 4096 = v.toNat % 4096) :
    hostIndex b = index v := by
  rw [hostIndex, index_eq]
  omega

/-- Byte `k` of the line of a page in a set. -/
theorem toNat_lineAddress_add {tag : Tag} {i k : Nat} (ha : tag.hostPage.toNat % 4096 = 0)
    (hi : i < setCount) (hk : k < lineSize) :
    (tag.lineAddress i + UInt64.ofNat k).toNat = tag.hostPage.toNat + 64 * i + k := by
  have hi' : i < 64 := hi
  have hk' : k < 64 := hk
  have hlt := tag.hostPage.toNat_lt
  have hs : (UInt64.ofNat i <<< 6).toNat = 64 * i := by
    rw [UInt64.toNat_shiftLeft, UInt64.toNat_ofNat', Nat.shiftLeft_eq]
    simp only [UInt64.reduceToNat, Nat.reducePow, Nat.reduceMod]
    omega
  have hor : (tag.lineAddress i).toNat = tag.hostPage.toNat + 64 * i := by
    obtain ⟨p, hp⟩ := Nat.dvd_of_mod_eq_zero ha
    have h := Nat.two_pow_add_eq_or_of_lt (i := 12) (b := 64 * i) (by omega) p
    rw [Tag.lineAddress, UInt64.toNat_or, hs, hp]
    exact h.symm
  rw [UInt64.toNat_add, hor, UInt64.toNat_ofNat']
  omega

section

variable {tag : Tag} {i k : Nat} (ha : tag.hostPage.toNat % 4096 = 0) (hi : i < setCount)
  (hk : k < lineSize)

include ha hi hk

theorem hostIndex_lineAddress : hostIndex (tag.lineAddress i + UInt64.ofNat k) = i := by
  have hi' : i < 64 := hi
  have hk' : k < 64 := hk
  rw [hostIndex, toNat_lineAddress_add ha hi hk]
  omega

theorem hostOffset_lineAddress : hostOffset (tag.lineAddress i + UInt64.ofNat k) = k := by
  have hk' : k < 64 := hk
  rw [hostOffset, toNat_lineAddress_add ha hi hk]
  omega

theorem pageBase_lineAddress : (tag.lineAddress i + UInt64.ofNat k).pageBase = tag.hostPage := by
  have hi' : i < 64 := hi
  have hk' : k < 64 := hk
  apply UInt64.toNat_inj.1
  rw [HostAddress.toNat_pageBase, toNat_lineAddress_add ha hi hk]
  omega

end

theorem toNat_pageBase_mod (b : HostAddress) : b.pageBase.toNat % 4096 = 0 := by
  rw [HostAddress.toNat_pageBase]
  omega

/-- Every byte is a byte of the line of its page in its set. -/
theorem lineAddress_add_hostOffset {tag : Tag} {b : HostAddress} (h : tag.hostPage = b.pageBase) :
    tag.lineAddress (hostIndex b) + UInt64.ofNat (hostOffset b) = b := by
  have ha : tag.hostPage.toNat % 4096 = 0 := h ▸ toNat_pageBase_mod b
  apply UInt64.toNat_inj.1
  rw [toNat_lineAddress_add ha (hostIndex_lt b) (hostOffset_lt b), h, HostAddress.toNat_pageBase,
    hostIndex, hostOffset]
  omega

theorem Tag.holds_iff {tag : Tag} {b : HostAddress} :
    tag.holds b = true ↔ tag.valid = true ∧ tag.hostPage = b.pageBase := by
  simp [Tag.holds]

@[simp] theorem holds_default (b : HostAddress) : ({} : Tag).holds b = false := rfl

/-- Only the page of an address counts. -/
theorem Tag.holds_congr (tag : Tag) {b b' : HostAddress} (h : b.pageBase = b'.pageBase) :
    tag.holds b = tag.holds b' := by
  rw [Tag.holds, Tag.holds, h]

namespace LineSet

theorem find?_eq_some {s : LineSet} {b : HostAddress} {way : Way} (h : s.find? b = some way) :
    (s.line way).tag.holds b = true := by
  simp only [find?] at h
  split at h
  · cases h
    assumption
  · split at h
    · cases h
      assumption
    · cases h

theorem find?_eq_none {s : LineSet} {b : HostAddress} (h : s.find? b = none) (way : Way) :
    (s.line way).tag.holds b = false := by
  simp only [find?] at h
  split at h
  · cases h
  · split at h
    · cases h
    · by_cases hw : way = 0 <;> simp_all [line]

end LineSet

/-- The lines after one of them has been replaced. -/
theorem line_setLine (c : Cache) {i j : Nat} (way w : Way) (l : Line) (hi : i < setCount)
    (hj : j < setCount) :
    (c.setLine i way l).line j w = if i = j ∧ way = w then l else c.line j w := by
  rw [line, set_setLine c way l hi hj]
  by_cases he : i = j
  · by_cases hw : way = w
    · simp [he, hw]
    · simp [he, hw, LineSet.line_setLine_other _ l (Ne.symm hw), line]
  · simp [he, line]

theorem tag_empty (i : Nat) (way : Way) : (({} : Cache).line i way).tag = {} := by
  simp [line, set, LineSet.line]

@[simp] theorem length_slice (l : Line) (start n : Nat) : (l.slice start n).length = n := by
  simp [Line.slice]

@[simp] theorem getElem_slice (l : Line) {start n i : Nat} (h : i < (l.slice start n).length) :
    (l.slice start n)[i] = l.data.get (start + i) := by
  simp [Line.slice]

/-- Bytes put into a line replace its own from their offset on. -/
theorem get_put (l : Line) {start k : Nat} {bs : List UInt8} (h : start + bs.length ≤ lineSize)
    (hk : k < lineSize) :
    (l.put start bs).data.get k =
      if h : start ≤ k ∧ k - start < bs.length then bs[k - start] else l.data.get k := by
  rw [Line.put, Table.get_fill l.data _ h hk]
  by_cases hc : start ≤ k ∧ k - start < bs.length
  · rw [if_pos (by omega), dif_pos hc, List.getD_eq_getElem?_getD, List.getElem?_eq_getElem hc.2,
      Option.getD_some]
  · rw [if_neg (by omega), dif_neg hc]

end GuestMemory.Cache
