import GuestMemory.Proofs.Window.Changes
import Mathlib.Data.List.Nodup

/-!
The record of what the window shows, which is read in both directions. It keeps the low 32 bits of an
offset. As to those it is exact: a page has the word of what it shows, and a word has the pages that
show a page of the arena with that word, each of them once.
-/
namespace GuestMemory

open GuestAddress

namespace Window

/-- What the record keeps of the offset of an arena page. -/
def pageWord (o : Nat) : UInt32 := pageBase (UInt32.ofNat o)

theorem pageWord_of_aligned {n : Nat} (hn : n % 4096 = 0) : pageWord n = UInt32.ofNat n := by
  rw [pageWord, ← UInt32.toNat_inj, toNat_pageBase, UInt32.toNat_ofNat']
  omega

/-- The word of a page and an offset in a page are the low 32 bits of the offset of the byte. -/
theorem pageWord_or {n : Nat} (hn : n % 4096 = 0) (v : GuestAddress) :
    pageWord n ||| v.pageOffset = UInt32.ofNat (n + v.toNat % 4096) := by
  rw [pageWord, ← UInt32.toNat_inj, toNat_pageBase_or, UInt32.toNat_ofNat', UInt32.toNat_ofNat']
  omega

namespace Aliases

/-- The record has the words of `f`, and for each word the pages that have it. -/
structure Records (t : Aliases) (f : GuestAddress → Option UInt32) : Prop where
  offsets : ∀ v, t.offset? v = f v
  mem : ∀ o v, v ∈ t.ofOffset o ↔ pageBase v = v ∧ f v = some (pageBase o)
  nodup : ∀ o, (t.ofOffset o).toList.Nodup

variable {t : Aliases} {f : GuestAddress → Option UInt32}

theorem records_empty : ({} : Aliases).Records fun _ => none :=
  ⟨fun _ => rfl, by simp [ofOffset], by simp [ofOffset]⟩

theorem Records.congr_page (h : t.Records f) {u v : GuestAddress} (hp : u.page = v.page) :
    f u = f v := by
  rw [← h.offsets, ← h.offsets, t.offset?_congr hp]

theorem getD_without (v : GuestAddress) (pages : Option (Array GuestAddress)) :
    (without v pages).getD #[] = (pages.getD #[]).filter (· != v) := by
  cases pages with
  | none => rfl
  | some vs =>
    rw [without, Option.map_some, Option.filter_some, Option.getD_some]
    split
    · rfl
    · rename_i h
      simpa using h

/-- Pages of a word after a page has been taken out of the record. -/
theorem ofOffset_remove (t : Aliases) (v : GuestAddress) (o : UInt32) :
    (t.remove v).2.ofOffset o =
      if (t.offset? v).map page = some (page o) then (t.ofOffset o).filter (· != v.pageBase)
      else t.ofOffset o := by
  rw [remove]
  cases hv : t.offset? v with
  | none => rfl
  | some word =>
    simp only [ofOffset, Option.map_some, Option.some.injEq]
    rw [Table.get_modify _ _ (page_lt word) (page_lt o)]
    split
    · exact getD_without _ _
    · rfl

theorem ofOffset_create (t : Aliases) (v : GuestAddress) (word o : UInt32) :
    (t.create v word).2.ofOffset o =
      if page word = page o then ((t.remove v).2.ofOffset o).push v.pageBase
      else (t.remove v).2.ofOffset o := by
  rw [create]
  simp only [ofOffset]
  rw [Table.get_modify _ _ (page_lt word) (page_lt o)]
  split <;> rfl

/-- A page that is taken out is in no list any more. -/
theorem Records.mem_remove (h : t.Records f) (u v : GuestAddress) (o : UInt32) :
    u ∈ (t.remove v).2.ofOffset o ↔ u ∈ t.ofOffset o ∧ u ≠ v.pageBase := by
  rw [ofOffset_remove]
  split
  · rw [Array.mem_filter, bne_iff_ne]
  · rename_i hw
    -- the pages of a word that `v` does not have are without `v` already
    have hnot : v.pageBase ∉ t.ofOffset o := by
      rw [h.mem]
      rintro ⟨-, hf⟩
      rw [h.congr_page (page_pageBase v)] at hf
      rw [h.offsets, hf, Option.map_some, page_pageBase] at hw
      exact hw rfl
    exact ⟨fun hu => ⟨hu, fun he => hnot (he ▸ hu)⟩, And.left⟩

theorem mem_create (t : Aliases) (u v : GuestAddress) (word o : UInt32) :
    u ∈ (t.create v word).2.ofOffset o ↔
      u ∈ (t.remove v).2.ofOffset o ∨ page word = page o ∧ u = v.pageBase := by
  rw [ofOffset_create]
  split
  · rename_i hw
    rw [Array.mem_push, and_iff_right hw]
  · rename_i hw
    rw [or_iff_left fun h => hw h.1]

/-- Taking a page out takes it from the pages of its word, and from no others. -/
theorem Records.remove (h : t.Records f) (v : GuestAddress) :
    (t.remove v).2.Records fun u => if v.page = u.page then none else f u := by
  refine ⟨fun u => ?_, fun o u => ?_, fun o => ?_⟩
  · rw [t.offset?_remove, h.offsets]
  · rw [h.mem_remove, h.mem, ne_eq, eq_pageBase_iff]
    by_cases hp : v.page = u.page
    · simp +contextual [hp]
    · simp [hp]
  · rw [ofOffset_remove]
    split
    · rw [Array.toList_filter]
      exact (h.nodup o).filter _
    · exact h.nodup o

/-- Putting a page in adds it to the pages of its word. -/
theorem Records.create (h : t.Records f) (v : GuestAddress) (word : UInt32) :
    (t.create v word).2.Records fun u => if v.page = u.page then some (pageBase word) else f u := by
  have hr := h.remove v
  refine ⟨fun u => ?_, fun o u => ?_, fun o => ?_⟩
  · rw [t.offset?_create, h.offsets]
  · rw [mem_create, hr.mem, eq_pageBase_iff]
    by_cases hp : v.page = u.page
    · simp only [hp, if_true, Option.some.injEq, pageBase_eq_iff, reduceCtorEq, and_false, and_true,
        false_or]
      exact and_comm
    · simp [hp]
  · have hnot : v.pageBase ∉ (t.remove v).2.ofOffset o := by
      rw [hr.mem, if_pos (page_pageBase v).symm]
      rintro ⟨-, ⟨⟩⟩
    rw [ofOffset_create]
    split
    · rw [Array.toList_push, ← List.concat_eq_append]
      exact (hr.nodup o).concat (by simpa using hnot)
    · exact hr.nodup o

/-- The pages that a range goes through do not wrap around. -/
theorem toNat_pageBase_add {offset : UInt32} {last i : Nat} (hlast : last ≤ 0xFFFFFFFF)
    (hi : i < (last - (pageBase offset).toNat + pageSize - 1) / pageSize) :
    (pageBase (UInt32.ofNat ((pageBase offset).toNat + i * pageSize))).toNat =
      (pageBase offset).toNat + i * pageSize := by
  have hfirst : (pageBase offset).toNat % 4096 = 0 := by
    rw [toNat_pageBase]
    omega
  rw [pageSize] at hi ⊢
  rw [toNat_pageBase, UInt32.toNat_ofNat']
  omega

/-- A range lists the pages whose word lies between the page that it starts in and its end. -/
theorem Records.mem_ofRange (h : t.Records f) (offset size : UInt32) (v : GuestAddress) :
    v ∈ t.ofRange offset size ↔ pageBase v = v ∧ ∃ o, f v = some o ∧ pageBase o = o ∧
      (pageBase offset).toNat ≤ o.toNat ∧
        o.toNat < min (offset.toNat + size.toNat) 0xFFFFFFFF := by
  simp only [ofRange, List.mem_flatMap, List.mem_range, Array.mem_toList_iff, h.mem]
  constructor
  · rintro ⟨i, hi, hv, hf⟩
    refine ⟨hv, _, hf, pageBase_pageBase _, ?_⟩
    rw [toNat_pageBase_add (Nat.min_le_right _ _) hi]
    rw [pageSize] at hi ⊢
    omega
  · rintro ⟨hv, o, hf, ho, hle, hlt⟩
    have haligned := congrArg UInt32.toNat ho
    have hfirst := toNat_pageBase offset
    rw [toNat_pageBase] at haligned
    have hi : (o.toNat - (pageBase offset).toNat) / pageSize <
        (min (offset.toNat + size.toNat) 0xFFFFFFFF - (pageBase offset).toNat + pageSize - 1) /
          pageSize := by
      rw [pageSize]
      omega
    refine ⟨_, hi, hv, ?_⟩
    rw [hf, Option.some.injEq, ← UInt32.toNat_inj, toNat_pageBase_add (Nat.min_le_right _ _) hi,
      pageSize]
    omega

/-- A range lists each page once. -/
theorem Records.nodup_ofRange (h : t.Records f) (offset size : UInt32) :
    (t.ofRange offset size).Nodup := by
  refine List.nodup_flatMap.2 ⟨fun i _ => h.nodup _, ?_⟩
  refine List.Pairwise.imp_of_mem (fun {i j} hi hj hne => ?_) List.nodup_range
  refine List.disjoint_left.2 fun v hv hv' => ?_
  -- a page has one word, and the words that the range goes through differ
  have hword := ((h.mem _ v).1 (Array.mem_toList_iff.1 hv)).2.symm.trans
    ((h.mem _ v).1 (Array.mem_toList_iff.1 hv')).2
  rw [Option.some.injEq, ← UInt32.toNat_inj,
    toNat_pageBase_add (Nat.min_le_right _ _) (List.mem_range.1 hi),
    toNat_pageBase_add (Nat.min_le_right _ _) (List.mem_range.1 hj), pageSize] at hword
  omega

end Aliases

/-- The record has, for each page, the word of what the page shows. -/
def Recorded (w : Window) : Prop := w.aliases.Records fun v => (w.shows v).map pageWord

theorem recorded_create (base : HostAddress) (kernel : Kernel) : (create base kernel).Recorded :=
  Aliases.records_empty

theorem Recorded.mirrors {w : Window} (h : w.Recorded) : w.Mirrors w.shows := by
  refine ⟨fun _ => rfl, fun v => ?_⟩
  rw [h.offsets, Option.isSome_map]

section

variable {w w' : Window} (h : w.Recorded)

include h

/-- Bringing a page up to date keeps the record, unless the host refuses it. -/
theorem Recorded.sync {v : GuestAddress} {target : Option (Nat × Protection)}
    {event : Option Event} (granted : (w.sync v target).1 = .ok event) :
    (w.sync v target).2.Recorded := by
  rw [Recorded, funext (h.mirrors.sync granted).shows_eq]
  simp only [apply_ite (Option.map pageWord)]
  have hs := w.syncs v target
  generalize w.sync v target = r at hs granted ⊢
  cases hs with
  | mapped => exact Aliases.Records.create h v _
  | unmapped => exact Aliases.Records.remove h v
  | unrecorded record =>
    have hremove : (w.aliases.remove v).2 = w.aliases := by rw [Aliases.remove, record]
    have hr := Aliases.Records.remove h v
    rwa [hremove] at hr
  | mapRefused | unmapRefused => cases granted

/-- The record follows every change that the host grants. -/
theorem Recorded.changes (granted : w.Granted) (hc : w.Changes w') : w'.Recorded := by
  cases hc with
  | adjust ha =>
    obtain ⟨-, hs, ht⟩ := ha.alike
    rw [Recorded, ht, funext hs]
    exact h
  | sync v target =>
    obtain ⟨⟨event, hok⟩, -⟩ := granted.sync v target
    exact h.sync hok
  | clear =>
    rw [granted.clear_eq]
    exact Aliases.records_empty

theorem Recorded.becomes (granted : w.Granted) (hb : w.Becomes w') : w'.Recorded :=
  (hb.keeps (P := fun w => w.Granted ∧ w.Recorded)
    (fun hc hw => ⟨hw.1.changes hc, hw.2.changes hw.1 hc⟩) ⟨granted, h⟩).2

end

end Window

end GuestMemory
