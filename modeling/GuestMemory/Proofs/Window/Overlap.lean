import GuestMemory.Proofs.Window.Inverse

/-!
What the record of the window lists for a range of the arena: each page once that shows a byte of the
range, and no other page. The range may start and end within a page and may reach past the last 32-bit
address. Only a range of no bytes that starts within a page goes wrong, since the page that it starts
in is listed for it.
-/
namespace GuestMemory.Window.Aliases

open GuestAddress

/-- The arena page at `o` has a byte of a range. Offsets end at 4 GB, and the range with them. -/
def SharesByte (o offset size : UInt32) : Prop :=
  ∃ b, (o.toNat ≤ b ∧ b < o.toNat + 4096) ∧
    offset.toNat ≤ b ∧ b < min (offset.toNat + size.toNat) (2 ^ 32)

/-- Two stretches of the arena have a byte in common if each starts before the other ends. -/
theorem sharesByte_iff {o offset size : UInt32} :
    SharesByte o offset size ↔ 0 < size.toNat ∧ offset.toNat < o.toNat + 4096 ∧
      o.toNat < offset.toNat + size.toNat := by
  have ho := o.toNat_lt
  have hoffset := offset.toNat_lt
  constructor
  · rintro ⟨b, hb⟩
    omega
  · intro h
    exact ⟨max o.toNat offset.toNat, by omega⟩

instance (o offset size : UInt32) : Decidable (SharesByte o offset size) :=
  decidable_of_iff _ sharesByte_iff.symm

/-- No page has a byte of a range of no bytes. -/
theorem not_sharesByte_zero (o offset : UInt32) : ¬SharesByte o offset 0 := fun h =>
  Nat.lt_irrefl 0 (sharesByte_iff.1 h).1

/-- The walk over a range, which starts with the page that the range starts in and ends before the
last byte of all, meets the pages that have a byte of the range. -/
theorem walk_iff_sharesByte {o offset size : UInt32} (haligned : pageBase o = o)
    (hsize : 0 < size.toNat ∨ offset.toNat % 4096 = 0) :
    (pageBase offset).toNat ≤ o.toNat ∧ o.toNat < min (offset.toNat + size.toNat) 0xFFFFFFFF ↔
      SharesByte o offset size := by
  have ho := congrArg UInt32.toNat haligned
  have hlt := o.toNat_lt
  rw [toNat_pageBase] at ho
  rw [sharesByte_iff, toNat_pageBase]
  omega

variable {t : Aliases} {f : GuestAddress → Option UInt32}

/-- A range lists the pages that show a byte of it. -/
theorem Records.mem_ofRange_iff (h : t.Records f) (ht : t.Tidy) {offset size : UInt32}
    (hsize : 0 < size.toNat ∨ offset.toNat % 4096 = 0) (v : GuestAddress) :
    v ∈ t.ofRange offset size ↔
      pageBase v = v ∧ ∃ o, f v = some o ∧ SharesByte o offset size := by
  rw [h.mem_ofRange]
  refine and_congr_right fun _ => exists_congr fun o => and_congr_right fun hf => ?_
  have haligned : pageBase o = o := ht.aligned v o ((h.offsets v).trans hf)
  rw [and_iff_right haligned, walk_iff_sharesByte haligned hsize]

/-- A range of no bytes that starts within a page lists what its page is shown by. -/
theorem ofRange_zero (t : Aliases) {offset : UInt32} (hoffset : offset.toNat % 4096 ≠ 0) :
    t.ofRange offset 0 = (t.ofOffset offset).toList := by
  have hlt := offset.toNat_lt
  have hcount : (min (offset.toNat + (0 : UInt32).toNat) 0xFFFFFFFF - (pageBase offset).toNat +
      pageSize - 1) / pageSize = 1 := by
    rw [toNat_pageBase, pageSize, UInt32.toNat_zero]
    omega
  have hpage : page (UInt32.ofNat ((pageBase offset).toNat + 0 * pageSize)) = page offset := by
    rw [Nat.zero_mul, Nat.add_zero, UInt32.ofNat_toNat, page_pageBase]
  rw [ofRange]
  simp only [hcount, List.range_one, List.flatMap_singleton, ofOffset, hpage]

/-- What a range lists after every series of calls. No page is listed twice. For a range that is not
empty, or that starts with a page, exactly the pages are listed whose arena page shares a byte with
it; for an empty range that starts within a page, the pages that show this page. -/
theorem ofRange_after (calls : List Call) (offset size : UInt32) :
    ((after calls).ofRange offset size).Nodup ∧
    (size ≠ 0 ∨ offset.toNat % 4096 = 0 → ∀ v, v ∈ (after calls).ofRange offset size ↔
      pageBase v = v ∧ ∃ o, said calls v = some o ∧ SharesByte o offset size) ∧
    (size = 0 → offset.toNat % 4096 ≠ 0 →
      (after calls).ofRange offset size = ((after calls).ofOffset offset).toList) := by
  obtain ⟨h, ht⟩ : (after calls).Records (said calls) ∧ (after calls).Tidy :=
    records_empty.foldl calls tidy_empty
  refine ⟨h.nodup_ofRange offset size, fun hsize => h.mem_ofRange_iff ht ?_, ?_⟩
  · refine hsize.imp_left fun hne => Nat.pos_of_ne_zero fun hz => hne ?_
    rw [← UInt32.toNat_inj, hz, UInt32.toNat_zero]
  · rintro rfl
    exact (after calls).ofRange_zero

/-- Of three pages, a range from within the page before the last one lists the two whose arena pages
lie at its end, although it reaches far past 4 GB. An empty range at a page lists none of them, and
one within a page lists the page that shows it. -/
theorem ofRange_after_high :
    let calls := [.create 0x1000 0xFFFFF000, .create 0x2000 0xFFFFE000, .create 0x3000 0x1000]
    (0x1000 ∈ (after calls).ofRange 0xFFFFE800 0xFFFFFFFF ∧
      0x2000 ∈ (after calls).ofRange 0xFFFFE800 0xFFFFFFFF ∧
      0x3000 ∉ (after calls).ofRange 0xFFFFE800 0xFFFFFFFF) ∧
    (∀ v, v ∉ (after calls).ofRange 0x1000 0) ∧
    (after calls).ofRange 0x1800 0 = ((after calls).ofOffset 0x1800).toList := by
  intro calls
  have high := (ofRange_after calls 0xFFFFE800 0xFFFFFFFF).2.1 (.inl (by decide))
  have none := (ofRange_after calls 0x1000 0).2.1 (.inr (by decide))
  have within := (ofRange_after calls 0x1800 0).2.2 rfl (by decide)
  refine ⟨⟨(high _).2 ⟨by decide, 0xFFFFF000, by decide, by decide⟩,
    (high _).2 ⟨by decide, 0xFFFFE000, by decide, by decide⟩, fun h => ?_⟩, fun v hv => ?_, within⟩
  · obtain ⟨-, o, ho, hs⟩ := (high _).1 h
    cases ho
    exact absurd hs (by decide)
  · obtain ⟨-, o, -, hs⟩ := (none v).1 hv
    exact not_sharesByte_zero o 0x1000 hs

/-- An empty range within a page lists a page, although nothing lies in it. -/
theorem empty_range_lists_page :
    0x1000 ∈ (after [.create 0x1000 0x1000]).ofRange 0x1800 0 ∧
      ¬∃ o, said [.create 0x1000 0x1000] 0x1000 = some o ∧ SharesByte o 0x1800 0 := by
  refine ⟨by decide +kernel, ?_⟩
  rintro ⟨o, -, hs⟩
  exact not_sharesByte_zero o 0x1800 hs

end GuestMemory.Window.Aliases
