import GuestMemory.Proofs.Cache.Lines
import GuestMemory.Proofs.Maps.Backing

/-!
Coherence of the cache with the memory behind it. What the guest sees at a host byte is the byte of
the line that holds it, and the byte of memory if there is none. Filling and writing back move bytes
between the two and change nothing of it; only stores and invalidation do.
-/
namespace GuestMemory.Cache

/-- The byte that an access through the cache sees at a host address. -/
def seen (c : Cache) (m : Memory) (b : HostAddress) : UInt8 :=
  match (c.set (hostIndex b)).find? b with
  | some way => (c.line (hostIndex b) way).data.get (hostOffset b)
  | none => m.byte b

/-- Valid lines of a set have different aligned pages, and one that is clean is what memory has. -/
structure Coherent (c : Cache) (m : Memory) : Prop where
  aligned : ∀ i < setCount, ∀ way, (c.line i way).tag.valid = true →
    (c.line i way).tag.hostPage.toNat % 4096 = 0
  unique : ∀ i < setCount, ∀ way way', (c.line i way).tag.valid = true →
    (c.line i way').tag.valid = true →
      (c.line i way).tag.hostPage = (c.line i way').tag.hostPage → way = way'
  clean : ∀ i < setCount, ∀ way, (c.line i way).tag.valid = true →
    (c.line i way).tag.dirty = false → ∀ k < lineSize,
      (c.line i way).data.get k = m.byte ((c.line i way).tag.lineAddress i + UInt64.ofNat k)

variable {c c' : Cache} {m m' : Memory} {i : Nat} {way : Way} {b : HostAddress}

theorem Coherent.holds_unique (h : Coherent c m) (hi : i < setCount) {way' : Way}
    (hw : (c.line i way).tag.holds b = true) (hw' : (c.line i way').tag.holds b = true) :
    way = way' := by
  obtain ⟨hv, hp⟩ := Tag.holds_iff.1 hw
  obtain ⟨hv', hp'⟩ := Tag.holds_iff.1 hw'
  exact h.unique i hi way way' hv hv' (hp.trans hp'.symm)

/-- A byte of a clean line is the byte of memory. -/
theorem Coherent.get_clean (h : Coherent c m) (hw : (c.line (hostIndex b) way).tag.holds b = true)
    (hd : (c.line (hostIndex b) way).tag.dirty = false) :
    (c.line (hostIndex b) way).data.get (hostOffset b) = m.byte b := by
  obtain ⟨hv, hp⟩ := Tag.holds_iff.1 hw
  rw [h.clean _ (hostIndex_lt b) way hv hd _ (hostOffset_lt b), lineAddress_add_hostOffset hp]

/-- Of a byte that a way holds, this way is seen. -/
theorem seen_of_holds (h : Coherent c m) (hw : (c.line (hostIndex b) way).tag.holds b = true) :
    c.seen m b = (c.line (hostIndex b) way).data.get (hostOffset b) := by
  rw [seen]
  cases hf : (c.set (hostIndex b)).find? b with
  | some w =>
    have he : w = way := h.holds_unique (hostIndex_lt b) (LineSet.find?_eq_some hf) hw
    rw [he]
  | none =>
    have hn := LineSet.find?_eq_none hf way
    rw [line, hn] at hw
    cases hw

/-- Of a byte that no way holds, memory is seen. -/
theorem seen_of_free (h : ∀ way, (c.line (hostIndex b) way).tag.holds b = false) :
    c.seen m b = m.byte b := by
  rw [seen]
  cases hf : (c.set (hostIndex b)).find? b with
  | some way =>
    have hw := LineSet.find?_eq_some hf
    rw [← line, h way] at hw
    cases hw
  | none => rfl

/-- What is seen of a byte depends on the way that holds it, and without one on memory. -/
theorem seen_congr (h : Coherent c m) (h' : Coherent c' m')
    (held : ∀ way, (c.line (hostIndex b) way).tag.holds b = true →
      (c'.line (hostIndex b) way).tag.holds b = true ∧
        (c'.line (hostIndex b) way).data.get (hostOffset b) =
          (c.line (hostIndex b) way).data.get (hostOffset b))
    (free : (∀ way, (c.line (hostIndex b) way).tag.holds b = false) →
      (∀ way, (c'.line (hostIndex b) way).tag.holds b = false) ∧ m'.byte b = m.byte b) :
    c'.seen m' b = c.seen m b := by
  by_cases hh : ∃ way, (c.line (hostIndex b) way).tag.holds b = true
  · obtain ⟨way, hw⟩ := hh
    obtain ⟨hw', hd⟩ := held way hw
    rw [seen_of_holds h' hw', seen_of_holds h hw, hd]
  · have hf : ∀ way, (c.line (hostIndex b) way).tag.holds b = false := by
      intro way
      exact Bool.eq_false_iff.2 fun hw => hh ⟨way, hw⟩
    obtain ⟨hf', hm⟩ := free hf
    rw [seen_of_free hf', seen_of_free hf, hm]

theorem Coherent.stats (h : Coherent c m) (stats : Stats) : Coherent { c with stats } m :=
  ⟨h.aligned, h.unique, h.clean⟩

/-- Replacing one line by another that is coherent with memory and with the other way. -/
theorem Coherent.setLine (h : Coherent c m) (hi : i < setCount) {l : Line}
    (aligned : l.tag.valid = true → l.tag.hostPage.toNat % 4096 = 0)
    (unique : ∀ other ≠ way, (c.line i other).tag.valid = true → l.tag.valid = true →
      (c.line i other).tag.hostPage ≠ l.tag.hostPage)
    (clean : l.tag.valid = true → l.tag.dirty = false → ∀ k < lineSize,
      l.data.get k = m.byte (l.tag.lineAddress i + UInt64.ofNat k)) :
    Coherent (c.setLine i way l) m := by
  constructor
  · intro j hj w hv
    rw [line_setLine c way w l hi hj] at hv ⊢
    split at hv
    · rename_i he
      rw [if_pos he]
      exact aligned hv
    · rename_i he
      rw [if_neg he]
      exact h.aligned j hj w hv
  · intro j hj w w' hv hv' hp
    rw [line_setLine c way w l hi hj] at hv hp
    rw [line_setLine c way w' l hi hj] at hv' hp
    by_cases he : i = j ∧ way = w
    · by_cases he' : i = j ∧ way = w'
      · rw [← he.2, ← he'.2]
      · obtain ⟨rfl, rfl⟩ := he
        have hw : w' ≠ way := fun e => he' ⟨rfl, e.symm⟩
        rw [if_pos ⟨rfl, rfl⟩] at hv hp
        rw [if_neg he'] at hv' hp
        exact absurd hp.symm (unique w' hw hv' hv)
    · by_cases he' : i = j ∧ way = w'
      · obtain ⟨rfl, rfl⟩ := he'
        have hw : w ≠ way := fun e => he ⟨rfl, e.symm⟩
        rw [if_neg he] at hv hp
        rw [if_pos ⟨rfl, rfl⟩] at hv' hp
        exact absurd hp (unique w hw hv hv')
      · rw [if_neg he] at hv hp
        rw [if_neg he'] at hv' hp
        exact h.unique j hj w w' hv hv' hp
  · intro j hj w hv hd k hk
    rw [line_setLine c way w l hi hj] at hv hd ⊢
    split at hv
    · rename_i he
      rw [if_pos he] at hd ⊢
      rw [← he.1]
      exact clean hv hd k hk
    · rename_i he
      rw [if_neg he] at hd ⊢
      exact h.clean j hj w hv hd k hk

/-- What is seen after one line has been replaced: its bytes, bytes of memory where only the old line
was, and the rest as before. -/
theorem seen_setLine {l : Line} (h : Coherent c m) (h' : Coherent (c.setLine i way l) m)
    (hi : i < setCount) :
    (c.setLine i way l).seen m b =
      if hostIndex b = i ∧ l.tag.holds b = true then l.data.get (hostOffset b)
      else if hostIndex b = i ∧ (c.line i way).tag.holds b = true then m.byte b
      else c.seen m b := by
  have hl : ∀ w, (c.setLine i way l).line (hostIndex b) w =
      if i = hostIndex b ∧ way = w then l else c.line (hostIndex b) w :=
    fun w => line_setLine c way w l hi (hostIndex_lt b)
  by_cases hib : hostIndex b = i
  · subst hib
    simp only [true_and] at hl ⊢
    by_cases hn : l.tag.holds b = true
    · have hh : ((c.setLine (hostIndex b) way l).line (hostIndex b) way).tag.holds b = true := by
        simpa [hl] using hn
      rw [if_pos hn, seen_of_holds h' hh, hl, if_pos rfl]
    · rw [if_neg hn]
      by_cases ho : (c.line (hostIndex b) way).tag.holds b = true
      · rw [if_pos ho]
        refine seen_of_free fun w => ?_
        rw [hl]
        by_cases hw : way = w
        · rw [if_pos hw]
          exact Bool.eq_false_iff.2 hn
        · rw [if_neg hw, Bool.eq_false_iff]
          exact fun hh => hw (h.holds_unique (hostIndex_lt b) ho hh)
      · rw [if_neg ho]
        refine seen_congr h h' (fun w hw => ?_) fun hf => ⟨fun w => ?_, rfl⟩
        · have hne : way ≠ w := by
            rintro rfl
            exact ho hw
          simp [hl, hne, hw]
        · rw [hl]
          by_cases hw : way = w
          · rw [if_pos hw]
            exact Bool.eq_false_iff.2 hn
          · rw [if_neg hw, hf w]
  · simp only [hib, false_and, if_false]
    simp only [Ne.symm hib, false_and, if_false] at hl
    exact seen_congr h h' (fun w hw => by simp [hl, hw]) fun hf => by simp [hl, hf]

end GuestMemory.Cache
