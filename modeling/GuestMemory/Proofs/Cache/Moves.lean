import GuestMemory.Proofs.Cache.Coherence

/-!
Bytes that move between lines and memory. A write-back and a fill keep the cache coherent and change
nothing that is seen; taking a line away uncovers the memory behind it.
-/
namespace GuestMemory.Cache

variable {c : Cache} {m : Memory} {i : Nat} {way : Way}

theorem seen_stats (c : Cache) (m : Memory) (stats : Stats) :
    ({ c with stats } : Cache).seen m = c.seen m := rfl

def Line.cleaned (l : Line) : Line :=
  { l with tag := { l.tag with dirty := !l.tag.valid && l.tag.dirty } }

/-- Writing a line back cleans it and leaves all others. -/
theorem line_writeBack (m : Memory) {j : Nat} (hi : i < setCount) (hj : j < setCount) (w : Way) :
    (c.writeBack m i way).1.line j w =
      if i = j ∧ way = w then (c.line j w).cleaned else c.line j w := by
  by_cases hd : ((c.line i way).tag.valid && (c.line i way).tag.dirty) = true
  · have hv : (c.line i way).tag.valid = true := (Bool.and_eq_true_iff.1 hd).1
    simp only [writeBack, hd, if_true]
    refine (line_setLine c way w _ hi hj).trans ?_
    split
    · rename_i he
      obtain ⟨rfl, rfl⟩ := he
      simp [Line.cleaned, hv]
    · rfl
  · simp only [writeBack, hd, Bool.false_eq_true, if_false]
    split
    · rename_i he
      obtain ⟨rfl, rfl⟩ := he
      have hc : (!(c.line i way).tag.valid && (c.line i way).tag.dirty) =
          (c.line i way).tag.dirty := by
        cases hv : (c.line i way).tag.valid <;> simp_all
      rw [Line.cleaned, hc]
    · rfl

@[simp] theorem holds_cleaned (l : Line) (b : HostAddress) :
    l.cleaned.tag.holds b = l.tag.holds b := rfl

theorem holds_line_writeBack (m : Memory) {j : Nat} (hi : i < setCount) (hj : j < setCount)
    (w : Way) (b : HostAddress) :
    ((c.writeBack m i way).1.line j w).tag.holds b = (c.line j w).tag.holds b := by
  rw [line_writeBack m hi hj]
  split <;> rfl

/-- After a write-back the line is not both valid and dirty. -/
theorem clean_writeBack (m : Memory) (hi : i < setCount)
    (hv : ((c.writeBack m i way).1.line i way).tag.valid = true) :
    ((c.writeBack m i way).1.line i way).tag.dirty = false := by
  rw [line_writeBack m hi hi, if_pos ⟨rfl, rfl⟩] at hv ⊢
  have hv' : (c.line i way).tag.valid = true := hv
  simp [Line.cleaned, hv']

theorem puts_writeBack (m : Memory)
    (hd : ((c.line i way).tag.valid && (c.line i way).tag.dirty) = true) :
    Puts m.byte (fun k => (c.line i way).tag.lineAddress i + UInt64.ofNat k) (c.line i way).bytes
      (c.writeBack m i way).2.byte := by
  have hl : (c.line i way).bytes.length = lineSize := length_slice _ _ _
  simp only [writeBack, hd, if_true]
  exact m.puts_write (by rw [hl]; decide) fun _ _ => rfl

/-- A write-back changes no byte of memory that is not in its line. -/
theorem byte_writeBack_other (ha : (c.line i way).tag.hostPage.toNat % 4096 = 0) (hi : i < setCount)
    {b : HostAddress} (hb : ¬(hostIndex b = i ∧ (c.line i way).tag.holds b = true)) :
    (c.writeBack m i way).2.byte b = m.byte b := by
  by_cases hd : ((c.line i way).tag.valid && (c.line i way).tag.dirty) = true
  · have hl : (c.line i way).bytes.length = lineSize := length_slice _ _ _
    refine (puts_writeBack m hd).kept b fun k hk he => hb ?_
    have hk' : k < lineSize := hl ▸ hk
    subst he
    exact ⟨hostIndex_lineAddress ha hi hk', Tag.holds_iff.2
      ⟨(Bool.and_eq_true_iff.1 hd).1, (pageBase_lineAddress ha hi hk').symm⟩⟩
  · simp only [writeBack, hd, Bool.false_eq_true, if_false]

/-- Memory after a write-back has the bytes of the line where the line is, and its own elsewhere. -/
theorem byte_writeBack (h : Coherent c m) (hi : i < setCount) (b : HostAddress) :
    (c.writeBack m i way).2.byte b =
      if hostIndex b = i ∧ (c.line i way).tag.holds b = true then
        (c.line i way).data.get (hostOffset b)
      else m.byte b := by
  by_cases hd : ((c.line i way).tag.valid && (c.line i way).tag.dirty) = true
  · split
    · rename_i hb
      obtain ⟨rfl, hh⟩ := hb
      have hl : (c.line (hostIndex b) way).bytes.length = lineSize := length_slice _ _ _
      have hk : hostOffset b < (c.line (hostIndex b) way).bytes.length := hl ▸ hostOffset_lt b
      have hs := (puts_writeBack m hd).stored (hostOffset b) hk
      simp only [lineAddress_add_hostOffset (Tag.holds_iff.1 hh).2] at hs
      simpa [Line.bytes] using hs
    · rename_i hb
      exact byte_writeBack_other (h.aligned i hi way (Bool.and_eq_true_iff.1 hd).1) hi hb
  · have hm : (c.writeBack m i way).2 = m := by
      simp only [writeBack, hd, Bool.false_eq_true, if_false]
    rw [hm]
    split
    · rename_i hb
      obtain ⟨rfl, hh⟩ := hb
      obtain ⟨hv, -⟩ := Tag.holds_iff.1 hh
      exact (h.get_clean hh (by simpa [hv] using hd)).symm
    · rfl

/-- Writing a line back keeps a cache coherent, since memory is given what the line has. -/
theorem Coherent.writeBack (h : Coherent c m) (hi : i < setCount) (way : Way) :
    Coherent (c.writeBack m i way).1 (c.writeBack m i way).2 := by
  have htag : ∀ j < setCount, ∀ w,
      ((c.writeBack m i way).1.line j w).tag.valid = (c.line j w).tag.valid ∧
        ((c.writeBack m i way).1.line j w).tag.hostPage = (c.line j w).tag.hostPage ∧
          ((c.writeBack m i way).1.line j w).data = (c.line j w).data := by
    intro j hj w
    rw [line_writeBack m hi hj]
    split <;> exact ⟨rfl, rfl, rfl⟩
  constructor
  · intro j hj w hv
    obtain ⟨hv', hp, -⟩ := htag j hj w
    rw [hp]
    exact h.aligned j hj w (hv' ▸ hv)
  · intro j hj w w' hv hv' hp
    obtain ⟨hv₁, hp₁, -⟩ := htag j hj w
    obtain ⟨hv₂, hp₂, -⟩ := htag j hj w'
    exact h.unique j hj w w' (hv₁ ▸ hv) (hv₂ ▸ hv') (hp₁ ▸ hp₂ ▸ hp)
  · intro j hj w hv hd k hk
    obtain ⟨hv', hp, hdata⟩ := htag j hj w
    have hvalid : (c.line j w).tag.valid = true := hv' ▸ hv
    have ha := h.aligned j hj w hvalid
    have hindex := hostIndex_lineAddress ha hj hk
    have hpage := pageBase_lineAddress ha hj hk
    rw [hdata, Tag.lineAddress, hp, ← Tag.lineAddress, byte_writeBack h hi, hindex,
      hostOffset_lineAddress ha hj hk]
    split
    · rename_i hb
      obtain ⟨rfl, hh⟩ := hb
      have hw : way = w := h.holds_unique hi hh (Tag.holds_iff.2 ⟨hvalid, hpage.symm⟩)
      rw [hw]
    · rename_i hb
      have hne : ¬(i = j ∧ way = w) := by
        rintro ⟨rfl, rfl⟩
        exact hb ⟨rfl, Tag.holds_iff.2 ⟨hvalid, hpage.symm⟩⟩
      rw [line_writeBack m hi hj, if_neg hne] at hd
      exact h.clean j hj w hvalid hd k hk

/-- Writing back changes nothing that is seen. -/
theorem seen_writeBack (h : Coherent c m) (hi : i < setCount) (way : Way) :
    (c.writeBack m i way).1.seen (c.writeBack m i way).2 = c.seen m := by
  funext b
  have hj := hostIndex_lt b
  refine seen_congr h (h.writeBack hi way) (fun w hw => ⟨?_, ?_⟩) fun hf => ⟨fun w => ?_, ?_⟩
  · rw [holds_line_writeBack m hi hj, hw]
  · rw [line_writeBack m hi hj]
    split <;> rfl
  · rw [holds_line_writeBack m hi hj, hf]
  · rw [byte_writeBack h hi, if_neg]
    rintro ⟨rfl, hh⟩
    rw [hf way] at hh
    cases hh

theorem Coherent.clear (h : Coherent c m) (hi : i < setCount) (way : Way) :
    Coherent (c.clear i way) m :=
  h.setLine hi (fun hv => by cases hv) (fun _ _ _ hv => by cases hv) (fun hv => by cases hv)

/-- Taking a line away uncovers the memory behind it. -/
theorem seen_clear (h : Coherent c m) (hi : i < setCount) (way : Way) (b : HostAddress) :
    (c.clear i way).seen m b =
      if hostIndex b = i ∧ (c.line i way).tag.holds b = true then m.byte b else c.seen m b := by
  have hs := seen_setLine (b := b) h (h.clear hi way) hi
  rwa [if_neg (by simp)] at hs

/-- Taking away a line that has been written back changes nothing that is seen. -/
theorem seen_clear_of_clean (h : Coherent c m) (hi : i < setCount)
    (hd : (c.line i way).tag.valid = true → (c.line i way).tag.dirty = false) :
    (c.clear i way).seen m = c.seen m := by
  funext b
  rw [seen_clear h hi]
  split
  · rename_i hb
    obtain ⟨rfl, hh⟩ := hb
    rw [seen_of_holds h hh, h.get_clean hh (hd (Tag.holds_iff.1 hh).1)]
  · rfl

/-- The 64 bytes around a host address are the line of its page in its set. -/
theorem lineBase_eq {tag : Tag} {b : HostAddress} (h : tag.hostPage = b.pageBase) :
    b &&& 0xFFFFFFFFFFFFFFC0 = tag.lineAddress (hostIndex b) := by
  have ha : tag.hostPage.toNat % 4096 = 0 := h ▸ toNat_pageBase_mod b
  have hl := toNat_lineAddress_add (k := 0) ha (hostIndex_lt b) (by decide)
  rw [show UInt64.ofNat 0 = 0 from rfl, UInt64.add_zero, h, HostAddress.toNat_pageBase] at hl
  have hi : hostIndex b = b.toNat / 64 % 64 := rfl
  have hm : _ + _ = b.toNat := toNat_and_not_add b.toBitVec 0x3F#64
  have ho : (b.toBitVec &&& 0x3F#64).toNat = b.toNat % 64 := Nat.and_two_pow_sub_one_eq_mod b.toNat 6
  have hb : (b.toBitVec &&& ~~~0x3F#64).toNat = (b &&& 0xFFFFFFFFFFFFFFC0).toNat := rfl
  rw [ho, hb] at hm
  apply UInt64.toNat_inj.1
  omega

def Line.filled (l : Line) (m : Memory) (host : HostAddress) (phys : GuestAddress) : Line where
  tag := { l.tag with
    hostPage := host.pageBase, physicalPage := phys.pageBase
    valid := true, dirty := false, lrf := !l.tag.lrf }
  data := (Table.all 0).fill 0 lineSize fun k =>
    m.byte ((host &&& 0xFFFFFFFFFFFFFFC0) + UInt64.ofNat k)

theorem load_eq (c : Cache) (m : Memory) (i : Nat) (way : Way) (host : HostAddress)
    (phys : GuestAddress) :
    c.load m i way host phys = c.setLine i way ((c.line i way).filled m host phys) := rfl

theorem get_filled (l : Line) (m : Memory) (host : HostAddress) (phys : GuestAddress) {k : Nat}
    (hk : k < lineSize) :
    (l.filled m host phys).data.get k =
      m.byte ((l.filled m host phys).tag.lineAddress (hostIndex host) + UInt64.ofNat k) := by
  have hp : (l.filled m host phys).tag.hostPage = host.pageBase := rfl
  rw [← lineBase_eq hp, Line.filled, Table.get_fill _ _ (by decide) hk,
    if_pos ⟨Nat.zero_le k, by simpa using hk⟩, Nat.sub_zero]

/-- Touching a line finds it in a way, or brings it into one after what was there has been written
back. -/
theorem touch_cases (c : Cache) (m : Memory) (v : GuestAddress) (host : HostAddress)
    (phys : GuestAddress) :
    (∃ way stats, (c.set (index v)).find? host = some way ∧
      c.touch m v host phys = (way, { c with stats }, m)) ∨
    ((∀ way, (c.line (index v) way).tag.holds host = false) ∧ ∃ way stats,
      c.touch m v host phys =
        (way, (({ c with stats } : Cache).writeBack m (index v) way).1.load
          (({ c with stats } : Cache).writeBack m (index v) way).2 (index v) way host phys,
          (({ c with stats } : Cache).writeBack m (index v) way).2)) := by
  simp only [touch]
  cases hf : (c.set (index v)).find? host with
  | some way => exact .inl ⟨way, _, rfl, rfl⟩
  | none => exact .inr ⟨LineSet.find?_eq_none hf, _, _, rfl⟩

/-- The counters have no part in what a write-back writes. -/
theorem memory_writeBack_stats (c : Cache) (m : Memory) (stats : Stats) (i : Nat) (way : Way) :
    (({ c with stats } : Cache).writeBack m i way).2 = (c.writeBack m i way).2 := by
  have hl : ({ c with stats } : Cache).line i way = c.line i way := rfl
  simp only [writeBack, hl]
  split <;> rfl

theorem touch_of_hit {v : GuestAddress} {host : HostAddress}
    (hf : (c.set (index v)).find? host = some way) (phys : GuestAddress) :
    (c.touch m v host phys).1 = way ∧
      (∀ j w, (c.touch m v host phys).2.1.line j w = c.line j w) ∧
        (c.touch m v host phys).2.2 = m := by
  simp only [touch, hf]
  exact ⟨trivial, fun _ _ => rfl, trivial⟩

/-- A miss fills the victim, and changes memory as writing the victim back does. -/
theorem touch_of_miss {v : GuestAddress} {host : HostAddress}
    (hf : (c.set (index v)).find? host = none) (phys : GuestAddress) :
    (c.touch m v host phys).1 = (c.set (index v)).victim ∧
      (∀ j < setCount, ∀ w, (c.touch m v host phys).2.1.line j w =
        if index v = j ∧ (c.set (index v)).victim = w then
          (c.line j w).filled (c.touch m v host phys).2.2 host phys
        else c.line j w) ∧
      (c.touch m v host phys).2.2 = (c.writeBack m (index v) (c.set (index v)).victim).2 := by
  have hi := index_lt v
  simp only [touch, hf]
  refine ⟨trivial, fun j hj w => ?_, ?_⟩
  · rw [load_eq, line_setLine _ _ _ _ hi hj]
    split
    · rename_i h
      obtain ⟨rfl, rfl⟩ := h
      rw [line_writeBack _ hi hi, if_pos ⟨rfl, rfl⟩]
      rfl
    · rename_i h
      rw [line_writeBack _ hi hj, if_neg h]
      rfl
  · exact memory_writeBack_stats _ _ _ _ _

section

variable {host : HostAddress}

/-- Filling a way of a set that does not hold the page yet keeps the cache coherent. -/
theorem Coherent.load (h : Coherent c m) (free : (c.set (hostIndex host)).find? host = none)
    (way : Way) (phys : GuestAddress) : Coherent (c.load m (hostIndex host) way host phys) m := by
  refine h.setLine (hostIndex_lt host) (fun _ => toNat_pageBase_mod host) ?_ ?_
  · intro other _ hv _ hp
    have hf := LineSet.find?_eq_none free other
    have hh : (c.line (hostIndex host) other).tag.holds host = true := Tag.holds_iff.2 ⟨hv, hp⟩
    rw [line, hf] at hh
    cases hh
  · intro _ _ k hk
    exact get_filled _ m host phys hk

/-- A fill changes nothing that is seen, if what it replaces has been written back. -/
theorem seen_load (h : Coherent c m) (free : (c.set (hostIndex host)).find? host = none)
    (hd : (c.line (hostIndex host) way).tag.valid = true →
      (c.line (hostIndex host) way).tag.dirty = false) (phys : GuestAddress) :
    (c.load m (hostIndex host) way host phys).seen m = c.seen m := by
  funext b
  have hl := h.load free way phys
  rw [load_eq] at hl ⊢
  rw [seen_setLine h hl (hostIndex_lt host)]
  split
  · rename_i hb
    obtain ⟨hi, hh⟩ := hb
    have hp : host.pageBase = b.pageBase := (Tag.holds_iff.1 hh).2
    have hf : ∀ w, (c.line (hostIndex b) w).tag.holds b = false := by
      intro w
      rw [hi, ← Tag.holds_congr _ hp]
      exact LineSet.find?_eq_none free w
    rw [seen_of_free hf, get_filled _ m host phys (hostOffset_lt b), ← hi,
      lineAddress_add_hostOffset hp]
  · split
    · rename_i hb
      obtain ⟨hi, hh⟩ := hb
      rw [← hi] at hh hd
      rw [seen_of_holds h hh, h.get_clean hh (hd (Tag.holds_iff.1 hh).1)]
    · rfl

/-- Bringing in the line of an address changes nothing that is seen, and the way that it names holds
the address. -/
theorem touch_spec (h : Coherent c m) {v : GuestAddress} (hv : index v = hostIndex host)
    (phys : GuestAddress) :
    Coherent (c.touch m v host phys).2.1 (c.touch m v host phys).2.2 ∧
      (c.touch m v host phys).2.1.seen (c.touch m v host phys).2.2 = c.seen m ∧
        ((c.touch m v host phys).2.1.line (hostIndex host)
          (c.touch m v host phys).1).tag.holds host = true := by
  have hi := hostIndex_lt host
  simp only [touch, hv]
  cases hf : (c.set (hostIndex host)).find? host with
  | some way => exact ⟨h.stats _, rfl, LineSet.find?_eq_some hf⟩
  | none =>
    generalize (c.set (hostIndex host)).victim = way
    generalize hc : ({ c with stats := { c.stats with misses := c.stats.misses + 1 } } : Cache) = c₁
    have h₁ : Coherent c₁ m := hc ▸ h.stats _
    have hs₁ : c₁.seen m = c.seen m := by rw [← hc, seen_stats]
    have hw := h₁.writeBack hi way
    have hfree : ((c₁.writeBack m (hostIndex host) way).1.set (hostIndex host)).find? host =
        none := by
      cases hf' : ((c₁.writeBack m (hostIndex host) way).1.set (hostIndex host)).find? host with
      | none => rfl
      | some w =>
        have hh := LineSet.find?_eq_some hf'
        have hn := LineSet.find?_eq_none hf w
        rw [← line, holds_line_writeBack m hi hi, ← hc] at hh
        exact absurd (hh.symm.trans hn) (by decide)
    refine ⟨hw.load hfree way phys, ?_, ?_⟩
    · rw [seen_load hw hfree (clean_writeBack m hi), seen_writeBack h₁ hi, hs₁]
    · rw [load_eq, line_setLine _ _ _ _ hi hi, if_pos ⟨rfl, rfl⟩]
      exact Tag.holds_iff.2 ⟨rfl, rfl⟩

end

end GuestMemory.Cache
