import GuestMemory.Proofs.Cache.Accesses

/-!
Accesses through a cache of which nothing is known but that its pages are aligned: lines may be stale,
flags may have been stored, a line may have two ways. A load still gives the bytes that are seen, a
store changes what is seen of its own, and at the other bytes of their line, and of the other sets,
both what is seen and memory stay as they are.
-/
namespace GuestMemory.Cache

/-- All tags, valid or not, have aligned pages. -/
def Aligned (c : Cache) : Prop :=
  ∀ i < setCount, ∀ way, (c.line i way).tag.hostPage.toNat % 4096 = 0

variable {c : Cache} {m : Memory} {i : Nat} {way : Way} {v : GuestAddress} {host b : HostAddress}

theorem aligned_empty : Aligned {} := by
  intro i _ way
  rw [tag_empty]
  rfl

theorem Aligned.setLine (h : c.Aligned) (hi : i < setCount) (way : Way) {l : Line}
    (hl : l.tag.hostPage.toNat % 4096 = 0) : (c.setLine i way l).Aligned := by
  intro j hj w
  rw [line_setLine c way w l hi hj]
  split
  · exact hl
  · exact h j hj w

theorem Aligned.clear (h : c.Aligned) (hi : i < setCount) (way : Way) : (c.clear i way).Aligned :=
  h.setLine hi way rfl

theorem Aligned.writeBack (h : c.Aligned) (m : Memory) (hi : i < setCount) (way : Way) :
    (c.writeBack m i way).1.Aligned := by
  intro j hj w
  rw [line_writeBack m hi hj]
  split <;> exact h j hj w

theorem Aligned.touch (h : c.Aligned) (m : Memory) (v : GuestAddress) (host : HostAddress)
    (phys : GuestAddress) : (c.touch m v host phys).2.1.Aligned := by
  obtain ⟨way, stats, -, ht⟩ | ⟨-, way, stats, ht⟩ := c.touch_cases m v host phys <;> rw [ht]
  · exact h
  · have hs : ({ c with stats } : Cache).Aligned := h
    exact (hs.writeBack m (index_lt v) way).setLine (index_lt v) way (toNat_pageBase_mod host)

theorem Aligned.write (h : c.Aligned) (m : Memory) {w : Width} (v : GuestAddress)
    (host : HostAddress) (phys : GuestAddress) (x : Word w) (fits : Fits v w) :
    (c.write m v host phys x fits).1.Aligned := by
  have ht := h.touch m v host phys
  exact ht.setLine (index_lt v) _ (ht _ (index_lt v) _)

theorem Aligned.hitOp (h : c.Aligned) (m : Memory) (op : Op) (v : GuestAddress)
    (host : HostAddress) : (c.hitOp m op v host).1.Aligned := by
  have hi := index_lt v
  simp only [Cache.hitOp]
  cases (c.set (index v)).find? host with
  | none => exact h
  | some way =>
    cases op with
    | hitInvalidate => exact h.clear hi way
    | hitWriteback => exact h.writeBack m hi way
    | hitWritebackInvalidate => exact (h.writeBack m hi way).clear hi way
    | _ => exact h

theorem Aligned.indexOp (h : c.Aligned) (m : Memory) (op : Op) (a : GuestAddress)
    (packed : UInt64) : (c.indexOp m op a packed).2.1.Aligned := by
  have hi := index_lt a
  cases op with
  | indexStoreTag => exact h.setLine hi _ (h _ hi (wayOf a))
  | indexWritebackInvalidate => exact (h.writeBack m hi (wayOf a)).clear hi (wayOf a)
  | indexInvalidate => exact h.clear hi (wayOf a)
  | _ => exact h

/-- A byte of the line of `host`, or of another set. -/
def Beside (host b : HostAddress) : Prop :=
  hostIndex b = hostIndex host → b.pageBase = host.pageBase

theorem find?_congr (s : LineSet) (h : b.pageBase = host.pageBase) : s.find? b = s.find? host := by
  simp only [LineSet.find?, Tag.holds_congr _ h]

/-- What is seen depends on the ways of one set that hold the byte, and on memory. -/
theorem seen_eq_of_line {c' : Cache} {m' : Memory}
    (hl : ∀ way, c'.line (hostIndex b) way = c.line (hostIndex b) way)
    (hm : m'.byte b = m.byte b) : c'.seen m' b = c.seen m b := by
  have hset : c'.set (hostIndex b) = c.set (hostIndex b) := by
    have h0 := hl 0
    have h1 := hl 1
    simp only [line, LineSet.line] at h0 h1
    cases hc : c.set (hostIndex b)
    cases hc' : c'.set (hostIndex b)
    simp_all
  simp only [seen, line, hset, hm]

/-- Bytes that a fill leaves alone: those of the other sets. -/
theorem seen_load_other (hi : i < setCount) (hb : hostIndex b ≠ i) (phys : GuestAddress) :
    (c.load m i way host phys).seen m b = c.seen m b := by
  refine seen_eq_of_line (fun w => ?_) rfl
  rw [load_eq, line_setLine c way w _ hi (hostIndex_lt b), if_neg fun h => hb h.1.symm]

theorem seen_writeBack_other (hi : i < setCount) (hb : hostIndex b ≠ i)
    (hm : (c.writeBack m i way).2.byte b = m.byte b) :
    (c.writeBack m i way).1.seen (c.writeBack m i way).2 b = c.seen m b := by
  refine seen_eq_of_line (fun w => ?_) hm
  rw [line_writeBack m hi (hostIndex_lt b), if_neg fun h => hb h.1.symm]

/-- A line that has been brought in is seen as it is in memory. -/
theorem seen_load_same (free : ∀ way, (c.line (hostIndex host) way).tag.holds host = false)
    (hi : hostIndex b = hostIndex host) (hp : b.pageBase = host.pageBase) (way : Way)
    (phys : GuestAddress) :
    ((c.load m (hostIndex host) way host phys).line (hostIndex host) way).data.get (hostOffset b) =
        m.byte b ∧
      (c.load m (hostIndex host) way host phys).seen m b = m.byte b := by
  have hlt := hostIndex_lt host
  have hline : ∀ w, (c.load m (hostIndex host) way host phys).line (hostIndex host) w =
      if way = w then (c.line (hostIndex host) way).filled m host phys
      else c.line (hostIndex host) w := by
    intro w
    rw [load_eq, line_setLine c way w _ hlt hlt]
    simp
  have hdata : ((c.line (hostIndex host) way).filled m host phys).data.get (hostOffset b) =
      m.byte b := by
    rw [get_filled _ m host phys (hostOffset_lt b), ← hi, lineAddress_add_hostOffset hp.symm]
  refine ⟨by rw [hline, if_pos rfl, hdata], ?_⟩
  rw [seen, hi, find?_congr _ hp]
  cases hf : ((c.load m (hostIndex host) way host phys).set (hostIndex host)).find? host with
  | none => rfl
  | some w =>
    have hh := LineSet.find?_eq_some hf
    rw [← line, hline] at hh
    by_cases hw : way = w
    · simp only [hline, if_pos hw, hdata]
    · rw [if_neg hw, free w] at hh
      cases hh

/-- What bringing in a line does to bytes that are beside no other line of its set. -/
theorem touch_beside (h : c.Aligned) (hv : index v = hostIndex host) (hb : Beside host b)
    (phys : GuestAddress) :
    (c.touch m v host phys).2.1.seen (c.touch m v host phys).2.2 b = c.seen m b ∧
      (c.touch m v host phys).2.2.byte b = m.byte b ∧
        (hostIndex b = hostIndex host →
          ((c.touch m v host phys).2.1.line (hostIndex host)
            (c.touch m v host phys).1).data.get (hostOffset b) = c.seen m b) := by
  have hi := hostIndex_lt host
  have hcases := c.touch_cases m v host phys
  rw [hv] at hcases
  obtain ⟨way, stats, hf, ht⟩ | ⟨hfree, way, stats, ht⟩ := hcases <;> rw [ht]
  · refine ⟨rfl, rfl, fun hix => ?_⟩
    rw [seen, hix, find?_congr _ (hb hix), hf]
    rfl
  · generalize hc : ({ c with stats } : Cache) = c₁
    have hseen : c₁.seen m = c.seen m := by rw [← hc, seen_stats]
    have hline : ∀ w, c₁.line (hostIndex host) w = c.line (hostIndex host) w := by
      rw [← hc]
      exact fun _ => rfl
    have hal : (c₁.line (hostIndex host) way).tag.hostPage.toNat % 4096 = 0 := by
      rw [hline]
      exact h _ hi way
    -- what is written back is not the line of `b`, which no way holds
    have hout : ¬(hostIndex b = hostIndex host ∧
        (c₁.line (hostIndex host) way).tag.holds b = true) := by
      rintro ⟨hix, hh⟩
      rw [Tag.holds_congr _ (hb hix), hline, hfree] at hh
      cases hh
    have hbyte := byte_writeBack_other (m := m) hal hi hout
    by_cases hix : hostIndex b = hostIndex host
    · have hfree' : ∀ w, ((c₁.writeBack m (hostIndex host) way).1.line (hostIndex host) w).tag.holds
          host = false := by
        intro w
        rw [holds_line_writeBack m hi hi, hline, hfree]
      have hm : c.seen m b = m.byte b := by
        refine seen_of_free fun w => ?_
        rw [hix, Tag.holds_congr _ (hb hix), hfree]
      obtain ⟨hdata, hs⟩ := seen_load_same (m := (c₁.writeBack m (hostIndex host) way).2)
        hfree' hix (hb hix) way phys
      exact ⟨by rw [hs, hbyte, hm], hbyte, fun _ => by rw [hdata, hbyte, hm]⟩
    · refine ⟨?_, hbyte, fun h => absurd h hix⟩
      rw [seen_load_other hi hix, seen_writeBack_other hi hix hbyte, hseen]

/-- A load gives what is seen. -/
theorem read_eq_seen (h : c.Aligned) (hm : host.toNat % 4096 = v.toNat % 4096) (w : Width)
    (phys : GuestAddress) (fits : Fits v w) :
    (c.read m w v host phys fits).1 =
      Word.ofBytes w (gather (c.seen m) (fun i => host + UInt64.ofNat i) w.bytes) := by
  have hv : index v = hostIndex host := (hostIndex_of_mod hm).symm
  have he : (c.read m w v host phys fits).1 =
      Word.ofBytes w (((c.touch m v host phys).2.1.line (index v)
        (c.touch m v host phys).1).slice (offset v) w.bytes) := rfl
  rw [he, hv, Line.slice, gather]
  congr 1
  refine List.map_congr_left fun i hi => ?_
  obtain ⟨hix, ho, hp⟩ := host_add hm fits (List.mem_range.1 hi)
  rw [← ho]
  exact (touch_beside h hv (fun _ => hp) phys).2.2 hix

/-- A line that is filled is found in its way, if no way of the set held it before. -/
theorem find?_load (hi : i < setCount) (free : ∀ w, (c.line i w).tag.holds host = false) (way : Way)
    (phys : GuestAddress) : ((c.load m i way host phys).set i).find? host = some way := by
  have hline : ∀ w, ((c.load m i way host phys).set i).line w =
      if way = w then (c.line i way).filled m host phys else c.line i w := by
    intro w
    rw [← line, load_eq, line_setLine c way w _ hi hi]
    simp
  have hholds : (((c.load m i way host phys).set i).line way).tag.holds host = true := by
    rw [hline, if_pos rfl]
    exact Tag.holds_iff.2 ⟨rfl, rfl⟩
  cases hf : ((c.load m i way host phys).set i).find? host with
  | none =>
    rw [LineSet.find?_eq_none hf way] at hholds
    cases hholds
  | some w =>
    have hw := LineSet.find?_eq_some hf
    by_cases he : way = w
    · rw [he]
    · rw [hline, if_neg he, free w] at hw
      cases hw

/-- A line that has been brought in is found in the way that it was brought into. -/
theorem find?_touch (hv : index v = hostIndex host) (phys : GuestAddress) :
    ((c.touch m v host phys).2.1.set (hostIndex host)).find? host =
      some (c.touch m v host phys).1 := by
  have hi := hostIndex_lt host
  have hcases := c.touch_cases m v host phys
  rw [hv] at hcases
  obtain ⟨way, stats, hf, ht⟩ | ⟨hfree, way, stats, ht⟩ := hcases <;> rw [ht]
  · exact hf
  · refine find?_load hi (fun w => ?_) way phys
    rw [holds_line_writeBack m hi hi]
    exact hfree w

/-- A set whose ways hold the same lines finds them in the same ways. -/
theorem find?_of_holds {s s' : LineSet}
    (h : ∀ w, (s'.line w).tag.holds host = (s.line w).tag.holds host) : s'.find? host = s.find? host := by
  have h0 : s'.first.tag.holds host = s.first.tag.holds host := h 0
  have h1 : s'.second.tag.holds host = s.second.tag.holds host := h 1
  rw [LineSet.find?, LineSet.find?, h0, h1]

def Line.stored (l : Line) (start : Nat) (bs : List UInt8) : Line :=
  { l.put start bs with tag := { l.tag with dirty := true } }

theorem write_eq (c : Cache) (m : Memory) {w : Width} (v : GuestAddress) (host : HostAddress)
    (phys : GuestAddress) (x : Word w) (fits : Fits v w) :
    c.write m v host phys x fits =
      ((c.touch m v host phys).2.1.setLine (index v) (c.touch m v host phys).1
        (((c.touch m v host phys).2.1.line (index v) (c.touch m v host phys).1).stored (offset v)
          x.bytes), (c.touch m v host phys).2.2) := rfl

/-- Storing in the line that is found changes what is seen at its offsets. -/
theorem seen_stored {start : Nat} {bs : List UInt8} (hf : (c.set (hostIndex host)).find? host = some way)
    (fits : start + bs.length ≤ lineSize) (hb : Beside host b) :
    (c.setLine (hostIndex host) way ((c.line (hostIndex host) way).stored start bs)).seen m b =
      if h : hostIndex b = hostIndex host ∧ start ≤ hostOffset b ∧ hostOffset b - start < bs.length then
        bs[hostOffset b - start]
      else c.seen m b := by
  have hi := hostIndex_lt host
  have hline := fun l w => line_setLine c way w l hi hi
  by_cases hix : hostIndex b = hostIndex host
  · have hold : (c.set (hostIndex host)).find? b = some way := by rw [find?_congr _ (hb hix), hf]
    have hnew : ((c.setLine (hostIndex host) way ((c.line (hostIndex host) way).stored start bs)).set
        (hostIndex host)).find? b = some way := by
      rw [← hold]
      refine find?_of_holds fun w => ?_
      rw [← line, hline, ← line]
      split
      · rename_i he
        rw [he.2]
        rfl
      · rfl
    simp only [seen, hix, hnew, hold, hline, and_self, if_true, true_and]
    exact get_put _ fits (hostOffset_lt b)
  · rw [dif_neg fun h => hix h.1]
    refine seen_eq_of_line (fun w => ?_) rfl
    rw [line_setLine c way w _ hi (hostIndex_lt b), if_neg fun h => hix h.1.symm]

/-- A store changes what is seen at its own bytes. What is seen at other bytes stays, and so does
memory, but for what is in other lines of the set. -/
theorem write_beside (h : c.Aligned) (hm : host.toNat % 4096 = v.toNat % 4096) {w : Width}
    (phys : GuestAddress) (x : Word w) (fits : Fits v w) :
    (∀ k (hk : k < x.bytes.length), (c.write m v host phys x fits).1.seen
        (c.write m v host phys x fits).2 (host + UInt64.ofNat k) = x.bytes[k]) ∧
      ∀ b, Beside host b → (c.write m v host phys x fits).2.byte b = m.byte b ∧
        ((∀ k < x.bytes.length, host + UInt64.ofNat k ≠ b) →
          (c.write m v host phys x fits).1.seen (c.write m v host phys x fits).2 b = c.seen m b) := by
  have hv : index v = hostIndex host := (hostIndex_of_mod hm).symm
  have hlen : x.bytes.length = w.bytes := Word.length_bytes x
  have hfit : offset v + x.bytes.length ≤ lineSize := hlen ▸ fits
  rw [write_eq, hv]
  refine ⟨fun k hk => ?_, fun b hb => ⟨(touch_beside h hv hb phys).2.1, fun hout => ?_⟩⟩
  · obtain ⟨hix, ho, hp⟩ := host_add hm fits (hlen ▸ hk)
    rw [seen_stored (find?_touch hv phys) hfit fun _ => hp,
      dif_pos ⟨hix, ho ▸ Nat.le_add_right _ _, by omega⟩]
    simp only [ho, Nat.add_sub_cancel_left]
  · rw [seen_stored (find?_touch hv phys) hfit hb, dif_neg]
    · exact (touch_beside h hv hb phys).1
    · rintro ⟨hix, hle, hlt⟩
      exact hout _ hlt (host_add_offset hm hix (hb hix) hle)

end GuestMemory.Cache
