import GuestMemory.Proofs.Access.Faults
import GuestMemory.Proofs.Access.Shown

/-!
A load right after a store of the same bytes. Neither the page nor the set of one byte is that of a
byte on the next page, so what storing one byte brings in or writes back is never another byte of
the access; and the load finds each byte where the store has put it, in whatever way that is.
-/
namespace GuestMemory.Space

open Cache (Aligned Beside)

variable {σ : Type} {s : Space σ} {w : Width} {v : GuestAddress} {a : HostAddress}
  {loc : Nat → HostAddress}

/-- Between `s` and `t` bytes are stored from `v` on: loads give them, and what loads give of the
bytes beside them stays. -/
structure Stores (s t : Space σ) (v : GuestAddress) (loc : Nat → HostAddress) (bs : List UInt8) :
    Prop where
  stored : ∀ i (hi : i < bs.length), t.shown (v + UInt32.ofNat i) (loc i) = bs[i]
  kept : ∀ u b, (∀ i < bs.length, Beside (loc i) b ∧ loc i ≠ b) → t.shown u b = s.shown u b

theorem Stores.nil (s : Space σ) (v : GuestAddress) (loc : Nat → HostAddress) :
    s.Stores s v loc [] :=
  ⟨fun i hi => absurd hi (Nat.not_lt_zero i), fun _ _ _ => rfl⟩

/-- A byte, and then those after it, each beside it. -/
theorem Stores.cons {t k : Space σ} {x : UInt8} {bs : List UInt8}
    (head : s.Stores t v loc [x]) (tail : t.Stores k (v + 1) (fun i => loc (i + 1)) bs)
    (apart : ∀ i < bs.length, Beside (loc (i + 1)) (loc 0) ∧ loc (i + 1) ≠ loc 0) :
    s.Stores k v loc (x :: bs) := by
  constructor
  · intro i hi
    cases i with
    | zero => exact (tail.kept _ _ apart).trans (head.stored 0 Nat.zero_lt_one)
    | succ i =>
      rw [← add_one_add]
      exact tail.stored i (Nat.lt_of_succ_lt_succ hi)
  · intro u b hb
    have hhead : ∀ i < [x].length, Beside (loc i) b ∧ loc i ≠ b := by
      intro i hi
      rw [Nat.lt_one_iff.1 hi]
      exact hb 0 (Nat.zero_lt_succ _)
    exact (tail.kept u b fun i hi => hb (i + 1) (Nat.succ_lt_succ hi)).trans (head.kept u b hhead)

section

variable (hm : a.toNat % 4096 = v.toNat % 4096) {x : Word w}
  (side : ∀ i < w.bytes, loc i = a + UInt64.ofNat i)

include hm side

/-- A store through the cache that fits its line. Bytes of other sets stay as they are, also where
they are not cached, since what is written back on the way is of this set. -/
theorem stores_writeCached (h : s.cache.Aligned) (hc : s.isCached v = true)
    (fits : Cache.Fits v w) :
    s.Stores (s.writeCached v a x fits) v loc x.bytes := by
  have hl : x.bytes.length = w.bytes := Word.length_bytes x
  have hpage : v.toNat % 4096 + w.bytes ≤ 4096 := by
    rw [Cache.Fits, Cache.offset_eq] at fits
    simp only [Cache.lineSize] at fits
    omega
  obtain ⟨hstored, hkept⟩ := Cache.write_beside (m := s.memory) h hm (s.tagAddress v) x fits
  have hw := s.wiring_writeCached v a x fits
  constructor
  · intro i hi
    rw [shown, isCached_of_wiring hw, s.isCached_add (by omega), if_pos hc, side i (hl ▸ hi)]
    exact hstored i hi
  · intro u b hb
    have ha : Beside a b := by
      have h0 := (hb 0 (hl ▸ w.bytes_pos)).1
      rwa [side 0 w.bytes_pos, show UInt64.ofNat 0 = 0 from rfl, UInt64.add_zero] at h0
    obtain ⟨hmem, hseen⟩ := hkept b ha
    rw [shown, shown, isCached_of_wiring hw]
    split
    · exact hseen fun i hi => side i (hl ▸ hi) ▸ (hb i hi).2
    · exact hmem

/-- A store to memory that does not leave its page. Lines show what they did. -/
theorem stores_store (hc : ¬s.isCached v = true) (hpage : v.toNat % 4096 + w.bytes ≤ 4096) :
    s.Stores { s with memory := s.memory.store a x } v loc x.bytes := by
  have hl : x.bytes.length = w.bytes := Word.length_bytes x
  have hputs : Puts s.memory.byte loc x.bytes (s.memory.write a x.bytes).byte :=
    s.memory.puts_write (by omega) fun i hi => side i (hl ▸ hi)
  have hsame : ∀ u, isCached { s with memory := s.memory.store a x } u = s.isCached u :=
    fun u => rfl
  constructor
  · intro i hi
    rw [shown, hsame, s.isCached_add (by omega), if_neg hc]
    exact hputs.stored i hi
  · intro u b hb
    have hmem := hputs.kept b fun i hi => (hb i hi).2
    rw [shown, shown, hsame]
    split
    · exact Cache.seen_eq_of_line (fun _ => rfl) hmem
    · exact hmem

end

/-- A byte that is stored is loaded again, and the bytes beside it are loaded as before. -/
theorem stores_writeByte (h : s.cache.Aligned) (ha : s.virtual.resolve v = .host a)
    (hm : a.toNat % 4096 = v.toNat % 4096) (hloc : loc 0 = a) (x : UInt8) :
    s.Stores (s.writeByte v (Word.ofBytes .w8 [x])) v loc [x] := by
  have hside : ∀ i < Width.w8.bytes, loc i = a + UInt64.ofNat i := by
    intro i hi
    rw [Nat.lt_one_iff.1 hi, hloc, show UInt64.ofNat 0 = 0 from rfl, UInt64.add_zero]
  have hb : (Word.ofBytes .w8 [x]).bytes = [x] := Word.bytes_ofBytes rfl
  by_cases hc : s.isCached v = true
  · have hs := stores_writeCached hm (x := Word.ofBytes .w8 [x]) hside h hc (fits_w8 v)
    rwa [← writeByte_cached ha hc, hb] at hs
  · have hs := stores_store hm (x := Word.ofBytes .w8 [x]) hside hc (by
      have := Nat.mod_lt v.toNat (show 0 < 4096 by decide)
      exact this)
    have he : s.writeByte v (Word.ofBytes .w8 [x]) =
        { s with memory := s.memory.store a (Word.ofBytes .w8 [x]) } := by
      rw [writeByte]
      simp only [ha, hc, Bool.false_eq_true, if_false]
    rwa [← he, hb] at hs

/-- Byte by byte: what is brought in and written back for a byte is beside those before it. -/
theorem stores_writeBytes {bs : List UInt8} (h : s.cache.Aligned)
    (hm : s.virtual.Shows fun _ => True) (backs : Backs s.virtual.resolve v bs.length loc)
    (apart : ∀ i < bs.length, ∀ j < bs.length, i ≠ j → Beside (loc i) (loc j) ∧ loc i ≠ loc j) :
    s.Stores (s.writeBytes v bs) v loc bs := by
  induction bs generalizing s v loc with
  | nil => exact .nil s v loc
  | cons x bs ih =>
    have ha := backs.head (Nat.zero_lt_succ bs.length)
    have hhead := stores_writeByte h ha (hm.of_resolve ha).1 rfl x
    have hvirtual : (s.writeByte v (Word.ofBytes .w8 [x])).virtual = s.virtual :=
      congrArg Wiring.virtual (s.wiring_writeByte v _)
    have htail : Backs (s.writeByte v (Word.ofBytes .w8 [x])).virtual.resolve (v + 1) bs.length
        fun i => loc (i + 1) := hvirtual ▸ backs.tail
    have hrest := ih ((accessKeeps_cache isKept_aligned).writeByte h v _) (hvirtual ▸ hm) htail
      fun i hi j hj hne => apart _ (Nat.succ_lt_succ hi) _ (Nat.succ_lt_succ hj)
        fun he => hne (Nat.succ.inj he)
    exact hhead.cons hrest fun i hi => apart _ (Nat.succ_lt_succ hi) _ (Nat.zero_lt_succ _)
      (Nat.succ_ne_zero i)

/-- A store to host memory, on whatever paths its bytes go. -/
theorem stores_write (h : s.cache.Aligned) (hm : s.virtual.Shows fun _ => True)
    (backs : Backs s.virtual.resolve v w.bytes loc) (x : Word w) :
    s.Stores (s.write v x) v loc x.bytes := by
  have ha := backs.head w.bytes_pos
  have hw := w.bytes_le
  have hbytes : s.Stores (s.writeBytes v x.bytes) v loc x.bytes := by
    have hl : x.bytes.length = w.bytes := Word.length_bytes x
    refine stores_writeBytes h hm (hl ▸ backs) fun i hi j hj hne => ⟨?_, fun he => hne ?_⟩
    · exact beside_of_backs hm backs (by omega) i (hl ▸ hi) j (hl ▸ hj)
    · exact backs.injective hm (by omega) (hl ▸ hi) (hl ▸ hj) he
  rw [write]
  simp only [ha]
  by_cases hs : straddles v w = true
  · rw [if_pos hs]
    exact hbytes
  · have hpage := le_of_not_straddles hs
    have hside := backs.side_by_side hpage
    have hmod := (hm.of_resolve ha).1
    rw [if_neg hs]
    by_cases hc : s.isCached v = true
    · rw [if_pos hc]
      split
      · rename_i fits
        exact stores_writeCached hmod hside h hc fits
      · exact hbytes
    · rw [if_neg hc]
      exact stores_store hmod hside hc hpage

/-- After bytes have been stored they are all shown. -/
theorem Stores.shownBytes {t : Space σ} {bs : List UInt8} (h : s.Stores t v loc bs) :
    t.shownBytes v loc bs.length = bs := by
  apply List.ext_getElem
  · simp [Space.shownBytes]
  · intro i hi hi'
    simp only [Space.shownBytes, List.getElem_map, List.getElem_range]
    exact h.stored i hi'

/-- An access to host memory does not run into a page that faults. -/
theorem not_faulting_of_backs (backs : Backs s.virtual.resolve v w.bytes loc) :
    ¬s.Faulting w v := by
  intro hf
  cases hf with
  | first hf =>
    rw [backs.head w.bytes_pos] at hf
    exact hf
  | next ha hs hf =>
    rw [backs _ (lead_lt_of_straddles ha hs)] at hf
    exact hf

/-- Whatever the cache holds and however the pages are cached, a load right after a store of host
memory gives what was stored, and neither of them raises an exception. -/
theorem read_write_same (h : Reachable (fun _ _ => True) s)
    (backs : Backs s.virtual.resolve v w.bytes loc) (x : Word w) :
    ((s.write v x).read w v).1 = x ∧ ¬s.Raises (·.write v x) ∧
      ¬(s.write v x).Raises (fun t => (t.read w v).2) ∧
        ((s.write v x).read w v).2.pending = s.pending := by
  have hm := shows_of_reachable h
  have ha := aligned_of_reachable h
  have hvirtual : (s.write v x).virtual = s.virtual := congrArg Wiring.virtual (s.wiring_write v x)
  have hback : Backs (s.write v x).virtual.resolve v w.bytes loc := hvirtual ▸ backs
  have hread := read_shown ((accessKeeps_cache isKept_aligned).write ha v x) (hvirtual ▸ hm) hback
  have hshown : (s.write v x).shownBytes v loc w.bytes = x.bytes := by
    have hs := (stores_write ha hm backs x).shownBytes
    rwa [Word.length_bytes] at hs
  refine ⟨?_, fun hr => not_faulting_of_backs backs (.of_raises_write hr),
    fun hr => not_faulting_of_backs hback (.of_raises_read hr), ?_⟩
  · rw [hread, hshown, Word.ofBytes_bytes]
  · rw [pending_read_of_not_faulting (not_faulting_of_backs hback),
      pending_write_of_not_faulting (not_faulting_of_backs backs)]

/-- One page of memory at two addresses, of which the first is cached. The last line of the page is
in both ways, with different bytes, and one of them waits to be written back. -/
def mixed : Space Unit :=
  ((made false true).run [.allocate "ram" 0x1000 .readWrite,
    .projectBlock 0x1000 ⟨0, 0x1000⟩ 0x1000, .projectBlock 0x2000 ⟨0, 0x1000⟩ 0x1000,
    .control (.setConfig 0x10000), .control (.setEntry 0 { lo1 := 0x18 }),
    .write .w32 0x1FFC 0x11223344, .write .w32 0x2FFC 0x55667788,
    .cacheOp .indexStoreTag 0x1FC0 Cache.Tag.lrfFlag, .read .w32 0x1FFC,
    .cacheOp .indexStoreTag 0x1FC0 (Cache.Tag.validFlag ||| Cache.Tag.dirtyFlag)]).2

/-- A word half in the cached page and half in the other. -/
theorem read_write_same_mixed :
    Reachable (fun _ _ => True) mixed ∧
      (mixed.isCached 0x1FFE = true ∧ mixed.isCached 0x2000 = false) ∧
        (∀ way, (mixed.cache.line 63 way).tag.holds 0x700000000FFE = true) ∧
          (∀ x : Word .w32, ((mixed.write 0x1FFE x).read .w32 0x1FFE).1 = x) := by
  have reach : Reachable (fun _ _ => True) mixed :=
    ⟨made false true, isFresh_made false true, leads_run fun _ _ _ => trivial⟩
  have backs : Backs mixed.virtual.resolve 0x1FFE Width.w32.bytes fun i =>
      if i < 2 then 0x700000000FFE + UInt64.ofNat i else 0x700000000000 + UInt64.ofNat (i - 2) := by
    unfold Backs
    decide +kernel
  refine ⟨reach, ⟨?_, ?_⟩, ?_, fun x => (read_write_same reach backs x).1⟩ <;> decide +kernel

end GuestMemory.Space
