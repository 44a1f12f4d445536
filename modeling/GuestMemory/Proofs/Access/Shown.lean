import GuestMemory.Proofs.Access.Cached
import GuestMemory.Proofs.Access.Keeps
import GuestMemory.Proofs.Cache.Aligned
import GuestMemory.Proofs.Cache.TlbMatch

/-!
What a load of host memory gives in any state, whatever is in the cache: each byte is seen through
the cache or in memory, as its address is cached or not. So giving up the space's hold on its cache
changes what a load gives exactly where a line has something else than memory.
-/
namespace GuestMemory

namespace Space

open Cache (Aligned Beside)

variable {σ : Type} {s : Space σ} {w : Width} {v : GuestAddress} {a : HostAddress}
  {loc : Nat → HostAddress}

/-- The byte that a load from `v` gives, if the byte of memory behind `v` is `a`. -/
def shown (s : Space σ) (v : GuestAddress) (a : HostAddress) : UInt8 :=
  if s.isCached v then s.seen a else s.memory.byte a

def shownBytes (s : Space σ) (v : GuestAddress) (loc : Nat → HostAddress) (n : Nat) : List UInt8 :=
  (List.range n).map fun i => s.shown (v + UInt32.ofNat i) (loc i)

theorem shownBytes_succ (s : Space σ) (v : GuestAddress) (loc : Nat → HostAddress) (n : Nat) :
    s.shownBytes v loc (n + 1) =
      s.shown v (loc 0) :: s.shownBytes (v + 1) (fun i => loc (i + 1)) n := by
  rw [shownBytes, List.range_succ_eq_map, List.map_cons, List.map_map, shownBytes]
  congr 1
  · rw [add_ofNat_zero]
  · refine List.map_congr_left fun i _ => ?_
    simp only [Function.comp_apply, Nat.succ_eq_add_one, add_one_add]

theorem isKept_aligned : Cache.IsKept Aligned where
  empty := Cache.aligned_empty
  read m _ v host phys _ h := h.touch m v host phys
  write m _ v host phys x fits h := h.write m v host phys x fits
  hitOp m op v host h := h.hitOp m op v host

theorem aligned_of_reachable (h : Reachable (fun _ _ => True) s) : s.cache.Aligned :=
  h.keeps_cache isKept_aligned fun t op v packed ht _ => ht.indexOp t.memory op v packed

theorem shows_of_reachable (h : Reachable (fun _ _ => True) s) : s.virtual.Shows fun _ => True := by
  have hm : s.maps.Shows fun _ => True :=
    h.keeps (P := fun t => t.maps.Shows fun _ => True) (fun t ht => ht.maps_shows _)
      fun t c ht _ => perform_keeps (s := t.drained) (P := fun t => t.maps.Shows fun _ => True)
        (fun _ d hd ht => (mapStep_perform hd).shows (fun _ _ _ => trivial) ht (d.brings_true _)) ht c
  exact hm.virtual

/-- One byte: what is shown, and nothing changes of what is shown beside it. -/
theorem readByte_shown (h : s.cache.Aligned) (ha : s.virtual.resolve v = .host a)
    (hm : a.toNat % 4096 = v.toNat % 4096) :
    (s.readByte v).1.bytes = [s.shown v a] ∧
      ∀ u b, Beside a b → (s.readByte v).2.shown u b = s.shown u b := by
  by_cases hc : s.isCached v = true
  · rw [readByte_cached ha hc, shown, if_pos hc]
    constructor
    · have hr := Cache.read_eq_seen (m := s.memory) h hm .w8 (s.tagAddress v) (fits_w8 v)
      refine (congrArg Word.bytes hr).trans ?_
      rw [Word.bytes_ofBytes rfl]
      simp [gather, seen]
    · intro u b hb
      have ht := Cache.touch_beside (m := s.memory) h (Cache.hostIndex_of_mod hm).symm hb
        (s.tagAddress v)
      rw [shown, shown, isCached_of_wiring (s.wiring_readCached .w8 v a (fits_w8 v)) u]
      split
      · exact ht.1
      · exact ht.2.1
  · have he : s.readByte v = (s.memory.load .w8 a, s) := by
      rw [readByte]
      simp only [ha, hc, Bool.false_eq_true, if_false]
    rw [he, shown, if_neg hc]
    exact ⟨Word.bytes_ofBytes rfl, fun _ _ _ => rfl⟩

/-- Byte by byte: each byte is beside those before it, so it is still shown as at the start. -/
theorem readBytes_shown {n : Nat} (h : s.cache.Aligned)
    (hm : s.virtual.Shows fun _ => True) (backs : Backs s.virtual.resolve v n loc)
    (beside : ∀ i < n, ∀ j < n, Beside (loc i) (loc j)) :
    (s.readBytes v n).1 = s.shownBytes v loc n := by
  induction n generalizing s v loc with
  | zero => rfl
  | succ n ih =>
    have ha := backs.head (Nat.zero_lt_succ n)
    obtain ⟨hvalue, hshown⟩ := readByte_shown h ha (hm.of_resolve ha).1
    have hvirtual : (s.readByte v).2.virtual = s.virtual :=
      congrArg Wiring.virtual (s.wiring_readByte v)
    have htail : Backs (s.readByte v).2.virtual.resolve (v + 1) n fun i => loc (i + 1) :=
      hvirtual ▸ backs.tail
    have haligned : (s.readByte v).2.cache.Aligned :=
      (accessKeeps_cache isKept_aligned).readByte h v
    have hrest := ih haligned (hvirtual ▸ hm) htail fun i hi j hj =>
      beside _ (Nat.succ_lt_succ hi) _ (Nat.succ_lt_succ hj)
    show (s.readByte v).1.bytes ++ ((s.readByte v).2.readBytes (v + 1) n).1 = _
    rw [hvalue, hrest, shownBytes_succ]
    refine congrArg (s.shown v (loc 0) :: ·) (List.map_congr_left fun i hi => hshown _ _ ?_)
    exact beside _ (Nat.zero_lt_succ n) _ (Nat.succ_lt_succ (List.mem_range.1 hi))

/-- No two bytes of an access are in different lines of one set. -/
theorem beside_of_backs {n : Nat} (hm : s.virtual.Shows fun _ => True)
    (backs : Backs s.virtual.resolve v n loc) (hn : n ≤ 64) :
    ∀ i < n, ∀ j < n, Beside (loc i) (loc j) := by
  intro i hi j hj hix
  have hi' := hm.of_resolve (backs i hi)
  have hj' := hm.of_resolve (backs j hj)
  rw [Cache.hostIndex_of_mod hi'.1, Cache.hostIndex_of_mod hj'.1, Cache.index_eq,
    Cache.index_eq, UInt32.toNat_add, UInt32.toNat_add, UInt32.toNat_ofNat', UInt32.toNat_ofNat'] at hix
  have hpage : (v + UInt32.ofNat j).pageBase = (v + UInt32.ofNat i).pageBase := by
    apply UInt32.toNat_inj.1
    rw [GuestAddress.toNat_pageBase, GuestAddress.toNat_pageBase, UInt32.toNat_add, UInt32.toNat_add,
      UInt32.toNat_ofNat', UInt32.toNat_ofNat']
    omega
  exact hm.pageBase_congr hpage (backs i hi) (backs j hj)

theorem isCached_add (s : Space σ) {i : Nat} (hi : v.toNat % 4096 + i < 4096) :
    s.isCached (v + UInt32.ofNat i) = s.isCached v := by
  rw [isCached, s.control.isCached_congr (page_add_of_lt hi), ← isCached]

/-- An access that does not leave its page is cached as a whole or not at all. -/
theorem shownBytes_of_not_straddles (s : Space σ) (loc : Nat → HostAddress) {n : Nat}
    (hn : v.toNat % 4096 + n ≤ 4096) :
    s.shownBytes v loc n =
      gather (if s.isCached v then s.seen else s.memory.byte) loc n := by
  refine List.map_congr_left fun i hi => ?_
  have hi' : i < n := List.mem_range.1 hi
  rw [shown, s.isCached_add (by omega)]
  split <;> rfl

/-- A load of host memory gives the bytes that are shown. -/
theorem read_shown (h : s.cache.Aligned) (hm : s.virtual.Shows fun _ => True)
    (backs : Backs s.virtual.resolve v w.bytes loc) :
    (s.read w v).1 = Word.ofBytes w (s.shownBytes v loc w.bytes) := by
  have ha := backs.head w.bytes_pos
  have hbytes : (s.readBytewise w v).1 = Word.ofBytes w (s.shownBytes v loc w.bytes) := by
    have hn : w.bytes ≤ 64 := Nat.le_trans w.bytes_le (by decide)
    exact congrArg (Word.ofBytes w) (readBytes_shown h hm backs (beside_of_backs hm backs hn))
  rw [read]
  simp only [ha]
  by_cases hs : straddles v w = true
  · rw [if_pos hs]
    exact hbytes
  · have hpage := le_of_not_straddles hs
    have hside := backs.side_by_side hpage
    have hshown := s.shownBytes_of_not_straddles loc hpage
    rw [if_neg hs]
    by_cases hc : s.isCached v = true
    · rw [if_pos hc]
      split
      · rename_i fits
        rw [hshown, if_pos hc, gather_congr_loc hside]
        exact Cache.read_eq_seen h (hm.of_resolve ha).1 w (s.tagAddress v) fits
      · exact hbytes
    · rw [if_neg hc, hshown, if_neg hc]
      exact congrArg (Word.ofBytes w) (s.memory.read_eq_gather hside)

theorem ofBytes_inj {bs bs' : List UInt8} (h : bs.length = w.bytes) (h' : bs'.length = w.bytes) :
    Word.ofBytes w bs = Word.ofBytes w bs' ↔ bs = bs' := by
  refine ⟨fun he => ?_, congrArg _⟩
  rw [← Word.bytes_ofBytes h, he, Word.bytes_ofBytes h']

/-- Shutdown gives up the window, and leaves nothing in the cache. -/
theorem shutdown_eq (s : Space σ) :
    ∃ window journal, s.shutdown = { s with window, journal, cache := {} } := by
  rw [shutdown]
  cases s.window <;> exact ⟨_, _, rfl⟩

/-- With nothing in the cache memory itself is shown. -/
theorem shown_of_empty (h : s.cache = {}) (v : GuestAddress) (a : HostAddress) :
    s.shown v a = s.memory.byte a := by
  rw [shown, seen, h]
  split
  · exact Cache.seen_of_free fun way => by simp [Cache.line, Cache.set, Cache.LineSet.line]
  · rfl

/-- Shutdown changes no memory, and a load right after it gives what it gave before exactly if each
of its bytes was shown as it is in memory; so what a line has and memory has not is lost. -/
theorem read_shutdown_iff (h : Reachable (fun _ _ => True) s)
    (backs : Backs s.virtual.resolve v w.bytes loc) :
    s.shutdown.memory = s.memory ∧
      ((s.shutdown.read w v).1 = (s.read w v).1 ↔
        ∀ i < w.bytes, s.shown (v + UInt32.ofNat i) (loc i) = s.memory.byte (loc i)) := by
  have hm := shows_of_reachable h
  have hs := read_shown (aligned_of_reachable h) hm backs
  obtain ⟨window, journal, he⟩ := s.shutdown_eq
  rw [he]
  refine ⟨rfl, ?_⟩
  have hafter := read_shown (s := { s with window, journal, cache := {} }) Cache.aligned_empty hm backs
  rw [hs, hafter, ofBytes_inj (by simp [shownBytes]) (by simp [shownBytes]), shownBytes, shownBytes,
    List.map_inj_left]
  simp only [List.mem_range]
  refine forall₂_congr fun i _ => ?_
  rw [shown_of_empty rfl]
  exact eq_comm

/-- A word stored through the cache. -/
def stored : Space Unit :=
  ((made false true).run [.allocate "ram" 0x1000 .readWrite,
    .projectBlock 0x1000 ⟨0, 0x1000⟩ 0x1000, .control (.setConfig 0x10000),
    .control (.setEntry 0 { lo0 := 0x18, lo1 := 0x18 }), .write .w32 0x1000 0x11223344]).2

def flushed : Space Unit := (stored.step (.cacheOp .hitWriteback 0x1000 0)).2

theorem stored_reachable : Reachable (fun _ _ => True) stored :=
  ⟨made false true, isFresh_made false true, leads_run fun _ _ _ => trivial⟩

theorem flushed_reachable : Reachable (fun _ _ => True) flushed := by
  obtain ⟨s, fresh, hl⟩ := stored_reachable
  exact ⟨s, fresh, hl.tail ⟨.cacheOp .hitWriteback 0x1000 0, trivial, rfl⟩⟩

/-- A word that was written back comes through shutting down. -/
theorem read_shutdown_iff_flushed :
    Reachable (fun _ _ => True) flushed ∧
      Backs flushed.virtual.resolve 0x1000 4 (fun i => 0x700000000000 + UInt64.ofNat i) ∧
        (flushed.shutdown.read .w32 0x1000).1 = (flushed.read .w32 0x1000).1 := by
  have hb : Backs flushed.virtual.resolve 0x1000 Width.w32.bytes
      fun i => 0x700000000000 + UInt64.ofNat i := by
    unfold Backs
    decide +kernel
  refine ⟨flushed_reachable, hb, (read_shutdown_iff flushed_reachable hb).2.2 ?_⟩
  decide +kernel

/-- Without the write-back the word is lost. -/
theorem stored_lost :
    Reachable (fun _ _ => True) stored ∧
      Backs stored.virtual.resolve 0x1000 4 (fun i => 0x700000000000 + UInt64.ofNat i) ∧
        (stored.read .w32 0x1000).1 = 0x11223344 ∧ (stored.shutdown.read .w32 0x1000).1 = 0 := by
  refine ⟨stored_reachable, ?_, ?_⟩
  · unfold Backs
    decide +kernel
  · decide +kernel

end Space

end GuestMemory
