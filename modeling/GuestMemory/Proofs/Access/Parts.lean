import GuestMemory.Proofs.Access.Shown
import GuestMemory.Proofs.Cache.Parts

/-!
A wide access is the accesses to its bytes. Where it is split it is carried out so; in plain memory
its bytes lie side by side; and in a line of the cache the first byte brings in the line, in which all
others are hits. Only the count of hits tells the two apart.
-/
namespace GuestMemory.Space

variable {σ : Type} {s t : Space σ} {w : Width} {v : GuestAddress} {a : HostAddress}

def hit (s : Space σ) (n : Nat) : Space σ :=
  { s with cache := { s.cache with stats := { s.cache.stats with hits := s.cache.stats.hits + n } } }

theorem hit_hit (s : Space σ) (m n : Nat) : (s.hit m).hit n = s.hit (m + n) := by
  simp only [hit, Nat.add_assoc]

def touched (s : Space σ) (v : GuestAddress) (a : HostAddress) : Space σ :=
  { s with
    cache := (s.cache.touch s.memory v a (s.tagAddress v)).2.1
    memory := (s.cache.touch s.memory v a (s.tagAddress v)).2.2 }

def storing (s : Space σ) (i : Nat) (way : Cache.Way) (start : Nat) (bs : List UInt8) : Space σ :=
  { s with cache := s.cache.setLine i way ((s.cache.line i way).stored start bs) }

theorem readCached_eq (s : Space σ) (w : Width) (v : GuestAddress) (a : HostAddress)
    (fits : Cache.Fits v w) :
    s.readCached w v a fits =
      (Word.ofBytes w (((s.touched v a).cache.line (Cache.index v)
        (s.cache.touch s.memory v a (s.tagAddress v)).1).slice (Cache.offset v) w.bytes),
        s.touched v a) := rfl

theorem writeCached_eq (s : Space σ) (v : GuestAddress) (a : HostAddress) (x : Word w)
    (fits : Cache.Fits v w) :
    s.writeCached v a x fits =
      (s.touched v a).storing (Cache.index v) (s.cache.touch s.memory v a (s.tagAddress v)).1
        (Cache.offset v) x.bytes := rfl

theorem touched_of_find? {way : Cache.Way}
    (h : (s.cache.set (Cache.index v)).find? a = some way) :
    s.touched v a = s.hit 1 ∧ (s.cache.touch s.memory v a (s.tagAddress v)).1 = way := by
  have ht : s.cache.touch s.memory v a (s.tagAddress v) = (way, (s.hit 1).cache, s.memory) := by
    simp only [Cache.touch, h, hit]
  rw [touched, ht]
  exact ⟨rfl, rfl⟩

theorem storing_storing {i : Nat} (hi : i < Cache.setCount) (way : Cache.Way) (start : Nat)
    (b : UInt8) (bs : List UInt8) :
    (s.storing i way start [b]).storing i way (start + 1) bs = s.storing i way start (b :: bs) := by
  have hl : (s.storing i way start [b]).cache.line i way = (s.cache.line i way).stored start [b] := by
    rw [storing, Cache.line_setLine _ _ _ _ hi hi, if_pos ⟨rfl, rfl⟩]
  rw [storing, hl, ← Cache.Line.stored_cons]
  simp only [storing, Cache.setLine_setLine]

/-- The bytes of an access lie in one line, which a way holds. -/
structure Held (s : Space σ) (v : GuestAddress) (n : Nat) (i : Nat) (way : Cache.Way)
    (start : Nat) : Prop where
  cached : ∀ k < n, s.isCached (v + UInt32.ofNat k) = true
  index_eq : ∀ k < n, Cache.index (v + UInt32.ofNat k) = i
  offset_eq : ∀ k < n, Cache.offset (v + UInt32.ofNat k) = start + k
  found : ∀ k < n, ∃ b, s.virtual.resolve (v + UInt32.ofNat k) = .host b ∧
    (s.cache.set i).find? b = some way

namespace Held

variable {n i start : Nat} {way : Cache.Way}

/-- The first byte of an access to a held line is found in the way that holds it. -/
theorem head (h : s.Held v (n + 1) i way start) :
    s.isCached v = true ∧ Cache.index v = i ∧ Cache.offset v = start ∧
      ∃ b, s.virtual.resolve v = .host b ∧ (s.cache.set i).find? b = some way := by
  have h0 : v + UInt32.ofNat 0 = v := by
    rw [add_ofNat_zero]
  have hn := Nat.zero_lt_succ n
  have hc := h.cached 0 hn
  have hi := h.index_eq 0 hn
  have ho := h.offset_eq 0 hn
  have hf := h.found 0 hn
  rw [h0] at hc hi ho hf
  exact ⟨hc, hi, ho, hf⟩

/-- The other bytes are still held in a state that differs in nothing that holding is about. -/
theorem tail (h : s.Held v (n + 1) i way start) (hcached : ∀ u, t.isCached u = s.isCached u)
    (hvirtual : t.virtual = s.virtual)
    (hfind : ∀ b, (s.cache.set i).find? b = some way → (t.cache.set i).find? b = some way) :
    t.Held (v + 1) n i way (start + 1) := by
  refine ⟨fun k hk => ?_, fun k hk => ?_, fun k hk => ?_, fun k hk => ?_⟩
  all_goals rw [add_one_add]
  · rw [hcached]
    exact h.cached _ (Nat.succ_lt_succ hk)
  · exact h.index_eq _ (Nat.succ_lt_succ hk)
  · rw [h.offset_eq _ (Nat.succ_lt_succ hk)]
    omega
  · obtain ⟨b, hb, hf⟩ := h.found _ (Nat.succ_lt_succ hk)
    exact ⟨b, hvirtual ▸ hb, hfind b hf⟩

/-- Loads of bytes that are held are hits. -/
theorem readBytes (h : s.Held v n i way start) :
    s.readBytes v n = ((s.cache.line i way).slice start n, s.hit n) := by
  induction n generalizing s v start with
  | zero => rfl
  | succ n ih =>
    obtain ⟨hc, hi, ho, b, hb, hf⟩ := h.head
    obtain ⟨ht, hw⟩ := touched_of_find? (hi ▸ hf)
    have hbyte : s.readByte v = (Word.ofBytes .w8 ((s.cache.line i way).slice start 1), s.hit 1) := by
      rw [readByte_cached hb hc, readCached_eq, ht, hw, hi, ho]
      rfl
    have hrest := ih (h.tail (t := s.hit 1) (fun _ => rfl) rfl fun _ hb => hb)
    have hline : (s.hit 1).cache.line i way = s.cache.line i way := rfl
    rw [hline, hit_hit, Nat.add_comm 1] at hrest
    rw [Space.readBytes, hbyte]
    simp only [hrest]
    have hb : ((s.cache.line i way).slice start 1).length = Width.w8.bytes := Cache.length_slice _ _ _
    rw [Word.bytes_ofBytes hb, Cache.slice_succ (n := n)]

theorem writeByte (h : s.Held v (n + 1) i way start) (b : UInt8) :
    s.writeByte v (Word.ofBytes .w8 [b]) = (s.storing i way start [b]).hit 1 := by
  obtain ⟨hc, hi, ho, a, ha, hf⟩ := h.head
  obtain ⟨ht, hw⟩ := touched_of_find? (hi ▸ hf)
  rw [writeByte_cached ha hc, writeCached_eq, ht, hw, hi, ho, Word.bytes_ofBytes rfl]
  rfl

/-- Storing in the line leaves it in its way. -/
theorem tail_storing (hi : i < Cache.setCount) (h : s.Held v (n + 1) i way start) (b : UInt8)
    (hits : Nat) : ((s.storing i way start [b]).hit hits).Held (v + 1) n i way (start + 1) := by
  refine h.tail (fun _ => rfl) rfl fun a ha => ?_
  rw [← ha]
  refine Cache.find?_of_holds fun w => ?_
  have hl : ((s.storing i way start [b]).cache.line i w).tag.holds a =
      (s.cache.line i w).tag.holds a := by
    rw [storing, Cache.line_setLine _ _ _ _ hi hi]
    split
    · rename_i he
      rw [he.2]
      rfl
    · rfl
  exact hl

/-- Stores of bytes that are held are hits. -/
theorem writeBytes (hi : i < Cache.setCount) {b : UInt8} {bs : List UInt8}
    (h : s.Held v (bs.length + 1) i way start) :
    s.writeBytes v (b :: bs) = (s.storing i way start (b :: bs)).hit (bs.length + 1) := by
  induction bs generalizing s v start b with
  | nil => exact h.writeByte b
  | cons b' bs ih =>
    have hs : ((s.storing i way start [b]).hit 1).storing i way (start + 1) (b' :: bs) =
        (s.storing i way start (b :: b' :: bs)).hit 1 := by
      rw [← storing_storing hi way start b (b' :: bs)]
      rfl
    rw [Space.writeBytes, h.writeByte, ih (h.tail_storing hi b 1), hs, hit_hit, List.length_cons,
      Nat.add_comm 1]

end Held

section

variable (hm : s.virtual.Shows fun _ => True) (ha : s.virtual.resolve v = .host a)

include hm ha

/-- Once the line of an access has been brought in, all its bytes are held. -/
theorem held_touched (hc : s.isCached v = true) (fits : Cache.Fits v w) :
    (s.touched v a).Held v w.bytes (Cache.index v)
      (s.cache.touch s.memory v a (s.tagAddress v)).1 (Cache.offset v) := by
  have hmod := (hm.of_resolve ha).1
  have hv : Cache.index v = Cache.hostIndex a := (Cache.hostIndex_of_mod hmod).symm
  have hfit : v.toNat % 64 + w.bytes ≤ 64 := Cache.offset_eq v ▸ fits
  have hlt := v.toNat_lt
  have hsum : ∀ k < w.bytes, (v + UInt32.ofNat k).toNat = v.toNat + k := by
    intro k hk
    rw [UInt32.toNat_add, UInt32.toNat_ofNat']
    omega
  refine ⟨fun k hk => ?_, fun k hk => ?_, fun k hk => ?_, fun k hk => ?_⟩
  · have hs : (s.touched v a).isCached (v + UInt32.ofNat k) = s.isCached (v + UInt32.ofNat k) := rfl
    rw [hs, s.isCached_add (by omega), hc]
  · rw [Cache.index_eq, Cache.index_eq, hsum k hk]
    omega
  · rw [Cache.offset_eq, Cache.offset_eq, hsum k hk]
    omega
  · refine ⟨a + UInt64.ofNat k, VirtualMap.resolve_add ha (by omega), ?_⟩
    obtain ⟨-, -, hp⟩ := Cache.host_add hmod fits hk
    rw [Cache.find?_congr _ hp, hv]
    exact Cache.find?_touch hv (s.tagAddress v)

/-- A load that fits its line, byte by byte: all bytes but the first are hits. -/
theorem readBytes_eq_readCached (hc : s.isCached v = true) (fits : Cache.Fits v w) :
    Word.ofBytes w (s.readBytes v w.bytes).1 = (s.readCached w v a fits).1 ∧
      (s.readBytes v w.bytes).2 = (s.readCached w v a fits).2.hit (w.bytes - 1) := by
  obtain ⟨n, hn⟩ : ∃ n, w.bytes = n + 1 := ⟨w.bytes - 1, by have := w.bytes_pos; omega⟩
  have held := held_touched hm ha hc fits
  rw [hn] at held
  have hrest := (held.tail (t := s.touched v a) (fun _ => rfl) rfl fun _ hb => hb).readBytes
  have hbyte := readByte_cached ha hc
  rw [readCached_eq] at hbyte ⊢
  have hb : ∀ l : Cache.Line, ((l.slice (Cache.offset v) 1)).length = Width.w8.bytes :=
    fun l => Cache.length_slice _ _ _
  rw [hn, readBytes, hbyte]
  simp only [Width.bytes_w8, hrest, Word.bytes_ofBytes (hb _), Nat.add_sub_cancel]
  exact ⟨congrArg _ (Cache.slice_succ _ _ _).symm, trivial⟩

/-- Storing a word byte by byte is storing it at once, but for the count of hits. -/
theorem writeBytes_eq_writeCached (hc : s.isCached v = true) (fits : Cache.Fits v w) (x : Word w) :
    s.writeBytes v x.bytes = (s.writeCached v a x fits).hit (w.bytes - 1) := by
  have hi := Cache.index_lt v
  have hl : x.bytes.length = w.bytes := Word.length_bytes x
  obtain ⟨b, bs, hx⟩ := List.exists_cons_of_length_pos (hl ▸ w.bytes_pos)
  have hn : w.bytes = bs.length + 1 := by rw [← hl, hx, List.length_cons]
  have held := held_touched hm ha hc fits
  rw [hn] at held
  have hbyte : s.writeByte v (Word.ofBytes .w8 [b]) = (s.touched v a).storing (Cache.index v)
      (s.cache.touch s.memory v a (s.tagAddress v)).1 (Cache.offset v) [b] := by
    rw [writeByte_cached ha hc, writeCached_eq, Word.bytes_ofBytes rfl]
  rw [writeCached_eq, hx, hn, writeBytes, hbyte]
  cases bs with
  | nil => rfl
  | cons b' bs =>
    rw [← storing_storing hi _ _ b (b' :: bs)]
    exact (held.tail_storing hi b 0).writeBytes hi

end

/-- Bytes from `v` on lie side by side in memory from `a` on, and are not cached. -/
def Plain (s : Space σ) (v : GuestAddress) (a : HostAddress) (n : Nat) : Prop :=
  ∀ k < n, s.virtual.resolve (v + UInt32.ofNat k) = .host (a + UInt64.ofNat k) ∧
    s.isCached (v + UInt32.ofNat k) = false

namespace Plain

variable {n : Nat}

theorem head (h : s.Plain v a (n + 1)) : s.virtual.resolve v = .host a ∧ s.isCached v = false := by
  have h0 := h 0 (Nat.zero_lt_succ n)
  rwa [add_ofNat_zero, show UInt64.ofNat 0 = 0 from rfl,
    UInt64.add_zero] at h0

theorem tail (h : s.Plain v a (n + 1)) (memory : Memory) :
    Plain { s with memory } (v + 1) (a + 1) n := by
  intro k hk
  rw [add_one_add, Memory.add_one_add]
  exact h (k + 1) (Nat.succ_lt_succ hk)

/-- Plain bytes are loaded from memory, and nothing comes of it. -/
theorem readBytes (h : s.Plain v a n) : s.readBytes v n = (s.memory.read a n, s) := by
  induction n generalizing v a with
  | zero => rfl
  | succ n ih =>
    obtain ⟨ha, hc⟩ := h.head
    have hbyte : s.readByte v = (s.memory.load .w8 a, s) := by
      rw [readByte]
      simp only [ha, hc, Bool.false_eq_true, if_false]
    rw [Space.readBytes, hbyte]
    simp only [ih (h.tail s.memory), Memory.load]
    rw [Word.bytes_ofBytes (Memory.length_read _ _ _)]
    rfl

/-- Plain bytes are stored in memory, and nowhere else. -/
theorem writeBytes {bs : List UInt8} (h : s.Plain v a bs.length) :
    s.writeBytes v bs = { s with memory := s.memory.write a bs } := by
  induction bs generalizing s v a with
  | nil => rfl
  | cons b bs ih =>
    obtain ⟨ha, hc⟩ := h.head
    have hbyte : s.writeByte v (Word.ofBytes .w8 [b]) =
        { s with memory := s.memory.setByte a b } := by
      rw [writeByte]
      simp only [ha, hc, Bool.false_eq_true, if_false, Memory.store]
      rw [Word.bytes_ofBytes rfl]
      rfl
    rw [Space.writeBytes, hbyte, ih (h.tail _)]
    rfl

end Plain

theorem plain_of_not_straddles (ha : s.virtual.resolve v = .host a) (hs : ¬straddles v w)
    (hc : s.isCached v = false) : s.Plain v a w.bytes := by
  have hpage := le_of_not_straddles hs
  intro k hk
  exact ⟨VirtualMap.resolve_add ha (by omega), by rw [s.isCached_add (by omega), hc]⟩

/-- The three paths of an access to host memory. -/
theorem path_of_host (ha : s.virtual.resolve v = .host a) (w : Width) :
    s.path w v = .bytewise ∨ (∃ fits, s.path w v = .cached a fits) ∨ s.path w v = .memory a := by
  simp only [path, ha]
  by_cases hs : straddles v w = true
  · exact .inl (if_pos hs)
  · rw [if_neg hs]
    by_cases hc : s.isCached v = true
    · rw [if_pos hc]
      by_cases fits : Cache.Fits v w
      · exact .inr (.inl ⟨fits, dif_pos fits⟩)
      · exact .inl (dif_neg fits)
    · exact .inr (.inr (if_neg hc))

/-- After the bytes that have been loaded, the one at distance `i` from `v`. -/
def readNext (v : GuestAddress) (r : List UInt8 × Space σ) (i : Nat) : List UInt8 × Space σ :=
  let (b, t) := r.2.read .w8 (v + UInt32.ofNat i)
  (r.1 ++ b.bytes, t)

/-- Loads of the `n` bytes from `v` on, each an access of its own, in ascending order. -/
def readEach (s : Space σ) (v : GuestAddress) (n : Nat) : List UInt8 × Space σ :=
  (List.range n).foldl (readNext v) ([], s)

def writeNext (v : GuestAddress) (t : Space σ) (x : UInt8 × Nat) : Space σ :=
  t.write (v + UInt32.ofNat x.2) (Word.ofBytes .w8 [x.1])

def writeEach (s : Space σ) (v : GuestAddress) (bs : List UInt8) : Space σ :=
  bs.zipIdx.foldl (writeNext v) s

/-- Accesses to one byte each load what bytes of one access are. -/
theorem foldl_readNext (v : GuestAddress) (k n : Nat) (bs : List UInt8) (t : Space σ) :
    (List.range' k n).foldl (readNext v) (bs, t) =
      (bs ++ (t.readBytes (v + UInt32.ofNat k) n).1, (t.readBytes (v + UInt32.ofNat k) n).2) := by
  induction n generalizing k bs t with
  | zero => simp [readBytes]
  | succ n ih =>
    have hnext : v + UInt32.ofNat (k + 1) = v + UInt32.ofNat k + 1 := by
      rw [UInt32.add_assoc, UInt32.ofNat_add]
      rfl
    rw [List.range'_succ, List.foldl_cons, readNext, read_w8, ih, hnext]
    simp only [readBytes, List.append_assoc]

theorem readEach_eq (s : Space σ) (v : GuestAddress) (n : Nat) :
    s.readEach v n = s.readBytes v n := by
  rw [readEach, List.range_eq_range', foldl_readNext, add_ofNat_zero, List.nil_append]

/-- Accesses to one byte each store what bytes of one access are. -/
theorem foldl_writeNext (v : GuestAddress) (k : Nat) (bs : List UInt8) (t : Space σ) :
    (bs.zipIdx k).foldl (writeNext v) t = t.writeBytes (v + UInt32.ofNat k) bs := by
  induction bs generalizing k t with
  | nil => rfl
  | cons b bs ih =>
    have hnext : v + UInt32.ofNat (k + 1) = v + UInt32.ofNat k + 1 := by
      rw [UInt32.add_assoc, UInt32.ofNat_add]
      rfl
    rw [List.zipIdx_cons, List.foldl_cons, writeNext, write_w8, ih, hnext]
    rfl

theorem writeEach_eq (s : Space σ) (v : GuestAddress) (bs : List UInt8) :
    s.writeEach v bs = s.writeBytes v bs := by
  rw [writeEach, foldl_writeNext, add_ofNat_zero]

/-- `t` is `s` but for the count of hits of the cache. -/
def SameButHits (s t : Space σ) : Prop :=
  ∃ hits, t = { s with cache := { s.cache with stats := { s.cache.stats with hits } } }

theorem SameButHits.refl (s : Space σ) : s.SameButHits s := ⟨_, rfl⟩

theorem sameButHits_hit (s : Space σ) (n : Nat) : s.SameButHits (s.hit n) := ⟨_, rfl⟩

/-- An access whose first byte lies in memory, whatever its other bytes are and however they are
cached, does what the accesses to its bytes do one after the other. -/
theorem access_eq_each (h : Reachable (fun _ _ => True) s) (control : Cache.Control)
    (ha : s.virtual.resolve v = .host a) (w : Width) :
    let t : Space σ := { s with control }
    (t.read w v).1 = Word.ofBytes w (t.readEach v w.bytes).1 ∧
      (t.read w v).2.SameButHits (t.readEach v w.bytes).2 ∧
        ∀ x : Word w, (t.write v x).SameButHits (t.writeEach v x.bytes) := by
  intro t
  have hs : s.virtual.Shows fun _ => True := shows_of_reachable h
  have hm : t.virtual.Shows fun _ => True := hs
  have ha : t.virtual.resolve v = .host a := ha
  simp only [readEach_eq, writeEach_eq, read_eq_readBy, write_eq_writeBy]
  rcases path_of_host ha w with hp | ⟨fits, hp⟩ | hp
  · rw [hp]
    exact ⟨rfl, .refl _, fun x => .refl _⟩
  · obtain ⟨-, -, hc⟩ := path_eq_cached hp
    rw [hp]
    obtain ⟨hvalue, hstate⟩ := readBytes_eq_readCached hm ha hc fits
    refine ⟨hvalue.symm, ?_, fun x => ?_⟩
    · rw [hstate]
      exact sameButHits_hit _ _
    · rw [writeBytes_eq_writeCached hm ha hc fits]
      exact sameButHits_hit _ _
  · obtain ⟨-, hs, hc⟩ := path_eq_memory hp
    have plain := plain_of_not_straddles ha hs (Bool.eq_false_iff.2 hc)
    rw [hp, plain.readBytes]
    refine ⟨rfl, .refl _, fun x => ?_⟩
    rw [Plain.writeBytes (by rw [Word.length_bytes]; exact plain)]
    exact .refl _

/-- A word through the cache is the same as its bytes, and takes one hit where these take four. -/
theorem access_eq_each_stored :
    Reachable (fun _ _ => True) stored ∧ stored.virtual.resolve 0x1000 = .host 0x700000000000 ∧
      ((stored.read .w32 0x1000).1 = Word.ofBytes .w32 (stored.readEach 0x1000 4).1 ∧
        (stored.read .w32 0x1000).2.SameButHits (stored.readEach 0x1000 4).2 ∧
          ∀ x : Word .w32, (stored.write 0x1000 x).SameButHits (stored.writeEach 0x1000 x.bytes)) ∧
        (stored.read .w32 0x1000).2.cache.stats.hits + 3 =
          (stored.readEach 0x1000 4).2.cache.stats.hits := by
  have ha : stored.virtual.resolve 0x1000 = .host 0x700000000000 := by decide +kernel
  refine ⟨stored_reachable, ha, access_eq_each stored_reachable stored.control ha .w32, ?_⟩
  decide +kernel

end GuestMemory.Space
