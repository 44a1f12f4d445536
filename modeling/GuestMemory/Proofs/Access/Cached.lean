import GuestMemory.Proofs.Access.Bytewise
import GuestMemory.Proofs.Cache.Accesses

/-!
Accesses through the cache. As long as memory behind the cache is reached through it alone, the
guest cannot tell that it is there: what is seen is a flat memory, until a line is dropped.
-/
namespace GuestMemory.Space

open Cache (Coherent Op setCount hostIndex wayOf)

variable {σ : Type} {s : Space σ} {w : Width} {v : GuestAddress} {loc : Nat → HostAddress}

/-- What an access through the cache sees at a host address. -/
def seen (s : Space σ) : HostAddress → UInt8 := s.cache.seen s.memory

/-- An access of `n` bytes from `v` on goes through the cache to the host bytes `loc`. -/
structure Caches (s : Space σ) (v : GuestAddress) (n : Nat) (loc : Nat → HostAddress) : Prop where
  backs : Backs s.virtual.resolve v n loc
  cached : ∀ i < n, s.isCached (v + UInt32.ofNat i) = true

theorem Caches.head {n : Nat} (h : s.Caches v n loc) (hn : 0 < n) : s.isCached v = true := by
  have h0 := h.cached 0 hn
  rwa [add_ofNat_zero] at h0

def CoherentLike (s t : Space σ) : Prop := t.wiring = s.wiring ∧ Coherent t.cache t.memory

theorem CoherentLike.resolve {t : Space σ} (h : s.CoherentLike t) {a : HostAddress}
    (ha : s.virtual.resolve v = .host a) : t.virtual.resolve v = .host a := by
  have hv : t.virtual = s.virtual := congrArg Wiring.virtual h.1
  rw [hv, ha]

theorem readByte_cached {a : HostAddress} (ha : s.virtual.resolve v = .host a)
    (hc : s.isCached v = true) : s.readByte v = s.readCached .w8 v a (fits_w8 v) := by
  rw [readByte]
  simp only [ha, hc, if_true]

theorem writeByte_cached {a : HostAddress} (ha : s.virtual.resolve v = .host a)
    (hc : s.isCached v = true) (x : Word .w8) :
    s.writeByte v x = s.writeCached v a x (fits_w8 v) := by
  rw [writeByte]
  simp only [ha, hc, if_true]

/-- A cached byte loads what is seen through the cache. -/
theorem loadsByte_cached {a : HostAddress} (ha : s.virtual.resolve v = .host a)
    (hc : s.isCached v = true) (hm : a.toNat % 4096 = v.toNat % 4096) :
    LoadsByte seen s.CoherentLike v a := by
  have he : ∀ t, s.CoherentLike t → t.readByte v = t.readCached .w8 v a (fits_w8 v) :=
    fun t ht => readByte_cached (ht.resolve ha) (isCached_of_wiring ht.1 v ▸ hc)
  have hs := fun (t : Space σ) (ht : s.CoherentLike t) =>
    Cache.read_spec ht.2 hm .w8 (t.tagAddress v) (fits_w8 v)
  constructor
  · intro t ht
    rw [he t ht]
    refine (hs t ht).1.trans ?_
    simp [gather, seen]
  · intro t ht
    rw [he t ht]
    exact (hs t ht).2.2
  · intro t ht
    rw [he t ht]
    exact ⟨ht.1, (hs t ht).2.1⟩

/-- A cached byte that is stored is seen, and no other byte is seen differently. -/
theorem storesByte_cached {a : HostAddress} (ha : s.virtual.resolve v = .host a)
    (hc : s.isCached v = true) (hm : a.toNat % 4096 = v.toNat % 4096) :
    StoresByte seen s.CoherentLike v a := by
  have he : ∀ t x, s.CoherentLike t → t.writeByte v x = t.writeCached v a x (fits_w8 v) :=
    fun t x ht => writeByte_cached (ht.resolve ha) (isCached_of_wiring ht.1 v ▸ hc) x
  have hs := fun (t : Space σ) (x : Word .w8) (ht : s.CoherentLike t) =>
    Cache.write_spec ht.2 hm (t.tagAddress v) x (fits_w8 v)
  constructor
  · intro t x ht b
    have hp := (hs t (Word.ofBytes .w8 [x]) ht).2
    rw [Word.bytes_ofBytes rfl] at hp
    rw [he t _ ht]
    by_cases hb : a = b
    · subst hb
      simpa [seen, writeCached] using hp.stored 0 (by simp)
    · rw [if_neg hb]
      exact hp.kept b (by simpa using hb)
  · intro t x ht
    rw [he t x ht]
    exact ⟨ht.1, (hs t x ht).1⟩

section

variable {P : HostAddress → Prop} (hm : s.virtual.Shows P) (hs : Coherent s.cache s.memory)
  (h : s.Caches v w.bytes loc)

include hm hs h

/-- A load through the cache gives the bytes that are seen, and changes nothing of it. -/
theorem read_cached :
    (s.read w v).1 = Word.ofBytes w (gather s.seen loc w.bytes) ∧ (s.read w v).2.seen = s.seen ∧
      Coherent (s.read w v).2.cache (s.read w v).2.memory := by
  have ha := h.backs.head w.bytes_pos
  have hbytes : (s.readBytewise w v).1 = Word.ofBytes w (gather s.seen loc w.bytes) ∧
      (s.readBytewise w v).2.seen = s.seen ∧
        Coherent (s.readBytewise w v).2.cache (s.readBytewise w v).2.memory := by
    obtain ⟨hvalue, hview, hinv⟩ := readBytes_view (s := s) (fun i hi =>
      loadsByte_cached (h.backs i hi) (h.cached i hi) (hm.of_resolve (h.backs i hi)).1) ⟨rfl, hs⟩
    exact ⟨congrArg (Word.ofBytes w) hvalue, hview, hinv.2⟩
  rw [read]
  simp only [ha, h.head w.bytes_pos, if_true]
  split
  · exact hbytes
  · rename_i hn
    split
    · rename_i fits
      obtain ⟨hvalue, hcoherent, hseen⟩ :=
        Cache.read_spec hs (hm.of_resolve ha).1 w (s.tagAddress v) fits
      have hside := h.backs.side_by_side (le_of_not_straddles hn)
      rw [gather_congr_loc fun i hi => (hside i hi).symm] at hvalue
      exact ⟨hvalue, hseen, hcoherent⟩
    · exact hbytes

/-- A store through the cache puts its bytes into what is seen. -/
theorem write_cached (x : Word w) :
    Puts s.seen loc x.bytes (s.write v x).seen ∧
      Coherent (s.write v x).cache (s.write v x).memory := by
  have ha := h.backs.head w.bytes_pos
  have hl : x.bytes.length = w.bytes := Word.length_bytes x
  have hw := w.bytes_le
  have hbytes : Puts s.seen loc x.bytes (s.writeBytes v x.bytes).seen ∧
      Coherent (s.writeBytes v x.bytes).cache (s.writeBytes v x.bytes).memory := by
    have hapart : ∀ i < x.bytes.length, ∀ j < x.bytes.length, loc i = loc j → i = j := by
      intro i hi j hj e
      exact h.backs.injective hm (by omega) (hl ▸ hi) (hl ▸ hj) e
    obtain ⟨hputs, hinv⟩ := writeBytes_view (s := s) (fun i hi =>
      storesByte_cached (h.backs i (hl ▸ hi)) (h.cached i (hl ▸ hi))
        (hm.of_resolve (h.backs i (hl ▸ hi))).1) hapart ⟨rfl, hs⟩
    exact ⟨hputs, hinv.2⟩
  rw [write]
  simp only [ha, h.head w.bytes_pos, if_true]
  split
  · exact hbytes
  · rename_i hn
    split
    · rename_i fits
      obtain ⟨hcoherent, hputs⟩ :=
        Cache.write_spec hs (hm.of_resolve ha).1 (s.tagAddress v) x fits
      have hside := h.backs.side_by_side (le_of_not_straddles hn)
      exact ⟨hputs.congr_loc fun i hi => (hside i (hl ▸ hi)).symm, hcoherent⟩
    · exact hbytes

end

/-- Calls that leave memory behind the cache to the cache. -/
def Command.IsCoherent (s : Space σ) : Command σ → Prop
  | .read w v => ∃ loc, s.Caches v w.bytes loc
  | .write w v _ => ∃ loc, s.Caches v w.bytes loc
  | .cacheOp op _ _ => op ≠ .indexStoreTag
  | c => c.IsQuiet

theorem Command.IsCoherent.not_install {c : Command σ} (h : c.IsCoherent s) : ¬c.IsInstall := by
  cases c with
  | install => exact absurd h id
  | _ => exact id

theorem Command.IsCoherent.drained {c : Command σ} (h : c.IsCoherent s) :
    c.IsCoherent s.drained := by
  cases c with
  | read w v =>
    obtain ⟨loc, hc⟩ := h
    exact ⟨loc, hc.backs, hc.cached⟩
  | write w v x =>
    obtain ⟨loc, hc⟩ := h
    exact ⟨loc, hc.backs, hc.cached⟩
  | _ => exact h

/-- Aligned pages behind the maps, and a coherent cache. -/
structure Tidy (s : Space σ) : Prop where
  maps : s.maps.Shows fun _ => True
  coherent : Coherent s.cache s.memory

theorem Tidy.cacheOp (h : s.Tidy) {op : Op} (hop : op ≠ .indexStoreTag) (v : GuestAddress)
    (packed : UInt64) :
    Coherent (s.cacheOp op v packed).2.cache (s.cacheOp op v packed).2.memory := by
  rw [Space.cacheOp]
  split
  · cases s.virtual.resolve v with
    | host a => exact h.coherent.hitOp op v a
    | handler id p => exact h.coherent
    | tlbMiss => exact h.coherent
    | busError p => exact h.coherent
  · exact h.coherent.indexOp hop v packed

/-- Calls that leave memory to the cache keep it coherent. -/
theorem Tidy.perform (h : s.Tidy) {c : Command σ} (hc : c.IsCoherent s) :
    Coherent (s.perform c).2.cache (s.perform c).2.memory := by
  have hquiet : c.IsQuiet → Coherent (s.perform c).2.cache (s.perform c).2.memory := by
    intro hq
    have hb : (s.perform c).2.backing = s.backing := backing_perform hq
    have hcache : (s.perform c).2.cache = s.cache := congrArg Prod.fst hb
    have hmemory : (s.perform c).2.memory = s.memory := congrArg Prod.snd hb
    rw [hcache, hmemory]
    exact h.coherent
  cases c with
  | read w v =>
    obtain ⟨loc, hl⟩ := hc
    exact (read_cached h.maps.virtual h.coherent hl).2.2
  | write w v x =>
    obtain ⟨loc, hl⟩ := hc
    exact (write_cached h.maps.virtual h.coherent hl x).2
  | cacheOp op v packed => exact h.cacheOp hc v packed
  | _ => exact hquiet hc

theorem Tidy.step (h : s.Tidy) {c : Command σ} (hc : c.IsCoherent s) : (s.step c).2.Tidy := by
  refine ⟨?_, Tidy.perform (s := s.drained) ⟨h.maps, h.coherent⟩ hc.drained⟩
  exact (mapStep_step hc.not_install).shows (fun _ _ _ => trivial) h.maps (c.brings_true _)

/-- `t` shows memory where lines of `s` were dropped, and what `s` shows elsewhere. -/
structure Uncovers (s t : Space σ) (dropped : HostAddress → Prop) : Prop where
  memory_eq : t.memory = s.memory
  inside : ∀ b, dropped b → t.seen b = s.memory.byte b
  outside : ∀ b, ¬dropped b → t.seen b = s.seen b

/-- The cache shows as nothing but a flat memory. Loads give what is seen, stores put their bytes
there, and filling, writing back and every call that reaches no memory change nothing of it. The two
operations that drop a line uncover the memory under exactly the line that they address, and a
valid line that is clean is a copy of memory, in no other way of its set. -/
structure Invisible (s : Space σ) : Prop where
  read : ∀ w v loc, s.Caches v w.bytes loc →
    (s.read w v).1 = Word.ofBytes w (gather s.seen loc w.bytes) ∧ (s.read w v).2.seen = s.seen
  write : ∀ w v loc, s.Caches v w.bytes loc → ∀ x : Word w,
    Puts s.seen loc x.bytes (s.write v x).seen
  fill : ∀ v a phys, s.virtual.resolve v = .host a →
    (s.cache.touch s.memory v a phys).2.1.seen (s.cache.touch s.memory v a phys).2.2 = s.seen
  evict : ∀ i < setCount, ∀ way,
    (s.cache.writeBack s.memory i way).1.seen (s.cache.writeBack s.memory i way).2 = s.seen
  operate : ∀ op : Op, op ≠ .indexStoreTag → op ≠ .hitInvalidate → op ≠ .indexInvalidate →
    ∀ v packed, (s.cacheOp op v packed).2.seen = s.seen
  hitInvalidate : ∀ v packed, s.Uncovers (s.cacheOp .hitInvalidate v packed).2 fun b =>
    ∃ a, s.virtual.resolve v = .host a ∧ b.toNat / 64 = a.toNat / 64
  indexInvalidate : ∀ v packed, s.Uncovers (s.cacheOp .indexInvalidate v packed).2 fun b =>
    hostIndex b = Cache.index v ∧ (s.cache.line (Cache.index v) (wayOf v)).tag.holds b = true
  quiet : ∀ c : Command σ, c.IsQuiet → (s.step c).2.seen = s.seen
  clean : ∀ b way, (s.cache.line (hostIndex b) way).tag.holds b = true →
    (s.cache.line (hostIndex b) way).tag.dirty = false →
      (s.cache.line (hostIndex b) way).data.get (Cache.hostOffset b) = s.memory.byte b
  single : ∀ b way way', (s.cache.line (hostIndex b) way).tag.holds b = true →
    (s.cache.line (hostIndex b) way').tag.holds b = true → way = way'

theorem Uncovers.nothing {dropped : HostAddress → Prop} (h : ∀ b, ¬dropped b) :
    s.Uncovers s dropped :=
  ⟨rfl, fun b hb => absurd hb (h b), fun _ _ => rfl⟩

/-- Dropping the line of an address uncovers the memory under this line. -/
theorem Tidy.hitInvalidate (h : s.Tidy) (v : GuestAddress) (packed : UInt64) :
    s.Uncovers (s.cacheOp .hitInvalidate v packed).2 fun b =>
      ∃ a, s.virtual.resolve v = .host a ∧ b.toNat / 64 = a.toNat / 64 := by
  rw [Space.cacheOp]
  simp only [Op.isHit, if_true]
  cases hr : s.virtual.resolve v with
  | host a =>
    obtain ⟨hmem, hseen⟩ := Cache.hitInvalidate_spec h.coherent (h.maps.virtual.of_resolve hr).1
    have hs : ∀ b, seen { s with
        cache := (s.cache.hitOp s.memory .hitInvalidate v a).1
        memory := (s.cache.hitOp s.memory .hitInvalidate v a).2 } b =
          if b.toNat / 64 = a.toNat / 64 then s.memory.byte b else s.seen b := by
      intro b
      rw [seen, hmem]
      exact hseen b
    refine ⟨hmem, fun b hb => ?_, fun b hb => ?_⟩
    · obtain ⟨a', ha', hline⟩ := hb
      cases ha'
      exact (hs b).trans (if_pos hline)
    · exact (hs b).trans (if_neg fun hline => hb ⟨a, rfl, hline⟩)
  | handler id p => exact .nothing (by simp)
  | tlbMiss => exact .nothing (by simp)
  | busError p => exact .nothing (by simp)

theorem Tidy.indexInvalidate (h : s.Tidy) (v : GuestAddress) (packed : UInt64) :
    s.Uncovers (s.cacheOp .indexInvalidate v packed).2 fun b =>
      hostIndex b = Cache.index v ∧
        (s.cache.line (Cache.index v) (wayOf v)).tag.holds b = true := by
  obtain ⟨hmem, hseen⟩ := Cache.indexInvalidate_spec h.coherent v packed
  exact ⟨hmem, fun b hb => (hseen b).trans (if_pos hb), fun b hb => (hseen b).trans (if_neg hb)⟩

/-- Operations that drop no line change nothing that is seen. -/
theorem Tidy.operate (h : s.Tidy) {op : Op} (hop : op ≠ .indexStoreTag)
    (hh : op ≠ .hitInvalidate) (hi : op ≠ .indexInvalidate) (v : GuestAddress) (packed : UInt64) :
    (s.cacheOp op v packed).2.seen = s.seen := by
  rw [Space.cacheOp]
  split
  · cases s.virtual.resolve v with
    | host a => exact Cache.seen_hitOp h.coherent hh v a
    | handler id p => rfl
    | tlbMiss => rfl
    | busError p => rfl
  · exact Cache.seen_indexOp h.coherent hop hi v packed

/-- A tidy space has a cache that is not seen. -/
theorem Tidy.invisible (h : s.Tidy) : s.Invisible where
  read w v loc hl := by
    obtain ⟨hvalue, hseen, -⟩ := read_cached h.maps.virtual h.coherent hl
    exact ⟨hvalue, hseen⟩
  write w v loc hl x := (write_cached h.maps.virtual h.coherent hl x).1
  fill v a phys ha := by
    have hv := (Cache.hostIndex_of_mod (h.maps.virtual.of_resolve ha).1).symm
    exact (Cache.touch_spec h.coherent hv phys).2.1
  evict i hi way := Cache.seen_writeBack h.coherent hi way
  operate op hop hh hi v packed := h.operate hop hh hi v packed
  hitInvalidate := h.hitInvalidate
  indexInvalidate := h.indexInvalidate
  quiet c hc := by
    have hb : (s.step c).2.backing = s.backing := backing_perform (s := s.drained) hc
    exact congrArg (fun k : Cache × Memory => k.1.seen k.2) hb
  clean b way hh hd := h.coherent.get_clean hh hd
  single b way way' hh hh' := h.coherent.holds_unique (Cache.hostIndex_lt b) hh hh'

/-- From an empty cache on, whatever is called as long as memory behind the cache is left to it, the
cache shows as nothing but a flat memory. -/
theorem invisible_of_leads {s₀ s : Space σ} (reach : Reachable (fun _ c => ¬c.IsInstall) s₀)
    (empty : ∀ i < setCount, ∀ way, (s₀.cache.line i way).tag.valid = false)
    (run : Leads (fun t c => c.IsCoherent t) s₀ s) : s.Invisible := by
  have hmaps : s₀.maps.Shows fun _ => True :=
    reach.keeps (fun t ht => ht.maps_shows _) fun t c ht hc =>
      (mapStep_step hc).shows (fun _ _ _ => trivial) ht (c.brings_true _)
  have hcoherent : Coherent s₀.cache s₀.memory := by
    have hno : ∀ i < setCount, ∀ way, (s₀.cache.line i way).tag.valid ≠ true := by
      intro i hi way
      rw [empty i hi way]
      decide
    exact ⟨fun i hi way hv => absurd hv (hno i hi way),
      fun i hi way _ hv => absurd hv (hno i hi way), fun i hi way hv => absurd hv (hno i hi way)⟩
  have htidy : s.Tidy := run.keeps (P := Tidy) ⟨hmaps, hcoherent⟩ fun t c ht hc => ht.step hc
  exact htidy.invisible

def cachedPage : Space Unit :=
  ((made false true).run [.allocate "ram" 0x1000 .readWrite,
    .projectBlock 0x1000 ⟨0, 0x1000⟩ 0x1000, .control (.setConfig 0x10000),
    .control (.setEntry 0 { lo0 := 0x18, lo1 := 0x18 })]).2

/-- After a store to such a page, what is seen and what memory has differ. -/
theorem invisible_of_store :
    let s := (cachedPage.step (.write .w32 0x1000 0x11223344)).2
    Reachable (fun _ c => ¬c.IsInstall) cachedPage ∧
      (∀ i < setCount, ∀ way, (cachedPage.cache.line i way).tag.valid = false) ∧
      Leads (fun t c => c.IsCoherent t) cachedPage s ∧ s.Invisible ∧
      s.seen 0x700000000000 = 0x44 ∧ s.memory.byte 0x700000000000 = 0 := by
  have reach : Reachable (fun _ c => ¬c.IsInstall) cachedPage :=
    ⟨_, isFresh_made false true, leads_run (by simp [Command.IsInstall])⟩
  have empty : ∀ i < setCount, ∀ way, (cachedPage.cache.line i way).tag.valid = false := by
    intro i _ way
    show (if way = 0 then ({} : Cache.Line) else {}).tag.valid = false
    split <;> rfl
  have hc : Command.IsCoherent cachedPage (.write .w32 0x1000 0x11223344) := by
    refine ⟨fun i => 0x700000000000 + UInt64.ofNat i, fun i hi => ?_, ?_⟩
    · match i, hi with
      | 0, _ => rfl
      | 1, _ => rfl
      | 2, _ => rfl
      | 3, _ => rfl
    · show ∀ i < 4, cachedPage.isCached (0x1000 + UInt32.ofNat i) = true
      decide +kernel
  have hl : Leads (fun t c => c.IsCoherent t) cachedPage
      (cachedPage.step (.write .w32 0x1000 0x11223344)).2 := .single ⟨_, hc, rfl⟩
  refine ⟨reach, empty, hl, invisible_of_leads reach empty hl, ?_, ?_⟩
  · decide +kernel
  · decide +kernel

end GuestMemory.Space
