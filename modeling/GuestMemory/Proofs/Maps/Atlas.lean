import GuestMemory.Proofs.Space.History

/-!
What the calls say, without tables. An atlas names what answers each single address, and each call
that succeeds redraws the range it is about; so an address has what the last successful call that
covered it gave. The maps of a space draw exactly the atlas of its history.
-/
namespace GuestMemory

inductive Source where
  /-- The byte at a host address. -/
  | memory (byte : HostAddress)
  | handler (id : HandlerId)
  deriving DecidableEq, Repr

/-- Where an access to a physical address goes. -/
def Source.reach (p : GuestAddress) : Option Source → Resolved
  | some (.memory byte) => .host byte
  | some (.handler id) => .handler id p
  | none => .busError p

structure Atlas where
  physical : GuestAddress → Option Source
  virtual : GuestAddress → Resolved

namespace Atlas

def initial : Atlas where
  physical p := if p.toNat < physicalSize then some (.handler defaultHandler) else none
  virtual _ := .tlbMiss

/-- Inside a range what `f` says of the distance from its start, elsewhere what was there. -/
def redraw {α : Type} (start : GuestAddress) (size : UInt32) (f : GuestAddress → α)
    (old : GuestAddress → α) : GuestAddress → α :=
  fun a => if Covers start size a then f (a - start) else old a

/-- Byte `d` of host memory that repeats after `size` bytes. -/
def tile (base : HostAddress) (size : UInt32) (d : GuestAddress) : HostAddress :=
  base + UInt64.ofNat (d.toNat % size.toNat)

open Space in
/-- What a call that succeeds says; `base` is where the arena begins. -/
def draw {σ : Type} (atlas : Atlas) (base : HostAddress) : Command σ → Atlas
  | .mapBlock block start size blockSize =>
    { atlas with
      physical := redraw start size (fun d =>
        some (.memory (tile (base + UInt64.ofNat block.offset) (blockBytes size blockSize) d)))
        atlas.physical }
  | .mapMemory host start size blockSize =>
    { atlas with
      physical := redraw start size (fun d =>
        some (.memory (tile host (blockBytes size blockSize) d))) atlas.physical }
  | .mapHandler id start size =>
    { atlas with physical := redraw start size (fun _ => some (.handler id)) atlas.physical }
  | .duplicate target start size =>
    { atlas with
      physical := redraw target size (fun d => atlas.physical (start + d)) atlas.physical }
  | .project v p size =>
    { atlas with
      virtual := redraw v size (fun d => Source.reach (p + d) (atlas.physical (p + d)))
        atlas.virtual }
  | .projectBlock v block size =>
    { atlas with
      virtual := redraw v size
        (fun d => .host (base + UInt64.ofNat block.offset + d.toUInt64)) atlas.virtual }
  | .projectBuffer v buffer size =>
    { atlas with
      virtual := redraw v size (fun d => .host (buffer + d.toUInt64)) atlas.virtual }
  | .unmap v size => { atlas with virtual := redraw v size (fun _ => .tlbMiss) atlas.virtual }
  | .reset => initial
  | _ => atlas

/-- A call draws something only if its arguments are accepted, whether or not the host follows. -/
def record {σ : Type} (atlas : Atlas) (base : HostAddress) (c : Space.Command σ) :
    Space.Answer σ → Atlas
  | .done | .refused (.arena _) => atlas.draw base c
  | _ => atlas

def follow {σ : Type} (atlas : Atlas) (s : Space σ) : List (Space.Command σ) → Atlas
  | [] => atlas
  | c :: cs => (atlas.record s.arena.base c (s.step c).1.answer).follow (s.step c).2 cs

end Atlas

def PhysicalEntry.source (p : GuestAddress) : PhysicalEntry → Source
  | memory page => .memory (page + p.pageOffset.toUInt64)
  | handler id => .handler id

namespace PhysicalMap

def source? (map : PhysicalMap) (p : GuestAddress) : Option Source :=
  (map.lookup p).map (PhysicalEntry.source p)

theorem source?_empty (p : GuestAddress) : source? {} p = Atlas.initial.physical p := by
  simp only [source?, lookup, Atlas.initial]
  split <;> rfl

/-- The addresses of one page have one entry. -/
theorem lookup_of_page_eq (map : PhysicalMap) {p q : GuestAddress} (h : p.page = q.page) :
    map.lookup p = map.lookup q := by
  have hlt : p.toNat < physicalSize ↔ q.toNat < physicalSize := by
    simp only [GuestAddress.page_eq] at h
    rw [physicalSize]
    omega
  simp only [lookup, hlt, h]

/-- Pages of a block with the offsets in them are its bytes in order. -/
theorem tile_eq {start p : GuestAddress} {size period : UInt32} (base : HostAddress)
    (h : Covers start size p) (hs : start.toNat % 4096 = 0) (hp : period.toNat % 4096 = 0) :
    Atlas.tile base period (p - start) =
      base + UInt64.ofNat ((p.page - start.page) % GuestAddress.page period * 4096) +
        p.pageOffset.toUInt64 := by
  have hd := h.toNat_sub
  have hle := h.1
  have hmod : (p - start).toNat % period.toNat =
      (p - start).toNat / 4096 % (period.toNat / 4096) * 4096 + p.toNat % 4096 := by
    have hm := Nat.mod_mul (x := (p - start).toNat) (a := 4096) (b := period.toNat / 4096)
    rw [Nat.mul_div_cancel' (Nat.dvd_of_mod_eq_zero hp)] at hm
    omega
  rw [Atlas.tile, UInt64.add_assoc, h.page_sub hs, GuestAddress.page_eq period, hmod]
  congr 1
  apply UInt64.toNat_inj.1
  rw [UInt64.toNat_add, UInt32.toNat_toUInt64, GuestAddress.toNat_pageOffset, UInt64.toNat_ofNat',
    UInt64.toNat_ofNat']
  omega

/-- A block that is mapped answers in its range, over and over. -/
theorem source?_mapBlock {map map' : PhysicalMap} {base : HostAddress} {start : GuestAddress}
    {size blockSize : UInt32} (h : map.mapBlock base start size blockSize = .ok map')
    (p : GuestAddress) :
    map'.source? p = Atlas.redraw start size (fun d =>
      some (.memory (Atlas.tile base (blockBytes size blockSize) d))) map.source? p := by
  obtain ⟨-, hs, hz, hperiod, hl⟩ := lookup_mapBlock h
  rw [source?, hl p, Atlas.redraw]
  split
  · rename_i hc
    rw [tile_eq base hc hs hperiod]
    rfl
  · rfl

theorem source?_mapHandler {map map' : PhysicalMap} {id : HandlerId} {start : GuestAddress}
    {size : UInt32} (h : map.mapHandler id start size = .ok map') (p : GuestAddress) :
    map'.source? p = Atlas.redraw start size (fun _ => some (.handler id)) map.source? p := by
  rw [source?, lookup_mapHandler h p, Atlas.redraw]
  split <;> rfl

/-- A duplicate answers as its original does at that moment. -/
theorem source?_duplicate {map map' : PhysicalMap} {target start : GuestAddress} {size : UInt32}
    (h : map.duplicate target start size = .ok map') (p : GuestAddress) :
    map'.source? p =
      Atlas.redraw target size (fun d => map.source? (start + d)) map.source? p := by
  obtain ⟨hs, ht, hl⟩ := lookup_duplicate h
  rw [source?, hl p, Atlas.redraw]
  split
  · rename_i hc
    have ho : (start + (p - target)).pageOffset = p.pageOffset := by
      apply UInt32.toNat_inj.1
      rw [GuestAddress.toNat_pageOffset, GuestAddress.toNat_pageOffset, UInt32.toNat_add,
        hc.toNat_sub]
      have := hc.1
      omega
    rw [source?]
    cases map.lookup (start + (p - target)) with
    | none => rfl
    | some entry => cases entry <;> simp [PhysicalEntry.source, ho]
  · rfl

end PhysicalMap

/-- An address of a virtual page lies as far into the page as into what is behind it. -/
theorem project_distance {v p a : GuestAddress} {size : UInt32} (h : Covers v size a)
    (hv : v.toNat % 4096 = 0) (hp : p.toNat % 4096 = 0) :
    (p + (a - v)).page = (p + (a.pageBase - v)).page ∧
      (p + (a - v)).pageOffset = a.pageOffset ∧
        a + (p + (a.pageBase - v) - a.pageBase) = p + (a - v) := by
  have hd := h.toNat_sub
  have hle := h.1
  have ha := a.toNat_lt
  have hb := GuestAddress.toNat_pageBase a
  have hq : (a.pageBase - v).toNat = a.pageBase.toNat - v.toNat := by
    rw [UInt32.toNat_sub]
    omega
  refine ⟨?_, ?_, ?_⟩
  · rw [GuestAddress.page_eq, GuestAddress.page_eq, UInt32.toNat_add, UInt32.toNat_add, hd, hq]
    omega
  · apply UInt32.toNat_inj.1
    rw [GuestAddress.toNat_pageOffset, GuestAddress.toNat_pageOffset, UInt32.toNat_add, hd]
    omega
  · apply UInt32.toNat_inj.1
    simp only [UInt32.toNat_add, UInt32.toNat_sub]
    omega

theorem sub_pageBase_add (page : HostAddress) (a : GuestAddress) :
    page - a.pageBase.toUInt64 + a.toUInt64 = page + a.pageOffset.toUInt64 := by
  have ha := a.toNat_lt
  apply UInt64.toNat_inj.1
  simp only [UInt64.toNat_add, UInt64.toNat_sub, UInt32.toNat_toUInt64, GuestAddress.toNat_pageBase,
    GuestAddress.toNat_pageOffset]
  omega

namespace VirtualMap

/-- Projected pages lead where the physical ones lead at that moment. -/
theorem resolve_project {map map' : VirtualMap} {physical : PhysicalMap} {v p : GuestAddress}
    {size : UInt32} (h : map.project physical v p size = .ok map') (a : GuestAddress) :
    map'.resolve a =
      Atlas.redraw v size (fun d => Source.reach (p + d) (physical.source? (p + d)))
        map.resolve a := by
  obtain ⟨hv, hp, hg⟩ := get_project h
  rw [resolve, hg a, Atlas.redraw]
  split
  · rename_i hc
    obtain ⟨hpage, ho, hd⟩ := project_distance hc hv hp
    rw [PhysicalMap.source?, physical.lookup_of_page_eq hpage]
    cases physical.lookup (p + (a.pageBase - v)) with
    | none => exact congrArg Resolved.busError hd
    | some entry =>
      cases entry with
      | memory page =>
        simp only [Option.map_some, PhysicalEntry.source, Source.reach, ho]
        exact congrArg Resolved.host (sub_pageBase_add page a)
      | handler id => exact congrArg (Resolved.handler id) hd
  · rfl

/-- Host memory is reached side by side in its range. -/
theorem resolve_projectBuffer {map map' : VirtualMap} {v : GuestAddress} {buffer : HostAddress}
    {size : UInt32} (h : map.projectBuffer v buffer size = .ok map') (a : GuestAddress) :
    map'.resolve a =
      Atlas.redraw v size (fun d => .host (buffer + d.toUInt64)) map.resolve a := by
  obtain ⟨hv, hz, -, hg⟩ := get_projectBuffer h
  rw [resolve, hg a, Atlas.redraw]
  split
  · rename_i hc
    have hd := hc.toNat_sub
    have hle := hc.1
    have hsum : UInt64.ofNat ((a.page - v.page) * 4096) + a.pageOffset.toUInt64 =
        (a - v).toUInt64 := by
      apply UInt64.toNat_inj.1
      rw [hc.page_sub hv, UInt64.toNat_add, UInt64.toNat_ofNat', UInt32.toNat_toUInt64,
        UInt32.toNat_toUInt64, GuestAddress.toNat_pageOffset, hd]
      have ha := a.toNat_lt
      omega
    rw [VirtualEntry.resolve_ofHost, sub_pageBase_add, UInt64.add_assoc, hsum]
  · rfl

theorem resolve_unmap {map map' : VirtualMap} {v : GuestAddress} {size : UInt32}
    (h : map.unmap v size = .ok map') (a : GuestAddress) :
    map'.resolve a = Atlas.redraw v size (fun _ => .tlbMiss) map.resolve a := by
  rw [resolve, get_unmap h a, Atlas.redraw]
  split <;> rfl

end VirtualMap

/-- The maps of a space agree with an atlas at every address. -/
structure Atlas.Agrees (atlas : Atlas) (m : Maps) : Prop where
  physical : ∀ p, atlas.physical p = m.physical.source? p
  virtual : ∀ v, atlas.virtual v = m.virtual.resolve v

namespace Atlas

variable {σ : Type} {atlas : Atlas} {m m' : Maps} {c : Space.Command σ} {a : Space.Answer σ}

theorem redraw_congr {α : Type} (start : GuestAddress) (size : UInt32)
    {f g old old' : GuestAddress → α} (hf : ∀ d, f d = g d) (ho : ∀ a, old a = old' a)
    (a : GuestAddress) : redraw start size f old a = redraw start size g old' a := by
  simp only [redraw, hf, ho]

theorem record_of_accepted (h : a.IsAccepted) (base : HostAddress) :
    atlas.record base c a = atlas.draw base c := by
  cases a with
  | done => rfl
  | refused cause =>
    cases cause with
    | arena => rfl
    | map => exact absurd h id
  | _ => exact absurd h id

theorem record_of_not_accepted (h : ¬a.IsAccepted) (base : HostAddress) :
    atlas.record base c a = atlas := by
  cases a with
  | done => exact absurd trivial h
  | refused cause =>
    cases cause with
    | arena => exact absurd trivial h
    | map => rfl
  | _ => rfl

theorem draw_of_not_mapping (h : ¬c.IsMapping) (base : HostAddress) : atlas.draw base c = atlas := by
  cases c <;> first | rfl | exact absurd trivial h

theorem record_of_not_mapping (h : ¬c.IsMapping) (base : HostAddress) :
    atlas.record base c a = atlas := by
  by_cases ha : a.IsAccepted
  · rw [record_of_accepted ha, draw_of_not_mapping h]
  · exact record_of_not_accepted ha base

/-- A call whose arguments are accepted does to the maps what it draws into the atlas. -/
theorem Agrees.step (h : atlas.Agrees m) (hs : Space.MapStep m c a m') :
    (atlas.record m.arena.base c a).Agrees m' := by
  cases hs with
  | refused hd =>
    rw [record_of_not_accepted hd]
    exact h
  | unrelated hm =>
    rw [record_of_not_mapping hm]
    exact h
  | allocate _ =>
    rw [record_of_not_mapping id]
    exact ⟨h.physical, h.virtual⟩
  | mapBlock _ hp =>
    refine ⟨fun p => ?_, h.virtual⟩
    rw [PhysicalMap.source?_mapBlock hp]
    simp only [record, draw]
    exact redraw_congr _ _ (fun _ => rfl) h.physical p
  | mapMemory hp =>
    refine ⟨fun p => ?_, h.virtual⟩
    rw [PhysicalMap.source?_mapBlock hp]
    simp only [record, draw]
    exact redraw_congr _ _ (fun _ => rfl) h.physical p
  | mapHandler hp =>
    refine ⟨fun p => ?_, h.virtual⟩
    rw [PhysicalMap.source?_mapHandler hp]
    simp only [record, draw]
    exact redraw_congr _ _ (fun _ => rfl) h.physical p
  | duplicate hp =>
    refine ⟨fun p => ?_, h.virtual⟩
    rw [PhysicalMap.source?_duplicate hp]
    simp only [record, draw]
    exact redraw_congr _ _ (fun _ => h.physical _) h.physical p
  | project hv accepted =>
    rw [record_of_accepted accepted]
    refine ⟨h.physical, fun v => ?_⟩
    rw [VirtualMap.resolve_project hv]
    simp only [draw]
    exact redraw_congr _ _ (fun _ => congrArg (Source.reach _) (h.physical _)) h.virtual v
  | projectBlock _ hv accepted =>
    rw [record_of_accepted accepted]
    refine ⟨h.physical, fun v => ?_⟩
    rw [VirtualMap.resolve_projectBuffer hv]
    simp only [draw]
    exact redraw_congr _ _ (fun _ => rfl) h.virtual v
  | projectBuffer hv accepted =>
    rw [record_of_accepted accepted]
    refine ⟨h.physical, fun v => ?_⟩
    rw [VirtualMap.resolve_projectBuffer hv]
    simp only [draw]
    exact redraw_congr _ _ (fun _ => rfl) h.virtual v
  | unmap hv accepted =>
    rw [record_of_accepted accepted]
    refine ⟨h.physical, fun v => ?_⟩
    rw [VirtualMap.resolve_unmap hv]
    simp only [draw]
    exact redraw_congr _ _ (fun _ => rfl) h.virtual v
  | reset accepted =>
    rw [record_of_accepted accepted]
    exact ⟨fun p => (PhysicalMap.source?_empty p).symm, fun _ => rfl⟩

theorem Agrees.follow {s : Space σ} (h : atlas.Agrees s.maps) (calls : List (Space.Command σ))
    (hc : ∀ c ∈ calls, ¬c.IsInstall) :
    (atlas.follow s calls).Agrees (s.run calls).2.maps := by
  induction calls generalizing s atlas with
  | nil => exact h
  | cons c cs ih =>
    exact ih (h.step (Space.mapStep_step (hc c (by simp)))) fun d hd => hc d (by simp [hd])

end Atlas

theorem Space.IsFresh.agrees {σ : Type} {s : Space σ} (h : s.IsFresh) :
    Atlas.initial.Agrees s.maps := by
  obtain ⟨place, settings, level, routed, kernel, hc⟩ := h
  obtain ⟨arena, journal, -, rfl⟩ := Space.create_eq_ok hc
  exact ⟨fun p => (PhysicalMap.source?_empty p).symm, fun _ => rfl⟩

end GuestMemory
