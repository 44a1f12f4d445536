import GuestMemory.Proofs.Layout.Zones

/-!
The standard layout as the guest sees it. Its zones lie apart, and so do the blocks behind them; so
every address of the physical window has what its own zone was given, and only the windows where
memory repeats show a byte twice.
-/
namespace GuestMemory.Layout

variable {σ : Type}

def carvedSize : Nat := 0x26CE000

/-- The scratchpad is carved off last, and is all that no zone shows. -/
def scratchpadOffset : Nat := 0x26CA000

/-- Where the regions come to lie in an arena that nothing was carved off before. -/
def standard (null : HandlerId) : Layout where
  mainRam := ⟨0, mainRamSize.toNat⟩
  rom := ⟨0x2000000, romSize.toNat⟩
  rom1 := ⟨0x2400000, rom1Size.toNat⟩
  rom2 := ⟨0x2440000, rom2Size.toNat⟩
  iopRam := ⟨0x24C0000, iopRamSize.toNat⟩
  vu0Micro := ⟨0x26C0000, vu0Size.toNat⟩
  vu0Memory := ⟨0x26C1000, vu0Size.toNat⟩
  vu1Micro := ⟨0x26C2000, vu1Size.toNat⟩
  vu1Memory := ⟨0x26C6000, vu1Size.toNat⟩
  scratchpad := ⟨scratchpadOffset, scratchpadSize.toNat⟩
  nullHandler := null

def Content.orMemory (id : Option HandlerId) (block : Block) (blockSize : UInt32) : Content :=
  match id with
  | some id => .device id
  | none => .memory block blockSize

/-- The zones of the physical window, in the order in which they are filled. -/
def zones (l : Layout) (hardware : Hardware) : List Zone :=
  let orNull := fun (id : Option HandlerId) => Content.device (id.getD l.nullHandler)
  [⟨⟨0, mainRamSize⟩, .memory l.mainRam 0⟩,
    ⟨⟨mainRamSize, hardwareBase - mainRamSize⟩, .device l.nullHandler⟩] ++
  (List.range hardwarePages).map (fun i =>
    ⟨⟨VirtualMap.pageAddress hardwareBase i, 0x1000⟩, orNull hardware.pages[i]?.join⟩) ++
  [⟨⟨gsBase, gsSize⟩, orNull hardware.gs⟩] ++
  iopHardwarePages.map (fun page => ⟨⟨page, 0x1000⟩, orNull hardware.iop⟩) ++
  [⟨⟨vu0MicroBase, vuWindow⟩, .orMemory hardware.vu0Micro l.vu0Micro vu0Size⟩,
    ⟨⟨vu0MemoryBase, vuWindow⟩, .memory l.vu0Memory vu0Size⟩,
    ⟨⟨vu1MicroBase, vuWindow⟩, .orMemory hardware.vu1Micro l.vu1Micro 0⟩,
    ⟨⟨vu1MemoryBase, vuWindow⟩, .memory l.vu1Memory 0⟩,
    ⟨⟨iopRamBase, iopRamWindow⟩, .memory l.iopRam iopRamSize⟩,
    ⟨⟨rom1Base, rom1Size⟩, .memory l.rom1 0⟩,
    ⟨⟨rom2Base, rom2Size⟩, .memory l.rom2 0⟩,
    ⟨⟨romBase, romSize⟩, .memory l.rom 0⟩]

def segments : List Span :=
  [⟨0, segmentSize⟩, ⟨uncachedRam, mainRamSize⟩, ⟨uncachedAcceleratedRam, mainRamSize⟩,
    ⟨kernelSegment0, segmentSize⟩, ⟨kernelSegment1, segmentSize⟩]

def scratchpadSpan : Span := ⟨scratchpadBase, scratchpadSize⟩

theorem forIn_eq_forM {ι : Type} (f : ι → Attempt σ PUnit) (xs : List ι) :
    (forIn xs PUnit.unit fun i _ => do
      f i
      pure (.yield PUnit.unit)) = forM xs f := by
  induction xs with
  | nil => rfl
  | cons i xs ih =>
    rw [List.forIn_cons, List.forM_cons, bind_assoc]
    simp only [pure_bind]
    rw [ih]

theorem mapMicro_eq (id : Option HandlerId) (block : Block) (base : GuestAddress)
    (blockSize : UInt32) :
    (mapMicro id block base blockSize : Attempt σ Unit) =
      Zone.install ⟨⟨base, vuWindow⟩, .orMemory id block blockSize⟩ := by
  cases id <;> rfl

/-- Filling the physical map goes through the zones. -/
theorem mapPhysical_eq (l : Layout) (hardware : Hardware) :
    (mapPhysical l hardware : Attempt σ Unit) = fill (zones l hardware) := by
  rw [mapPhysical]
  simp only [forIn_eq_forM, mapMicro_eq]
  simp only [fill, zones, List.forM_append, List.forM_cons, List.forM_nil, List.forM_map,
    bind_assoc, bind_pure_unit]
  rfl

/-- Projecting the physical map goes through the segments, and the scratchpad comes last. -/
theorem mapVirtual_eq (l : Layout) :
    (mapVirtual l : Attempt σ Unit) = (do
      displayAll segments
      projecting (·.projectBlock scratchpadBase l.scratchpad scratchpadSize)) := by
  simp only [displayAll, segments, List.forM_cons, List.forM_nil, bind_assoc, pure_bind]
  rfl

/-- The devices that are supplied, each with a range that it gets. -/
inductive Hardware.Supplies (hardware : Hardware) : Span → HandlerId → Prop where
  | page {i : Nat} {id : HandlerId} (h : i < hardwarePages)
      (supplied : hardware.pages[i]? = some (some id)) :
      Supplies hardware ⟨VirtualMap.pageAddress hardwareBase i, 0x1000⟩ id
  | gs {id : HandlerId} (supplied : hardware.gs = some id) : Supplies hardware ⟨gsBase, gsSize⟩ id
  | iop {page : GuestAddress} {id : HandlerId} (h : page ∈ iopHardwarePages)
      (supplied : hardware.iop = some id) : Supplies hardware ⟨page, 0x1000⟩ id
  | vu0Micro {id : HandlerId} (supplied : hardware.vu0Micro = some id) :
      Supplies hardware ⟨vu0MicroBase, vuWindow⟩ id
  | vu1Micro {id : HandlerId} (supplied : hardware.vu1Micro = some id) :
      Supplies hardware ⟨vu1MicroBase, vuWindow⟩ id

/-- The windows where memory repeats, each with the size after which it does. -/
def tiled (hardware : Hardware) : List (Span × UInt32) :=
  [(⟨iopRamBase, iopRamWindow⟩, iopRamSize), (⟨vu0MemoryBase, vuWindow⟩, vu0Size)] ++
    match hardware.vu0Micro with
    | some _ => []
    | none => [(⟨vu0MicroBase, vuWindow⟩, vu0Size)]

section

variable {l : Layout} {hardware : Hardware} {g : Span} {id : HandlerId} {z : Zone}

theorem Hardware.Supplies.mem_zones (h : hardware.Supplies g id) (l : Layout) :
    ⟨g, .device id⟩ ∈ zones l hardware := by
  cases h with
  | @page i id h supplied =>
    have hmem : ⟨⟨VirtualMap.pageAddress hardwareBase i, 0x1000⟩, .device id⟩ ∈
        (List.range hardwarePages).map fun i => (⟨⟨VirtualMap.pageAddress hardwareBase i, 0x1000⟩,
          .device (hardware.pages[i]?.join.getD l.nullHandler)⟩ : Zone) :=
      List.mem_map.2 ⟨i, List.mem_range.2 h, by rw [supplied]; rfl⟩
    simp only [zones, List.mem_append]
    simp [hmem]
  | gs supplied => simp [zones, supplied]
  | iop h supplied => simp [zones, supplied, h]
  | vu0Micro supplied => simp [zones, supplied, Content.orMemory]
  | vu1Micro supplied => simp [zones, supplied, Content.orMemory]

/-- A device is the null one or was supplied for the zone, and memory that repeats does so in a
window that is known for it. -/
def Zone.Explained (l : Layout) (hardware : Hardware) (z : Zone) : Prop :=
  match z.content with
  | .device id => id = l.nullHandler ∨ hardware.Supplies z.toSpan id
  | .memory _ blockSize => blockSize = 0 ∨ (z.toSpan, blockSize) ∈ tiled hardware

theorem explained_getD {supplied : Option HandlerId}
    (h : ∀ id, supplied = some id → hardware.Supplies g id) :
    Zone.Explained l hardware ⟨g, .device (supplied.getD l.nullHandler)⟩ := by
  cases supplied with
  | none => exact .inl rfl
  | some id => exact .inr (h id rfl)

theorem explained_orMemory {supplied : Option HandlerId} {block : Block} {blockSize : UInt32}
    (h : ∀ id, supplied = some id → hardware.Supplies g id)
    (hm : supplied = none → blockSize = 0 ∨ (g, blockSize) ∈ tiled hardware) :
    Zone.Explained l hardware ⟨g, .orMemory supplied block blockSize⟩ := by
  cases supplied with
  | none => exact hm rfl
  | some id => exact .inr (h id rfl)

/-- Every zone has a device for it, or memory that repeats only where that is known. -/
theorem zones_explained (l : Layout) (hardware : Hardware) :
    ∀ z ∈ zones l hardware, z.Explained l hardware := by
  have hmicro : hardware.vu0Micro = none →
      vu0Size = 0 ∨ ((⟨vu0MicroBase, vuWindow⟩ : Span), vu0Size) ∈ tiled hardware := by
    intro h
    simp [tiled, h]
  simp only [zones, List.forall_mem_append, List.forall_mem_cons, List.forall_mem_map,
    List.not_mem_nil, false_implies, implies_true, and_true]
  refine ⟨⟨⟨⟨⟨.inl rfl, .inl rfl⟩, fun i hi => ?_⟩, ?_⟩, fun page hpage => ?_⟩,
    ?_, ?_, ?_, .inl rfl, ?_, .inl rfl, .inl rfl, .inl rfl⟩
  · exact explained_getD fun id h => .page (List.mem_range.1 hi) (Option.join_eq_some_iff.1 h)
  · exact explained_getD fun id => .gs
  · exact explained_getD fun id => .iop hpage
  · exact explained_orMemory (fun id => .vu0Micro) hmicro
  · exact .inr (by simp [tiled])
  · exact explained_orMemory (fun id => .vu1Micro) fun _ => .inl rfl
  · exact .inr (by simp [tiled])

/-- If the null handler and all devices that are supplied are registered, no zone is refused. -/
theorem zones_known {handlers : HandlerTable σ} (null : handlers.contains l.nullHandler = true)
    (supplied : ∀ g id, hardware.Supplies g id → handlers.contains id = true) :
    ∀ z ∈ zones l hardware, z.content.Known handlers := by
  intro z hz
  have hexplained := zones_explained l hardware z hz
  rw [Zone.Explained] at hexplained
  cases hc : z.content with
  | memory block blockSize => trivial
  | device id =>
    rw [hc] at hexplained
    rcases hexplained with rfl | hs
    · exact null
    · exact supplied _ id hs

def Zone.blank (z : Zone) : Zone :=
  match z.content with
  | .device _ => { z with content := .device defaultHandler }
  | .memory .. => z

theorem Zone.apart_blank (z z' : Zone) : z.blank.Apart z'.blank ↔ z.Apart z' := by
  obtain ⟨g, c⟩ := z
  obtain ⟨g', c'⟩ := z'
  cases c <;> cases c' <;> exact Iff.rfl

theorem sound_blank (limit : Nat) (zs : List Zone) :
    Sound limit (zs.map Zone.blank) ↔ Sound limit zs := by
  have hone : ∀ z : Zone, z.blank.Fits ∧ z.blank.content.Below limit ↔
      z.Fits ∧ z.content.Below limit := by
    rintro ⟨g, c⟩
    cases c <;> exact Iff.rfl
  simp only [Sound, List.pairwise_map, Zone.apart_blank, List.forall_mem_map, hone]

/-- Devices for the micro memories or none, which is all that the zones without their devices depend
on. -/
def board (vu0 vu1 : Bool) : Hardware where
  vu0Micro := if vu0 then some defaultHandler else none
  vu1Micro := if vu1 then some defaultHandler else none

theorem zones_blank (null : HandlerId) (hardware : Hardware) :
    (zones (standard null) hardware).map Zone.blank =
      (zones (standard defaultHandler)
        (board hardware.vu0Micro.isSome hardware.vu1Micro.isSome)).map Zone.blank := by
  obtain ⟨pages, gs, iop, vu0Micro, vu1Micro⟩ := hardware
  cases vu0Micro <;> cases vu1Micro <;> rfl

theorem sound_zones (null : HandlerId) (hardware : Hardware) :
    Sound scratchpadOffset (zones (standard null) hardware) := by
  have hboards : ∀ vu0 vu1,
      Sound scratchpadOffset (zones (standard defaultHandler) (board vu0 vu1)) := by
    decide +kernel
  rw [← sound_blank, zones_blank, sound_blank]
  exact hboards _ _

theorem zones_fit (null : HandlerId) (hardware : Hardware) :
    ∀ z ∈ zones (standard null) hardware, z.Fits :=
  fun z hz => ((sound_zones null hardware).2 z hz).1

end

/-- What is shown in the end: the physical window in each segment, and the scratchpad. -/
def views (physical : PhysicalMap) (host : HostAddress) : List (Patch Resolved) :=
  segments.map (Span.view physical) ++ [scratchpadSpan.blockView host]

theorem views_apart (physical : PhysicalMap) (host : HostAddress) :
    (views physical host).Pairwise fun q r => q.toSpan.Apart r.toSpan := by
  have hspans : (segments ++ [scratchpadSpan]).Pairwise Span.Apart := by decide
  have hviews : ((views physical host).map Patch.toSpan).Pairwise Span.Apart := hspans
  exact List.pairwise_map.1 hviews

theorem segments_fit : ∀ g ∈ scratchpadSpan :: segments, g.Fits (2 ^ 32) := by decide

/-- The virtual map is filled with the views, one after the other. -/
theorem mapVirtual_ok {s : Space σ} {l : Layout} (granted : s.Granted)
    (aligned : (s.arena.address l.scratchpad).toNat % 4096 = 0)
    (room : scratchpadSize.toNat ≤ l.scratchpad.size) :
    ∃ virtual window journal, mapVirtual l s = .ok () { s with virtual, window, journal } ∧
      virtual.resolve = Patch.apply s.virtual.resolve
        (views s.physical (s.arena.address l.scratchpad)) := by
  obtain ⟨shown, window, journal, hsegments, granted', hshown⟩ :=
    displayAll_ok granted fun g hg => segments_fit g (List.mem_cons_of_mem _ hg)
  obtain ⟨virtual, window', journal', hblock, hresolve⟩ :=
    displayBlock_ok granted' l.scratchpad (segments_fit scratchpadSpan List.mem_cons_self) aligned
      room
  refine ⟨virtual, window', journal', ?_, ?_⟩
  · rw [mapVirtual_eq, attempt_bind_ok hsegments]
    exact hblock
  · rw [views, Patch.apply, List.foldl_append]
    exact hresolve.trans (congrArg _ hshown)

/-- A space whose maps are filled with the zones and the views. -/
structure Made (null : HandlerId) (hardware : Hardware) (t : Space σ) : Prop where
  physical : t.physical.source? = Patch.apply Atlas.initial.physical
    ((zones (standard null) hardware).map (Zone.patch t.arena.base))
  virtual : t.virtual.resolve = Patch.apply (fun _ => .tlbMiss)
    (views t.physical (t.arena.address (standard null).scratchpad))
  room : t.arena.base.toNat + carvedSize ≤ 2 ^ 64

/-- What the guest has of the standard layout. -/
structure Installed (l : Layout) (hardware : Hardware) (t : Space σ) : Prop where
  filled : ∀ z ∈ zones l hardware, ∀ p, z.Holds p → t.virtual.resolve p =
    Source.reach p (some (z.content.source t.arena.base z.size (p - z.start)))
  shown : ∀ p : GuestAddress, p.toNat < physicalSize → ∃ x : Source,
    t.virtual.resolve p = Source.reach p (some x) ∧
    t.virtual.resolve (kernelSegment0 + p) = Source.reach p (some x) ∧
    t.virtual.resolve (kernelSegment1 + p) = Source.reach p (some x) ∧
    (p.toNat < mainRamSize.toNat →
      t.virtual.resolve (uncachedRam + p) = Source.reach p (some x) ∧
      t.virtual.resolve (uncachedAcceleratedRam + p) = Source.reach p (some x))
  /-- Two addresses show one byte only where memory repeats. -/
  shared : ∀ p q b, p.toNat < physicalSize → q.toNat < physicalSize → p ≠ q →
    t.virtual.resolve p = .host b → t.virtual.resolve q = .host b →
    ∃ w ∈ tiled hardware, w.1.Holds p ∧ w.1.Holds q ∧
      (p - w.1.start).toNat % w.2.toNat = (q - w.1.start).toNat % w.2.toNat
  scratchpad : ∀ d : GuestAddress, d.toNat < scratchpadSize.toNat →
    t.virtual.resolve (scratchpadBase + d) =
      .host (t.arena.address l.scratchpad + d.toUInt64) ∧
    ∀ p, p.toNat < physicalSize →
      t.virtual.resolve p ≠ .host (t.arena.address l.scratchpad + d.toUInt64)
  supplied : ∀ g id, hardware.Supplies g id → ∀ p, g.Holds p → t.virtual.resolve p = .handler id p
  outside : ∀ v, (∀ g ∈ scratchpadSpan :: segments, ¬g.Holds v) → t.virtual.resolve v = .tlbMiss

namespace Made

variable {null : HandlerId} {hardware : Hardware} {t : Space σ} {p a : GuestAddress}
  {b : HostAddress}

theorem resolve_eq (h : Made null hardware t) {q : Patch Resolved}
    (hq : q ∈ views t.physical (t.arena.address (standard null).scratchpad)) (ha : q.Holds a) :
    t.virtual.resolve a = q.value (a - q.start) := by
  rw [h.virtual]
  exact Patch.apply_of_mem _ (views_apart _ _) hq ha

/-- In a segment an address leads where the physical window does. -/
theorem resolve_segment (h : Made null hardware t) {g : Span} (hg : g ∈ segments)
    (hp : p.toNat < g.size.toNat) :
    t.virtual.resolve (g.start + p) = Source.reach p (t.physical.source? p) := by
  obtain ⟨ha, hd⟩ := (segments_fit g (List.mem_cons_of_mem _ hg)).add hp
  have hv := h.resolve_eq (q := g.view t.physical)
    (List.mem_append_left _ (List.mem_map_of_mem hg)) ha
  rw [hv]
  show Source.reach (g.start + p - g.start) (t.physical.source? (g.start + p - g.start)) = _
  rw [hd]

theorem resolve_physical (h : Made null hardware t) (hp : p.toNat < physicalSize) :
    t.virtual.resolve p = Source.reach p (t.physical.source? p) := by
  have hs := h.resolve_segment (g := ⟨0, segmentSize⟩) (by simp [segments]) hp
  rwa [UInt32.zero_add] at hs

/-- Something answers everywhere in the physical window. -/
theorem source_isSome (h : Made null hardware t) (hp : p.toNat < physicalSize) :
    ∃ x, t.physical.source? p = some x := by
  by_cases hin : ∃ z ∈ zones (standard null) hardware, z.Holds p
  · obtain ⟨z, hz, hzp⟩ := hin
    exact ⟨_, (sound_zones null hardware).source_eq h.physical hz hzp⟩
  · refine ⟨.handler defaultHandler, ?_⟩
    rw [source_outside h.physical fun z hz hzp => hin ⟨z, hz, hzp⟩]
    exact if_pos hp

theorem source_of_resolve (h : Made null hardware t) (hp : p.toNat < physicalSize)
    (hb : t.virtual.resolve p = .host b) : t.physical.source? p = some (.memory b) := by
  rw [h.resolve_physical hp] at hb
  cases hx : t.physical.source? p with
  | none =>
    rw [hx] at hb
    cases hb
  | some x =>
    rw [hx] at hb
    cases x <;> cases hb
    rfl

theorem initial_ne_memory (p : GuestAddress) (b : HostAddress) :
    Atlas.initial.physical p ≠ some (.memory b) := by
  rw [Atlas.initial]
  simp only
  split <;> simp

/-- All segments show the same of the physical window. -/
theorem shown (h : Made null hardware t) (hp : p.toNat < physicalSize) : ∃ x : Source,
    t.virtual.resolve p = Source.reach p (some x) ∧
    t.virtual.resolve (kernelSegment0 + p) = Source.reach p (some x) ∧
    t.virtual.resolve (kernelSegment1 + p) = Source.reach p (some x) ∧
    (p.toNat < mainRamSize.toNat →
      t.virtual.resolve (uncachedRam + p) = Source.reach p (some x) ∧
      t.virtual.resolve (uncachedAcceleratedRam + p) = Source.reach p (some x)) := by
  obtain ⟨x, hx⟩ := h.source_isSome hp
  have hsegment : ∀ g ∈ segments, p.toNat < g.size.toNat →
      t.virtual.resolve (g.start + p) = Source.reach p (some x) := fun g hg hlt =>
    hx ▸ h.resolve_segment hg hlt
  refine ⟨x, hx ▸ h.resolve_physical hp, ?_, ?_, fun hlt => ⟨?_, ?_⟩⟩
  · exact hsegment ⟨kernelSegment0, segmentSize⟩ (by simp [segments]) hp
  · exact hsegment ⟨kernelSegment1, segmentSize⟩ (by simp [segments]) hp
  · exact hsegment ⟨uncachedRam, mainRamSize⟩ (by simp [segments]) hlt
  · exact hsegment ⟨uncachedAcceleratedRam, mainRamSize⟩ (by simp [segments]) hlt

theorem below (h : Made null hardware t) : t.arena.base.toNat + scratchpadOffset ≤ 2 ^ 64 := by
  have hroom := h.room
  rw [carvedSize] at hroom
  rw [scratchpadOffset]
  omega

/-- Two addresses share a byte only in a window where memory repeats, a multiple of its size apart.
-/
theorem shared (h : Made null hardware t) {q : GuestAddress} (hp : p.toNat < physicalSize)
    (hq : q.toNat < physicalSize) (hne : p ≠ q) (hpb : t.virtual.resolve p = .host b)
    (hqb : t.virtual.resolve q = .host b) :
    ∃ w ∈ tiled hardware, w.1.Holds p ∧ w.1.Holds q ∧
      (p - w.1.start).toNat % w.2.toNat = (q - w.1.start).toNat % w.2.toNat := by
  obtain ⟨z, hz, hzp, hzq, block, blockSize, hc, h0, hmod⟩ :=
    (sound_zones null hardware).shared h.physical h.below initial_ne_memory hne
      (h.source_of_resolve hp hpb) (h.source_of_resolve hq hqb)
  have hexplained := zones_explained _ hardware z hz
  rw [Zone.Explained, hc] at hexplained
  exact ⟨(z.toSpan, blockSize), hexplained.resolve_left h0, hzp, hzq, hmod⟩

/-- The scratchpad is shown in its range, and no byte of it in the physical window. -/
theorem scratchpad (h : Made null hardware t) {d : GuestAddress}
    (hd : d.toNat < scratchpadSize.toNat) :
    let host := t.arena.address (standard null).scratchpad
    t.virtual.resolve (scratchpadBase + d) = .host (host + d.toUInt64) ∧
      ∀ p, p.toNat < physicalSize → t.virtual.resolve p ≠ .host (host + d.toUInt64) := by
  intro host
  obtain ⟨ha, hsub⟩ := (segments_fit scratchpadSpan (by simp)).add hd
  have hv : t.virtual.resolve (scratchpadBase + d) = .host (host + d.toUInt64) := by
    have hq := h.resolve_eq (q := scratchpadSpan.blockView host)
      (List.mem_append_right _ (List.mem_singleton_self _)) ha
    exact hq.trans (congrArg (fun e : UInt32 => Resolved.host (host + e.toUInt64)) hsub)
  have hn : (host + d.toUInt64).toNat = t.arena.base.toNat + scratchpadOffset + d.toNat := by
    have hroom := h.room
    rw [carvedSize] at hroom
    have hlt : d.toNat < 0x4000 := hd
    show (t.arena.base + UInt64.ofNat scratchpadOffset + d.toUInt64).toNat = _
    rw [scratchpadOffset, UInt64.toNat_add, UInt64.toNat_add, UInt64.toNat_ofNat',
      UInt32.toNat_toUInt64]
    omega
  refine ⟨hv, fun p hp hpb => ?_⟩
  obtain ⟨z, -, -, block, blockSize, -, hend, hb, hlt⟩ :=
    (sound_zones null hardware).memory_of_source h.physical h.below (initial_ne_memory p)
      (h.source_of_resolve hp hpb)
  omega

theorem filled (h : Made null hardware t) {z : Zone} (hz : z ∈ zones (standard null) hardware)
    (hp : z.Holds p) : t.virtual.resolve p =
      Source.reach p (some (z.content.source t.arena.base z.size (p - z.start))) := by
  have hin : p.toNat < physicalSize :=
    Nat.lt_of_lt_of_le hp.2 (zones_fit null hardware z hz).1.2.2
  rw [h.resolve_physical hin, (sound_zones null hardware).source_eq h.physical hz hp]

theorem supplied (h : Made null hardware t) {g : Span} {id : HandlerId}
    (hg : hardware.Supplies g id) (hp : g.Holds p) : t.virtual.resolve p = .handler id p :=
  h.filled (hg.mem_zones (standard null)) hp

/-- Beside the segments and the scratchpad nothing is mapped. -/
theorem outside (h : Made null hardware t) {v : GuestAddress}
    (hv : ∀ g ∈ scratchpadSpan :: segments, ¬g.Holds v) : t.virtual.resolve v = .tlbMiss := by
  rw [h.virtual]
  refine Patch.apply_of_not_holds _ fun q hq => ?_
  rcases List.mem_append.1 hq with hq | hq
  · obtain ⟨g, hg, rfl⟩ := List.mem_map.1 hq
    exact hv g (List.mem_cons_of_mem _ hg)
  · rw [List.mem_singleton.1 hq]
    exact hv scratchpadSpan List.mem_cons_self

theorem installed (h : Made null hardware t) : Installed (standard null) hardware t where
  filled _ hz _ := h.filled hz
  shown _ := h.shown
  shared _ _ _ := h.shared
  scratchpad _ := h.scratchpad
  supplied _ _ hg _ := h.supplied hg
  outside _ := h.outside

end Made

end GuestMemory.Layout
