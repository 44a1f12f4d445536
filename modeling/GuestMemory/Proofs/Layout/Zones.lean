import GuestMemory.Proofs.Maps.Atlas
import GuestMemory.Proofs.Maps.Regions
import Mathlib.Data.List.Pairwise

/-!
Ranges that are given something new one after the other. Where they lie apart none undoes another,
so in the end every address of a range has what that range was given. The zones of the physical
window are filled like that, and so are the segments that show it.
-/
namespace GuestMemory.Layout

structure Span where
  start : GuestAddress
  size : UInt32
  deriving DecidableEq, Repr

namespace Span

def Holds (g : Span) (a : GuestAddress) : Prop := Covers g.start g.size a

/-- Whole pages below a limit. -/
def Fits (limit : Nat) (g : Span) : Prop :=
  g.start.toNat % 4096 = 0 ∧ g.size.toNat % 4096 = 0 ∧ g.start.toNat + g.size.toNat ≤ limit

def Apart (g g' : Span) : Prop :=
  g.start.toNat + g.size.toNat ≤ g'.start.toNat ∨ g'.start.toNat + g'.size.toNat ≤ g.start.toNat

instance (g : Span) (a : GuestAddress) : Decidable (g.Holds a) :=
  inferInstanceAs (Decidable (Covers _ _ _))

instance (limit : Nat) (g : Span) : Decidable (g.Fits limit) :=
  inferInstanceAs (Decidable (_ ∧ _))

instance (g g' : Span) : Decidable (g.Apart g') := inferInstanceAs (Decidable (_ ∨ _))

theorem Apart.not_holds {g g' : Span} (h : g.Apart g') {a : GuestAddress} (ha : g.Holds a) :
    ¬g'.Holds a := by
  rintro ⟨hle, hlt⟩
  obtain ⟨hle', hlt'⟩ := ha
  rcases h with h | h <;> omega

theorem Holds.sub_lt {g : Span} {a : GuestAddress} (h : g.Holds a) :
    (a - g.start).toNat < g.size.toNat := by
  have hle := h.1
  have hlt := h.2
  rw [Covers.toNat_sub h]
  omega

/-- An address of a range by its distance from the start. -/
theorem Fits.add {g : Span} (h : g.Fits (2 ^ 32)) {d : GuestAddress}
    (hd : d.toNat < g.size.toNat) : g.Holds (g.start + d) ∧ g.start + d - g.start = d := by
  have hn : (g.start + d).toNat = g.start.toNat + d.toNat := by
    have hend := h.2.2
    rw [UInt32.toNat_add]
    omega
  constructor
  · exact ⟨by omega, by omega⟩
  · rw [UInt32.add_comm, UInt32.add_sub_cancel]

end Span

/-- A range and what it is given, by the distance from its start. -/
structure Patch (α : Type) extends Span where
  value : GuestAddress → α

namespace Patch

variable {α : Type} {patches : List (Patch α)} {q : Patch α} {a : GuestAddress}

def apply (old : GuestAddress → α) (patches : List (Patch α)) : GuestAddress → α :=
  patches.foldl (fun f q => Atlas.redraw q.start q.size q.value f) old

/-- Beside all ranges what was there before stays. -/
theorem apply_of_not_holds (old : GuestAddress → α) (h : ∀ q ∈ patches, ¬q.Holds a) :
    apply old patches a = old a := by
  induction patches generalizing old with
  | nil => rfl
  | cons q rest ih =>
    have hq : ¬Covers q.start q.size a := h q (by simp)
    calc apply (Atlas.redraw q.start q.size q.value old) rest a
        = Atlas.redraw q.start q.size q.value old a := ih _ fun r hr => h r (by simp [hr])
      _ = old a := if_neg hq

/-- With ranges that lie apart, each has its own values. -/
theorem apply_of_mem (old : GuestAddress → α)
    (apart : patches.Pairwise fun q r => q.toSpan.Apart r.toSpan) (hq : q ∈ patches)
    (ha : q.Holds a) : apply old patches a = q.value (a - q.start) := by
  induction patches generalizing old with
  | nil => exact absurd hq List.not_mem_nil
  | cons r rest ih =>
    obtain ⟨hr, hrest⟩ := List.pairwise_cons.1 apart
    rcases List.mem_cons.1 hq with rfl | hq
    · calc apply (Atlas.redraw q.start q.size q.value old) rest a
          = Atlas.redraw q.start q.size q.value old a :=
            apply_of_not_holds _ fun r h => (hr r h).not_holds ha
        _ = q.value (a - q.start) := if_pos ha
    · exact ih _ hrest hq

end Patch

inductive Content where
  | device (id : HandlerId)
  /-- A block, or its first `blockSize` bytes over and over. -/
  | memory (block : Block) (blockSize : UInt32)
  deriving DecidableEq, Repr

namespace Content

/-- What answers at a distance from the start of a zone of this size; `base` is where the arena
begins. -/
def source (base : HostAddress) (size : UInt32) (d : GuestAddress) : Content → Source
  | device id => .handler id
  | memory block blockSize =>
    .memory (Atlas.tile (base + UInt64.ofNat block.offset) (blockBytes size blockSize) d)

/-- Memory that tiles a zone of this size in whole pages. -/
def Fits (size : UInt32) : Content → Prop
  | device _ => True
  | memory block blockSize =>
    block.offset % 4096 = 0 ∧ (blockBytes size blockSize).toNat % 4096 = 0 ∧
      blockBytes size blockSize ≠ 0 ∧ (blockBytes size blockSize).toNat ≤ block.size ∧
        size % blockBytes size blockSize = 0

/-- Contents that share no byte of the arena. -/
def Apart : Content → Content → Prop
  | memory b _, memory b' _ => b.offset + b.size ≤ b'.offset ∨ b'.offset + b'.size ≤ b.offset
  | _, _ => True

def Below (limit : Nat) : Content → Prop
  | device _ => True
  | memory b _ => b.offset + b.size ≤ limit

def Known {σ : Type} (handlers : HandlerTable σ) : Content → Prop
  | device id => handlers.contains id = true
  | memory .. => True

instance (size : UInt32) : (c : Content) → Decidable (c.Fits size)
  | device _ => .isTrue trivial
  | memory .. => inferInstanceAs (Decidable (_ ∧ _))

instance : (c c' : Content) → Decidable (c.Apart c')
  | memory .., memory .. => inferInstanceAs (Decidable (_ ∨ _))
  | memory .., device _ | device _, memory .. | device _, device _ => .isTrue trivial

instance (limit : Nat) : (c : Content) → Decidable (c.Below limit)
  | device _ => .isTrue trivial
  | memory .. => inferInstanceAs (Decidable (_ ≤ _))

theorem Apart.symm {c c' : Content} (h : c.Apart c') : c'.Apart c := by
  cases c <;> cases c' <;> first | exact trivial | exact Or.symm h

end Content

structure Zone extends Span where
  content : Content
  deriving DecidableEq, Repr

variable {σ : Type} {s : Space σ}

theorem address_aligned {arena : Arena} {block : Block} (aligned : arena.base.toNat % 4096 = 0)
    (offset : block.offset % 4096 = 0) : (arena.address block).toNat % 4096 = 0 := by
  have h := aligned_add aligned (block.offset / 4096)
  rwa [Nat.div_mul_cancel (Nat.dvd_of_mod_eq_zero offset)] at h

namespace Zone

def install (z : Zone) : Attempt σ Unit :=
  match z.content with
  | .device id => mapping (·.mapHandler id z.start z.size)
  | .memory block blockSize => mapping (·.mapBlock block z.start z.size blockSize)

def patch (base : HostAddress) (z : Zone) : Patch (Option Source) :=
  { z.toSpan with value := fun d => some (z.content.source base z.size d) }

/-- A zone that is refused at most for its device. -/
def Fits (z : Zone) : Prop := z.toSpan.Fits physicalSize ∧ z.content.Fits z.size

/-- Zones that share neither an address nor a byte of the arena. -/
def Apart (z z' : Zone) : Prop := z.toSpan.Apart z'.toSpan ∧ z.content.Apart z'.content

instance (z : Zone) : Decidable z.Fits := inferInstanceAs (Decidable (_ ∧ _))

instance (z z' : Zone) : Decidable (z.Apart z') := inferInstanceAs (Decidable (_ ∧ _))

theorem Apart.symm {z z' : Zone} (h : z.Apart z') : z'.Apart z := ⟨Or.symm h.1, h.2.symm⟩

theorem mapHandler_ok (map : PhysicalMap) (id : HandlerId) {g : Span} (h : g.Fits physicalSize) :
    ∃ map', map.mapHandler id g.start g.size = .ok map' := by
  rw [PhysicalMap.mapHandler, PhysicalMap.checkRange_ok_iff.2 h]
  exact ⟨_, rfl⟩

theorem mapBlock_ok (map : PhysicalMap) {base : HostAddress} (aligned : base.toNat % 4096 = 0)
    {g : Span} (h : g.Fits physicalSize) {blockSize : UInt32}
    (whole : (blockBytes g.size blockSize).toNat % 4096 = 0)
    (tiles : g.size % blockBytes g.size blockSize = 0) :
    ∃ map', map.mapBlock base g.start g.size blockSize = .ok map' := by
  have hbase : base.isAligned = true := HostAddress.isAligned_iff.2 aligned
  have hwhole : GuestAddress.isAligned (if blockSize = 0 then g.size else blockSize) = true :=
    GuestAddress.isAligned_iff.2 whole
  have htiles : g.size % (if blockSize = 0 then g.size else blockSize) = 0 := tiles
  rw [PhysicalMap.mapBlock, PhysicalMap.checkRange_ok_iff.2 h]
  simp only [hbase, hwhole, htiles, Bool.not_true, Bool.false_or, bne_self_eq_false, Bool.and_false]
  exact ⟨_, rfl⟩

/-- A zone whose device is registered is filled, and nothing else happens. -/
theorem install_ok {z : Zone} (aligned : s.arena.base.toNat % 4096 = 0) (fits : z.Fits)
    (known : z.content.Known s.handlers) :
    ∃ physical, z.install s = .ok () { s with physical } ∧
      physical.source? = Atlas.redraw z.start z.size (z.patch s.arena.base).value
        s.physical.source? := by
  obtain ⟨g, content⟩ := z
  obtain ⟨hspan, hcontent⟩ := fits
  cases content with
  | device id =>
    obtain ⟨physical, hp⟩ := mapHandler_ok s.physical id hspan
    have hm : s.mapHandler id g.start g.size = .ok { s with physical } :=
      Space.mapHandler_eq_ok.2 ⟨known, physical, hp, rfl⟩
    refine ⟨physical, ?_, funext fun p => PhysicalMap.source?_mapHandler hp p⟩
    simp only [install, mapping, hm]
  | memory block blockSize =>
    obtain ⟨hoffset, hwhole, -, hroom, htiles⟩ := hcontent
    have haligned := address_aligned aligned hoffset
    obtain ⟨physical, hp⟩ := mapBlock_ok s.physical haligned hspan hwhole htiles
    have hm : s.mapBlock block g.start g.size blockSize = .ok { s with physical } :=
      Space.mapBlock_eq_ok.2 ⟨hroom, physical, hp, rfl⟩
    refine ⟨physical, ?_, funext fun p => PhysicalMap.source?_mapBlock hp p⟩
    simp only [install, mapping, hm]

/-- A zone whose device is not registered is refused. -/
theorem install_error {z : Zone} (h : ¬z.content.Known s.handlers) :
    ∃ id, z.content = .device id ∧ s.handlers.contains id = false ∧
      z.install s = .error (.refused (.map (.unknownHandler .mapHandler id))) s := by
  obtain ⟨g, content⟩ := z
  cases content with
  | device id =>
    have hid : s.handlers.contains id = false := by simpa [Content.Known] using h
    refine ⟨id, rfl, hid, ?_⟩
    simp only [install, mapping, Space.mapHandler, hid]
    rfl
  | memory block blockSize => exact absurd trivial h

end Zone

theorem attempt_bind_ok {α β : Type} {f : Attempt σ α} {g : α → Attempt σ β} {t : Space σ} {x : α}
    (h : f s = .ok x t) : (f >>= g) s = g x t := by
  simp only [Bind.bind, EStateM.bind, h]

theorem attempt_bind_error {α β : Type} {f : Attempt σ α} {g : α → Attempt σ β} {t : Space σ}
    {e : Failure SetupError} (h : f s = .error e t) : (f >>= g) s = .error e t := by
  simp only [Bind.bind, EStateM.bind, h]

def fill (zs : List Zone) : Attempt σ PUnit := forM zs Zone.install

/-- Zones whose devices are all registered are filled. -/
theorem fill_ok {zs : List Zone} (aligned : s.arena.base.toNat % 4096 = 0)
    (fits : ∀ z ∈ zs, z.Fits) (known : ∀ z ∈ zs, z.content.Known s.handlers) :
    ∃ physical, fill zs s = .ok ⟨⟩ { s with physical } ∧
      physical.source? = Patch.apply s.physical.source? (zs.map (Zone.patch s.arena.base)) := by
  induction zs generalizing s with
  | nil => exact ⟨s.physical, rfl, rfl⟩
  | cons z zs ih =>
    obtain ⟨physical, hz, hsource⟩ :=
      Zone.install_ok aligned (fits z (by simp)) (known z (by simp))
    obtain ⟨physical', hzs, hsource'⟩ := ih (s := { s with physical }) aligned
      (fun z hz => fits z (by simp [hz])) fun z hz => known z (by simp [hz])
    refine ⟨physical', ?_, ?_⟩
    · rw [fill, List.forM_cons, attempt_bind_ok hz]
      exact hzs
    · rw [hsource', hsource]
      rfl

/-- With a device that is not registered some zone is refused for such a device. -/
theorem fill_error {zs : List Zone} (aligned : s.arena.base.toNat % 4096 = 0)
    (fits : ∀ z ∈ zs, z.Fits) (unknown : ∃ z ∈ zs, ¬z.content.Known s.handlers) :
    ∃ id t, (∃ z ∈ zs, z.content = .device id) ∧ s.handlers.contains id = false ∧
      fill zs s = .error (.refused (.map (.unknownHandler .mapHandler id))) t := by
  induction zs generalizing s with
  | nil =>
    obtain ⟨z, hz, -⟩ := unknown
    exact absurd hz List.not_mem_nil
  | cons z zs ih =>
    by_cases known : z.content.Known s.handlers
    · obtain ⟨physical, hz, -⟩ := Zone.install_ok aligned (fits z (by simp)) known
      have hrest : ∃ z ∈ zs, ¬z.content.Known s.handlers := by
        obtain ⟨z', hz', hn⟩ := unknown
        rcases List.mem_cons.1 hz' with rfl | hz'
        · exact absurd known hn
        · exact ⟨z', hz', hn⟩
      obtain ⟨id, t, ⟨z', hz', hc⟩, hid, hzs⟩ := ih (s := { s with physical }) aligned
        (fun z hz => fits z (by simp [hz])) hrest
      refine ⟨id, t, ⟨z', by simp [hz'], hc⟩, hid, ?_⟩
      rw [fill, List.forM_cons, attempt_bind_ok hz]
      exact hzs
    · obtain ⟨id, hc, hid, hz⟩ := Zone.install_error known
      refine ⟨id, s, ⟨z, by simp, hc⟩, hid, ?_⟩
      rw [fill, List.forM_cons, attempt_bind_error hz]

/-- Zones that can be filled side by side and take no byte of the arena from some offset on. -/
def Sound (limit : Nat) (zs : List Zone) : Prop :=
  zs.Pairwise Zone.Apart ∧ ∀ z ∈ zs, z.Fits ∧ z.content.Below limit

instance (limit : Nat) (zs : List Zone) : Decidable (Sound limit zs) :=
  inferInstanceAs (Decidable (_ ∧ _))

section

variable {limit : Nat} {zs : List Zone} {base : HostAddress} {old : GuestAddress → Option Source}
  {physical : PhysicalMap} {p q : GuestAddress} {b : HostAddress} {z : Zone}

theorem Sound.apart (sound : Sound limit zs) {z' : Zone} (hz : z ∈ zs) (hz' : z' ∈ zs)
    (hne : z ≠ z') : z.Apart z' := by
  have hsymm : Std.Symm Zone.Apart := ⟨fun _ _ h => h.symm⟩
  exact sound.1.forall hz hz' hne

theorem Sound.source_eq (sound : Sound limit zs)
    (filled : physical.source? = Patch.apply old (zs.map (Zone.patch base))) (hz : z ∈ zs)
    (hp : z.Holds p) :
    physical.source? p = some (z.content.source base z.size (p - z.start)) := by
  have hapart : (zs.map (Zone.patch base)).Pairwise fun q r => q.toSpan.Apart r.toSpan :=
    List.pairwise_map.2 (sound.1.imp And.left)
  rw [filled]
  exact Patch.apply_of_mem old hapart (List.mem_map_of_mem hz) hp

theorem source_outside (filled : physical.source? = Patch.apply old (zs.map (Zone.patch base)))
    (hp : ∀ z ∈ zs, ¬z.Holds p) : physical.source? p = old p := by
  rw [filled]
  refine Patch.apply_of_not_holds old fun q hq => ?_
  obtain ⟨z, hz, rfl⟩ := List.mem_map.1 hq
  exact hp z hz

/-- Where a byte of a zone lies in the arena. -/
theorem Zone.Fits.toNat_tile (fits : z.Fits) {block : Block} {blockSize : UInt32}
    (hc : z.content = .memory block blockSize)
    (room : base.toNat + block.offset + block.size ≤ 2 ^ 64) (d : GuestAddress) :
    (Atlas.tile (base + UInt64.ofNat block.offset) (blockBytes z.size blockSize) d).toNat =
        base.toNat + block.offset + d.toNat % (blockBytes z.size blockSize).toNat ∧
      d.toNat % (blockBytes z.size blockSize).toNat < block.size := by
  have hcontent := fits.2
  rw [hc] at hcontent
  obtain ⟨-, -, hne, hle, -⟩ := hcontent
  have hpos : 0 < (blockBytes z.size blockSize).toNat :=
    Nat.pos_of_ne_zero fun e => hne (UInt32.toNat_inj.1 e)
  have hmod := Nat.mod_lt d.toNat hpos
  refine ⟨?_, by omega⟩
  rw [Atlas.tile, UInt64.toNat_add, UInt64.toNat_add, UInt64.toNat_ofNat', UInt64.toNat_ofNat']
  omega

/-- A byte of the arena behind a physical address is one of the memory of its zone. -/
theorem Sound.memory_of_source (sound : Sound limit zs)
    (filled : physical.source? = Patch.apply old (zs.map (Zone.patch base)))
    (room : base.toNat + limit ≤ 2 ^ 64) (device : ∀ b, old p ≠ some (.memory b))
    (h : physical.source? p = some (.memory b)) :
    ∃ z ∈ zs, z.Holds p ∧ ∃ block blockSize, z.content = .memory block blockSize ∧
      block.offset + block.size ≤ limit ∧
      b.toNat = base.toNat + block.offset +
        (p - z.start).toNat % (blockBytes z.size blockSize).toNat ∧
      (p - z.start).toNat % (blockBytes z.size blockSize).toNat < block.size := by
  by_cases hin : ∃ z ∈ zs, z.Holds p
  · obtain ⟨z, hz, hp⟩ := hin
    obtain ⟨fits, below⟩ := sound.2 z hz
    rw [sound.source_eq filled hz hp] at h
    refine ⟨z, hz, hp, ?_⟩
    cases hc : z.content with
    | device id =>
      rw [hc] at h
      cases h
    | memory block blockSize =>
      rw [hc] at h below
      cases h
      have hbelow : block.offset + block.size ≤ limit := below
      have hroom : base.toNat + block.offset + block.size ≤ 2 ^ 64 := by omega
      obtain ⟨hb, hlt⟩ := fits.toNat_tile hc hroom (p - z.start)
      exact ⟨block, blockSize, rfl, hbelow, hb, hlt⟩
  · rw [source_outside filled fun z hz hp => hin ⟨z, hz, hp⟩] at h
    exact absurd h (device b)

/-- Only where memory repeats inside a zone do two addresses show one byte. -/
theorem Sound.shared (sound : Sound limit zs)
    (filled : physical.source? = Patch.apply old (zs.map (Zone.patch base)))
    (room : base.toNat + limit ≤ 2 ^ 64) (device : ∀ p b, old p ≠ some (.memory b)) (hne : p ≠ q)
    (hp : physical.source? p = some (.memory b)) (hq : physical.source? q = some (.memory b)) :
    ∃ z ∈ zs, z.Holds p ∧ z.Holds q ∧ ∃ block blockSize, z.content = .memory block blockSize ∧
      blockSize ≠ 0 ∧
      (p - z.start).toNat % blockSize.toNat = (q - z.start).toNat % blockSize.toNat := by
  obtain ⟨z, hz, hzp, block, blockSize, hc, -, hb, hlt⟩ :=
    sound.memory_of_source filled room (device p) hp
  obtain ⟨z', hz', hzq, block', blockSize', hc', -, hb', hlt'⟩ :=
    sound.memory_of_source filled room (device q) hq
  have hsame : z = z' := by
    by_contra hdiff
    have hapart := (sound.apart hz hz' hdiff).2
    rw [hc, hc'] at hapart
    rcases hapart with h | h <;> omega
  subst hsame
  cases hc.symm.trans hc'
  have hmod : (p - z.start).toNat % (blockBytes z.size blockSize).toNat =
      (q - z.start).toNat % (blockBytes z.size blockSize).toNat := by omega
  refine ⟨z, hz, hzp, hzq, block, blockSize, hc, ?_⟩
  by_cases h0 : blockSize = 0
  · -- the memory is as long as the zone, so the two distances are the same
    rw [blockBytes, if_pos h0, Nat.mod_eq_of_lt hzp.sub_lt, Nat.mod_eq_of_lt hzq.sub_lt] at hmod
    exact absurd ((UInt32.sub_left_inj _).1 (UInt32.toNat_inj.1 hmod)) hne
  · rw [blockBytes, if_neg h0] at hmod
    exact ⟨h0, hmod⟩

end

def display (g : Span) : Attempt σ Unit := projecting (·.project g.start 0 g.size)

def Span.view (physical : PhysicalMap) (g : Span) : Patch Resolved :=
  { g with value := fun d => Source.reach d (physical.source? d) }

/-- The result of a call that the host lets the window follow. -/
theorem synced_ok (granted : s.Granted) (virtual : VirtualMap) (g : Span) :
    ∃ window journal, ({ s with virtual, window, journal } : Space σ).Granted ∧
      { s with virtual }.syncWindow g.start g.size =
        (none, { s with virtual, window, journal }) := by
  have hg : ({ s with virtual } : Space σ).Granted := granted
  obtain ⟨window, journal, he⟩ := { s with virtual }.syncWindow_eq g.start g.size
  obtain ⟨hn, hg⟩ := hg.syncWindow g.start g.size
  rw [he] at hg
  exact ⟨window, journal, hg, Prod.ext hn he⟩

theorem display_ok (granted : s.Granted) {g : Span} (fits : g.Fits (2 ^ 32)) :
    ∃ virtual window journal, display g s = .ok () { s with virtual, window, journal } ∧
      ({ s with virtual, window, journal } : Space σ).Granted ∧
      virtual.resolve = Atlas.redraw g.start g.size (g.view s.physical).value
        s.virtual.resolve := by
  obtain ⟨virtual, hv⟩ : ∃ virtual,
      s.virtual.project s.physical g.start 0 g.size = .ok virtual := by
    rw [VirtualMap.project, VirtualMap.checkRange_ok_iff.2 fits]
    exact ⟨_, rfl⟩
  obtain ⟨window, journal, hg, hw⟩ := synced_ok granted virtual g
  have hm : s.project g.start 0 g.size = .ok (none, { s with virtual, window, journal }) :=
    Space.project_eq_ok.2 ⟨virtual, hv, hw⟩
  refine ⟨virtual, window, journal, ?_, hg, funext fun a => ?_⟩
  · simp only [display, projecting, hm]
  · rw [VirtualMap.resolve_project hv]
    simp only [UInt32.zero_add]
    rfl

def displayAll (gs : List Span) : Attempt σ PUnit := forM gs display

/-- Segments are shown one after the other, on a host that lets the window follow. -/
theorem displayAll_ok (granted : s.Granted) {gs : List Span} (fits : ∀ g ∈ gs, g.Fits (2 ^ 32)) :
    ∃ virtual window journal, displayAll gs s = .ok ⟨⟩ { s with virtual, window, journal } ∧
      ({ s with virtual, window, journal } : Space σ).Granted ∧
      virtual.resolve = Patch.apply s.virtual.resolve (gs.map (Span.view s.physical)) := by
  induction gs generalizing s with
  | nil => exact ⟨s.virtual, s.window, s.journal, rfl, granted, rfl⟩
  | cons g gs ih =>
    obtain ⟨virtual, window, journal, hg, granted', hresolve⟩ :=
      display_ok granted (fits g (by simp))
    obtain ⟨virtual', window', journal', hgs, granted'', hresolve'⟩ :=
      ih granted' fun g hg => fits g (by simp [hg])
    refine ⟨virtual', window', journal', ?_, granted'', ?_⟩
    · rw [displayAll, List.forM_cons, attempt_bind_ok hg]
      exact hgs
    · rw [hresolve', hresolve]
      rfl

/-- What a range shows that a block is put at. -/
def Span.blockView (host : HostAddress) (g : Span) : Patch Resolved :=
  { g with value := fun d => .host (host + d.toUInt64) }

theorem displayBlock_ok (granted : s.Granted) {g : Span} (block : Block) (fits : g.Fits (2 ^ 32))
    (aligned : (s.arena.address block).toNat % 4096 = 0) (room : g.size.toNat ≤ block.size) :
    ∃ virtual window journal,
      projecting (·.projectBlock g.start block g.size) s =
        .ok () { s with virtual, window, journal } ∧
      virtual.resolve = Atlas.redraw g.start g.size (g.blockView (s.arena.address block)).value
        s.virtual.resolve := by
  have haligned : (s.arena.address block).isAligned = true := HostAddress.isAligned_iff.2 aligned
  obtain ⟨virtual, hv⟩ : ∃ virtual,
      s.virtual.projectBuffer g.start (s.arena.address block) g.size = .ok virtual := by
    rw [VirtualMap.projectBuffer, VirtualMap.checkRange_ok_iff.2 fits]
    simp only [haligned]
    exact ⟨_, rfl⟩
  obtain ⟨window, journal, -, hw⟩ := synced_ok granted virtual g
  have hm : s.projectBlock g.start block g.size = .ok (none, { s with virtual, window, journal }) :=
    Space.projectBlock_eq_ok.2 ⟨room, virtual, hv, hw⟩
  refine ⟨virtual, window, journal, ?_, funext fun a => VirtualMap.resolve_projectBuffer hv a⟩
  simp only [projecting, hm]

end GuestMemory.Layout
