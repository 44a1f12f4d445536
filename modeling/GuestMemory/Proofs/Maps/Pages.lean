import GuestMemory.Proofs.Space.Calls

/-!
The host pages behind the maps. Every call keeps them aligned, and a property of host pages that
holds of what the calls bring in holds of everything that the maps lead to: projecting, tiling and
duplicating only pass pages on.
-/
namespace GuestMemory

/-- The pages of `size` bytes of host memory all have a property. -/
def HostRun (P : HostAddress → Prop) (base : HostAddress) (size : UInt32) : Prop :=
  ∀ i < GuestAddress.page size, P (base + UInt64.ofNat (i * 4096))

def PhysicalMap.Shows (P : HostAddress → Prop) (map : PhysicalMap) : Prop :=
  ∀ p page, map.lookup p = some (.memory page) → page.toNat % 4096 = 0 ∧ P page

def hostPage (distance : HostAddress) (v : GuestAddress) : HostAddress :=
  distance + v.pageBase.toUInt64

/-- The virtual map leads to aligned host pages with a property. -/
def VirtualMap.Shows (P : HostAddress → Prop) (map : VirtualMap) : Prop :=
  ∀ v distance, map.get v = .memory distance →
    (hostPage distance v).toNat % 4096 = 0 ∧ P (hostPage distance v)

theorem aligned_add {base : HostAddress} (h : base.toNat % 4096 = 0) (i : Nat) :
    (base + UInt64.ofNat (i * 4096)).toNat % 4096 = 0 := by
  rw [UInt64.toNat_add, UInt64.toNat_ofNat']
  omega

namespace PhysicalMap

variable {P : HostAddress → Prop} {map map' : PhysicalMap}

theorem shows_empty : Shows P {} := by
  intro p page h
  simp [lookup] at h

/-- Mapping a block shows its own pages besides those that were shown. -/
theorem Shows.mapBlock {base : HostAddress} {start : GuestAddress} {size blockSize : UInt32}
    (hm : map.Shows P) (h : map.mapBlock base start size blockSize = .ok map')
    (hb : HostRun P base (blockBytes size blockSize)) : map'.Shows P := by
  obtain ⟨hbase, hs, hz, hperiod, hl⟩ := lookup_mapBlock h
  intro p page hp
  rw [hl p] at hp
  split at hp
  · rename_i hc
    cases hp
    refine ⟨aligned_add hbase _, hb _ (Nat.mod_lt _ ?_)⟩
    rw [blockBytes] at hperiod ⊢
    rw [GuestAddress.page_eq]
    by_cases h0 : blockSize = 0
    · have := hc.1
      have := hc.2
      rw [if_pos h0]
      omega
    · have : blockSize.toNat ≠ 0 := fun e => h0 (UInt32.toNat_inj.1 e)
      rw [if_neg h0] at hperiod ⊢
      omega
  · exact hm p page hp

theorem Shows.mapHandler {id : HandlerId} {start : GuestAddress} {size : UInt32}
    (hm : map.Shows P) (h : map.mapHandler id start size = .ok map') : map'.Shows P := by
  intro p page hp
  rw [lookup_mapHandler h p] at hp
  split at hp
  · cases hp
  · exact hm p page hp

theorem Shows.duplicate {target start : GuestAddress} {size : UInt32} (hm : map.Shows P)
    (h : map.duplicate target start size = .ok map') : map'.Shows P := by
  intro p page hp
  rw [(lookup_duplicate h).2.2 p] at hp
  split at hp
  · exact hm _ page hp
  · exact hm p page hp

end PhysicalMap

@[simp] theorem hostPage_ofHost (page : HostAddress) (v : GuestAddress) :
    hostPage (page - v.pageBase.toUInt64) v = page :=
  UInt64.sub_add_cancel page _

/-- A page is projected as memory exactly when memory is behind it. -/
theorem VirtualEntry.project_eq_memory {behind : Option PhysicalEntry} {p v : GuestAddress}
    {distance : HostAddress} (h : project behind p v = .memory distance) :
    ∃ page, behind = some (.memory page) ∧ distance = page - v.toUInt64 := by
  cases behind with
  | none => cases h
  | some entry =>
    cases entry with
    | memory page =>
      cases h
      exact ⟨page, rfl, rfl⟩
    | handler id => cases h

namespace VirtualMap

variable {P : HostAddress → Prop} {map map' : VirtualMap}

theorem shows_empty : Shows P {} := by
  intro v distance h
  cases h

/-- Projecting shows pages of the physical map besides those that were shown. -/
theorem Shows.project {physical : PhysicalMap} {start p : GuestAddress} {size : UInt32}
    (hm : map.Shows P) (hp : physical.Shows P)
    (h : map.project physical start p size = .ok map') : map'.Shows P := by
  intro v distance hv
  rw [(get_project h).2.2 v] at hv
  split at hv
  · obtain ⟨page, hl, rfl⟩ := VirtualEntry.project_eq_memory hv
    rw [hostPage_ofHost]
    exact hp _ page hl
  · exact hm v distance hv

theorem Shows.projectBuffer {start : GuestAddress} {buffer : HostAddress} {size : UInt32}
    (hm : map.Shows P) (h : map.projectBuffer start buffer size = .ok map')
    (hb : HostRun P buffer size) : map'.Shows P := by
  intro v distance hv
  obtain ⟨hs, hz, ha, hg⟩ := get_projectBuffer h
  rw [hg v] at hv
  split at hv
  · rename_i hc
    cases hv
    have hi := (covers_iff_page v hs hz).1 hc
    rw [hostPage_ofHost]
    exact ⟨aligned_add ha _, hb _ (by omega)⟩
  · exact hm v distance hv

theorem Shows.unmap {start : GuestAddress} {size : UInt32} (hm : map.Shows P)
    (h : map.unmap start size = .ok map') : map'.Shows P := by
  intro v distance hv
  rw [get_unmap h v] at hv
  split at hv
  · cases hv
  · exact hm v distance hv

end VirtualMap

/-- Both maps lead to aligned host pages with a property. -/
structure Maps.Shows (P : HostAddress → Prop) (m : Maps) : Prop where
  physical : m.physical.Shows P
  virtual : m.virtual.Shows P

namespace Space

variable {σ : Type}

/-- The host pages that a call brings in all have a property. -/
def Command.Brings (P : HostAddress → Prop) (arena : Arena) : Command σ → Prop
  | .mapBlock block _ size blockSize =>
    (blockBytes size blockSize).toNat ≤ block.size →
      HostRun P (arena.address block) (blockBytes size blockSize)
  | .mapMemory base _ size blockSize => HostRun P base (blockBytes size blockSize)
  | .projectBlock _ block size => size.toNat ≤ block.size → HostRun P (arena.address block) size
  | .projectBuffer _ buffer size => HostRun P buffer size
  | _ => True

theorem Command.brings_true (c : Command σ) (arena : Arena) : c.Brings (fun _ => True) arena := by
  cases c <;> simp [Brings, HostRun]

/-- One call keeps a property of all host pages, if allocating never takes it from a page. -/
theorem MapStep.shows {P : Arena → HostAddress → Prop} {m m' : Maps} {c : Command σ}
    {a : Answer σ} (h : MapStep m c a m')
    (grow : ∀ {arena arena' : Arena} {name size protection block},
      arena.allocate name size protection = .ok (block, arena') →
        ∀ page, P arena page → P arena' page)
    (hm : m.Shows (P m.arena)) (hc : c.Brings (P m.arena) m.arena) : m'.Shows (P m'.arena) := by
  cases h with
  | refused h => exact hm
  | unrelated h => exact hm
  | allocate h =>
    constructor
    · intro p page hp
      obtain ⟨ha, hP⟩ := hm.physical p page hp
      exact ⟨ha, grow h page hP⟩
    · intro v distance hv
      obtain ⟨ha, hP⟩ := hm.virtual v distance hv
      exact ⟨ha, grow h _ hP⟩
  | mapBlock room h => exact ⟨hm.physical.mapBlock h (hc room), hm.virtual⟩
  | mapMemory h => exact ⟨hm.physical.mapBlock h hc, hm.virtual⟩
  | mapHandler h => exact ⟨hm.physical.mapHandler h, hm.virtual⟩
  | duplicate h => exact ⟨hm.physical.duplicate h, hm.virtual⟩
  | project h => exact ⟨hm.physical, hm.virtual.project hm.physical h⟩
  | projectBlock room h => exact ⟨hm.physical, hm.virtual.projectBuffer h (hc room)⟩
  | projectBuffer h => exact ⟨hm.physical, hm.virtual.projectBuffer h hc⟩
  | unmap h => exact ⟨hm.physical, hm.virtual.unmap h⟩
  | reset => exact ⟨PhysicalMap.shows_empty, VirtualMap.shows_empty⟩

end Space

end GuestMemory
