import GuestMemory.Proofs.Window.Protection

/-!
Projecting onto a range of virtual pages leaves nothing of what the range held before. Two spaces that
agree outside the range agree everywhere afterwards, in the map, in the window and in its record, so
taking a range out first makes no difference.
-/
namespace GuestMemory

namespace Space

variable {σ : Type} {s t u s₀ t₀ : Space σ} {v p a : GuestAddress} {size : UInt32}
  {r : Option ArenaError × Space σ}

def mirror? (s : Space σ) (a : GuestAddress) : Option Window.Backing := s.window.bind (·.pages.get a)

def recorded? (s : Space σ) (a : GuestAddress) : Option UInt32 :=
  s.window.bind (·.aliases.offset? a)

def aliases (s : Space σ) (o : UInt32) : List GuestAddress :=
  (s.window.elim #[] (·.aliases.ofOffset o)).toList

/-- Two spaces have the same at a virtual page. -/
structure SamePage (s t : Space σ) (a : GuestAddress) : Prop where
  entry : t.virtual.get a = s.virtual.get a
  physicalAddress : t.virtual.physicalAddress? a = s.virtual.physicalAddress? a
  mirror : t.mirror? a = s.mirror? a
  recorded : t.recorded? a = s.recorded? a

/-- Two spaces have the same at all virtual pages, and list the same of them for each offset. -/
structure SamePages (s t : Space σ) : Prop where
  page : ∀ a, s.SamePage t a
  aliases : ∀ o, (t.aliases o).Perm (s.aliases o)

/-- Two spaces that differ in their virtual pages and in the journal at the most. -/
structure SameBeside (s t : Space σ) : Prop where
  fields : t = { s with virtual := t.virtual, window := t.window, journal := t.journal }
  window : t.window.map (fun w => (w.base, w.faults)) = s.window.map fun w => (w.base, w.faults)

/-- The record of the window, if there is one, is of what the window shows, and the host grants what
comes. -/
structure IsRecorded (s : Space σ) : Prop where
  granted : s.Granted
  recorded : ∀ w, s.window = some w → w.Recorded

theorem SameBeside.symm (h : s.SameBeside t) : t.SameBeside s := by
  refine ⟨?_, h.window.symm⟩
  have hf := h.fields
  rw [hf]

theorem SameBeside.trans (h : s.SameBeside t) (h' : t.SameBeside u) : s.SameBeside u := by
  refine ⟨?_, h'.window.trans h.window⟩
  have hf := h.fields
  have hf' := h'.fields
  rw [hf', hf]

theorem IsFresh.isRecorded (fresh : s₀.IsFresh) (granted : s₀.Granted)
    (run : Leads (fun _ _ => True) s₀ s) : s.IsRecorded :=
  ⟨run.granted granted, fresh.recorded granted run⟩

namespace IsRecorded

variable (h : s.IsRecorded)

include h

theorem recorded?_eq (a : GuestAddress) :
    s.recorded? a = (s.mirror? a).map fun b => Window.pageWord b.offset := by
  cases hw : s.window with
  | none => simp only [recorded?, mirror?, hw, Option.bind_none, Option.map_none]
  | some w =>
    simp only [recorded?, mirror?, hw, Option.bind_some]
    rw [(h.recorded w hw).offsets, Window.shows, Option.map_map]
    rfl

theorem mem_aliases (o : UInt32) (a : GuestAddress) :
    a ∈ s.aliases o ↔ a.pageBase = a ∧ s.recorded? a = some (GuestAddress.pageBase o) := by
  cases hw : s.window with
  | none => simp [aliases, recorded?, hw]
  | some w =>
    simp only [aliases, recorded?, hw, Option.elim_some, Option.bind_some, Array.mem_toList_iff]
    rw [(h.recorded w hw).mem, (h.recorded w hw).offsets]

theorem nodup_aliases (o : UInt32) : (s.aliases o).Nodup := by
  cases hw : s.window with
  | none => simp [aliases, hw]
  | some w =>
    simp only [aliases, hw, Option.elim_some]
    exact (h.recorded w hw).nodup o

/-- Remapping a range keeps the record. -/
theorem remap (virtual : VirtualMap) (v : GuestAddress) (size : UInt32) :
    ({ s with virtual }.syncWindow v size).2.IsRecorded := by
  refine ⟨(windowFrom_remap virtual v size).granted h.granted, fun w' hw' => ?_⟩
  obtain ⟨w, hw, hb⟩ := windowFrom_remap virtual v size w' hw'
  exact (h.recorded w hw).becomes (h.granted w hw) hb

/-- The lists go by what the record has of the pages. -/
theorem samePages (ht : t.IsRecorded) (page : ∀ a, s.SamePage t a) : s.SamePages t := by
  refine ⟨page, fun o => (List.perm_ext_iff_of_nodup (ht.nodup_aliases o) (h.nodup_aliases o)).2
    fun a => ?_⟩
  rw [ht.mem_aliases, h.mem_aliases, (page a).recorded]

end IsRecorded

/-- The record of a page goes by what the window shows there. -/
theorem SamePage.of_mirror (hs : s.IsRecorded) (ht : t.IsRecorded)
    (entry : t.virtual.get a = s.virtual.get a)
    (physicalAddress : t.virtual.physicalAddress? a = s.virtual.physicalAddress? a)
    (mirror : t.mirror? a = s.mirror? a) : s.SamePage t a :=
  ⟨entry, physicalAddress, mirror, by rw [ht.recorded?_eq, hs.recorded?_eq, mirror]⟩

@[simp] theorem virtual_syncWindow (s : Space σ) (v : GuestAddress) (size : UInt32) :
    (s.syncWindow v size).2.virtual = s.virtual :=
  congrArg Maps.virtual (s.maps_syncWindow v size)

@[simp] theorem arena_syncWindow (s : Space σ) (v : GuestAddress) (size : UInt32) :
    (s.syncWindow v size).2.arena = s.arena :=
  congrArg Maps.arena (s.maps_syncWindow v size)

/-- What the window is to show at a page depends on the entry of the page and on the arena. -/
theorem windowTarget_congr (h : t.virtual.get a = s.virtual.get a) (arena : t.arena = s.arena) :
    t.windowTarget a = s.windowTarget a := by
  rw [windowTarget, windowTarget, h, arena]

/-- Remapping a range changes nothing but virtual pages and what is reported. -/
theorem sameBeside_remap (s : Space σ) (virtual : VirtualMap) (v : GuestAddress) (size : UInt32) :
    s.SameBeside ({ s with virtual }.syncWindow v size).2 := by
  constructor
  · obtain ⟨window, journal, he⟩ := ({ s with virtual } : Space σ).syncWindow_eq v size
    rw [he]
  · obtain hw | ⟨w, hw⟩ := s.window.eq_none_or_eq_some
    · simp only [syncWindow, hw]
    · rw [syncWindow_eq_walk (s := { s with virtual }) hw, hw]
      exact congrArg some (Window.Walk.visitAll_keeps
        (P := fun w' => (w'.base, w'.faults) = (w.base, w.faults)) rfl fun w' v target h =>
          (w'.beside_sync v target).trans h)

/-- A window is kept, and shows in the range what the pages of the range now lead to. -/
theorem mirror?_remap (h : s.IsRecorded) {virtual : VirtualMap}
    (hr : s.virtual.Remaps virtual v size) :
    let t := ({ s with virtual }.syncWindow v size).2
    t.window.isSome = s.window.isSome ∧ ∀ a, t.mirror? a =
      if Covers v size a then t.window.bind fun _ => Window.backingOf (t.windowTarget a.pageBase)
      else s.mirror? a := by
  intro t
  obtain hw | ⟨w, hw⟩ := s.window.eq_none_or_eq_some
  · have hn : t.window = none := by
      simp only [t, syncWindow, hw]
    simp only [mirror?, hn, hw, Option.bind_none, ite_self, and_self, implies_true]
  · obtain ⟨w', hw', -, -, hget⟩ := mirrors_syncWindow hw (h.recorded w hw).mirrors hr
      (Granted.syncWindow (s := { s with virtual }) h.granted v size).1
    have ht : t.window = some w' := hw'
    have htarget : t.windowTarget = ({ s with virtual } : Space σ).windowTarget :=
      windowTarget_syncWindow _ v size
    simp only [mirror?, ht, hw, Option.bind_some, hget, htarget, Option.isSome_some, implies_true,
      and_self]

/-- A page outside the range that is remapped keeps what it has. -/
theorem samePage_remap (h : s.IsRecorded) {virtual : VirtualMap}
    (hr : s.virtual.Remaps virtual v size) (ha : ¬Covers v size a)
    (hp : virtual.physicalAddress? a = s.virtual.physicalAddress? a) :
    s.SamePage ({ s with virtual }.syncWindow v size).2 a := by
  refine .of_mirror h (h.remap virtual v size) ?_ ?_ (((mirror?_remap h hr).2 a).trans (if_neg ha))
  · rw [virtual_syncWindow, hr.outside a ha]
  · rw [virtual_syncWindow, hp]

theorem samePage_project (h : s.IsRecorded) (hp : s.project v p size = .ok r)
    (ha : ¬Covers v size a) : s.SamePage r.2 a := by
  obtain ⟨virtual, hv, rfl⟩ := project_eq_ok.1 hp
  refine samePage_remap h (VirtualMap.remaps_project hv) ha ?_
  rw [VirtualMap.physicalAddress?_project hv, if_neg ha]

theorem samePage_unmap (h : s.IsRecorded) (hu : s.unmap v size = .ok r) (ha : ¬Covers v size a) :
    s.SamePage r.2 a := by
  obtain ⟨virtual, hv, rfl⟩ := unmap_eq_ok.1 hu
  refine samePage_remap h (VirtualMap.remaps_unmap hv) ha ?_
  rw [VirtualMap.physicalAddress?_unmap hv, if_neg ha]

theorem bind_const_eq {α β γ : Type} {x : Option α} {y : Option β} (h : y.isSome = x.isSome)
    (b : Option γ) : (y.bind fun _ => b) = x.bind fun _ => b := by
  cases x <;> cases y <;> first | rfl | cases h

/-- Two spaces that agree outside a range agree everywhere when the range has been projected onto. -/
theorem samePages_project (hs : s.IsRecorded) (ht : t.IsRecorded)
    (physical : ∀ q, t.physical.lookup q = s.physical.lookup q) (arena : t.arena = s.arena)
    (window : t.window.isSome = s.window.isSome)
    (outside : ∀ a, ¬Covers v size a → s.SamePage t a) (hp : s.project v p size = .ok r) :
    ∃ t', t.project v p size = .ok (none, t') ∧ r.2.SamePages t' := by
  obtain ⟨m, hm, rfl⟩ := project_eq_ok.1 hp
  obtain ⟨n, hn⟩ : ∃ n, t.virtual.project t.physical v p size = .ok n :=
    VirtualMap.exists_project_iff.2 (VirtualMap.exists_project_iff.1 ⟨m, hm⟩)
  have hgranted := (Granted.syncWindow (s := { t with virtual := n }) ht.granted v size).1
  refine ⟨_, project_eq_ok.2 ⟨n, hn, Prod.ext hgranted rfl⟩, ?_⟩
  have hget : ∀ a, n.get a = m.get a := by
    intro a
    rw [(VirtualMap.get_project hn).2.2, (VirtualMap.get_project hm).2.2, physical]
    split
    · rfl
    · rename_i ha
      exact (outside a ha).entry
  have hphysical : ∀ a, n.physicalAddress? a = m.physicalAddress? a := by
    intro a
    rw [VirtualMap.physicalAddress?_project hn, VirtualMap.physicalAddress?_project hm]
    split
    · rfl
    · rename_i ha
      exact (outside a ha).physicalAddress
  obtain ⟨hws, hms⟩ := mirror?_remap hs (VirtualMap.remaps_project hm)
  obtain ⟨hwt, hmt⟩ := mirror?_remap ht (VirtualMap.remaps_project hn)
  have hwindow := hwt.trans (window.trans hws.symm)
  have hs' := hs.remap m v size
  have ht' := ht.remap n v size
  refine hs'.samePages ht' fun a => .of_mirror hs' ht' ?_ ?_ ?_
  · rw [virtual_syncWindow, virtual_syncWindow, hget]
  · rw [virtual_syncWindow, virtual_syncWindow, hphysical]
  · rw [hms, hmt]
    split
    · have htarget := windowTarget_congr (a := a.pageBase)
        (s := ({ s with virtual := m }.syncWindow v size).2)
        (t := ({ t with virtual := n }.syncWindow v size).2) (by simp [hget]) (by simp [arena])
      rw [htarget]
      exact bind_const_eq hwindow _
    · rename_i ha
      exact (outside a ha).mirror

theorem sameBeside_project (h : s.project v p size = .ok r) : s.SameBeside r.2 := by
  obtain ⟨virtual, -, rfl⟩ := project_eq_ok.1 h
  exact s.sameBeside_remap virtual v size

theorem sameBeside_unmap (h : s.unmap v size = .ok r) : s.SameBeside r.2 := by
  obtain ⟨virtual, -, rfl⟩ := unmap_eq_ok.1 h
  exact s.sameBeside_remap virtual v size

/-- A range that can be projected onto can be taken out first, to no effect. -/
theorem project_after_unmap (h : s.IsRecorded) (hp : s.project v p size = .ok r) :
    ∃ u u', s.unmap v size = .ok (none, u) ∧ u.project v p size = .ok (none, u') ∧
      r.2.SamePages u' ∧ r.2.SameBeside u' := by
  obtain ⟨m, hm, -⟩ := project_eq_ok.1 hp
  obtain ⟨n, hn⟩ : ∃ n, s.virtual.unmap v size = .ok n :=
    VirtualMap.exists_unmap_iff.2 (VirtualMap.exists_project_iff.1 ⟨m, hm⟩).1
  have hgranted := (Granted.syncWindow (s := { s with virtual := n }) h.granted v size).1
  obtain ⟨u, hu⟩ : ∃ u, s.unmap v size = .ok (none, u) :=
    ⟨_, unmap_eq_ok.2 ⟨n, hn, Prod.ext hgranted rfl⟩⟩
  -- without the range the space still agrees with itself outside of it
  have beside : s.SameBeside u := sameBeside_unmap hu
  have hrecorded : u.IsRecorded := by
    obtain ⟨virtual, -, he⟩ := unmap_eq_ok.1 hu
    have hspace : ({ s with virtual }.syncWindow v size).2 = u := congrArg Prod.snd he
    exact hspace ▸ h.remap virtual v size
  have hphysical : u.physical = s.physical := by rw [beside.fields]
  have harena : u.arena = s.arena := by rw [beside.fields]
  have hwindow : u.window.isSome = s.window.isSome := by
    have hw := congrArg Option.isSome beside.window
    rwa [Option.isSome_map, Option.isSome_map] at hw
  obtain ⟨u', hu', hpages⟩ := samePages_project h hrecorded (fun q => by rw [hphysical]) harena
    hwindow (fun a ha => samePage_unmap h hu ha) hp
  exact ⟨u, u', hu, hu', hpages,
    (sameBeside_project hp).symm.trans (beside.trans (sameBeside_project hu'))⟩

/-- What a range of virtual pages held before leaves no trace when it is projected onto, on hosts that
grant every change of their windows. -/
theorem remap_forgets {s' : Space σ} (hs : s₀.IsFresh) (granted : s₀.Granted)
    (run : Leads (fun _ _ => True) s₀ s) (ht : t₀.IsFresh) (granted' : t₀.Granted)
    (run' : Leads (fun _ _ => True) t₀ t)
    (physical : ∀ q, t.physical.lookup q = s.physical.lookup q) (arena : t.arena = s.arena)
    (window : t.window.isSome = s.window.isSome) {v p : GuestAddress} {size : UInt32}
    (outside : ∀ a, ¬Covers v size a → s.SamePage t a)
    (accepted : s.project v p size = .ok (none, s')) :
    (∃ t', t.project v p size = .ok (none, t') ∧ s'.SamePages t' ∧
      ∀ a, ¬Covers v size a → s.SamePage s' a ∧ t.SamePage t' a) ∧
    ∃ u u', s.unmap v size = .ok (none, u) ∧ u.project v p size = .ok (none, u') ∧
      s'.SamePages u' ∧ s'.SameBeside u' := by
  have hs' := hs.isRecorded granted run
  have ht' := ht.isRecorded granted' run'
  obtain ⟨t', hp, hpages⟩ := samePages_project hs' ht' physical arena window outside accepted
  refine ⟨⟨t', hp, hpages, fun a ha => ?_⟩, project_after_unmap hs' accepted⟩
  exact ⟨samePage_project hs' accepted ha, samePage_project ht' hp ha⟩

/-- Two pages of physical memory, and then also the second of them behind a virtual page. -/
def installed : Space Unit :=
  ((made true false).run [.allocate "ram" 0x2000 .readWrite, .mapBlock ⟨0, 0x2000⟩ 0 0x2000 0]).2

def overlaid : Space Unit := (installed.step (.project 0x1000 0x1000 0x1000)).2

/-- When the first one is projected, it is as if the second one had never been there. -/
theorem remap_forgets_overlaid :
    (made true false).IsFresh ∧ (made true false).Granted ∧
      Leads (fun _ _ => True) (made true false) installed ∧
      Leads (fun _ _ => True) (made true false) overlaid ∧
      (∀ q, overlaid.physical.lookup q = installed.physical.lookup q) ∧
      overlaid.arena = installed.arena ∧ overlaid.window.isSome = installed.window.isSome ∧
      (∀ a, ¬Covers 0x1000 0x1000 a → installed.SamePage overlaid a) ∧
      installed.mirror? 0x1000 = none ∧ overlaid.mirror? 0x1000 = some ⟨0x1000, .readWrite⟩ ∧
      ∃ s' t', installed.project 0x1000 0 0x1000 = .ok (none, s') ∧
        overlaid.project 0x1000 0 0x1000 = .ok (none, t') ∧ s'.SamePages t' := by
  have fresh := isFresh_made true false
  have granted := granted_made true false
  have run : Leads (fun _ _ => True) (made true false) installed := leads_run fun _ _ _ => trivial
  have run' : Leads (fun _ _ => True) (made true false) overlaid :=
    run.tail ⟨.project 0x1000 0x1000 0x1000, trivial, rfl⟩
  have outside : ∀ a, ¬Covers 0x1000 0x1000 a → installed.SamePage overlaid a := by
    intro a ha
    obtain ⟨u, hu⟩ : ∃ u, installed.project 0x1000 0x1000 0x1000 = .ok (none, u) := ⟨_, rfl⟩
    obtain ⟨hentry, hphysical, hmirror, hrecorded⟩ :=
      samePage_project (fresh.isRecorded granted run) hu ha
    cases hu
    exact ⟨hentry, hphysical, hmirror, hrecorded⟩
  obtain ⟨s', accepted⟩ : ∃ s', installed.project 0x1000 0 0x1000 = .ok (none, s') := ⟨_, rfl⟩
  obtain ⟨⟨t', hp, hpages, -⟩, -⟩ :=
    remap_forgets fresh granted run fresh granted run' (fun _ => rfl) rfl rfl outside accepted
  exact ⟨fresh, granted, run, run', fun _ => rfl, rfl, rfl, outside, by decide +kernel,
    by decide +kernel, s', t', accepted, hp, hpages⟩

end Space

end GuestMemory
