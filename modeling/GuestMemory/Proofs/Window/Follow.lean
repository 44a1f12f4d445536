import GuestMemory.Proofs.Maps.Addresses
import GuestMemory.Proofs.Maps.Regions
import GuestMemory.Proofs.Site.Ledger
import GuestMemory.Proofs.Window.Mirror

/-!
How the host window of a space follows its maps. A call that changes the virtual map brings the pages
of its range up to date, if the host grants it; the other calls, but for those that give the window up
or clear it, leave what it shows.
-/
namespace GuestMemory

/-- Offset in the arena of what a virtual page leads to, if it leads to what has been carved off. -/
def Maps.shown (m : Maps) (v : GuestAddress) : Option Nat :=
  match m.virtual.get v with
  | .memory distance => m.arena.offset? (hostPage distance v)
  | _ => none

theorem Maps.shown_eq_some {m : Maps} {v : GuestAddress} {o : Nat} :
    m.shown v = some o ↔ ∃ distance, m.virtual.get v = .memory distance ∧
      m.arena.offset? (hostPage distance v) = some o := by
  rw [Maps.shown]
  cases m.virtual.get v <;> simp

namespace Window

/-- What is done to a window that is not moved: its pages are protected, or what is known of sites
changes. -/
inductive Adjusts (w : Window) : Window → Prop where
  | same : Adjusts w w
  | pages (offset size : UInt32) (protection : Protection) :
      Adjusts w (w.protect offset size protection).2
  | sites {faults : Site.FaultContext} (base_eq : faults.base = w.faults.base)
      (size_eq : faults.size = w.faults.size) : Adjusts w { w with faults }

theorem Adjusts.alike {w w' : Window} (h : w.Adjusts w') : w.Alike w' := by
  cases h with
  | same => exact .refl w
  | pages offset size protection => exact w.alike_protect offset size protection
  | sites => exact ⟨rfl, fun _ => rfl, rfl⟩

end Window

namespace Space

variable {σ : Type} {s : Space σ}

/-- What the window is to show is what the maps show. -/
theorem windowTarget_pageBase (h : s.arena.IsPaved) (v : GuestAddress) :
    (s.windowTarget v.pageBase).map Prod.fst = s.maps.shown v := by
  have hg : s.virtual.get v.pageBase = s.virtual.get v := by
    rw [VirtualMap.get, VirtualMap.get, GuestAddress.page_pageBase]
  simp only [windowTarget, Maps.shown, maps, hg]
  cases s.virtual.get v with
  | memory distance => exact h.locate?_eq (distance + v.pageBase.toUInt64)
  | handler id distance => rfl
  | unmapped => rfl
  | busError distance => rfl

/-- The window follows page by page. -/
theorem syncWindow_eq_walk {w : Window} (hw : s.window = some w) (v : GuestAddress)
    (size : UInt32) :
    let k := Window.Walk.visitAll { window := w, journal := s.journal } v s.windowTarget
      (GuestAddress.page size)
    s.syncWindow v size = (k.refusal, { s with window := some k.window, journal := k.journal }) := by
  rw [syncWindow]
  simp only [hw]

/-- Bringing the pages of a remapped range up to date gives each of them the backing of what it now
leads to, and no other page. -/
theorem mirrors_syncWindow {w : Window} {f : GuestAddress → Option Nat} {virtual : VirtualMap}
    {v : GuestAddress} {size : UInt32} (hw : s.window = some w) (hm : w.Mirrors f)
    (hr : s.virtual.Remaps virtual v size)
    (granted : ({ s with virtual }.syncWindow v size).1 = none) :
    ∃ w', ({ s with virtual }.syncWindow v size).2.window = some w' ∧ w'.base = w.base ∧
      (w'.Mirrors fun a =>
        if Covers v size a then ({ s with virtual }.windowTarget a.pageBase).map Prod.fst
        else f a) ∧
      ∀ a, w'.pages.get a =
        if Covers v size a then Window.backingOf ({ s with virtual }.windowTarget a.pageBase)
        else w.pages.get a := by
  have hs := hr.start_aligned
  have hz := hr.size_aligned
  have hfits := hr.fits
  have hcount : v.page + GuestAddress.page size ≤ 2 ^ 20 := by
    simp only [GuestAddress.page_eq]
    omega
  have hpage : ∀ {α : Type} (a : GuestAddress) (x : GuestAddress → α) (y : α),
      (if v.page ≤ a.page ∧ a.page < v.page + GuestAddress.page size then
          x (VirtualMap.pageAddress v (a.page - v.page)) else y) =
        if Covers v size a then x a.pageBase else y := by
    intro α a x y
    by_cases hc : Covers v size a
    · rw [if_pos ((covers_iff_page a hs hz).1 hc), if_pos hc, pageAddress_page hc hs]
    · rw [if_neg fun h => hc ((covers_iff_page a hs hz).2 h), if_neg hc]
  have hwalk := syncWindow_eq_walk (s := { s with virtual }) hw v size
  rw [hwalk] at granted ⊢
  obtain ⟨hmirrors, hget⟩ := Window.Mirrors.walk (k := { window := w, journal := s.journal }) hm
    granted hcount
  refine ⟨_, rfl, ?_, hmirrors.congr fun a => ?_, fun a => (hget a).trans ?_⟩
  · exact Window.Walk.visitAll_keeps (P := fun w' => w'.base = w.base) rfl fun w v t h =>
      (w.base_sync v t).trans h
  · exact hpage a (fun v => (({ s with virtual } : Space σ).windowTarget v).map Prod.fst) (f a)
  · exact hpage a (fun v => Window.backingOf (({ s with virtual } : Space σ).windowTarget v)) _

/-- What a remapped space has to show. -/
theorem shown_remap {virtual : VirtualMap} {v : GuestAddress} {size : UInt32}
    (hp : s.arena.IsPaved) (hr : s.virtual.Remaps virtual v size) (a : GuestAddress) :
    ({ s with virtual } : Space σ).maps.shown a =
      if Covers v size a then ({ s with virtual }.windowTarget a.pageBase).map Prod.fst
      else s.maps.shown a := by
  split
  · exact (windowTarget_pageBase (s := { s with virtual }) hp a).symm
  · rename_i hc
    simp only [Maps.shown, maps, hr.outside a hc]

/-- The host has ended the walk over a range at its page `i`. If the window showed what it recorded, the
pages before this one show what the map leads to, and all others show what they showed; the record is
of what the pages show, but for the page where the walk has ended. -/
structure EndsAt (s t : Space σ) (v : GuestAddress) (size : UInt32) (i : Nat) : Prop where
  lt : i < GuestAddress.page size
  window : ∃ w w', s.window = some w ∧ t.window = some w' ∧
    ∀ f, w.Mirrors f →
      (∀ a, w'.shows a =
        if v.page ≤ a.page ∧ a.page < v.page + i then (t.windowTarget a.pageBase).map Prod.fst
        else f a) ∧
      ∀ a, a.page ≠ v.page + i → (w'.aliases.offset? a).isSome = (w'.shows a).isSome

/-- Where the window could not follow, it has followed up to some page of the range. -/
theorem endsAt_syncWindow {virtual : VirtualMap} {v : GuestAddress} {size : UInt32}
    {e : ArenaError} (hr : s.virtual.Remaps virtual v size)
    (refused : ({ s with virtual }.syncWindow v size).1 = some e) :
    ∃ i, s.EndsAt ({ s with virtual }.syncWindow v size).2 v size i := by
  have hs := hr.start_aligned
  have hz := hr.size_aligned
  have hfits := hr.fits
  obtain hw | ⟨w, hw⟩ := s.window.eq_none_or_eq_some
  · simp only [syncWindow, hw] at refused
    cases refused
  have hwalk := syncWindow_eq_walk (s := { s with virtual }) hw v size
  rw [hwalk] at refused ⊢
  obtain ⟨i, hi, hgranted, herror, hend⟩ := Window.Walk.visitAll_of_refused rfl refused
  have hin : v.page + i < 2 ^ 20 := by
    rw [GuestAddress.page_eq] at hi ⊢
    omega
  have hpage : (VirtualMap.pageAddress v i).page = v.page + i := Window.page_pageAddress hin
  refine ⟨i, hi, w, _, hw, rfl, fun f hm => ?_⟩
  -- up to the page the walk was granted, and the page itself is left as it was
  obtain ⟨hbefore, -⟩ := Window.Mirrors.walk (k := { window := w, journal := s.journal }) hm
    hgranted (Nat.le_of_lt hin)
  obtain ⟨hshows, hrecord⟩ := hbefore.sync_of_error herror
  rw [hend, Window.Walk.visit_of_error hgranted (Prod.ext herror rfl)]
  refine ⟨fun a => (hshows a).trans ?_, fun a ha => ?_⟩
  · split
    · rename_i hpages
      have hc : Covers v size a := (covers_iff_page a hs hz).2 (by omega)
      rw [pageAddress_page hc hs]
      rfl
    · rfl
  · rw [hshows]
    exact hrecord a (hpage ▸ ha.symm)

/-- Calls that change what the window shows, and installing, which makes such calls. -/
def Command.MovesWindow : Command σ → Prop
  | .project .. | .projectBlock .. | .projectBuffer .. | .unmap .. | .reset | .shutdown
  | .install _ => True
  | _ => False

theorem window_settle {result : Except MapError (Space σ)}
    (h : ∀ t, result = .ok t → t.window = s.window) : (s.settle result).2.window = s.window := by
  cases result with
  | ok t => exact h t rfl
  | error e => rfl

/-- All other calls only adjust the window, and none of them makes one. -/
theorem adjusts_window {c : Command σ} (hc : ¬c.MovesWindow) :
    Option.Rel Window.Adjusts s.window (s.perform c).2.window := by
  have same : ∀ t : Space σ, t.window = s.window → Option.Rel Window.Adjusts s.window t.window := by
    intro t ht
    rw [ht]
    cases s.window with
    | none => exact .none
    | some w => exact .some .same
  have hwiring : ∀ t : Space σ, t.wiring = s.wiring →
      Option.Rel Window.Adjusts s.window t.window :=
    fun t ht => same t (congrArg Wiring.window ht)
  have hmap : ∀ f : Window → Window, (∀ w : Window, w.Adjusts (f w)) →
      Option.Rel Window.Adjusts s.window (s.window.map f) := by
    intro f hf
    cases s.window with
    | none => exact .none
    | some w => exact .some (hf w)
  cases c with
  | register handler =>
    rw [perform, performRegister, register]
    cases s.handlers.register handler <;> exact same _ rfl
  | reassign id handler =>
    rw [perform, performReassign, reassign]
    cases s.handlers.reassign id handler <;> exact same _ rfl
  | readHandler id width a =>
    rw [perform]
    split <;> exact same _ rfl
  | writeHandler id width a x =>
    rw [perform]
    split <;> exact same _ rfl
  | allocate name size protection =>
    rw [perform]
    unfold performAllocate
    cases h : s.allocate name size protection with
    | ok r =>
      obtain ⟨block, t⟩ := r
      obtain ⟨arena, ha, rfl⟩ := allocate_eq_ok.1 h
      exact same _ rfl
    | error e => cases e <;> exact same _ rfl
  | mapBlock block start size blockSize =>
    refine same _ (window_settle fun t ht => ?_)
    obtain ⟨-, physical, -, rfl⟩ := mapBlock_eq_ok.1 ht
    rfl
  | mapMemory base start size blockSize =>
    refine same _ (window_settle fun t ht => ?_)
    obtain ⟨physical, -, rfl⟩ := mapMemory_eq_ok.1 ht
    rfl
  | mapHandler id start size =>
    refine same _ (window_settle fun t ht => ?_)
    obtain ⟨-, physical, -, rfl⟩ := mapHandler_eq_ok.1 ht
    rfl
  | duplicate target start size =>
    refine same _ (window_settle fun t ht => ?_)
    obtain ⟨physical, -, rfl⟩ := duplicate_eq_ok.1 ht
    rfl
  | read width v => exact hwiring _ (s.wiring_read width v)
  | write width v x => exact hwiring _ (s.wiring_write v x)
  | ramWrite width v x => exact hwiring _ (s.wiring_ramWrite v x)
  | cacheOp op v packed => exact hwiring _ (s.wiring_cacheOp op v packed)
  | ramRead | loadBytes | takeException | control => exact same _ rfl
  | protect block protection =>
    rw [perform, protect]
    cases hw : s.window with
    | none =>
      simp only [hw]
      exact .none
    | some w => exact .some (.pages _ _ _)
  | setPatcher p => exact hmap _ fun w => .sites rfl rfl
  | sites c => exact hmap _ fun w => .sites rfl rfl
  | fault pc a =>
    rw [perform, performFault_snd, handleFault]
    cases hw : s.window with
    | none =>
      rw [hw]
      exact .none
    | some w =>
      obtain ⟨hbase, hsize⟩ := w.faults.range_handle pc a
      exact .some (.sites hbase hsize)
  | project | projectBlock | projectBuffer | unmap | reset | shutdown | install =>
    exact absurd trivial hc

/-- All other calls but those only adjust a window. -/
theorem adjusts_perform {c : Command σ} {w : Window} (hc : ¬c.MovesWindow)
    (hw : s.window = some w) : ∃ w', (s.perform c).2.window = some w' ∧ w.Adjusts w' := by
  have h := adjusts_window (s := s) hc
  rw [hw] at h
  cases hw' : (s.perform c).2.window with
  | none =>
    rw [hw'] at h
    cases h
  | some w' =>
    rw [hw'] at h
    cases h with
    | some ha => exact ⟨w', rfl, ha⟩

/-- So they leave what it shows, and what it records. -/
theorem window_perform {c : Command σ} {w : Window} (hc : ¬c.MovesWindow)
    (hw : s.window = some w) : ∃ w', (s.perform c).2.window = some w' ∧ w.Alike w' := by
  obtain ⟨w', hw', ha⟩ := adjusts_perform hc hw
  exact ⟨w', hw', ha.alike⟩

end Space

end GuestMemory
