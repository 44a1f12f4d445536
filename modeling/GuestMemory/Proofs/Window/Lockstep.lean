import GuestMemory.Proofs.Maps.Backing
import GuestMemory.Proofs.Window.Changes
import GuestMemory.X64.Machine

/-!
The host window in step with the virtual map. After every call a guest page shows the arena page that
its entry leads to, and nothing when the entry leads elsewhere; so emitted code that goes through the
window reaches the byte that the dispatch path reaches, or faults.
-/
namespace GuestMemory.Space

variable {σ : Type} {s : Space σ}

/-- Calls that bring in blocks of the arena or host memory beside it, and keep the window. -/
def Command.IsHoused (s : Space σ) : Command σ → Prop
  | .mapBlock block _ _ _ => s.arena.Owns block
  | .projectBlock _ block _ => s.arena.Owns block
  | .mapMemory base _ size blockSize => HostRun s.arena.Outside base (blockBytes size blockSize)
  | .projectBuffer _ buffer size => HostRun s.arena.Outside buffer size
  | .install _ | .shutdown => False
  | _ => True

def Command.KeepsWindow : Command σ → Prop
  | .shutdown => False
  | _ => True

theorem Command.IsHoused.not_install {c : Command σ} (h : c.IsHoused s) : ¬c.IsInstall := by
  cases c with
  | install => exact absurd h id
  | _ => exact id

/-- A host page that has been carved off the arena, or lies beside it. -/
def Housed (arena : Arena) (page : HostAddress) : Prop := arena.Holds page ∨ arena.Outside page

theorem Housed.allocate {arena arena' : Arena} {name : String} {size : Nat}
    {protection : Protection} {block : Block}
    (ha : arena.allocate name size protection = .ok (block, arena')) (page : HostAddress)
    (h : Housed arena page) : Housed arena' page :=
  h.imp (fun hh => hh.allocate ha) (fun ho => ho.allocate ha)

theorem Command.IsHoused.brings {c : Command σ} (h : c.IsHoused s) (hp : s.arena.IsPaved) :
    c.Brings (Housed s.arena) s.arena := by
  cases c with
  | mapBlock block start size blockSize =>
    exact fun room i hi => .inl (hp.hostRun_block h room i hi)
  | projectBlock v block size => exact fun room i hi => .inl (hp.hostRun_block h room i hi)
  | mapMemory base start size blockSize => exact fun i hi => .inr (h i hi)
  | projectBuffer v buffer size => exact fun i hi => .inr (h i hi)
  | _ => exact trivial

/-- What a housed page is shown as does not change when more of the arena is carved off. -/
theorem offset?_allocate {arena arena' : Arena} {name : String} {size : Nat}
    {protection : Protection} {block : Block} {page : HostAddress} (hp : arena.IsPaved)
    (h : Housed arena page) (ha : arena.allocate name size protection = .ok (block, arena')) :
    arena'.offset? page = arena.offset? page := by
  have hused := (hp.allocate ha).used_le
  obtain ⟨n, -, -, -, he⟩ := Arena.allocate_eq_ok ha
  have hbase : arena'.base = arena.base := by rw [he]
  have hsize : arena'.size = arena.size := by rw [he]
  rw [Arena.offset?, Arena.offset?, hbase]
  rcases h with hh | ho
  · rw [if_pos hh, if_pos (hh.allocate ha)]
  · have hn : ¬arena.Holds page := by
      have hle := hp.used_le
      rw [Arena.Holds]
      rw [Arena.Outside] at ho
      omega
    have hn' : ¬arena'.Holds page := by
      rw [Arena.Holds, hbase]
      rw [Arena.Outside] at ho
      omega
    rw [if_neg hn, if_neg hn']

/-- A call that does not move the window does not change what it has to show. -/
theorem MapStep.shown_eq {m m' : Maps} {c : Command σ} {a : Answer σ} (h : MapStep m c a m')
    (hp : m.arena.IsPaved) (hm : m.Shows (Housed m.arena)) (hc : ¬c.MovesWindow) :
    m'.shown = m.shown := by
  cases h with
  | allocate h =>
    funext v
    simp only [Maps.shown]
    cases hv : m.virtual.get v with
    | memory distance => exact offset?_allocate hp (hm.virtual v distance hv).2 h
    | _ => rfl
  | project | projectBlock | projectBuffer | unmap | reset => exact absurd trivial hc
  | _ => rfl

/-- The window shows what the maps lead to, which has been carved off the arena or lies beside it. -/
structure InStep (s : Space σ) : Prop where
  paved : s.arena.IsPaved
  housed : s.maps.Shows (Housed s.arena)
  window : ∃ w, s.window = some w ∧ w.base.toNat + 2 ^ 32 ≤ 2 ^ 64 ∧ w.Mirrors s.maps.shown

/-- Such a window goes on to, on a host that lets it. -/
structure KeepsStep (s : Space σ) : Prop extends s.InStep where
  granted : s.Granted

/-- A window that is in step follows the map over a range. -/
theorem KeepsStep.remap (h : s.KeepsStep) {virtual : VirtualMap} {v : GuestAddress} {size : UInt32}
    (hr : s.virtual.Remaps virtual v size) :
    ∃ w, ({ s with virtual }.syncWindow v size).2.window = some w ∧
      w.base.toNat + 2 ^ 32 ≤ 2 ^ 64 ∧
      w.Mirrors ({ s with virtual }.syncWindow v size).2.maps.shown := by
  obtain ⟨w, hw, hfits, hm⟩ := h.window
  have hg : ({ s with virtual } : Space σ).Granted := h.granted
  obtain ⟨w', hw', hbase, hm', -⟩ := mirrors_syncWindow hw hm hr (hg.syncWindow v size).1
  refine ⟨w', hw', hbase ▸ hfits, hm'.congr fun a => ?_⟩
  rw [maps_syncWindow, shown_remap h.paved hr]

/-- One call keeps the window in step, if what it brings in is housed and it keeps the window. -/
theorem KeepsStep.perform_brings (h : s.KeepsStep) {c : Command σ} (hi : ¬c.IsInstall)
    (hs : c.KeepsWindow) (hb : c.Brings (Housed s.arena) s.arena) :
    (s.perform c).2.KeepsStep := by
  have hstep := mapStep_perform (s := s) hi
  have hgranted := (s.windowFrom_perform c).granted h.granted
  refine ⟨⟨hstep.paved h.paved, hstep.shows (fun ha page hp => hp.allocate ha) h.housed hb, ?_⟩,
    hgranted⟩
  by_cases hmoves : c.MovesWindow
  · cases c with
    | project | projectBlock | projectBuffer | unmap =>
      exact perform_remap_keeps (P := fun t : Space σ => ∃ w, t.window = some w ∧
        w.base.toNat + 2 ^ 32 ≤ 2 ^ 64 ∧ w.Mirrors t.maps.shown) rfl h.window fun _ hr => h.remap hr
    | reset =>
      obtain ⟨w, hw, hfits, -⟩ := h.window
      have hforgotten : w.forgotten.Granted := h.granted w hw
      refine ⟨w.forgotten.clear.2, ?_, ?_, ?_⟩
      · exact (window_reset s).trans (by rw [hw]; rfl)
      · rw [hforgotten.clear_eq]
        exact hfits
      · rw [Space.perform, maps_reset]
        exact Window.mirrors_clear hforgotten
    | shutdown => exact absurd hs id
    | install => exact absurd trivial hi
    | _ => exact absurd hmoves id
  · obtain ⟨w, hw, hfits, hm⟩ := h.window
    obtain ⟨w', hw', halike⟩ := window_perform hmoves hw
    refine ⟨w', hw', halike.base_eq ▸ hfits, ?_⟩
    rw [hstep.shown_eq h.paved h.housed hmoves]
    exact halike.mirrors hm

theorem KeepsStep.perform (h : s.KeepsStep) {c : Command σ} (hc : c.IsHoused s) :
    (s.perform c).2.KeepsStep := by
  refine h.perform_brings hc.not_install ?_ (hc.brings h.paved)
  cases c <;> first | exact hc | trivial

theorem Command.IsHoused.drained {c : Command σ} (h : c.IsHoused s) : c.IsHoused s.drained := by
  cases c <;> exact h

theorem KeepsStep.drained (h : s.KeepsStep) : s.drained.KeepsStep :=
  ⟨⟨h.paved, h.housed, h.window⟩, h.granted⟩

theorem KeepsStep.step (h : s.KeepsStep) {c : Command σ} (hc : c.IsHoused s) :
    (s.step c).2.KeepsStep :=
  (h.drained.perform hc.drained).drained

/-- The host put the arena on a page boundary, and neither it nor the window wraps. -/
structure IsPlaced (s : Space σ) : Prop where
  aligned : s.arena.base.toNat % 4096 = 0
  arena_fits : s.arena.base.toNat + s.arena.size ≤ 2 ^ 64
  window_fits : ∀ w, s.window = some w → w.base.toNat + 2 ^ 32 ≤ 2 ^ 64

/-- A fresh window shows nothing, as fresh maps do. -/
theorem IsFresh.keepsStep (h : s.IsFresh) (placed : s.IsPlaced) (granted : s.Granted)
    (on : s.window.isSome = true) : s.KeepsStep := by
  have hmaps := h.maps_shows (Housed s.arena)
  refine ⟨⟨h.paved placed.aligned placed.arena_fits, hmaps, ?_⟩, granted⟩
  obtain ⟨w, hw⟩ := Option.isSome_iff_exists.1 on
  refine ⟨w, hw, placed.window_fits w hw, ?_⟩
  obtain ⟨place, settings, level, routed, kernel, hc⟩ := h
  obtain ⟨arena, journal, -, rfl⟩ := create_eq_ok hc
  simp only at hw
  split at hw
  · cases hw
    exact Window.mirrors_create place.window kernel
  · cases hw

/-- The entry of a page leads to the page at an offset of the arena, in a region of it. -/
def LeadsInto (s : Space σ) (v : GuestAddress) (o : Nat) : Prop :=
  ∃ distance, s.virtual.get v = .memory distance ∧
    (hostPage distance v).toNat = s.arena.base.toNat + o ∧
      ∃ r ∈ s.arena.regions, r.offset ≤ o ∧ o + 4096 ≤ r.offset + r.size

/-- What the maps show are the pages in regions of the arena. -/
theorem InStep.shown_iff (h : s.InStep) (v : GuestAddress) (o : Nat) :
    s.maps.shown v = some o ↔ s.LeadsInto v o := by
  rw [Maps.shown_eq_some]
  constructor
  · rintro ⟨distance, hd, ho⟩
    obtain ⟨hh, hpage⟩ := Arena.offset?_eq_some.1 ho
    have hbase : (hostPage distance v).toNat = s.arena.base.toNat + o := hpage
    obtain ⟨r, hr, hle, hend⟩ := h.paved.region_of_page (h.housed.virtual v distance hd).1 hh
    exact ⟨distance, hd, hbase, r, hr, by omega, by omega⟩
  · rintro ⟨distance, hd, hpage, r, hr, hle, hend⟩
    obtain ⟨-, -, hused⟩ := h.paved.region r hr
    have hh : s.arena.Holds (hostPage distance v) := by
      rw [Arena.Holds]
      omega
    exact ⟨distance, hd, Arena.offset?_eq_some.2 ⟨hh, hpage⟩⟩

theorem guest?_add {w : Window} (hw : w.base.toNat + 2 ^ 32 ≤ 2 ^ 64) (v : GuestAddress) :
    w.pages.guest? (w.base + v.toUInt64) = some v := by
  have hv := v.toNat_lt
  have hbase : w.pages.base = w.base := rfl
  have hsum : (w.base + v.toUInt64).toNat = w.base.toNat + v.toNat := by
    rw [UInt64.toNat_add, UInt32.toNat_toUInt64]
    omega
  have hsub : w.base + v.toUInt64 - w.base = v.toUInt64 := by
    rw [UInt64.add_comm, UInt64.add_sub_cancel]
  have hc : w.pages.contains (w.base + v.toUInt64) = true := by
    rw [Window.Pages.contains, hbase, hsub, Bool.and_eq_true, decide_eq_true_eq,
      decide_eq_true_eq, UInt64.le_iff_toNat_le, hsum, UInt32.toNat_toUInt64]
    exact ⟨by omega, hv⟩
  rw [Window.Pages.guest?, if_pos hc, hbase, hsub]
  simp

/-- What an access at an address of the window reaches, if it is allowed. -/
theorem hostTarget?_window {w : Window} (hw : s.window = some w)
    (hfits : w.base.toNat + 2 ^ 32 ≤ 2 ^ 64) {isStore : Bool} {v : GuestAddress} {t : HostAddress}
    (ht : s.hostTarget? isStore (w.base + v.toUInt64) = some t) :
    ∃ o, w.shows v = some o ∧
      t = s.arena.base + UInt64.ofNat o + v.pageOffset.toUInt64 := by
  simp only [hostTarget?, hw, Option.bind_some, guest?_add hfits] at ht
  cases hb : w.pages.get v with
  | none => simp [hb] at ht
  | some b =>
    simp only [hb] at ht
    obtain ⟨-, ht⟩ := Option.ite_none_right_eq_some.1 ht
    have hs : w.shows v = some b.offset := by
      rw [Window.shows, hb]
      rfl
    exact ⟨b.offset, hs, (Option.some.inj ht).symm⟩

/-- On a host that lets the window follow, after every history of such calls a page of the window shows
offset `o` exactly when its entry leads there, an access to it reaches the byte that the dispatch path
reaches or faults, and it faults wherever the entry does not lead into the arena. -/
theorem window_in_step {s₀ s : Space σ} (fresh : s₀.IsFresh) (placed : s₀.IsPlaced)
    (granted : s₀.Granted) (on : s₀.window.isSome = true)
    (run : Leads (fun t c => c.IsHoused t) s₀ s) :
    ∃ w, s.window = some w ∧
      (∀ v o, w.shows v = some o ↔ s.LeadsInto v o) ∧
      (∀ isStore v t, s.hostTarget? isStore (w.base + v.toUInt64) = some t →
        s.virtual.resolve v = .host t) ∧
      ∀ isStore v, (∀ o, ¬s.LeadsInto v o) →
        s.hostTarget? isStore (w.base + v.toUInt64) = none := by
  have h : s.KeepsStep :=
    run.keeps (P := KeepsStep) (fresh.keepsStep placed granted on) fun t c ht hc => ht.step hc
  obtain ⟨w, hw, hfits, hm⟩ := h.window
  have hshows : ∀ v o, w.shows v = some o ↔ s.LeadsInto v o := by
    intro v o
    rw [hm.shows_eq, h.shown_iff]
  refine ⟨w, hw, hshows, fun isStore v t ht => ?_, fun isStore v hno => ?_⟩
  · obtain ⟨o, ho, rfl⟩ := hostTarget?_window hw hfits ht
    obtain ⟨distance, hd, hpage, -⟩ := (hshows v o).1 ho
    have he : s.arena.base + UInt64.ofNat o = hostPage distance v := by
      have hlt := (hostPage distance v).toNat_lt
      apply UInt64.toNat_inj.1
      rw [UInt64.toNat_add, UInt64.toNat_ofNat', hpage]
      omega
    exact VirtualMap.resolve_eq_host.2 ⟨distance, hd, by rw [he]⟩
  · rw [Option.eq_none_iff_forall_ne_some]
    intro t ht
    obtain ⟨o, ho, -⟩ := hostTarget?_window hw hfits ht
    exact hno o ((hshows v o).1 ho)

/-- A block of two pages, then behind two virtual pages. -/
def carved : Space Unit := ((made true false).step (.allocate "ram" 0x2000 .readWrite)).2

def projected : Space Unit := (carved.step (.projectBlock 0x1000 ⟨0, 0x2000⟩ 0x2000)).2

/-- The second page of the block is shown where it was projected, and no page beside it. -/
theorem window_in_step_projected :
    (made true false).IsFresh ∧ (made true false).IsPlaced ∧ (made true false).Granted ∧
      (made true false).window.isSome = true ∧
      Leads (fun t c => c.IsHoused t) (made true false) projected ∧
      ∃ w, projected.window = some w ∧ w.shows 0x2000 = some 0x1000 ∧
        projected.hostTarget? true (w.base + (0x3000 : GuestAddress).toUInt64) = none := by
  have fresh := isFresh_made true false
  have placed : (made true false).IsPlaced := by
    refine ⟨by decide, by decide, fun w hw => ?_⟩
    cases hw
    decide
  have howns : carved.arena.Owns ⟨0, 0x2000⟩ :=
    ⟨⟨"ram", 0, 0x2000, .readWrite⟩, .head _, rfl, rfl⟩
  have h₁ : Next (fun t c => c.IsHoused t) (made true false) carved :=
    ⟨.allocate "ram" 0x2000 .readWrite, trivial, rfl⟩
  have h₂ : Next (fun t c => c.IsHoused t) carved projected :=
    ⟨.projectBlock 0x1000 ⟨0, 0x2000⟩ 0x2000, howns, rfl⟩
  have hl := (Relation.ReflTransGen.single h₁).tail h₂
  have granted := granted_made true false
  obtain ⟨w, hw, hshows, -, hnone⟩ := window_in_step fresh placed granted rfl hl
  have hin : projected.LeadsInto 0x2000 0x1000 :=
    ⟨0x700000001000 - 0x2000, rfl, by decide +kernel, ⟨"ram", 0, 0x2000, .readWrite⟩, .head _,
      by decide, by decide⟩
  have hout : ∀ o, ¬projected.LeadsInto 0x3000 o := by
    rintro o ⟨distance, hd, -⟩
    have hu : projected.virtual.get 0x3000 = .unmapped := rfl
    rw [hu] at hd
    cases hd
  exact ⟨fresh, placed, granted, rfl, hl, w, hw, (hshows _ _).2 hin, hnone true _ hout⟩

end GuestMemory.Space
