import GuestMemory.Proofs.Handlers.Pool
import GuestMemory.Proofs.Layout.Standard
import GuestMemory.Proofs.Window.Changes
import GuestMemory.Proofs.Window.Lockstep

/-!
Installing the standard layout on a fresh space. The regions are carved off one after the other,
then the zones are filled and shown; only a device that is not registered can stand in the way.
-/
namespace GuestMemory

namespace Layout

variable {σ : Type} {s : Space σ}

def Carved (s : Space σ) (used : Nat) (t : Space σ) : Prop :=
  ∃ regions journal, t = { s with arena := { s.arena with used, regions }, journal }

theorem carved_self (s : Space σ) : Carved s s.arena.used s := ⟨s.arena.regions, s.journal, rfl⟩

theorem Carved.allocating {t : Space σ} {used : Nat} (h : Carved s used t) (name : String)
    (size : UInt32) (protection : Protection) (whole : size.toNat % 4096 = 0)
    (room : used + size.toNat ≤ s.arena.size) :
    ∃ t', allocating name size protection t = .ok ⟨used, size.toNat⟩ t' ∧
      Carved s (used + size.toNat) t' := by
  obtain ⟨regions, journal, rfl⟩ := h
  have hr : roundUpToPage size.toNat = some size.toNat := by
    have hlt := size.toNat_lt
    rw [roundUpToPage, pageSize, if_pos (by omega)]
    congr 1
    omega
  have hfree : ¬s.arena.size - used < size.toNat := by omega
  refine ⟨_, ?_, regions ++ [⟨name, used, size.toNat, protection⟩],
    journal.add (.regionCarved name ⟨used, size.toNat⟩), rfl⟩
  unfold Layout.allocating Space.allocate Arena.allocate
  simp only [hr, Arena.remaining, hfree, if_false]
  rfl

theorem registering_ok (handler : Handler σ) (slot : s.handlers.size < maxHandlers) :
    registering handler s =
      .ok ⟨s.handlers.size, slot⟩ { s with handlers := s.handlers.push handler } := by
  have hr : s.handlers.register handler =
      .ok (⟨s.handlers.size, slot⟩, s.handlers.push handler) := dif_pos slot
  rw [registering, Space.register, hr]
  rfl

/-- The regions come to lie as in the standard, if there is room for them. -/
theorem allocateRegions_ok (unused : s.arena.used = 0) (room : carvedSize ≤ s.arena.size)
    (slot : s.handlers.size < maxHandlers) :
    ∃ regions journal, allocateRegions s = .ok (standard ⟨s.handlers.size, slot⟩)
      { s with
        arena := { s.arena with used := carvedSize, regions }
        handlers := s.handlers.push .null
        journal } := by
  have hroom : ∀ n ≤ carvedSize, n ≤ s.arena.size := fun n h => Nat.le_trans h room
  have c₀ : Carved s 0 s := unused ▸ carved_self s
  obtain ⟨_, h₁, c₁⟩ := c₀.allocating "main ram" mainRamSize .readWrite (by decide)
    (hroom _ (by decide))
  obtain ⟨_, h₂, c₂⟩ := c₁.allocating "rom" romSize .readOnly (by decide) (hroom _ (by decide))
  obtain ⟨_, h₃, c₃⟩ := c₂.allocating "rom1" rom1Size .readOnly (by decide) (hroom _ (by decide))
  obtain ⟨_, h₄, c₄⟩ := c₃.allocating "rom2" rom2Size .readOnly (by decide) (hroom _ (by decide))
  obtain ⟨_, h₅, c₅⟩ := c₄.allocating "iop ram" iopRamSize .readWrite (by decide)
    (hroom _ (by decide))
  obtain ⟨_, h₆, c₆⟩ := c₅.allocating "vu0 micro" vu0Size .readWrite (by decide)
    (hroom _ (by decide))
  obtain ⟨_, h₇, c₇⟩ := c₆.allocating "vu0 mem" vu0Size .readWrite (by decide) (hroom _ (by decide))
  obtain ⟨_, h₈, c₈⟩ := c₇.allocating "vu1 micro" vu1Size .readWrite (by decide)
    (hroom _ (by decide))
  obtain ⟨_, h₉, c₉⟩ := c₈.allocating "vu1 mem" vu1Size .readWrite (by decide) (hroom _ (by decide))
  obtain ⟨_, h₁₀, regions, journal, rfl⟩ :=
    c₉.allocating "scratchpad" scratchpadSize .readWrite (by decide) (hroom _ (by decide))
  have hnull := registering_ok (s := { s with
    arena := { s.arena with used := carvedSize, regions }
    journal }) .null slot
  refine ⟨regions, journal, ?_⟩
  rw [allocateRegions, attempt_bind_ok h₁, attempt_bind_ok h₂, attempt_bind_ok h₃,
    attempt_bind_ok h₄, attempt_bind_ok h₅, attempt_bind_ok h₆, attempt_bind_ok h₇,
    attempt_bind_ok h₈, attempt_bind_ok h₉, attempt_bind_ok h₁₀]
  exact attempt_bind_ok hnull

/-- A space that nothing was mapped in and nothing carved off. -/
structure Untouched (s : Space σ) : Prop where
  unused : s.arena.used = 0
  physical : s.physical.source? = Atlas.initial.physical
  virtual : s.virtual.resolve = fun _ => .tlbMiss
  aligned : s.arena.base.toNat % 4096 = 0
  fits : s.arena.base.toNat + s.arena.size ≤ 2 ^ 64

/-- The slots in use once the null handler has taken the next one. -/
theorem contains_push {handlers : HandlerTable σ} {handler : Handler σ} {id : HandlerId} :
    (handlers.push handler).contains id = true ↔
      handlers.contains id = true ∨ id.val = handlers.size := by
  simp only [HandlerTable.contains, HandlerTable.push, HandlerTable.size, Array.size_push,
    decide_eq_true_eq]
  omega

/-- With the regions carved off, installing is left with filling the zones and showing them. -/
theorem install_eq {hardware : Hardware} {l : Layout} {t : Space σ}
    (h : allocateRegions s = .ok l t) :
    install hardware s = (do
      fill (zones l hardware)
      mapVirtual l
      return l : Attempt σ Layout) t := by
  rw [install, attempt_bind_ok h, mapPhysical_eq]

section

variable {hardware : Hardware} (untouched : Untouched s) (room : carvedSize ≤ s.arena.size)
  (slot : s.handlers.size < maxHandlers)

include untouched room slot

/-- With all devices registered, installing succeeds. -/
theorem install_ok (granted : s.Granted)
    (known : ∀ g id, hardware.Supplies g id →
      s.handlers.contains id = true ∨ id.val = s.handlers.size) :
    ∃ l t, install hardware s = .ok l t ∧ Installed l hardware t := by
  let null : HandlerId := ⟨s.handlers.size, slot⟩
  let l := standard null
  obtain ⟨regions, journal, hregions⟩ := allocateRegions_ok untouched.unused room slot
  let arena : Arena := { s.arena with used := carvedSize, regions }
  let handlers := s.handlers.push .null
  have hknown : ∀ z ∈ zones l hardware, z.content.Known handlers :=
    zones_known (contains_push.2 (.inr rfl)) fun g id hs => contains_push.2 (known g id hs)
  obtain ⟨physical, hfill, hsource⟩ :=
    fill_ok (s := { s with arena, handlers, journal }) untouched.aligned
      (zones_fit null hardware) hknown
  have haligned : (arena.address l.scratchpad).toNat % 4096 = 0 :=
    address_aligned untouched.aligned (show scratchpadOffset % 4096 = 0 by decide)
  obtain ⟨virtual, window, journal', hshow, hresolve⟩ :=
    mapVirtual_ok (s := { s with arena, handlers, physical, journal }) granted haligned
      (Nat.le_refl scratchpadSize.toNat)
  let t : Space σ := { s with arena, handlers, physical, virtual, window, journal := journal' }
  have hmade : Made null hardware t := by
    refine ⟨?_, ?_, Nat.le_trans (Nat.add_le_add_left room _) untouched.fits⟩
    · rw [← untouched.physical]
      exact hsource
    · rw [← untouched.virtual]
      exact hresolve
  refine ⟨l, t, ?_, hmade.installed⟩
  rw [install_eq hregions, attempt_bind_ok hfill]
  exact attempt_bind_ok hshow

/-- With a device that is not registered, installing fails and names it. -/
theorem install_error
    (unknown : ∃ g id, hardware.Supplies g id ∧ s.handlers.contains id = false ∧
      id.val ≠ s.handlers.size) :
    ∃ g id t, hardware.Supplies g id ∧ s.handlers.contains id = false ∧
      id.val ≠ s.handlers.size ∧
      install hardware s = .error (.refused (.map (.unknownHandler .mapHandler id))) t := by
  let null : HandlerId := ⟨s.handlers.size, slot⟩
  let l := standard null
  obtain ⟨regions, journal, hregions⟩ := allocateRegions_ok untouched.unused room slot
  let arena : Arena := { s.arena with used := carvedSize, regions }
  let handlers := s.handlers.push .null
  have hnew : ∀ id, handlers.contains id = false ↔
      s.handlers.contains id = false ∧ id.val ≠ s.handlers.size := by
    intro id
    rw [← Bool.not_eq_true, contains_push, not_or, Bool.not_eq_true]
  have hunknown : ∃ z ∈ zones l hardware, ¬z.content.Known handlers := by
    obtain ⟨g, id, hs, hid⟩ := unknown
    refine ⟨_, hs.mem_zones l, fun hk => ?_⟩
    exact absurd hk (Bool.not_eq_true _ ▸ (hnew id).2 hid)
  obtain ⟨id, t, ⟨z, hz, hc⟩, hid, hfill⟩ :=
    fill_error (s := { s with arena, handlers, journal }) untouched.aligned
      (zones_fit null hardware) hunknown
  have hs : hardware.Supplies z.toSpan id := by
    have hexplained := zones_explained l hardware z hz
    rw [Zone.Explained, hc] at hexplained
    -- the null handler is registered, so it is not the one that was refused
    refine hexplained.resolve_left fun e => ((hnew id).1 hid).2 ?_
    rw [e]
    rfl
  refine ⟨z.toSpan, id, t, hs, ((hnew id).1 hid).1, ((hnew id).1 hid).2, ?_⟩
  rw [install_eq hregions]
  exact attempt_bind_error hfill

end

end Layout

namespace Space

variable {σ : Type}

def Command.IsRegister : Command σ → Prop
  | .register _ => True
  | _ => False

/-- Registering leaves the maps alone. -/
theorem Leads.maps_eq {s₀ s : Space σ} (run : Leads (fun _ c => c.IsRegister) s₀ s) :
    s.maps = s₀.maps := by
  refine run.keeps (P := fun s => s.maps = s₀.maps) rfl fun s c hs hc => ?_
  cases c with
  | register handler =>
    have hm : (s.drained.perform (.register handler)).2.maps = s.drained.maps :=
      maps_perform_of_not_mapping id id (by simp)
    exact hm.trans hs
  | _ => exact absurd hc id

/-- Registering devices leaves maps and arena untouched. -/
theorem IsFresh.untouched {s₀ s : Space σ} (fresh : s₀.IsFresh) (placed : s₀.IsPlaced)
    (run : Leads (fun _ c => c.IsRegister) s₀ s) : Layout.Untouched s := by
  have hmaps := run.maps_eq
  have harena : s.arena = s₀.arena := congrArg Maps.arena hmaps
  have hphysical : s.physical = s₀.physical := congrArg Maps.physical hmaps
  have hvirtual : s.virtual = s₀.virtual := congrArg Maps.virtual hmaps
  have hagrees := fresh.agrees
  obtain ⟨place, settings, level, routed, kernel, hc⟩ := id fresh
  obtain ⟨arena, journal, ha, rfl⟩ := create_eq_ok hc
  constructor
  · rw [harena]
    exact (Arena.create_eq_ok ha).2.1
  · rw [hphysical]
    exact funext fun p => (hagrees.physical p).symm
  · rw [hvirtual]
    exact funext fun v => (hagrees.virtual v).symm
  · rw [harena]
    exact placed.aligned
  · rw [harena]
    exact placed.arena_fits

end Space

namespace Layout

/-- Installing on a space where nothing was done but to register devices, with room in the arena and
a free slot, on a host that lets the window follow. If every device that is supplied is registered or
has the slot that the null handler is going to take, installing succeeds, and the guest has all of the
standard layout; otherwise it is refused for a device that is neither. -/
theorem install_standard {σ : Type} {s₀ s : Space σ} (fresh : s₀.IsFresh) (placed : s₀.IsPlaced)
    (granted : s₀.Granted) (run : Space.Leads (fun _ c => c.IsRegister) s₀ s)
    (room : carvedSize ≤ s.arena.size) (slot : s.handlers.size < maxHandlers)
    (hardware : Hardware) :
    ((∀ g id, hardware.Supplies g id →
        s.handlers.contains id = true ∨ id.val = s.handlers.size) →
      ∃ l t, install hardware s = .ok l t ∧ Installed l hardware t) ∧
    ((∃ g id, hardware.Supplies g id ∧ s.handlers.contains id = false ∧
        id.val ≠ s.handlers.size) →
      ∃ g id t, hardware.Supplies g id ∧ s.handlers.contains id = false ∧
        id.val ≠ s.handlers.size ∧
        install hardware s = .error (.refused (.map (.unknownHandler .mapHandler id))) t) := by
  have untouched := fresh.untouched placed run
  have granted' := run.granted granted
  exact ⟨install_ok untouched room slot granted', install_error untouched room slot⟩

def roomy : Space Unit where
  settings := { window := true, arenaSize := carvedSize }
  arena := { base := Space.anywhere.arena, size := carvedSize }
  window := some (Window.create Space.anywhere.window)

def equipped : Space Unit := (roomy.step (.register .null)).2

def firstPage (id : HandlerId) : Hardware where
  pages := [some id]

def graphics (id : HandlerId) : Hardware where
  gs := some id

theorem supplies_firstPage (id : HandlerId) :
    (firstPage id).Supplies ⟨VirtualMap.pageAddress hardwareBase 0, 0x1000⟩ id :=
  .page (by decide) rfl

theorem firstPage_supplies {g : Span} {id id' : HandlerId} (h : (firstPage id).Supplies g id') :
    id' = id := by
  cases h with
  | @page i id h supplied =>
    cases i with
    | zero =>
      cases supplied
      rfl
    | succ i => cases supplied
  | gs supplied | iop _ supplied | vu0Micro supplied | vu1Micro supplied => cases supplied

theorem graphics_supplies {g : Span} {id id' : HandlerId} (h : (graphics id).Supplies g id') :
    id' = id := by
  cases h with
  | gs supplied =>
    cases supplied
    rfl
  | page _ supplied | iop _ supplied | vu0Micro supplied | vu1Micro supplied => cases supplied

/-- A device for the first page is installed, and one that was never registered is refused. -/
theorem install_standard_equipped :
    roomy.IsFresh ∧ roomy.IsPlaced ∧ roomy.Granted ∧
      Space.Leads (fun _ c => c.IsRegister) roomy equipped ∧
      carvedSize ≤ equipped.arena.size ∧ equipped.handlers.size < maxHandlers ∧
      (∃ l t, install (firstPage 1) equipped = .ok l t ∧
        t.virtual.resolve 0x10000004 = .handler 1 0x10000004 ∧
        t.virtual.resolve 0xB0000004 = .handler 1 0x10000004 ∧
        t.virtual.resolve 0xF0000000 = .tlbMiss) ∧
      ∃ t, install (graphics 5) equipped =
        .error (.refused (.map (.unknownHandler .mapHandler 5))) t := by
  have fresh : roomy.IsFresh :=
    ⟨Space.anywhere, { window := true, arenaSize := carvedSize }, none, false, .linux, rfl⟩
  have placed : roomy.IsPlaced := by
    refine ⟨by decide, by decide, fun w hw => ?_⟩
    cases hw
    decide
  have granted : roomy.Granted := by
    rintro w ⟨⟩
    rfl
  have run : Space.Leads (fun _ c => c.IsRegister) roomy equipped :=
    .single ⟨.register .null, trivial, rfl⟩
  have room : carvedSize ≤ equipped.arena.size := by decide
  have slot : equipped.handlers.size < maxHandlers := by decide
  have known : equipped.handlers.contains 1 = true := by decide
  refine ⟨fresh, placed, granted, run, room, slot, ?_, ?_⟩
  · obtain ⟨l, t, hi, h⟩ := (install_standard fresh placed granted run room slot (firstPage 1)).1
      fun g id hs => .inl (firstPage_supplies hs ▸ known)
    have hpage : t.virtual.resolve 0x10000004 = .handler 1 0x10000004 :=
      h.supplied _ 1 (supplies_firstPage 1) 0x10000004 (by decide)
    obtain ⟨x, hlow, -, hhigh, -⟩ := h.shown 0x10000004 (by decide)
    have hone : t.virtual.resolve 0xB0000004 = t.virtual.resolve 0x10000004 :=
      hhigh.trans hlow.symm
    exact ⟨l, t, hi, hpage, hone.trans hpage, h.outside 0xF0000000 (by decide)⟩
  · obtain ⟨g, id, t, hs, -, -, hi⟩ :=
      (install_standard fresh placed granted run room slot (graphics 5)).2
        ⟨_, 5, .gs rfl, by decide, by decide⟩
    obtain rfl := graphics_supplies hs
    exact ⟨t, hi⟩

end Layout

end GuestMemory
