import GuestMemory.Proofs.Space.Changes
import GuestMemory.Proofs.Window.Changes
import GuestMemory.Proofs.Window.Range

/-!
Resetting. Whatever a space has been through, after a reset it is the space that was made in the first
place, but for what it is given of its past: the handlers, the regions of the arena and what is in
them, the patcher and the code of the window, if there still is one, and what is left of the budget
for reports.
-/
namespace GuestMemory

namespace Journal

@[simp] theorem level_add (j : Journal) (e : Event) : (j.add e).level = j.level := by
  rw [add]
  split <;> rfl

end Journal

namespace Cache.Control

theorem length_perform (c : Control) (command : Command) :
    (c.perform command).tlb.length = c.tlb.length := by
  cases command <;> simp [perform, setConfig, setEntry, reset]

/-- Resetting clears every slot there is, and there are always as many. -/
theorem reset_eq {c : Control} (h : c.tlb.length = tlbSlots) : c.reset = {} := by
  rw [reset, List.map_const', h]

end Cache.Control

namespace Window

/-- The window with the patcher and the code of another one. -/
def given (w past : Window) : Window :=
  { w with faults := { w.faults with patcher := past.faults.patcher, code := past.faults.code } }

/-- With its sites forgotten and its pages cleared a window is a new one. -/
theorem Ranged.clear_eq {w : Window} (h : w.Ranged) (granted : w.Granted) {kernel : Kernel}
    (grants : kernel.changes = []) : w.forgotten.clear.2 = (create w.base kernel).given w := by
  obtain ⟨hbase, hsize⟩ := h
  have hforgotten : w.forgotten.Granted := granted
  rw [hforgotten.clear_eq, create, grants]
  obtain ⟨⟨base, backing, answers⟩, aliases, ⟨fbase, size, table, patcher, code⟩⟩ := w
  cases granted
  cases hbase
  cases hsize
  rfl

end Window

namespace Space

variable {σ : Type} {s t u f : Space σ}

/-- What no change touches: the settings, the place of the arena, the number of TLB slots, and how
much of its log the journal keeps. -/
structure Kin (s t : Space σ) : Prop where
  settings_eq : t.settings = s.settings
  base_eq : t.arena.base = s.arena.base
  size_eq : t.arena.size = s.arena.size
  slots_eq : t.control.tlb.length = s.control.tlb.length
  level_eq : t.journal.level = s.journal.level

theorem Kin.refl (s : Space σ) : s.Kin s := ⟨rfl, rfl, rfl, rfl, rfl⟩

theorem Kin.trans (h : s.Kin t) (h' : t.Kin u) : s.Kin u :=
  ⟨h'.settings_eq.trans h.settings_eq, h'.base_eq.trans h.base_eq, h'.size_eq.trans h.size_eq,
    h'.slots_eq.trans h.slots_eq, h'.level_eq.trans h.level_eq⟩

theorem Change.kin (h : s.Change t) : s.Kin t := by
  cases h with
  | control c => exact ⟨rfl, rfl, rfl, s.control.length_perform c, rfl⟩
  | arena h =>
    obtain ⟨n, -, -, -, rfl⟩ := Arena.allocate_eq_ok h
    exact ⟨rfl, rfl, rfl, rfl, rfl⟩
  | note e => exact ⟨rfl, rfl, rfl, rfl, s.journal.level_add e⟩
  | _ => exact ⟨rfl, rfl, rfl, rfl, rfl⟩

theorem Changed.kin (h : s.Changed t) : s.Kin t := by
  induction h with
  | refl => exact .refl s
  | tail _ hc ih => exact ih.trans hc.kin

theorem Kin.step (h : s.Kin t) (c : Command σ) : s.Kin (t.step c).2 := by
  have hd : t.Kin t.drained := ⟨rfl, rfl, rfl, rfl, rfl⟩
  have hp := (h.trans hd).trans (t.drained.changed_perform c).kin
  exact ⟨hp.settings_eq, hp.base_eq, hp.size_eq, hp.slots_eq, hp.level_eq⟩

/-- A space with what it is given of another one's past. -/
def given (f past : Space σ) : Space σ :=
  { f with
    handlers := past.handlers
    arena := { f.arena with used := past.arena.used, regions := past.arena.regions }
    memory := past.memory
    window := past.window.bind fun w => f.window.map (·.given w)
    faultBudget := past.faultBudget }

theorem reset_eq (s : Space σ) :
    (s.step .reset).2 =
      { settings := s.settings
        handlers := s.handlers
        control := s.control.reset
        arena := s.arena
        memory := s.memory
        window := s.window.map fun w => w.forgotten.clear.2
        faultBudget := s.faultBudget
        journal := { level := s.journal.level } } := by
  obtain ⟨settings, handlers, physical, virtual, cache, control, arena, memory, window, pending,
    budget, journal⟩ := s
  cases window with
  | none => simp only [step, perform, reset, drained, note, Journal.drained, Journal.level_add,
      Option.map_none]
  | some w =>
    simp only [step, perform, reset, drained, note, Journal.drained, Option.map_some,
      Window.forgotten]
    generalize Window.clear _ = cleared
    obtain ⟨_ | e, w'⟩ := cleared
    · simp only [Journal.level_add]
    · rfl

/-- Reset, a space is the fresh one with what it is given of its past. -/
theorem step_reset_eq (fresh : f.IsFresh) (granted : f.Granted)
    (run : Leads (fun _ _ => True) f s) : (s.step .reset).2 = (f.given s).drained := by
  have kin : f.Kin s := run.keeps (Kin.refl f) fun t c ht _ => ht.step c
  have hgranted := run.granted granted
  have hfrom := run.windowFrom
  obtain ⟨place, settings, level, routed, kernel, hc⟩ := fresh
  obtain ⟨arena, journal, -, rfl⟩ := create_eq_ok hc
  obtain ⟨hsettings, hbase, hsize, hslots, hlevel⟩ := kin
  have hwindow : s.window.map (fun w => w.forgotten.clear.2) =
      s.window.bind fun w =>
        (if settings.window && !settings.cacheModel then
            some (Window.create place.window kernel)
          else none).map (·.given w) := by
    cases hw : s.window with
    | none => rfl
    | some w =>
      obtain ⟨w₀, hw₀, hb⟩ := hfrom w hw
      simp only at hw₀
      split at hw₀
      · rename_i on
        cases hw₀
        have hranged : w.Ranged := hb.keeps (fun hc ha => ha.changes hc)
          (Window.ranged_create _ kernel)
        have hplace : w.base = place.window := hb.keeps (P := fun w => w.base = place.window)
          (fun hc ha => hc.base_eq.trans ha) rfl
        have grants : kernel.changes = [] := granted _ (if_pos on)
        rw [Option.map_some, Option.bind_some, if_pos on, Option.map_some,
          hranged.clear_eq (hgranted w hw) grants, hplace]
      · cases hw₀
  have harena : s.arena = { arena with used := s.arena.used, regions := s.arena.regions } := by
    rw [← hbase, ← hsize]
  rw [reset_eq, hwindow, hsettings, hlevel, Cache.Control.reset_eq (hslots.trans rfl), harena]
  rfl

/-- A space of which nothing is known to the guest or to emitted code but its devices. -/
structure Blank (s : Space σ) : Prop where
  lines : ∀ i way, s.cache.line i way = {}
  stats : s.cache.stats = {}
  config : s.control.config = 0
  slots : ∀ i e, s.control.entry? i = some e → e = {}
  physical : ∀ p, s.physical.source? p = Atlas.initial.physical p
  virtual : ∀ v, s.virtual.get v = .unmapped
  physicalAddress : ∀ v, s.virtual.physicalAddress? v = none
  pending : s.pending = none
  sites : ∀ table, s.sites? = some table → (∀ site, table.get? site = none) ∧
    (∀ pc, table.isFaulting pc = false) ∧ table.requests = []
  window : ∀ w, s.window = some w → (∀ v, w.shows v = none) ∧ (∀ a, w.resolve a = none) ∧
    ∀ o, w.aliases.ofOffset o = #[]

/-- Resetting leaves a blank space, on a host that clears the window. -/
theorem blank_reset (granted : s.Granted) : (s.step .reset).2.Blank := by
  rw [reset_eq]
  constructor
  · intro i way
    show (({} : Cache.LineSet).line way) = {}
    simp [Cache.LineSet.line]
  · rfl
  · rfl
  · intro i e he
    have hmem := List.mem_of_getElem? he
    obtain ⟨e', -, rfl⟩ := List.mem_map.1 hmem
    rfl
  · exact PhysicalMap.source?_empty
  · exact fun _ => rfl
  · exact fun _ => rfl
  · rfl
  · intro table ht
    obtain ⟨w, hw, rfl⟩ := Option.map_eq_some_iff.1 ht
    obtain ⟨w', -, rfl⟩ := Option.map_eq_some_iff.1 hw
    have hfaults : w'.forgotten.clear.2.faults = w'.forgotten.faults :=
      congrArg Prod.snd w'.forgotten.beside_clear
    rw [hfaults]
    exact ⟨fun _ => rfl, fun _ => rfl, rfl⟩
  · intro w hw
    obtain ⟨w', hw', rfl⟩ := Option.map_eq_some_iff.1 hw
    have hforgotten : w'.forgotten.Granted := granted w' hw'
    rw [hforgotten.clear_eq]
    refine ⟨fun _ => rfl, fun a => ?_, fun _ => rfl⟩
    rw [Window.resolve]
    cases Window.Pages.guest? _ a <;> rfl

theorem answer_reset (granted : s.Granted) : (s.step .reset).1.answer = .done := by
  have hd : s.drained.Granted := granted
  rw [step, perform, reset]
  cases hw : s.drained.window with
  | none => rfl
  | some w =>
    have hforgotten : w.forgotten.Granted := hd w hw
    have hc := hforgotten.clear_eq
    rw [Window.forgotten] at hc
    simp only [hc]
    rfl

theorem run_drained (s : Space σ) (calls : List (Command σ)) :
    (s.drained.run calls).1 = (s.run calls).1 := by
  cases calls <;> rfl

/-- After any history at all and a reset, on a host that lets the window be cleared, every further
history is answered, and reports, as it does of the fresh space that was given what is to be kept, at
the same host addresses; and nothing of what the guest or emitted code had brought about is left. -/
theorem reset_forgets (fresh : f.IsFresh) (granted : f.Granted) (calls : List (Command σ)) :
    ((f.run calls).2.step .reset).1.answer = .done ∧
      (∀ further, (((f.run calls).2.step .reset).2.run further).1 =
        ((f.given (f.run calls).2).run further).1) ∧
      ((f.run calls).2.step .reset).2 = (f.given (f.run calls).2).drained ∧
      ((f.run calls).2.step .reset).2.Blank := by
  have run : Leads (fun _ _ => True) f (f.run calls).2 := leads_run fun _ _ _ => trivial
  have he := step_reset_eq fresh granted run
  have hgranted := run.granted granted
  refine ⟨answer_reset hgranted, fun further => ?_, he, blank_reset hgranted⟩
  rw [he, run_drained]

def used : List (Command Unit) :=
  [.allocate "ram" 0x1000 .readWrite, .projectBlock 0x1000 ⟨0, 0x1000⟩ 0x1000,
    .write .w32 0x1000 0x11223344, .read .w32 0x2000]

/-- What waits is gone, and further calls answer as on a fresh space. -/
theorem reset_forgets_used :
    (made true false).IsFresh ∧ (made true false).Granted ∧
      ((made true false).run used).2.pending = some (.tlbMiss 0x2000 false) ∧
      (((made true false).run used).2.step .reset).2.pending = none ∧
      ∀ further, ((((made true false).run used).2.step .reset).2.run further).1 =
        (((made true false).given ((made true false).run used).2).run further).1 := by
  have fresh := isFresh_made true false
  have granted := granted_made true false
  obtain ⟨-, hrun, -, hblank⟩ := reset_forgets fresh granted used
  exact ⟨fresh, granted, by decide +kernel, hblank.pending, hrun⟩

end Space

end GuestMemory
