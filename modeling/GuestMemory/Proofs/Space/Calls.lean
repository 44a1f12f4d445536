import GuestMemory.Proofs.Maps.Ranges
import GuestMemory.Proofs.Space.Wiring
import GuestMemory.Proofs.Window.Mirror
import GuestMemory.Space.Command

/-!
What a call can do to the maps of a space. A call that is refused does nothing, most calls have
nothing to do with the maps, and the others do to one of them what is written here once.
-/
namespace GuestMemory

/-- The two maps of a space, the arena behind them, and the settings. -/
structure Maps where
  settings : Settings
  arena : Arena
  physical : PhysicalMap
  virtual : VirtualMap

namespace Space

variable {σ : Type}

def maps (s : Space σ) : Maps := ⟨s.settings, s.arena, s.physical, s.virtual⟩

theorem maps_of_wiring {s t : Space σ} (h : t.wiring = s.wiring) : t.maps = s.maps :=
  congrArg (fun w : Wiring => (⟨w.settings, w.arena, w.physical, w.virtual⟩ : Maps)) h

/-- Bringing the window up to date touches nothing that the guest can reach. -/
theorem syncWindow_eq (s : Space σ) (v : GuestAddress) (size : UInt32) :
    ∃ window journal, (s.syncWindow v size).2 = { s with window, journal } := by
  rw [syncWindow]
  cases s.window with
  | none => exact ⟨_, _, rfl⟩
  | some w => exact ⟨_, _, rfl⟩

/-- The host grants every change of the window to come. -/
def Granted (s : Space σ) : Prop := ∀ w, s.window = some w → w.Granted

/-- Such a host lets the window follow, and goes on to. -/
theorem Granted.syncWindow {s : Space σ} (h : s.Granted) (v : GuestAddress) (size : UInt32) :
    (s.syncWindow v size).1 = none ∧ (s.syncWindow v size).2.Granted := by
  rw [Space.syncWindow]
  cases hw : s.window with
  | none => exact ⟨rfl, h⟩
  | some w =>
    obtain ⟨hgranted, hnone⟩ : _ ∧ (Window.Walk.visitAll { window := w, journal := s.journal } v
        s.windowTarget (GuestAddress.page size)).refusal = none :=
      Window.Walk.visitAll_of_granted (h w hw) rfl
    refine ⟨hnone, fun w' hw' => ?_⟩
    cases hw'
    exact hgranted

theorem protect_eq (s : Space σ) (block : Block) (protection : Protection) :
    ∃ window, (s.protect block protection).2 = { s with window } := by
  rw [protect]
  cases s.window with
  | none => exact ⟨_, rfl⟩
  | some w => exact ⟨_, rfl⟩

/-- What resetting leaves, but for the window and for what it reports. -/
theorem exists_reset_eq (s : Space σ) :
    ∃ window journal, s.reset.2 = { s with
      cache := {}, control := s.control.reset, physical := {}, virtual := {}, pending := none
      window, journal } := by
  rw [reset]
  cases s.window with
  | none => exact ⟨_, _, rfl⟩
  | some w =>
    simp only
    split <;> exact ⟨_, _, rfl⟩

theorem maps_reset (s : Space σ) :
    s.reset.2.maps = { s.maps with physical := {}, virtual := {} } := by
  obtain ⟨window, journal, h⟩ := s.exists_reset_eq
  rw [h]
  rfl

@[simp] theorem maps_syncWindow (s : Space σ) (v : GuestAddress) (size : UInt32) :
    (s.syncWindow v size).2.maps = s.maps := by
  obtain ⟨window, journal, h⟩ := s.syncWindow_eq v size
  rw [h]
  rfl

namespace Command

/-- Whether a call changes one of the two maps if it is accepted. -/
def IsMapping : Command σ → Prop
  | .mapBlock .. | .mapMemory .. | .mapHandler .. | .duplicate .. | .project .. | .projectBlock ..
  | .projectBuffer .. | .unmap .. | .reset => True
  | _ => False

def IsInstall : Command σ → Prop
  | .install _ => True
  | _ => False

end Command

/-- Whether the arguments of a call were accepted. It went through without an answer of its own, or the
host did not follow it. -/
def Answer.IsAccepted : Answer σ → Prop
  | .done | .refused (.arena _) => True
  | _ => False

theorem Answer.isAccepted_ofRefusal (refusal : Option ArenaError) :
    (ofRefusal refusal : Answer σ).IsAccepted := by
  cases refusal <;> trivial

theorem allocate_eq_ok {s t : Space σ} {name : String} {size : Nat} {protection : Protection}
    {block : Block} :
    s.allocate name size protection = .ok (block, t) ↔
      ∃ arena, s.arena.allocate name size protection = .ok (block, arena) ∧
        { s with arena }.note (.regionCarved name block) = t := by
  simp only [allocate, bind_eq_ok, pure, Except.pure, Except.ok.injEq, Prod.mk.injEq, Prod.exists]
  constructor
  · rintro ⟨_, arena, h, rfl, ht⟩
    exact ⟨arena, h, ht⟩
  · rintro ⟨arena, h, ht⟩
    exact ⟨_, arena, h, rfl, ht⟩

theorem mapMemory_eq_ok {s t : Space σ} {base : HostAddress} {start : GuestAddress}
    {size blockSize : UInt32} :
    s.mapMemory base start size blockSize = .ok t ↔
      ∃ physical, s.physical.mapBlock base start size blockSize = .ok physical ∧
        { s with physical } = t := by
  simp only [mapMemory, bind_eq_ok, pure, Except.pure, Except.ok.injEq]

theorem mapBlock_eq_ok {s t : Space σ} {block : Block} {start : GuestAddress}
    {size blockSize : UInt32} :
    s.mapBlock block start size blockSize = .ok t ↔
      (blockBytes size blockSize).toNat ≤ block.size ∧
        ∃ physical,
          s.physical.mapBlock (s.arena.address block) start size blockSize = .ok physical ∧
            { s with physical } = t := by
  simp only [mapBlock, unless_throw_eq_ok, mapMemory_eq_ok, Nat.not_lt, blockBytes]

theorem mapHandler_eq_ok {s t : Space σ} {id : HandlerId} {start : GuestAddress} {size : UInt32} :
    s.mapHandler id start size = .ok t ↔
      s.handlers.contains id = true ∧
        ∃ physical, s.physical.mapHandler id start size = .ok physical ∧
          { s with physical } = t := by
  simp only [mapHandler, unless_throw_eq_ok, bind_eq_ok, pure, Except.pure, Except.ok.injEq,
    Bool.not_eq_true', Bool.not_eq_false]

theorem duplicate_eq_ok {s t : Space σ} {target start : GuestAddress} {size : UInt32} :
    s.duplicate target start size = .ok t ↔
      ∃ physical, s.physical.duplicate target start size = .ok physical ∧
        { s with physical } = t := by
  simp only [duplicate, bind_eq_ok, pure, Except.pure, Except.ok.injEq]

section

variable {s : Space σ} {v p : GuestAddress} {buffer : HostAddress} {block : Block} {size : UInt32}
  {r : Option ArenaError × Space σ}

theorem project_eq_ok :
    s.project v p size = .ok r ↔
      ∃ virtual, s.virtual.project s.physical v p size = .ok virtual ∧
        { s with virtual }.syncWindow v size = r := by
  simp only [project, bind_eq_ok, pure, Except.pure, Except.ok.injEq]

theorem projectBuffer_eq_ok :
    s.projectBuffer v buffer size = .ok r ↔
      ∃ virtual, s.virtual.projectBuffer v buffer size = .ok virtual ∧
        { s with virtual }.syncWindow v size = r := by
  simp only [projectBuffer, bind_eq_ok, pure, Except.pure, Except.ok.injEq]

theorem projectBlock_eq_ok :
    s.projectBlock v block size = .ok r ↔
      size.toNat ≤ block.size ∧
        ∃ virtual, s.virtual.projectBuffer v (s.arena.address block) size = .ok virtual ∧
          { s with virtual }.syncWindow v size = r := by
  simp only [projectBlock, unless_throw_eq_ok, projectBuffer_eq_ok, Nat.not_lt]

theorem unmap_eq_ok :
    s.unmap v size = .ok r ↔
      ∃ virtual, s.virtual.unmap v size = .ok virtual ∧
        { s with virtual }.syncWindow v size = r := by
  simp only [unmap, bind_eq_ok, pure, Except.pure, Except.ok.injEq]

end

/-- The range of virtual pages that a call puts something else behind, or nothing. -/
def Command.remapped? : Command σ → Option (GuestAddress × UInt32)
  | .project v _ size | .projectBlock v _ size | .projectBuffer v _ size | .unmap v size =>
    some (v, size)
  | _ => none

def Command.remap (m : Maps) : Command σ → Except MapError VirtualMap
  | .project v p size => m.virtual.project m.physical v p size
  | .projectBlock v block size =>
    if block.size < size.toNat then
      .error (.blockTooSmall .projectBuffer size.toNat block.size)
    else m.virtual.projectBuffer v (m.arena.address block) size
  | .projectBuffer v buffer size => m.virtual.projectBuffer v buffer size
  | .unmap v size => m.virtual.unmap v size
  | _ => .ok m.virtual

/-- Outside of the range the virtual map is as before. -/
theorem Command.remaps_remap {m : Maps} {c : Command σ} {v : GuestAddress} {size : UInt32}
    {virtual : VirtualMap} (hc : c.remapped? = some (v, size)) (h : c.remap m = .ok virtual) :
    m.virtual.Remaps virtual v size := by
  cases c with
  | project =>
    cases hc
    exact VirtualMap.remaps_project h
  | projectBuffer =>
    cases hc
    exact VirtualMap.remaps_projectBuffer h
  | unmap =>
    cases hc
    exact VirtualMap.remaps_unmap h
  | projectBlock =>
    cases hc
    rw [remap] at h
    split at h
    · cases h
    · exact VirtualMap.remaps_projectBuffer h
  | _ => cases hc

/-- Such a call is refused for its arguments and then changes nothing, or changes the virtual map and
has the window follow as far as the host lets it. -/
theorem perform_remap {s : Space σ} {c : Command σ} {v : GuestAddress} {size : UInt32}
    (hc : c.remapped? = some (v, size)) :
    s.perform c =
      match c.remap s.maps with
      | .ok virtual =>
        (.ofRefusal ({ s with virtual }.syncWindow v size).1,
          ({ s with virtual }.syncWindow v size).2)
      | .error e => (.refused (.map e), s) := by
  cases c with
  | project v' p size' =>
    cases hc
    simp only [perform, project, Command.remap, maps]
    cases s.virtual.project s.physical v p size <;> rfl
  | projectBuffer v' buffer size' =>
    cases hc
    simp only [perform, projectBuffer, Command.remap, maps]
    cases s.virtual.projectBuffer v buffer size <;> rfl
  | unmap v' size' =>
    cases hc
    simp only [perform, unmap, Command.remap, maps]
    cases s.virtual.unmap v size <;> rfl
  | projectBlock v' block size' =>
    cases hc
    simp only [perform, projectBlock, projectBuffer, Command.remap, maps]
    by_cases hb : block.size < size.toNat
    · rw [if_pos hb, if_pos hb]
      rfl
    · rw [if_neg hb, if_neg hb]
      cases s.virtual.projectBuffer v (s.arena.address block) size <;> rfl
  | _ => cases hc

/-- What remapping a range and refusing to do so both keep. -/
theorem perform_remap_keeps {P : Space σ → Prop} {s : Space σ} {c : Command σ} {v : GuestAddress}
    {size : UInt32} (hc : c.remapped? = some (v, size)) (hs : P s)
    (remap : ∀ virtual, s.virtual.Remaps virtual v size →
      P ({ s with virtual }.syncWindow v size).2) : P (s.perform c).2 := by
  rw [perform_remap hc]
  cases h : c.remap s.maps with
  | ok virtual => exact remap virtual (Command.remaps_remap hc h)
  | error e => exact hs

/-- What a call answers and does to the maps. The host has no say in it. -/
inductive MapStep (m : Maps) : Command σ → Answer σ → Maps → Prop where
  | refused {c a} (h : ¬a.IsAccepted) : MapStep m c a m
  | unrelated {c a} (h : ¬c.IsMapping) : MapStep m c a m
  | allocate {name size protection block arena a}
      (h : m.arena.allocate name size protection = .ok (block, arena)) :
      MapStep m (.allocate name size protection) a { m with arena }
  | mapBlock {block start size blockSize physical}
      (room : (blockBytes size blockSize).toNat ≤ block.size)
      (h : m.physical.mapBlock (m.arena.address block) start size blockSize = .ok physical) :
      MapStep m (.mapBlock block start size blockSize) .done { m with physical }
  | mapMemory {base start size blockSize physical}
      (h : m.physical.mapBlock base start size blockSize = .ok physical) :
      MapStep m (.mapMemory base start size blockSize) .done { m with physical }
  | mapHandler {id start size physical}
      (h : m.physical.mapHandler id start size = .ok physical) :
      MapStep m (.mapHandler id start size) .done { m with physical }
  | duplicate {target start size physical}
      (h : m.physical.duplicate target start size = .ok physical) :
      MapStep m (.duplicate target start size) .done { m with physical }
  | project {v p size virtual a} (h : m.virtual.project m.physical v p size = .ok virtual)
      (accepted : a.IsAccepted) : MapStep m (.project v p size) a { m with virtual }
  | projectBlock {v block size virtual a} (room : size.toNat ≤ block.size)
      (h : m.virtual.projectBuffer v (m.arena.address block) size = .ok virtual)
      (accepted : a.IsAccepted) : MapStep m (.projectBlock v block size) a { m with virtual }
  | projectBuffer {v buffer size virtual a}
      (h : m.virtual.projectBuffer v buffer size = .ok virtual)
      (accepted : a.IsAccepted) : MapStep m (.projectBuffer v buffer size) a { m with virtual }
  | unmap {v size virtual a} (h : m.virtual.unmap v size = .ok virtual)
      (accepted : a.IsAccepted) : MapStep m (.unmap v size) a { m with virtual }
  | reset {a} (accepted : a.IsAccepted) :
      MapStep m .reset a { m with physical := {}, virtual := {} }

theorem MapStep.settings_eq {m m' : Maps} {c : Command σ} {a : Answer σ} (h : MapStep m c a m') :
    m'.settings = m.settings := by
  cases h <;> rfl

/-- A mapping call either is refused or has an outcome that its own rule describes. -/
theorem mapStep_settle {s : Space σ} {c : Command σ} {result : Except MapError (Space σ)}
    (h : ∀ t, result = .ok t → MapStep s.maps c .done t.maps) :
    MapStep s.maps c (s.settle result).1 (s.settle result).2.maps := by
  cases result with
  | ok t => exact h t rfl
  | error e => exact .refused id

theorem mapStep_remap {s : Space σ} {c : Command σ} {v : GuestAddress} {size : UInt32}
    (hc : c.remapped? = some (v, size))
    (h : ∀ virtual a, c.remap s.maps = .ok virtual → a.IsAccepted →
      MapStep s.maps c a { s.maps with virtual }) :
    MapStep s.maps c (s.perform c).1 (s.perform c).2.maps := by
  rw [perform_remap hc]
  cases hr : c.remap s.maps with
  | error e => exact .refused id
  | ok virtual =>
    have hmaps := maps_syncWindow { s with virtual } v size
    exact hmaps ▸ h virtual _ hr (Answer.isAccepted_ofRefusal _)

theorem mapStep_allocate {s : Space σ} {name : String} {size : Nat} {protection : Protection} :
    MapStep s.maps (.allocate name size protection) (s.performAllocate name size protection).1
      (s.performAllocate name size protection).2.maps := by
  unfold performAllocate
  cases h : s.allocate name size protection with
  | ok r =>
    obtain ⟨block, t⟩ := r
    obtain ⟨arena, ha, rfl⟩ := allocate_eq_ok.1 h
    exact .allocate ha
  | error e => cases e <;> exact .unrelated id

theorem performFault_snd (s : Space σ) (pc a : HostAddress) :
    (s.performFault pc a).2 = (s.handleFault pc a).2 := by
  rw [performFault]
  rcases s.handleFault pc a with ⟨outcome, t⟩
  cases outcome <;> rfl

/-- Calls that change no map, and no arena. -/
theorem maps_perform_of_not_mapping {s : Space σ} {c : Command σ} (h : ¬c.IsMapping)
    (hi : ¬c.IsInstall) (ha : ∀ name size protection, c ≠ .allocate name size protection) :
    (s.perform c).2.maps = s.maps := by
  cases c with
  | register handler =>
    rw [perform, performRegister, register]
    cases s.handlers.register handler <;> rfl
  | reassign id handler =>
    rw [perform, performReassign, reassign]
    cases s.handlers.reassign id handler <;> rfl
  | readHandler id w a =>
    rw [perform]
    split <;> rfl
  | writeHandler id w a x =>
    rw [perform]
    split <;> rfl
  | allocate name size protection => exact absurd rfl (ha name size protection)
  | read w v => exact maps_of_wiring (s.wiring_read w v)
  | write w v x => exact maps_of_wiring (s.wiring_write v x)
  | ramWrite w v x => exact maps_of_wiring (s.wiring_ramWrite v x)
  | cacheOp op v packed => exact maps_of_wiring (s.wiring_cacheOp op v packed)
  | fault pc a =>
    rw [perform, performFault_snd, handleFault]
    cases s.window <;> rfl
  | protect block protection =>
    obtain ⟨window, h⟩ := s.protect_eq block protection
    rw [perform, h]
    rfl
  | shutdown =>
    rw [perform, shutdown]
    cases s.window <;> rfl
  | ramRead | loadBytes | takeException | control | setPatcher | sites => rfl
  | install => exact absurd trivial hi
  | mapBlock | mapMemory | mapHandler | duplicate | project | projectBlock | projectBuffer
  | unmap | reset => exact absurd trivial h

/-- What every call but installing does to the maps. -/
theorem mapStep_perform {s : Space σ} {c : Command σ} (hi : ¬c.IsInstall) :
    MapStep s.maps c (s.perform c).1 (s.perform c).2.maps := by
  cases c with
  | allocate name size protection => exact mapStep_allocate
  | mapBlock block start size blockSize =>
    refine mapStep_settle fun t ht => ?_
    obtain ⟨room, physical, h, rfl⟩ := mapBlock_eq_ok.1 ht
    exact .mapBlock room h
  | mapMemory base start size blockSize =>
    refine mapStep_settle fun t ht => ?_
    obtain ⟨physical, h, rfl⟩ := mapMemory_eq_ok.1 ht
    exact .mapMemory h
  | mapHandler id start size =>
    refine mapStep_settle fun t ht => ?_
    obtain ⟨-, physical, h, rfl⟩ := mapHandler_eq_ok.1 ht
    exact .mapHandler h
  | duplicate target start size =>
    refine mapStep_settle fun t ht => ?_
    obtain ⟨physical, h, rfl⟩ := duplicate_eq_ok.1 ht
    exact .duplicate h
  | project => exact mapStep_remap rfl fun _ _ h ha => .project h ha
  | projectBuffer => exact mapStep_remap rfl fun _ _ h ha => .projectBuffer h ha
  | unmap => exact mapStep_remap rfl fun _ _ h ha => .unmap h ha
  | projectBlock =>
    refine mapStep_remap rfl fun virtual a h ha => ?_
    rw [Command.remap] at h
    split at h
    · cases h
    · rename_i hroom
      exact .projectBlock (Nat.le_of_not_lt hroom) h ha
  | reset =>
    rw [perform, maps_reset]
    exact .reset (Answer.isAccepted_ofRefusal _)
  | install => exact absurd trivial hi
  | _ =>
    rw [maps_perform_of_not_mapping id id (by simp)]
    exact .unrelated id

/-- Calls that reach neither the cache nor host memory. -/
def Command.IsQuiet : Command σ → Prop
  | .read .. | .write .. | .ramWrite .. | .loadBytes .. | .cacheOp .. | .install _ | .reset
  | .shutdown => False
  | _ => True

def backing (s : Space σ) : Cache × Memory := (s.cache, s.memory)

def withBacking (s : Space σ) (cache : Cache) (memory : Memory) : Space σ :=
  { s with cache, memory }

section

variable (s : Space σ) (k : Cache) (m : Memory)

theorem syncWindow_withBacking (v : GuestAddress) (size : UInt32) :
    (s.withBacking k m).syncWindow v size =
      ((s.syncWindow v size).1, (s.syncWindow v size).2.withBacking k m) := by
  obtain ⟨_, _, _, _, _, _, _, _, window, _, _, _⟩ := s
  cases window <;> rfl

/-- Results that differ in nothing else are settled alike. -/
theorem settle_withBacking {result result' : Except MapError (Space σ)}
    (h : result' = result.map (·.withBacking k m)) :
    (s.withBacking k m).settle result' =
      ((s.settle result).1, (s.settle result).2.withBacking k m) := by
  rw [h]
  cases result <;> rfl

theorem performAllocate_withBacking (name : String) (size : Nat) (protection : Protection) :
    (s.withBacking k m).performAllocate name size protection =
      ((s.performAllocate name size protection).1,
        (s.performAllocate name size protection).2.withBacking k m) := by
  unfold performAllocate allocate withBacking
  cases s.arena.allocate name size protection with
  | ok r => rfl
  | error e => cases e <;> rfl

theorem mapMemory_withBacking (base : HostAddress) (start : GuestAddress)
    (size blockSize : UInt32) :
    (s.withBacking k m).mapMemory base start size blockSize =
      (s.mapMemory base start size blockSize).map (·.withBacking k m) := by
  simp only [mapMemory, withBacking]
  cases s.physical.mapBlock base start size blockSize <;> rfl

theorem performRemap_withBacking {c : Command σ} {v : GuestAddress} {size : UInt32}
    (hc : c.remapped? = some (v, size)) :
    (s.withBacking k m).perform c = ((s.perform c).1, (s.perform c).2.withBacking k m) := by
  have hm : (s.withBacking k m).maps = s.maps := rfl
  rw [perform_remap hc, perform_remap hc, hm]
  cases c.remap s.maps with
  | error e => rfl
  | ok virtual =>
    have hs := syncWindow_withBacking { s with virtual } k m v size
    exact congrArg (fun r : _ × Space σ => (Answer.ofRefusal r.1, r.2)) hs

theorem handleFault_withBacking (pc a : HostAddress) :
    (s.withBacking k m).handleFault pc a =
      ((s.handleFault pc a).1, (s.handleFault pc a).2.withBacking k m) := by
  obtain ⟨_, _, _, _, _, _, _, _, window, _, _, _⟩ := s
  cases window <;> rfl

theorem performFault_withBacking (pc a : HostAddress) :
    (s.withBacking k m).performFault pc a =
      ((s.performFault pc a).1, (s.performFault pc a).2.withBacking k m) := by
  rw [performFault, performFault, handleFault_withBacking]
  rcases s.handleFault pc a with ⟨outcome, t⟩
  cases outcome <;> rfl

theorem performProtect_withBacking (block : Block) (protection : Protection) :
    (s.withBacking k m).perform (.protect block protection) =
      ((s.perform (.protect block protection)).1,
        (s.perform (.protect block protection)).2.withBacking k m) := by
  obtain ⟨_, _, _, _, _, _, _, _, window, _, _, _⟩ := s
  cases window <;> rfl

/-- Such calls pass cache and memory on, and but for loads of plain memory do not look at them. -/
theorem perform_withBacking {c : Command σ} (h : c.IsQuiet) (hr : ∀ w v, c ≠ .ramRead w v) :
    (s.withBacking k m).perform c = ((s.perform c).1, (s.perform c).2.withBacking k m) := by
  cases c with
  | register handler =>
    simp only [perform, performRegister, register, withBacking]
    cases s.handlers.register handler <;> rfl
  | reassign id handler =>
    simp only [perform, performReassign, reassign, withBacking]
    cases s.handlers.reassign id handler <;> rfl
  | readHandler id w a =>
    have hc : (s.withBacking k m).handlers = s.handlers := rfl
    simp only [perform, hc]
    split <;> rfl
  | writeHandler id w a x =>
    have hc : (s.withBacking k m).handlers = s.handlers := rfl
    simp only [perform, hc]
    split <;> rfl
  | allocate name size protection =>
    rw [perform, perform]
    exact s.performAllocate_withBacking k m name size protection
  | mapBlock block start size blockSize =>
    refine s.settle_withBacking k m ?_
    simp only [mapBlock]
    by_cases hb : block.size < (if blockSize = 0 then size else blockSize).toNat
    · simp only [hb, if_true]
      rfl
    · simp only [hb, if_false]
      exact s.mapMemory_withBacking k m _ start size blockSize
  | mapMemory base start size blockSize =>
    exact s.settle_withBacking k m (s.mapMemory_withBacking k m base start size blockSize)
  | mapHandler id start size =>
    refine s.settle_withBacking k m ?_
    simp only [mapHandler, withBacking]
    by_cases hc : (!s.handlers.contains id) = true
    · simp only [hc, if_true]
      rfl
    · simp only [hc]
      cases s.physical.mapHandler id start size <;> rfl
  | duplicate target start size =>
    refine s.settle_withBacking k m ?_
    simp only [duplicate, withBacking]
    cases s.physical.duplicate target start size <;> rfl
  | project | projectBlock | projectBuffer | unmap => exact s.performRemap_withBacking k m rfl
  | protect block protection => exact s.performProtect_withBacking k m block protection
  | fault pc a => exact s.performFault_withBacking k m pc a
  | ramRead w v => exact absurd rfl (hr w v)
  | takeException | control | setPatcher | sites => rfl
  | read | write | ramWrite | loadBytes | cacheOp | install | reset | shutdown =>
    exact absurd h id

end

theorem backing_perform {s : Space σ} {c : Command σ} (h : c.IsQuiet) :
    (s.perform c).2.backing = s.backing := by
  by_cases hr : ∃ w v, c = .ramRead w v
  · obtain ⟨w, v, rfl⟩ := hr
    rfl
  · have hp := s.perform_withBacking s.cache s.memory h fun w v e => hr ⟨w, v, e⟩
    exact congrArg (fun r : Answer σ × Space σ => r.2.backing) hp

end Space

end GuestMemory
