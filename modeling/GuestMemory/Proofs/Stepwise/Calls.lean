import GuestMemory.Proofs.Space.Reset
import GuestMemory.Proofs.Stepwise.Window
import GuestMemory.Proofs.Window.Lockstep

/-!
The six calls that set up the maps, operation by operation. In every state that a space reaches,
each of them goes through if its arguments fit and the host lets the window follow, and is refused
before it has changed anything if they do not fit; none of their operations traps. Where the host does
not let the window follow, the maps have changed and the window has followed up to some page.
-/
namespace GuestMemory

/-- A call that sets up the physical map, or the virtual one and the window with it. -/
inductive Mapping where
  | mapBlock (block : Block) (start : GuestAddress) (size blockSize : UInt32)
  | mapHandler (id : HandlerId) (start : GuestAddress) (size : UInt32)
  | duplicate (target start : GuestAddress) (size : UInt32)
  | project (v p : GuestAddress) (size : UInt32)
  | projectBlock (v : GuestAddress) (block : Block) (size : UInt32)
  | unmap (v : GuestAddress) (size : UInt32)

namespace Mapping

variable {σ : Type}

def command : Mapping → Space.Command σ
  | mapBlock block start size blockSize => .mapBlock block start size blockSize
  | mapHandler id start size => .mapHandler id start size
  | duplicate target start size => .duplicate target start size
  | project v p size => .project v p size
  | projectBlock v block size => .projectBlock v block size
  | unmap v size => .unmap v size

/-- The space that a call leaves, if its arguments are accepted, and why the host did not let the window
follow, if so. -/
def result (s : Space σ) : Mapping → Except MapError (Option ArenaError × Space σ)
  | mapBlock block start size blockSize =>
    (s.mapBlock block start size blockSize).map fun t => (none, t)
  | mapHandler id start size => (s.mapHandler id start size).map fun t => (none, t)
  | duplicate target start size => (s.duplicate target start size).map fun t => (none, t)
  | project v p size => s.project v p size
  | projectBlock v block size => s.projectBlock v block size
  | unmap v size => s.unmap v size

def block? : Mapping → Option Block
  | mapBlock block .. | projectBlock _ block _ => some block
  | _ => none

/-- Whole pages of the guest space, up to its end. -/
def IsVirtualRange (v : GuestAddress) (size : UInt32) : Prop :=
  v.toNat % 4096 = 0 ∧ size.toNat % 4096 = 0 ∧ v.toNat + size.toNat ≤ 2 ^ 32

open PhysicalMap in
def Fits (s : Space σ) : Mapping → Prop
  | mapBlock block start size blockSize =>
    IsRange start size ∧ (blockBytes size blockSize).toNat ≤ block.size ∧
      (blockBytes size blockSize).toNat % 4096 = 0 ∧
        (blockBytes size blockSize).toNat ∣ size.toNat
  | mapHandler id start size => s.handlers.contains id = true ∧ IsRange start size
  | duplicate target start size => IsRange start size ∧ IsRange target size
  | project v p size => IsVirtualRange v size ∧ p.toNat % 4096 = 0
  | projectBlock v block size => IsVirtualRange v size ∧ size.toNat ≤ block.size
  | unmap v size => IsVirtualRange v size

end Mapping

namespace Stepwise

variable {S σ : Type}

def onPhysical : Steps PhysicalMap Unit → Steps (Space σ) Unit :=
  within Space.physical fun s physical => { s with physical }

def onVirtual : Steps VirtualMap Unit → Steps (Space σ) Unit :=
  within Space.virtual fun s virtual => { s with virtual }

def blockAddress (arena : Arena) (block : Block) : Steps S HostAddress := do
  let host ← add 64 arena.base.toNat block.offset
  return UInt64.ofNat host

end Stepwise

open Stepwise in
def Mapping.steps {σ : Type} : Mapping → Steps (Space σ) Unit
  | mapBlock block start size blockSize => do
    let s ← get
    let needed := (blockBytes size blockSize).toNat
    if block.size < needed then refuse (.blockTooSmall .mapBlock needed block.size)
    let base ← blockAddress s.arena block
    onPhysical (Stepwise.mapBlock base start size blockSize)
  | mapHandler id start size => do
    let s ← get
    if !s.handlers.contains id then refuse (.unknownHandler .mapHandler id)
    onPhysical (Stepwise.mapHandler id start size)
  | duplicate target start size => onPhysical (Stepwise.duplicate target start size)
  | project v p size => do
    let s ← get
    onVirtual (Stepwise.project s.physical v p size)
    syncWindow v size
  | projectBlock v block size => do
    let s ← get
    if block.size < size.toNat then
      refuse (.blockTooSmall .projectBuffer size.toNat block.size)
    let buffer ← blockAddress s.arena block
    onVirtual (projectBuffer v buffer size)
    syncWindow v size
  | unmap v size => do
    onVirtual (Stepwise.unmap v size)
    syncWindow v size

namespace Space

open Stepwise

variable {σ : Type} {s s₀ : Space σ}

/-- The arena is paved and ends below the last host address, and the window does not wrap. -/
structure Sits (s : Space σ) : Prop where
  paved : s.arena.IsPaved
  below : s.arena.base.toNat + s.arena.size < 2 ^ 64
  room : ∀ w, s.window = some w → w.base.toNat + 2 ^ 32 ≤ 2 ^ 64

/-- No call moves the arena or the window. -/
theorem sits_of_leads (fresh : s₀.IsFresh) (placed : s₀.IsPlaced)
    (below : s₀.arena.base.toNat + s₀.arena.size < 2 ^ 64)
    (run : Leads (fun _ _ => True) s₀ s) : s.Sits := by
  have kin : s₀.Kin s := run.keeps (Kin.refl s₀) fun t c ht _ => ht.step c
  refine ⟨?_, ?_, fun w hw => ?_⟩
  · refine run.keeps (P := fun t => t.arena.IsPaved)
      (fresh.paved placed.aligned placed.arena_fits) fun t c ht _ => ?_
    exact perform_keeps (s := t.drained) (P := fun t => t.arena.IsPaved)
      (fun _ _ hi hp => (mapStep_perform hi).paved hp) ht c
  · rw [kin.base_eq, kin.size_eq]
    exact below
  · obtain ⟨w₀, hw₀, hb⟩ := run.windowFrom w hw
    have hbase : w.base = w₀.base := hb.keeps (P := fun w => w.base = w₀.base)
      (fun hc ha => hc.base_eq.trans ha) rfl
    rw [hbase]
    exact placed.window_fits w₀ hw₀

theorem onPhysical_eq {f : Steps PhysicalMap Unit} {result : Except MapError PhysicalMap}
    (hf : f s.physical = answer result s.physical) :
    onPhysical f s = answer (result >>= fun physical => pure { s with physical }) s := by
  rw [onPhysical]
  exact within_answer rfl hf

theorem onVirtual_eq {f : Steps VirtualMap Unit} {result : Except MapError VirtualMap}
    (hf : f s.virtual = answer result s.virtual) :
    onVirtual f s = answer (result >>= fun virtual => pure { s with virtual }) s := by
  rw [onVirtual]
  exact within_answer rfl hf

theorem map_eq_ok {ε α β : Type} {r : Except ε α} {f : α → β} {b : β} :
    r.map f = .ok b ↔ ∃ a, r = .ok a ∧ f a = b := by
  cases r <;> simp [Except.map]

/-- A result that is made from another one is there if that one is. -/
theorem exists_eq_of_map {α β : Type} {p : α → Prop} {f : α → β} :
    (∃ b, ∃ a, p a ∧ f a = b) ↔ ∃ a, p a :=
  ⟨fun ⟨_, a, ha, _⟩ => ⟨a, ha⟩, fun ⟨a, ha⟩ => ⟨f a, a, ha, rfl⟩⟩

section

variable (h : s.Sits)

include h

/-- Blocks of the arena lie on page boundaries below the last host address. -/
theorem Sits.block {block : Block} (owned : s.arena.Owns block) :
    (s.arena.address block).toNat = s.arena.base.toNat + block.offset ∧
      s.arena.base.toNat + block.offset + block.size < 2 ^ 64 ∧
        (s.arena.base.toNat + block.offset) % 4096 = 0 := by
  obtain ⟨r, hr, hoffset, hsize⟩ := owned
  obtain ⟨ho, -, hend⟩ := h.paved.region r hr
  have hbase := h.paved.base_aligned
  have hused := h.paved.used_le
  have hbelow := h.below
  refine ⟨?_, by omega, by omega⟩
  rw [Arena.address, UInt64.toNat_add, UInt64.toNat_ofNat']
  omega

theorem Sits.blockAddress_eq {S : Type} {block : Block} (owned : s.arena.Owns block) :
    (blockAddress s.arena block : Steps S HostAddress) = pure (s.arena.address block) := by
  obtain ⟨-, hend, -⟩ := h.block owned
  rw [blockAddress, add_eq (by omega), pure_bind, UInt64.ofNat_add, UInt64.ofNat_toNat,
    Arena.address]

/-- A change of the virtual map, and the window after it. -/
theorem Sits.remap_eq {f : Steps VirtualMap Unit} {result : Except MapError VirtualMap}
    {v : GuestAddress} {size : UInt32} (hf : f s.virtual = answer result s.virtual)
    (hend : ∀ virtual, result = .ok virtual → v.toNat + size.toNat ≤ 2 ^ 32) :
    (onVirtual f >>= fun _ => Stepwise.syncWindow v size) s =
      followed (result >>= fun virtual => pure ({ s with virtual }.syncWindow v size)) s := by
  have hvirtual := onVirtual_eq hf
  cases result with
  | error e => exact bind_error hvirtual
  | ok virtual =>
    have hsits : ({ s with virtual } : Space σ).Sits := ⟨h.paved, h.below, h.room⟩
    refine (bind_ok hvirtual).trans ?_
    exact Stepwise.syncWindow_eq hsits.paved hsits.below hsits.room (hend virtual rfl)

/-- The operations of a call come to what the call does as a whole. -/
theorem Sits.steps_eq (c : Mapping) (owned : ∀ block, c.block? = some block → s.arena.Owns block) :
    c.steps s = followed (c.result s) s := by
  cases c with
  | mapBlock block start size blockSize =>
    obtain ⟨haddress, hend, -⟩ := h.block (owned block rfl)
    rw [Mapping.steps, get_bind, Mapping.result, ← answer_eq_followed, Space.mapBlock]
    refine refuse_unless fun hroom => ?_
    have hbytes : (blockBytes size blockSize).toNat ≤ block.size := Nat.le_of_not_lt hroom
    show (blockAddress s.arena block >>= fun base =>
      onPhysical (Stepwise.mapBlock base start size blockSize)) s = _
    rw [h.blockAddress_eq (owned block rfl), pure_bind]
    exact onPhysical_eq (Stepwise.mapBlock_eq _ start size blockSize s.physical (by omega))
  | mapHandler id start size =>
    rw [Mapping.steps, get_bind, Mapping.result, ← answer_eq_followed, Space.mapHandler]
    exact refuse_unless fun _ => onPhysical_eq (Stepwise.mapHandler_eq id start size s.physical)
  | duplicate target start size =>
    rw [Mapping.result, ← answer_eq_followed]
    exact onPhysical_eq (Stepwise.duplicate_eq target start size s.physical)
  | project v p size =>
    rw [Mapping.steps, get_bind]
    exact h.remap_eq (Stepwise.project_eq s.physical v p size s.virtual) fun _ hv =>
      (VirtualMap.remaps_project hv).fits
  | projectBlock v block size =>
    obtain ⟨haddress, hend, -⟩ := h.block (owned block rfl)
    rw [Mapping.steps, get_bind, Mapping.result, Space.projectBlock]
    by_cases hroom : block.size < size.toNat
    · simp only [if_pos hroom]
      rfl
    have hbytes : size.toNat ≤ block.size := Nat.le_of_not_lt hroom
    simp only [if_neg hroom]
    show (blockAddress s.arena block >>= fun buffer =>
      onVirtual (Stepwise.projectBuffer v buffer size) >>= fun _ =>
        Stepwise.syncWindow v size) s = _
    rw [h.blockAddress_eq (owned block rfl), pure_bind]
    exact h.remap_eq (Stepwise.projectBuffer_eq v _ size s.virtual (by omega)) fun _ hv =>
      (VirtualMap.remaps_projectBuffer hv).fits
  | unmap v size =>
    exact h.remap_eq (Stepwise.unmap_eq v size s.virtual) fun _ hv =>
      (VirtualMap.remaps_unmap hv).fits

/-- The arguments decide whether a call is accepted, since every block lies on page boundaries. -/
theorem Sits.exists_result_iff (c : Mapping)
    (owned : ∀ block, c.block? = some block → s.arena.Owns block) :
    (∃ t, c.result s = .ok t) ↔ c.Fits s := by
  cases c with
  | mapBlock block start size blockSize =>
    obtain ⟨haddress, -, haligned⟩ := h.block (owned block rfl)
    have hmap := PhysicalMap.Call.perform_eq_ok_iff s.physical
      (.mapBlock (s.arena.address block) start size blockSize)
    simp only [PhysicalMap.Call.perform, PhysicalMap.Call.Fits, haddress, haligned,
      true_and] at hmap
    simp only [Mapping.result, map_eq_ok, mapBlock_eq_ok, exists_and_left, exists_eq_of_map, hmap,
      Mapping.Fits]
    exact and_left_comm
  | mapHandler id start size =>
    have hmap := PhysicalMap.Call.perform_eq_ok_iff s.physical (.mapHandler id start size)
    simp only [Mapping.result, map_eq_ok, mapHandler_eq_ok, exists_and_left, exists_eq_of_map,
      Mapping.Fits]
    exact and_congr_right fun _ => hmap
  | duplicate target start size =>
    have hmap := PhysicalMap.Call.perform_eq_ok_iff s.physical (.duplicate target start size)
    simp only [Mapping.result, map_eq_ok, duplicate_eq_ok, exists_eq_of_map, Mapping.Fits]
    exact hmap
  | project v p size =>
    simp only [Mapping.result, project_eq_ok, exists_eq_of_map, Mapping.Fits]
    exact VirtualMap.exists_project_iff
  | projectBlock v block size =>
    obtain ⟨haddress, -, haligned⟩ := h.block (owned block rfl)
    simp only [Mapping.result, projectBlock_eq_ok, exists_and_left, exists_eq_of_map,
      VirtualMap.exists_projectBuffer_iff, haddress, haligned, and_true, Mapping.Fits]
    exact and_comm
  | unmap v size =>
    simp only [Mapping.result, unmap_eq_ok, exists_eq_of_map, Mapping.Fits]
    exact VirtualMap.exists_unmap_iff

end

/-- The host has its say in what a call answers through the window only. -/
theorem settle_eq_settleSynced (s : Space σ) (result : Except MapError (Space σ)) :
    s.settle result = s.settleSynced (result.map fun t => (none, t)) := by
  cases result <;> rfl

theorem perform_command (s : Space σ) (c : Mapping) :
    s.perform c.command = s.settleSynced (c.result s) := by
  cases c with
  | mapBlock | mapHandler | duplicate => exact s.settle_eq_settleSynced _
  | project | projectBlock | unmap => rfl

/-- What a call makes of the maps does not depend on the window. It changes the physical map alone, or
remaps a range that the window then follows. -/
theorem result_cases (s : Space σ) (c : Mapping) :
    (∃ r : Except MapError PhysicalMap, ∀ window,
      c.result { s with window } = r.map fun physical => (none, { s with window, physical })) ∨
    ∃ v size, ∃ r : Except MapError VirtualMap, (c.command : Command σ).remapped? = some (v, size) ∧
      (∀ virtual, r = .ok virtual → s.virtual.Remaps virtual v size) ∧ ∀ window,
        c.result { s with window } =
          r.map fun virtual => ({ s with window, virtual } : Space σ).syncWindow v size := by
  cases c with
  | mapBlock block start size blockSize =>
    refine .inl ⟨(s.mapBlock block start size blockSize).map Space.physical, fun window => ?_⟩
    simp only [Mapping.result, Space.mapBlock, Space.mapMemory]
    by_cases hroom : block.size < (if blockSize = 0 then size else blockSize).toNat
    · simp only [if_pos hroom]
      rfl
    · simp only [if_neg hroom]
      cases s.physical.mapBlock (s.arena.address block) start size blockSize <;> rfl
  | mapHandler id start size =>
    refine .inl ⟨(s.mapHandler id start size).map Space.physical, fun window => ?_⟩
    simp only [Mapping.result, Space.mapHandler]
    split
    · rfl
    · cases s.physical.mapHandler id start size <;> rfl
  | duplicate target start size =>
    refine .inl ⟨(s.duplicate target start size).map Space.physical, fun window => ?_⟩
    simp only [Mapping.result, Space.duplicate]
    cases s.physical.duplicate target start size <;> rfl
  | project v p size =>
    refine .inr ⟨v, size, s.virtual.project s.physical v p size, rfl, fun virtual h =>
      VirtualMap.remaps_project h, fun window => ?_⟩
    simp only [Mapping.result, Space.project]
    cases s.virtual.project s.physical v p size <;> rfl
  | projectBlock v block size =>
    have hremaps : ∀ virtual, Command.remap s.maps (.projectBlock v block size : Command σ) =
        .ok virtual → s.virtual.Remaps virtual v size :=
      fun virtual h => Command.remaps_remap rfl h
    refine .inr ⟨v, size, _, rfl, hremaps, fun window => ?_⟩
    simp only [Mapping.result, Space.projectBlock, Space.projectBuffer, Command.remap, maps]
    by_cases hroom : block.size < size.toNat
    · rw [if_pos hroom, if_pos hroom]
      rfl
    · rw [if_neg hroom, if_neg hroom]
      cases s.virtual.projectBuffer v (s.arena.address block) size <;> rfl
  | unmap v size =>
    refine .inr ⟨v, size, s.virtual.unmap v size, rfl, fun virtual h =>
      VirtualMap.remaps_unmap h, fun window => ?_⟩
    simp only [Mapping.result, Space.unmap]
    cases s.virtual.unmap v size <;> rfl

/-- Without a window a remapped space has nothing to bring up to date. -/
theorem syncWindow_windowless (s : Space σ) (virtual : VirtualMap) (v : GuestAddress)
    (size : UInt32) :
    ({ s with window := none, virtual } : Space σ).syncWindow v size =
      (none, { ({ s with virtual }.syncWindow v size).2 with
        window := none, journal := s.journal }) := by
  obtain ⟨window, journal, h⟩ := ({ s with virtual } : Space σ).syncWindow_eq v size
  rw [h]
  rfl

/-- So the host has no say in the maps. -/
theorem result_windowless (s : Space σ) (c : Mapping) :
    c.result { s with window := none } =
      (c.result s).map fun r => (none, { r.2 with window := none, journal := s.journal }) := by
  obtain ⟨r, hr⟩ | ⟨v, size, r, -, -, hr⟩ := s.result_cases c
  · rw [hr none, hr s.window]
    cases r <;> rfl
  · rw [hr none, hr s.window]
    cases r with
    | error e => rfl
    | ok virtual => exact congrArg Except.ok (s.syncWindow_windowless virtual v size)

/-- A call that the host does not follow is one that remaps a range. It is not granted everything, and
the window has followed up to some page of the range. -/
theorem endsAt_result {t : Space σ} {e : ArenaError} {c : Mapping}
    (h : c.result s = .ok (some e, t)) :
    ¬s.Granted ∧ ∃ v size i, (c.command : Command σ).remapped? = some (v, size) ∧
      s.EndsAt t v size i := by
  obtain ⟨r, hr⟩ | ⟨v, size, r, hc, hremaps, hr⟩ := s.result_cases c
  · obtain ⟨_, -, he⟩ := map_eq_ok.1 ((hr s.window).symm.trans h)
    cases he
  · obtain ⟨virtual, hv, he⟩ := map_eq_ok.1 ((hr s.window).symm.trans h)
    have hrefused : ({ s with virtual }.syncWindow v size).1 = some e := congrArg Prod.fst he
    obtain rfl : ({ s with virtual }.syncWindow v size).2 = t := congrArg Prod.snd he
    refine ⟨fun hgranted => ?_, v, size, ?_⟩
    · have hnone := (Granted.syncWindow (s := { s with virtual }) hgranted v size).1
      cases hrefused.symm.trans hnone
    · obtain ⟨i, hi⟩ := endsAt_syncWindow (hremaps virtual hv) hrefused
      exact ⟨i, hc, hi⟩

/-- Whatever was done to a space before, operation by operation the six calls go through where their
arguments fit, and are refused where they do not, with the space as it was. No operation of theirs
traps, neither on the last pages of a space nor with ranges or blocks of no bytes. A call that is
accepted does to the maps what it does without a window. If the host then refuses a change of the
window, the call reports so, and the window has followed up to the page of this change. -/
theorem mapping_total (fresh : s₀.IsFresh) (placed : s₀.IsPlaced)
    (below : s₀.arena.base.toNat + s₀.arena.size < 2 ^ 64)
    (run : Leads (fun _ _ => True) s₀ s) (c : Mapping)
    (owned : ∀ block, c.block? = some block → s.arena.Owns block) :
    (c.Fits s → ∃ refusal t, c.steps s = ended refusal t ∧
        s.perform c.command = (.ofRefusal refusal, t) ∧
        ({ s with window := none } : Space σ).perform c.command =
          (.done, { t with window := none, journal := s.journal }) ∧
        (s.Granted → refusal = none) ∧
        ∀ e, refusal = some e → ∃ v size i, (c.command : Command σ).remapped? = some (v, size) ∧
          s.EndsAt t v size i) ∧
      (¬c.Fits s → ∃ e, c.steps s = .error (.refused e) s ∧
        s.perform c.command = (.refused (.map e), s)) := by
  have hsits := sits_of_leads fresh placed below run
  have hfits := hsits.exists_result_iff c owned
  rw [hsits.steps_eq c owned, perform_command, perform_command, result_windowless]
  cases hresult : c.result s with
  | error e =>
    refine ⟨fun hc => ?_, fun _ => ⟨e, rfl, rfl⟩⟩
    obtain ⟨t, ht⟩ := hfits.2 hc
    cases hresult.symm.trans ht
  | ok r =>
    obtain ⟨refusal, t⟩ := r
    refine ⟨fun _ => ⟨refusal, t, rfl, rfl, rfl, fun hgranted => ?_, fun e he => ?_⟩,
      fun hc => absurd (hfits.1 ⟨_, hresult⟩) hc⟩
    · cases refusal with
      | none => rfl
      | some e => exact absurd hgranted (endsAt_result hresult).1
    · subst he
      exact (endsAt_result hresult).2

/-- A host that has no memory left for the second change of the window. -/
def shortOfMemory : Kernel := { changes := [none, some .noMemory] }

/-- A fresh space on it, and the space with two pages carved off. -/
def strained : Space Unit :=
  { made true false with window := some (Window.create anywhere.window shortOfMemory) }

def strainedCarved : Space Unit := (strained.step (.allocate "ram" 0x2000 .readWrite)).2

/-- The last page of the guest space can be projected, and a range that goes on after it cannot. On the
host that has no memory left, two pages are projected but the window follows with the first only. -/
theorem mapping_total_carved :
    (made true false).IsFresh ∧ (made true false).IsPlaced ∧
      (made true false).arena.base.toNat + (made true false).arena.size < 2 ^ 64 ∧
        Leads (fun _ _ => True) (made true false) carved ∧ carved.arena.Owns ⟨0, 0x2000⟩ ∧
          (∃ t, (Mapping.projectBlock 0xFFFFF000 ⟨0, 0x2000⟩ 0x1000).steps carved = .ok () t ∧
            carved.perform (.projectBlock 0xFFFFF000 ⟨0, 0x2000⟩ 0x1000) = (.done, t)) ∧
          (∃ e, (Mapping.projectBlock 0xFFFFF000 ⟨0, 0x2000⟩ 0x2000).steps carved =
              .error (.refused e) carved ∧
            carved.perform (.projectBlock 0xFFFFF000 ⟨0, 0x2000⟩ 0x2000) =
              (.refused (.map e), carved)) ∧
      strained.IsFresh ∧ Leads (fun _ _ => True) strained strainedCarved ∧
        ∃ t, (Mapping.projectBlock 0x1000 ⟨0, 0x2000⟩ 0x2000).steps strainedCarved =
            .error (.host (.os .mapPage .noMemory)) t ∧
          strainedCarved.perform (.projectBlock 0x1000 ⟨0, 0x2000⟩ 0x2000) =
            (.refused (.arena (.os .mapPage .noMemory)), t) ∧
          ∃ i, strainedCarved.EndsAt t 0x1000 0x2000 i := by
  have fresh := isFresh_made true false
  have placed : (made true false).IsPlaced := by
    refine ⟨by decide, by decide, fun w hw => ?_⟩
    cases hw
    decide
  have below : (made true false).arena.base.toNat + (made true false).arena.size < 2 ^ 64 := by
    decide
  have leads : Leads (fun _ _ => True) (made true false) carved :=
    .single ⟨.allocate "ram" 0x2000 .readWrite, trivial, rfl⟩
  have owns : carved.arena.Owns ⟨0, 0x2000⟩ :=
    ⟨⟨"ram", 0, 0x2000, .readWrite⟩, .head _, rfl, rfl⟩
  have granted : carved.Granted := fun w hw => by
    cases hw
    rfl
  refine ⟨fresh, placed, below, leads, owns, ?_, ?_, ?_⟩
  · obtain ⟨refusal, t, hsteps, hperform, -, hgranted, -⟩ :=
      (mapping_total fresh placed below leads (.projectBlock 0xFFFFF000 ⟨0, 0x2000⟩ 0x1000)
        fun _ hb => Option.some.inj hb ▸ owns).1 (by simp [Mapping.Fits, Mapping.IsVirtualRange])
    obtain rfl := hgranted granted
    exact ⟨t, hsteps, hperform⟩
  · exact (mapping_total fresh placed below leads (.projectBlock 0xFFFFF000 ⟨0, 0x2000⟩ 0x2000)
      fun _ hb => Option.some.inj hb ▸ owns).2 (by simp [Mapping.Fits, Mapping.IsVirtualRange])
  · have hfresh : strained.IsFresh :=
      ⟨anywhere, { window := true, arenaSize := 0x4000 }, none, false, shortOfMemory, rfl⟩
    have hplaced : strained.IsPlaced := by
      refine ⟨by decide, by decide, fun w hw => ?_⟩
      cases hw
      decide
    have hleads : Leads (fun _ _ => True) strained strainedCarved :=
      .single ⟨.allocate "ram" 0x2000 .readWrite, trivial, rfl⟩
    have howns : strainedCarved.arena.Owns ⟨0, 0x2000⟩ :=
      ⟨⟨"ram", 0, 0x2000, .readWrite⟩, .head _, rfl, rfl⟩
    obtain ⟨refusal, t, hsteps, hperform, -, -, hends⟩ :=
      (mapping_total hfresh hplaced (by decide) hleads (.projectBlock 0x1000 ⟨0, 0x2000⟩ 0x2000)
        fun _ hb => Option.some.inj hb ▸ howns).1 (by simp [Mapping.Fits, Mapping.IsVirtualRange])
    -- the second page is the one that the host answers for with an error
    have hanswer : (strainedCarved.perform (.projectBlock 0x1000 ⟨0, 0x2000⟩ 0x2000)).1 =
        .refused (.arena (.os .mapPage .noMemory)) := rfl
    obtain rfl : refusal = some (.os .mapPage .noMemory) := by
      have h := (congrArg Prod.fst hperform).symm.trans hanswer
      cases refusal with
      | none => cases h
      | some e =>
        cases h
        rfl
    obtain ⟨v, size, i, hc, hi⟩ := hends _ rfl
    cases hc
    exact ⟨hfresh, hleads, t, hsteps, hperform, i, hi⟩

end Space

end GuestMemory
