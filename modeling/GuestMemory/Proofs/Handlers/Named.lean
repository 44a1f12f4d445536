import GuestMemory.Proofs.Handlers.Pool
import GuestMemory.Proofs.Maps.Atlas
import GuestMemory.Proofs.Space.Install

/-!
The handlers that pages name. A page is mapped only to a slot that is in use, slots are never given
up, and projecting and duplicating pass on names that are there already; so no page ever names a slot
that is empty.
-/
namespace GuestMemory

/-- Every handler that one of the maps names has a property. -/
structure Maps.Names (P : HandlerId → Prop) (m : Maps) : Prop where
  physical : ∀ p id, m.physical.source? p = some (.handler id) → P id
  virtual : ∀ v id q, m.virtual.resolve v = .handler id q → P id

theorem Maps.Names.mono {P Q : HandlerId → Prop} {m : Maps} (h : m.Names P)
    (hPQ : ∀ id, P id → Q id) : m.Names Q :=
  ⟨fun p id hp => hPQ id (h.physical p id hp), fun v id q hv => hPQ id (h.virtual v id q hv)⟩

theorem Source.reach_eq_handler {p q : GuestAddress} {source : Option Source} {id : HandlerId} :
    Source.reach p source = .handler id q ↔ source = some (.handler id) ∧ p = q := by
  cases source with
  | none => simp [reach]
  | some x => cases x <;> simp [reach]

namespace Space

variable {σ : Type} {s : Space σ} {P : HandlerId → Prop}

theorem source?_empty_handler {p : GuestAddress} {id : HandlerId}
    (h : ({} : PhysicalMap).source? p = some (.handler id)) : id = defaultHandler := by
  rw [PhysicalMap.source?_empty, Atlas.initial] at h
  obtain ⟨-, h⟩ := Option.ite_none_right_eq_some.1 h
  cases h
  rfl

/-- One call keeps a property of all names, if it holds of the default handler and of the one that is
mapped. -/
theorem MapStep.names {m m' : Maps} {c : Command σ} {a : Answer σ} (h : MapStep m c a m')
    (hm : m.Names P) (initial : P defaultHandler)
    (mapped : ∀ id start size, c = .mapHandler id start size → a.IsAccepted → P id) : m'.Names P := by
  have redrawn : ∀ {α : Type} {start a : GuestAddress} {size : UInt32} {f old : GuestAddress → α}
      {x : α}, Atlas.redraw start size f old a = x → (∃ d, f d = x) ∨ old a = x := by
    intro α start a size f old x hx
    rw [Atlas.redraw] at hx
    split at hx
    · exact .inl ⟨_, hx⟩
    · exact .inr hx
  cases h with
  | refused h => exact hm
  | unrelated h => exact hm
  | allocate h => exact ⟨hm.physical, hm.virtual⟩
  | mapBlock room h =>
    refine ⟨fun p id hp => ?_, hm.virtual⟩
    rw [PhysicalMap.source?_mapBlock h] at hp
    rcases redrawn hp with ⟨d, hd⟩ | hp
    · cases hd
    · exact hm.physical p id hp
  | mapMemory h =>
    refine ⟨fun p id hp => ?_, hm.virtual⟩
    rw [PhysicalMap.source?_mapBlock h] at hp
    rcases redrawn hp with ⟨d, hd⟩ | hp
    · cases hd
    · exact hm.physical p id hp
  | mapHandler h =>
    refine ⟨fun p id hp => ?_, hm.virtual⟩
    rw [PhysicalMap.source?_mapHandler h] at hp
    rcases redrawn hp with ⟨d, hd⟩ | hp
    · cases hd
      exact mapped _ _ _ rfl trivial
    · exact hm.physical p id hp
  | duplicate h =>
    refine ⟨fun p id hp => ?_, hm.virtual⟩
    rw [PhysicalMap.source?_duplicate h] at hp
    rcases redrawn hp with ⟨d, hd⟩ | hp
    · exact hm.physical _ id hd
    · exact hm.physical p id hp
  | project h =>
    refine ⟨hm.physical, fun v id q hv => ?_⟩
    rw [VirtualMap.resolve_project h] at hv
    rcases redrawn hv with ⟨d, hd⟩ | hv
    · exact hm.physical _ id (Source.reach_eq_handler.1 hd).1
    · exact hm.virtual v id q hv
  | projectBlock room h =>
    refine ⟨hm.physical, fun v id q hv => ?_⟩
    rw [VirtualMap.resolve_projectBuffer h] at hv
    rcases redrawn hv with ⟨d, hd⟩ | hv
    · cases hd
    · exact hm.virtual v id q hv
  | projectBuffer h =>
    refine ⟨hm.physical, fun v id q hv => ?_⟩
    rw [VirtualMap.resolve_projectBuffer h] at hv
    rcases redrawn hv with ⟨d, hd⟩ | hv
    · cases hd
    · exact hm.virtual v id q hv
  | unmap h =>
    refine ⟨hm.physical, fun v id q hv => ?_⟩
    rw [VirtualMap.resolve_unmap h] at hv
    rcases redrawn hv with ⟨d, hd⟩ | hv
    · cases hd
    · exact hm.virtual v id q hv
  | reset => exact ⟨fun p id hp => source?_empty_handler hp ▸ initial, fun v id q hv => by cases hv⟩

/-- Every name has its handler. -/
structure Named (s : Space σ) : Prop where
  initial : s.handlers.contains defaultHandler = true
  names : s.maps.Names fun id => s.handlers.contains id = true

theorem contains_perform {c : Command σ} (hi : ¬c.IsInstall) {id : HandlerId}
    (h : s.handlers.contains id = true) : (s.perform c).2.handlers.contains id = true := by
  rw [HandlerTable.contains, decide_eq_true_eq] at h ⊢
  by_cases hp : c.Places
  · cases c with
    | register handler =>
      rw [perform_register]
      split
      · exact Nat.lt_trans h (by simp [HandlerTable.push])
      · exact h
    | reassign i handler =>
      rw [perform_reassign]
      split
      · simpa [HandlerTable.put] using h
      · exact h
    | install => exact absurd trivial hi
    | _ => exact absurd hp not_false
  · rw [(evolves_perform (s := s) hp).size_eq]
    exact h

/-- Every call leaves every name its handler. -/
theorem Named.perform (h : s.Named) (c : Command σ) : (s.perform c).2.Named := by
  refine perform_keeps (P := Named) (fun t c hi ht => ?_) h c
  refine ⟨contains_perform hi ht.initial, ?_⟩
  have hstep := mapStep_perform (s := t) hi
  refine (hstep.names ht.names ht.initial fun id start size hc hd => ?_).mono
    fun id => contains_perform hi
  subst hc
  cases hm : t.mapHandler id start size with
  | error e =>
    rw [Space.perform, hm] at hd
    exact absurd hd not_false
  | ok u => exact (mapHandler_eq_ok.1 hm).1

theorem Named.step (h : s.Named) (c : Command σ) : (s.step c).2.Named := by
  have hp := Named.perform (s := s.drained) ⟨h.initial, h.names⟩ c
  exact ⟨hp.initial, hp.names⟩

theorem IsFresh.named (h : s.IsFresh) : s.Named := by
  obtain ⟨place, settings, level, routed, kernel, hc⟩ := h
  obtain ⟨arena, journal, -, rfl⟩ := create_eq_ok hc
  refine ⟨rfl, fun p id hp => ?_, fun v id q hv => by cases hv⟩
  rw [source?_empty_handler hp]
  rfl

end Space

end GuestMemory
