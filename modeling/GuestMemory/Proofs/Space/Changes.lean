import GuestMemory.Proofs.Space.Install

/-!
The small changes that calls are made of. Each of them is to one part of a space, so what none of them
touches no call changes, and no history.
-/
namespace GuestMemory.Space

variable {σ : Type} {s t : Space σ} {w : Width} {v : GuestAddress}

/-- A change to one part of a space. -/
inductive Change (s : Space σ) : Space σ → Prop where
  | handlers (handlers : HandlerTable σ) : Change s { s with handlers }
  | physical (physical : PhysicalMap) : Change s { s with physical }
  | virtual (virtual : VirtualMap) : Change s { s with virtual }
  | cache (cache : Cache) : Change s { s with cache }
  | control (c : Cache.Control.Command) : Change s { s with control := s.control.perform c }
  | arena {name : String} {size : Nat} {protection : Protection} {block : Block} {arena : Arena}
      (h : s.arena.allocate name size protection = .ok (block, arena)) : Change s { s with arena }
  | memory (memory : Memory) : Change s { s with memory }
  | window (window : Option Window) : Change s { s with window }
  | pending (pending : Option GuestException) : Change s { s with pending }
  | budget (faultBudget : Nat) : Change s { s with faultBudget }
  | note (e : Event) : Change s (s.note e)

abbrev Changed : Space σ → Space σ → Prop := Relation.ReflTransGen Change

theorem changed_addAll (s : Space σ) (es : List Event) :
    s.Changed { s with journal := s.journal.addAll es } := by
  induction es generalizing s with
  | nil => exact .refl
  | cons e es ih => exact .head (.note e) (ih (s.note e))

theorem changed_backing (s : Space σ) (cache : Cache) (memory : Memory) :
    s.Changed { s with cache, memory } :=
  .tail (.single (.cache cache)) (.memory memory)

theorem changed_raise (s : Space σ) (e : GuestException) : s.Changed (s.raise e) := by
  rw [raise]
  split
  · have hb : s.Changed { s with faultBudget := s.faultBudget - 1 } := .single (.budget _)
    exact (hb.tail (.note (.guestFault e))).tail (.pending _)
  · exact .single (.pending _)

theorem changed_readHandler (s : Space σ) (id : HandlerId) (w : Width) (a : GuestAddress) :
    s.Changed (s.readHandler id w a).2 :=
  .head (.handlers (s.handlers.read id w a).2.1) (changed_addAll _ _)

theorem changed_writeHandler (s : Space σ) (id : HandlerId) (a : GuestAddress) (x : Word w) :
    s.Changed (s.writeHandler id a x) :=
  .head (.handlers (s.handlers.write id a x).1) (changed_addAll _ _)

theorem accessKeeps_changed (s : Space σ) : AccessKeeps s.Changed where
  store _ _ h := h.tail (.memory _)
  readCached _ _ h := h.trans (changed_backing _ _ _)
  writeCached _ _ _ h := h.trans (changed_backing _ _ _)
  readHandler id w p h := h.trans (changed_readHandler _ id w p)
  writeHandler id p x h := h.trans (changed_writeHandler _ id p x)
  raise e h := h.trans (changed_raise _ e)

theorem changed_storeBytes (s : Space σ) (v : GuestAddress) (bs : List UInt8) :
    s.Changed (s.storeBytes v bs) := by
  induction bs generalizing s v with
  | nil => exact .refl
  | cons b bs ih =>
    rw [storeBytes]
    cases s.virtual.resolve v with
    | host a => exact .head (.memory _) (ih _ (v + 1))
    | _ => exact ih s (v + 1)

theorem changed_ramWrite (s : Space σ) (v : GuestAddress) (x : Word w) :
    s.Changed (s.ramWrite v x).2 := by
  rw [ramWrite]
  split
  · split
    · exact s.changed_storeBytes v x.bytes
    · exact .refl
  · split
    · exact .single (.memory _)
    · exact .refl

theorem changed_cacheOp (s : Space σ) (op : Cache.Op) (v : GuestAddress) (packed : UInt64) :
    s.Changed (s.cacheOp op v packed).2 := by
  rw [cacheOp]
  split
  · split
    · exact s.changed_backing _ _
    · exact .refl
  · exact s.changed_backing _ _

/-- Bringing the window up to date changes the window and the journal alone. -/
theorem changed_syncWindow (s : Space σ) (v : GuestAddress) (size : UInt32) :
    s.Changed (s.syncWindow v size).2 := by
  have visit : ∀ (k : Window.Walk) (v : GuestAddress) (target : Option (Nat × Protection)),
      Changed { s with window := some k.window, journal := k.journal }
        { s with window := some (k.visit v target).window
                 journal := (k.visit v target).journal } := by
    intro k v target
    rw [Window.Walk.visit]
    split
    · exact .refl
    · split
      · rename_i event w heq
        have hw : Change { s with window := some k.window, journal := k.journal }
            { s with window := some w, journal := k.journal } := .window (some w)
        cases event with
        | none => exact .single hw
        | some e => exact .tail (.single hw) (.note e)
      · exact .single (.window _)
  rw [syncWindow]
  cases hw : s.window with
  | none => exact .refl
  | some w =>
    simp only
    induction GuestAddress.page size with
    | zero =>
      have he : { s with window := some w } = s := by rw [← hw]
      exact he ▸ .refl
    | succ n ih =>
      simp only [Window.Walk.visitAll, Nat.fold_succ]
      exact ih.trans (visit _ _ _)

theorem changed_settle {result : Except MapError (Space σ)}
    (h : ∀ t, result = .ok t → s.Changed t) : s.Changed (s.settle result).2 := by
  cases result with
  | ok t => exact h t rfl
  | error e => exact .refl

/-- Remapping virtual pages, with the window. -/
theorem changed_remap (s : Space σ) (virtual : VirtualMap) (v : GuestAddress) (size : UInt32) :
    s.Changed ({ s with virtual }.syncWindow v size).2 :=
  .head (.virtual virtual) (changed_syncWindow _ v size)

/-- Resetting is a series of changes. -/
theorem changed_reset (s : Space σ) : s.Changed s.reset.2 := by
  have hcleared : s.Changed
      { s with cache := {}, control := s.control.reset, physical := {}, virtual := {}
               pending := none } :=
    ((((Relation.ReflTransGen.single (.cache {})).tail (.control .reset)).tail (.physical {})).tail
      (.virtual {})).tail (.pending none)
  rw [reset]
  cases hw : s.window with
  | none =>
    rw [hw] at hcleared
    exact hcleared.tail (.note .reset)
  | some w =>
    rw [hw] at hcleared
    simp only
    split
    · exact hcleared.tail (.window _)
    · exact ((hcleared.tail (.window _)).tail (.note .windowCleared)).tail (.note .reset)

theorem changed_shutdown (s : Space σ) : s.Changed s.shutdown := by
  rw [shutdown]
  cases s.window with
  | none => exact .single (.cache {})
  | some w =>
    have hw : s.Changed { s with window := none } := .single (.window none)
    exact (hw.trans (changed_addAll _ _)).tail (.cache {})

/-- Every call is made of such changes. -/
theorem changed_perform (s : Space σ) (c : Command σ) : s.Changed (s.perform c).2 := by
  refine perform_keeps (P := s.Changed) (fun t c hc ht => ht.trans ?_) .refl c
  cases c with
  | register handler =>
    rw [perform, performRegister, register]
    cases t.handlers.register handler with
    | ok r => exact .single (.handlers _)
    | error e => exact .refl
  | reassign id handler =>
    rw [perform, performReassign, reassign]
    cases t.handlers.reassign id handler with
    | ok r => exact .single (.handlers _)
    | error e => exact .refl
  | readHandler id w a =>
    rw [perform]
    split
    · exact t.changed_readHandler id w a
    · exact .refl
  | writeHandler id w a x =>
    rw [perform]
    split
    · exact t.changed_writeHandler id a x
    · exact .refl
  | allocate name size protection =>
    rw [perform]
    unfold performAllocate
    cases h : t.allocate name size protection with
    | ok r =>
      obtain ⟨block, u⟩ := r
      obtain ⟨arena, ha, rfl⟩ := allocate_eq_ok.1 h
      exact .tail (.single (.arena ha)) (.note _)
    | error e => cases e <;> exact .refl
  | mapBlock block start size blockSize =>
    refine changed_settle fun u hu => ?_
    obtain ⟨-, physical, -, rfl⟩ := mapBlock_eq_ok.1 hu
    exact .single (.physical physical)
  | mapMemory base start size blockSize =>
    refine changed_settle fun u hu => ?_
    obtain ⟨physical, -, rfl⟩ := mapMemory_eq_ok.1 hu
    exact .single (.physical physical)
  | mapHandler id start size =>
    refine changed_settle fun u hu => ?_
    obtain ⟨-, physical, -, rfl⟩ := mapHandler_eq_ok.1 hu
    exact .single (.physical physical)
  | duplicate target start size =>
    refine changed_settle fun u hu => ?_
    obtain ⟨physical, -, rfl⟩ := duplicate_eq_ok.1 hu
    exact .single (.physical physical)
  | project | projectBlock | projectBuffer | unmap =>
    exact perform_remap_keeps rfl .refl fun virtual _ => t.changed_remap virtual _ _
  | install => exact absurd trivial hc
  | read w v => exact t.accessKeeps_changed.read .refl w v
  | write w v x => exact t.accessKeeps_changed.write .refl v x
  | ramRead => exact .refl
  | ramWrite w v x => exact t.changed_ramWrite v x
  | loadBytes a bytes => exact .single (.memory _)
  | takeException => exact .single (.pending none)
  | control c => exact .single (.control c)
  | cacheOp op v packed => exact t.changed_cacheOp op v packed
  | setPatcher | sites => exact .single (.window _)
  | protect block protection =>
    obtain ⟨window, h⟩ := t.protect_eq block protection
    rw [perform, h]
    exact .single (.window window)
  | fault pc a =>
    rw [perform, performFault_snd, handleFault]
    cases t.window with
    | none => exact .refl
    | some w =>
      have hw : t.Changed { t with window := some { w with faults := (w.faults.handle pc a).2.1 } } :=
        .single (.window _)
      exact hw.trans (changed_addAll _ (w.faults.handle pc a).2.2)
  | reset => exact t.changed_reset
  | shutdown => exact t.changed_shutdown

end GuestMemory.Space
