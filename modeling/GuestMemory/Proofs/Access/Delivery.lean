import GuestMemory.Proofs.Access.Latch
import GuestMemory.Proofs.Handlers.Pool
import GuestMemory.Proofs.Maps.Atlas
import GuestMemory.Proofs.Space.Install

/-!
Which exception is delivered. Over a history it is the first one raised since an exception was taken
last or the space was reset: only loads and stores raise any, and each raises those of its bytes that
fault. A bus error names the physical address that the page was projected from.
-/
namespace GuestMemory.Space

variable {σ : Type} {s : Space σ} {c : Command σ}

def access {w : Width} (s : Space σ) (v : GuestAddress) : Option (Word w) → Space σ
  | none => (s.read w v).2
  | some x => s.write v x

theorem latch_access {w : Width} (s : Space σ) (v : GuestAddress) (x : Option (Word w)) :
    (s.access v x).latch = s.latch.raiseAll (s.faults w v x.isSome) := by
  cases x with
  | none => exact s.latch_read w v
  | some x => exact s.latch_write v x

/-- Whether no exception waits after a call, whatever waited before. -/
def Command.delivers : Command σ → Bool
  | .takeException | .reset => true
  | _ => false

def faultsOf (s : Space σ) : Command σ → List GuestException
  | .read w v => s.faults w v false
  | .write w v _ => s.faults w v true
  | _ => []

/-- Exceptions raised over a history since the last delivery, if `es` were raised before it. -/
def raisedSince (s : Space σ) (es : List GuestException) : List (Command σ) → List GuestException
  | [] => es
  | c :: cs => (s.step c).2.raisedSince (if c.delivers then [] else es ++ s.faultsOf c) cs

theorem pending_access {w : Width} (s : Space σ) (v : GuestAddress) (x : Option (Word w)) :
    (s.access v x).pending = s.pending.or (s.faults w v x.isSome).head? := by
  exact (congrArg Latch.pending (s.latch_access v x)).trans (s.latch.pending_raiseAll _)

/-- What waits after a call that delivers nothing is what waited before it, or else the first
exception that it raises. -/
theorem pending_perform (hd : ¬c.delivers) :
    (s.perform c).2.pending = s.pending.or (s.faultsOf c).head? := by
  have other : (s.perform c).2.pending = s.pending →
      (s.perform c).2.pending = s.pending.or none := by
    intro h
    rw [h, Option.or_none]
  have aside : ∀ {t : Space σ} {d : Command σ}, d.StandsBy → (t.perform d).2.pending = t.pending :=
    fun h => congrArg Prod.snd (bystanders_perform h)
  have register : ∀ (t : Space σ) h, (t.perform (.register h)).2.pending = t.pending := by
    intro t h
    rw [perform_register]
    split <;> rfl
  cases c with
  | read w v => exact s.pending_access v none
  | write w v x => exact s.pending_access v (some x)
  | register h => exact other (register s h)
  | reassign id h =>
    refine other ?_
    rw [perform_reassign]
    cases s.handlers.get? id <;> rfl
  | readHandler id w a =>
    refine other ?_
    rw [perform]
    split <;> rfl
  | writeHandler id w a x =>
    refine other ?_
    rw [perform]
    split <;> rfl
  | install hardware =>
    refine other (perform_install (P := fun t => t.pending = s.pending) (fun t d hd ht => ?_) rfl)
    refine Eq.trans ?_ ht
    cases d with
    | register h => exact register t h
    | allocate | mapBlock | mapHandler | project | projectBlock => exact aside trivial
    | _ => exact absurd hd id
  | takeException | reset => exact absurd rfl hd
  | _ => exact other (aside trivial)

/-- A call delivers the exception that waits, or leaves the first one that there is. -/
theorem pending_step (s : Space σ) (c : Command σ) :
    (s.step c).2.pending = if c.delivers then none else s.pending.or (s.faultsOf c).head? := by
  split
  · rename_i hd
    cases c with
    | takeException => rfl
    | reset =>
      obtain ⟨window, journal, h⟩ := s.drained.exists_reset_eq
      exact congrArg Space.pending h
    | _ => exact absurd hd Bool.false_ne_true
  · rename_i hd
    exact pending_perform (s := s.drained) hd

/-- Over a history the first exception since the last delivery waits. -/
theorem pending_run (calls : List (Command σ)) {es : List GuestException}
    (h : s.pending = es.head?) : (s.run calls).2.pending = (s.raisedSince es calls).head? := by
  induction calls generalizing s es with
  | nil => exact h
  | cons c cs ih =>
    refine ih ((s.pending_step c).trans ?_)
    split
    · rfl
    · rw [h, List.head?_append]

/-- After an accepted projection the range leads where the physical pages led at that moment. -/
theorem MapStep.resolve_project {m m' : Maps} {answer : Answer σ} {v p : GuestAddress}
    {size : UInt32} (h : MapStep m (.project v p size) answer m') (done : answer.IsAccepted)
    (a : GuestAddress) :
    m'.virtual.resolve a =
      Atlas.redraw v size (fun d => Source.reach (p + d) (m.physical.source? (p + d)))
        m.virtual.resolve a := by
  cases h with
  | refused hd => exact absurd done hd
  | unrelated hm => exact absurd trivial hm
  | project hv => exact VirtualMap.resolve_project hv a

/-- A page that is projected from an address past the physical window gives bus errors for the
addresses behind it, which wrap. -/
theorem resolve_of_project {v p a : GuestAddress} {size : UInt32}
    (done : (s.step (.project v p size)).1.answer.IsAccepted) (ha : Covers v size a)
    (hp : physicalSize ≤ (p + (a - v)).toNat) :
    (s.step (.project v p size)).2.virtual.resolve a = .busError (p + (a - v)) := by
  have hsource : s.physical.source? (p + (a - v)) = none := by
    rw [PhysicalMap.source?, PhysicalMap.lookup, if_neg (Nat.not_lt.2 hp), Option.map_none]
  refine ((mapStep_step id).resolve_project done a).trans ?_
  rw [Atlas.redraw, if_pos ha]
  show Source.reach (p + (a - v)) (s.physical.source? (p + (a - v))) = _
  rw [hsource, Source.reach]

/-- Which exceptions a space raises, and which call may change the one that waits. -/
structure RaisesInOrder (s : Space σ) : Prop where
  /-- Loads and stores raise the exceptions of `faults`, one after the other, and no others. -/
  access : ∀ w v (x : Option (Word w)),
    (s.access v x).latch = s.latch.raiseAll (s.faults w v x.isSome)
  unmapped : ∀ w v isStore, s.virtual.resolve v = .tlbMiss →
    s.faults w v isStore = [.tlbMiss v isStore]
  busError : ∀ w v isStore p, s.virtual.resolve v = .busError p →
    s.faults w v isStore = [.busError p isStore]
  /-- A handler answers the whole access, wherever its other bytes are. -/
  handler : ∀ w v isStore id p, s.virtual.resolve v = .handler id p → s.faults w v isStore = []
  /-- From a page of memory every byte that faults raises one, the first one being that of the first
  byte of the next page. -/
  memory : ∀ w v isStore a, s.virtual.resolve v = .host a →
    s.faults w v isStore = s.byteFaults v isStore w.bytes ∧
      (s.faults w v isStore).head? =
        if straddles v w then s.fault? (v.pageBase + 0x1000) isStore else none
  harmless : ∀ w v isStore,
    (∀ i < w.bytes, ¬(s.virtual.resolve (v + UInt32.ofNat i)).IsFault) → s.faults w v isStore = []
  /-- In particular plain loads and stores and cache operations leave it. -/
  others : ∀ c, ¬c.delivers → s.faultsOf c = [] → (s.step c).2.pending = s.pending
  projected : ∀ v p size a, (s.step (.project v p size)).1.answer.IsAccepted → Covers v size a →
    physicalSize ≤ (p + (a - v)).toNat →
      (s.step (.project v p size)).2.virtual.resolve a = .busError (p + (a - v))

/-- In every state, faults are raised and kept in their order. -/
theorem raisesInOrder (s : Space σ) : s.RaisesInOrder where
  access _ v x := s.latch_access v x
  unmapped w v isStore h := by
    rw [faults, fault?, h]
    rfl
  busError w v isStore p h := by
    rw [faults, fault?, h]
    rfl
  handler w v isStore id p h := by
    rw [faults, fault?, h]
    rfl
  memory w v isStore a h := by
    rw [faults_of_host h]
    refine ⟨rfl, ?_⟩
    split
    · rename_i hs
      exact head?_byteFaults_of_straddles h hs isStore
    · rename_i hs
      rw [byteFaults_of_not_straddles h (Bool.eq_false_iff.2 hs), List.head?_nil]
  harmless w v isStore h := by
    have hnone : ∀ i < w.bytes, s.fault? (v + UInt32.ofNat i) isStore = none := fun i hi =>
      fault?_eq_none_iff.2 (h i hi)
    rw [faults]
    split
    · exact List.filterMap_eq_nil_iff.2 fun i hi => hnone i (List.mem_range.1 hi)
    · have hfirst := hnone 0 w.bytes_pos
      rw [add_ofNat_zero] at hfirst
      rw [hfirst]
      rfl
  others c hd hf := by
    rw [pending_step, if_neg hd, hf, List.head?_nil, Option.or_none]
  projected _ _ _ _ := resolve_of_project

/-- After every history on a fresh space, taking an exception gives the first one that was raised
since one was taken last or the space was reset, and none if there was none; taking it and resetting
leave none. Each access raises the exceptions of its bytes that fault in their order, and nothing else
changes what waits. Where an address leads, and so which exception it gives, is what the calls said of
it. -/
theorem exceptions_of_run {s₀ : Space σ} (fresh : s₀.IsFresh) (calls : List (Command σ)) :
    ((s₀.run calls).2.step .takeException).1.answer =
        .exception (s₀.raisedSince [] calls).head? ∧
      (∀ c : Command σ, c.delivers → ((s₀.run calls).2.step c).2.pending = none) ∧
      (s₀.run calls).2.RaisesInOrder ∧
      ((∀ c ∈ calls, ¬c.IsInstall) → ∀ v,
        (s₀.run calls).2.virtual.resolve v = (Atlas.initial.follow s₀ calls).virtual v) := by
  have hpending : s₀.pending = ([] : List GuestException).head? := by
    obtain ⟨place, settings, level, routed, kernel, hc⟩ := fresh
    obtain ⟨arena, journal, -, rfl⟩ := create_eq_ok hc
    rfl
  refine ⟨congrArg Answer.exception (pending_run calls hpending), fun c hd => ?_, raisesInOrder _,
    fun hi v => ((fresh.agrees.follow calls hi).virtual v).symm⟩
  rw [pending_step, if_pos hd]

/-- A page of memory before one past the physical window, and a load and a store that fault, the
exception of the load being taken in between. -/
def beforeStore : List (Command Unit) :=
  [.allocate "ram" 0x1000 .readWrite, .projectBlock 0x1000 ⟨0, 0x1000⟩ 0x1000,
    .project 0x2000 0x20000000 0x1000, .read .w8 0x5000, .takeException,
    .write .w32 0x1FFE 0x11223344]

/-- The store over the end of the page raises two, and the first of them is given. -/
theorem exceptions_of_run_beforeStore :
    (made false false).IsFresh ∧
      (made false false).raisedSince [] beforeStore =
        [.busError 0x20000000 true, .busError 0x20000001 true] ∧
      (((made false false).run beforeStore).2.step .takeException).1.answer =
        .exception (some (.busError 0x20000000 true)) := by
  have fresh := isFresh_made false false
  have hraised : (made false false).raisedSince [] beforeStore =
      [.busError 0x20000000 true, .busError 0x20000001 true] := by
    decide +kernel
  have hanswer := (exceptions_of_run fresh beforeStore).1
  rw [hraised] at hanswer
  exact ⟨fresh, hraised, hanswer⟩

end GuestMemory.Space
