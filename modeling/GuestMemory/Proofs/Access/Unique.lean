import GuestMemory.Proofs.Access.Keeps
import GuestMemory.Proofs.Cache.Unique

/-!
Lines of a space stay unique. Of all calls only the cache instruction that stores flags can give one
line two ways, by making a way valid whose page has come into the other way of its set meanwhile;
until it does so, every line has one way at most.
-/
namespace GuestMemory.Space

open Cache (IsUnique)

variable {σ : Type} {s : Space σ}

theorem isKept_isUnique : Cache.IsKept IsUnique where
  empty := Cache.isUnique_empty
  read m w v host phys fits h := h.read m w v host phys fits
  write m _ v host phys x fits h := h.write m v host phys x fits
  hitOp m op v host h := h.hitOp m op v host

/-- Calls that store flags which double a line. -/
def Command.Doubles (s : Space σ) : Command σ → Prop
  | .cacheOp op v packed => s.cache.OpDoubles op v packed
  | _ => False

/-- What one call does: the lines stay unique exactly if it doubles none. -/
theorem isUnique_perform_iff (h : s.cache.IsUnique) (c : Command σ) :
    (s.perform c).2.cache.IsUnique ↔ ¬c.Doubles s := by
  constructor
  · intro hu
    cases c with
    | cacheOp op v packed =>
      rintro ⟨rfl, hd⟩
      exact (h.indexOp_iff s.memory .indexStoreTag v packed).1 hu ⟨rfl, hd⟩
    | _ => exact id
  · intro hd
    refine keeps_perform isKept_isUnique h fun op v packed hc => ?_
    subst hc
    exact (h.indexOp_iff s.memory op v packed).2 hd

theorem isUnique_step_iff (h : s.cache.IsUnique) (c : Command σ) :
    (s.step c).2.cache.IsUnique ↔ ¬c.Doubles s :=
  isUnique_perform_iff (s := s.drained) h c

/-- After any history in which no flags were stored that double a line, no line has two ways, and
the next call gives one two ways exactly if it stores such flags. -/
theorem unique_until_doubled (h : Reachable (fun s c => ¬c.Doubles s) s) :
    s.cache.IsUnique ∧ ∀ c, (s.step c).2.cache.IsUnique ↔ ¬c.Doubles s := by
  have hs : s.cache.IsUnique := h.keeps_cache isKept_isUnique fun t op v packed ht hd =>
    (ht.indexOp_iff t.memory op v packed).2 hd
  exact ⟨hs, isUnique_step_iff hs⟩

/-- A page is cached and loaded from. Then the flags of the way that was filled are stored, without
the valid flag, and the page is loaded from again. -/
def refilled : Space Unit :=
  ((made false true).run [.allocate "ram" 0x1000 .readWrite,
    .projectBlock 0x1000 ⟨0, 0x1000⟩ 0x1000, .control (.setConfig 0x10000),
    .control (.setEntry 0 { lo0 := 0x18, lo1 := 0x18 }), .read .w32 0x1000,
    .cacheOp .indexStoreTag 0x1000 Cache.Tag.lrfFlag, .read .w32 0x1000]).2

def reviveFirst : Command Unit := .cacheOp .indexStoreTag 0x1000 Cache.Tag.validFlag

theorem refilled_reachable : Reachable (fun s c => ¬c.Doubles s) refilled := by
  refine ⟨made false true, isFresh_made false true, leads_run fun c hc t => ?_⟩
  simp only [List.mem_cons, List.not_mem_nil, or_false] at hc
  rcases hc with rfl | rfl | rfl | rfl | rfl | rfl | rfl
  case inr.inr.inr.inr.inr.inl => exact Cache.not_opDoubles (by decide) _ _ _
  all_goals exact id

theorem unique_until_doubled_refilled :
    Reachable (fun s c => ¬c.Doubles s) refilled ∧ refilled.cache.IsUnique ∧
      reviveFirst.Doubles refilled ∧ ¬(refilled.step reviveFirst).2.cache.IsUnique := by
  have hr := refilled_reachable
  obtain ⟨hu, hstep⟩ := unique_until_doubled hr
  have hd : refilled.cache.OpDoubles .indexStoreTag 0x1000 Cache.Tag.validFlag := by
    decide +kernel
  exact ⟨hr, hu, hd, fun h => (hstep reviveFirst).1 h hd⟩

/-- So a history can give one line two ways. -/
theorem two_ways_for_one_line :
    Reachable (fun _ _ => True) (refilled.step reviveFirst).2 ∧
      ¬(refilled.step reviveFirst).2.cache.IsUnique := by
  obtain ⟨s, fresh, hl⟩ := refilled_reachable
  have hall : Leads (fun _ _ => True) s refilled :=
    hl.lift id fun _ _ ⟨c, _, hc⟩ => ⟨c, trivial, hc⟩
  refine ⟨⟨s, fresh, hall.tail ⟨reviveFirst, trivial, rfl⟩⟩, fun hu => ?_⟩
  have hboth : ∀ way, ((refilled.step reviveFirst).2.cache.line 0 way).tag.holds
      0x700000000000 = true := by
    decide +kernel
  obtain ⟨hv, hp⟩ := Cache.Tag.holds_iff.1 (hboth 0)
  obtain ⟨hv', hp'⟩ := Cache.Tag.holds_iff.1 (hboth 1)
  exact absurd (hu 0 (by decide) 0 1 hv hv' (hp.trans hp'.symm)) (by decide)

end GuestMemory.Space
