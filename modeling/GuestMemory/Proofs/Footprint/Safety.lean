import GuestMemory.Proofs.Footprint.SpaceWork
import GuestMemory.Proofs.Footprint.Within
import GuestMemory.Proofs.Maps.Regions

/-!
No call leaves its bounds. The maps lead to pages of the arena, tags name pages that the maps led to
once, and every call keeps it so; hence in every history each host byte that a call works on lies in
a region of the arena and in the one page that the touch is about.
-/
namespace GuestMemory.Space

open Cache (Tag Way)

variable {σ : Type} {s : Space σ} {o : Origins}

/-- Calls whose blocks were carved off the arena of the space, and that bring in no other memory. -/
def Command.IsSafe (s : Space σ) : Command σ → Prop
  | .mapBlock block _ _ _ => s.arena.Owns block
  | .projectBlock _ block _ => s.arena.Owns block
  | .mapMemory .. | .projectBuffer .. | .loadBytes .. | .install _ => False
  | _ => True

theorem Command.IsSafe.not_install {c : Command σ} (h : c.IsSafe s) : ¬c.IsInstall := by
  cases c with
  | install => exact absurd h id
  | _ => exact id

theorem Command.IsSafe.brings {c : Command σ} (h : c.IsSafe s) (hp : s.arena.IsPaved) :
    c.Brings s.arena.Holds s.arena := by
  cases c with
  | mapBlock block start size blockSize => exact fun room => hp.hostRun_block h room
  | projectBlock v block size => exact fun room => hp.hostRun_block h room
  | mapMemory | projectBuffer => exact absurd h id
  | _ => exact trivial

/-- What a call does to the maps keeps the bounds, if the tags it leaves agree with the origins. -/
theorem Bounded.call (h : s.Bounded o) {o' : Origins} {c : Command σ} (hc : c.IsSafe s)
    (ht : (s.perform c).2.cache.Traced s.arena.Holds o') : (s.perform c).2.Bounded o' := by
  have hstep := mapStep_perform (s := s) hc.not_install
  have hshows := hstep.shows (P := Arena.Holds) (fun ha page hh => hh.allocate ha) h.shows
    (hc.brings h.paved)
  exact ⟨hstep.paved h.paved, hshows, ht.mono hstep.holds⟩

/-- One call stays in bounds and keeps them. -/
theorem Bounded.perform (h : s.Bounded o) {c : Command σ} (hc : c.IsSafe s) :
    Stays s.maps o (s.touches c) ∧ (s.perform c).2.Bounded (marks o (s.touches c)) := by
  have hquiet : c.IsQuiet → s.touches c = [] →
      Stays s.maps o (s.touches c) ∧ (s.perform c).2.Bounded (marks o (s.touches c)) := by
    intro hq hn
    have hb : (s.perform c).2.cache = s.cache := congrArg Prod.fst (backing_perform hq)
    rw [hn]
    exact ⟨trivial, h.call hc (hb ▸ h.traced)⟩
  cases c with
  | read w v =>
    have hw := h.read w v
    exact ⟨hw.tracks.stays, h.after hw⟩
  | write w v x =>
    have hw := h.write v x
    exact ⟨hw.tracks.stays, h.after hw⟩
  | ramRead w v =>
    have ht := h.ramRead w v
    exact ⟨ht.stays, h.after ⟨rfl, ht⟩⟩
  | ramWrite w v x =>
    have hw := h.ramWrite v x
    exact ⟨hw.tracks.stays, h.after hw⟩
  | cacheOp op v packed =>
    have hw := h.cacheOp op v packed
    exact ⟨hw.tracks.stays, h.after hw⟩
  | reset =>
    have he : (s.perform .reset).2.cache = {} := by
      obtain ⟨window, journal, hr⟩ := s.exists_reset_eq
      rw [Space.perform, hr]
    exact ⟨trivial, h.call hc (he ▸ Cache.traced_empty _)⟩
  | shutdown =>
    have he : (s.perform .shutdown).2.cache = {} := rfl
    exact ⟨trivial, h.call hc (he ▸ Cache.traced_empty _)⟩
  | loadBytes | install => exact absurd hc id
  | _ => exact hquiet trivial rfl

/-- A history of such calls on `s₀`, in which the journal may be emptied at any time, with the page
that every way has been filled from last. -/
inductive Traces (s₀ : Space σ) : Space σ → Origins → Prop where
  | start : Traces s₀ s₀ fun _ _ => none
  | call {t : Space σ} {p : Origins} {c : Command σ} (h : Traces s₀ t p) (hc : c.IsSafe t) :
      Traces s₀ (t.perform c).2 (marks p (t.touches c))
  | drain {t : Space σ} {p : Origins} (h : Traces s₀ t p) : Traces s₀ t.drained p

theorem Command.IsSafe.drained {c : Command σ} (h : c.IsSafe s) : c.IsSafe s.drained := by
  cases c <;> exact h

/-- Every history has such a trace. -/
theorem Leads.traces {s₀ : Space σ} (h : Leads (fun t c => c.IsSafe t) s₀ s) :
    ∃ o, Traces s₀ s o := by
  induction h with
  | refl => exact ⟨_, .start⟩
  | tail _ hn ih =>
    obtain ⟨o, ht⟩ := ih
    obtain ⟨c, hc, rfl⟩ := hn
    exact ⟨_, (ht.drain.call hc.drained).drain⟩

theorem IsFresh.bounded (h : s.IsFresh) (aligned : s.arena.base.toNat % 4096 = 0)
    (fits : s.arena.base.toNat + s.arena.size ≤ 2 ^ 64) : s.Bounded fun _ _ => none := by
  have hp := h.paved aligned fits
  have hs := h.maps_shows s.arena.Holds
  obtain ⟨place, settings, level, routed, kernel, hc⟩ := h
  obtain ⟨arena, journal, -, rfl⟩ := create_eq_ok hc
  exact ⟨hp, hs, Cache.traced_empty _⟩

theorem Traces.bounded {s₀ : Space σ} (h : Traces s₀ s o) (h₀ : s₀.Bounded fun _ _ => none) :
    s.Bounded o := by
  induction h with
  | start => exact h₀
  | call _ hc ih => exact (ih.perform hc).2
  | drain _ ih => exact ⟨ih.paved, ih.shows, ih.traced⟩

/-- In every history, what a call touches stays in bounds; and with any other memory that has the
same bytes where it loads, the call does the same, stores the same bytes where it stores, and no
others. -/
theorem touches_in_bounds {s₀ s : Space σ} {o : Origins} {c : Command σ} (fresh : s₀.IsFresh)
    (aligned : s₀.arena.base.toNat % 4096 = 0)
    (fits : s₀.arena.base.toNat + s₀.arena.size ≤ 2 ^ 64) (run : Traces s₀ s o)
    (safe : c.IsSafe s) :
    Stays s.maps o (s.touches c) ∧
      ∀ m : Memory, (∀ b, loads (s.touches c) b → m.byte b = s.memory.byte b) →
        ∃ m', ({ s with memory := m } : Space σ).perform c =
            ((s.perform c).1, { (s.perform c).2 with memory := m' }) ∧
          (∀ b, stores (s.touches c) b → m'.byte b = (s.perform c).2.memory.byte b) ∧
            ∀ b, ¬stores (s.touches c) b → m'.byte b = m.byte b := by
  have hb := run.bounded (fresh.bounded aligned fits)
  have hled : c.IsLed := by
    cases c with
    | loadBytes | install => exact absurd safe id
    | _ => trivial
  exact ⟨(hb.perform safe).1, fun m hm => (s.works_perform hled).apply hm⟩

def trail (s : Space σ) (o : Origins) : List (Command σ) → Space σ × Origins
  | [] => (s, o)
  | c :: cs => trail (s.perform c).2 (marks o (s.touches c)) cs

theorem Traces.trail {s₀ : Space σ} (h : Traces s₀ s o) {calls : List (Command σ)}
    (safe : ∀ c ∈ calls, ∀ t, c.IsSafe t) :
    Traces s₀ (s.trail o calls).1 (s.trail o calls).2 := by
  induction calls generalizing s o with
  | nil => exact h
  | cons c cs ih => exact ih (h.call (safe c (by simp) s)) fun d hd => safe d (by simp [hd])

def backed : Space Unit :=
  (((made false true).perform (.allocate "ram" 0x1000 .readWrite)).2.perform
    (.projectBlock 0x1000 ⟨0, 0x1000⟩ 0x1000)).2

/-- A line that was stored to, then made invalid, then revived as valid and dirty. -/
def revived : Space Unit × Origins :=
  backed.trail (fun _ _ => none) [.control (.setConfig 0x10000),
    .control (.setEntry 0 { lo0 := 0x18, lo1 := 0x18 }), .write .w32 0x1000 0x11223344,
    .cacheOp .indexStoreTag 0x1000 0,
    .cacheOp .indexStoreTag 0x1000 (Tag.validFlag ||| Tag.dirtyFlag)]

/-- Such a line is written back, into the page that it came from. -/
theorem touches_in_bounds_revived :
    (made false true).IsFresh ∧ (made false true).arena.base.toNat % 4096 = 0 ∧
      (made false true).arena.base.toNat + (made false true).arena.size ≤ 2 ^ 64 ∧
      Traces (made false true) revived.1 revived.2 ∧
      (Command.cacheOp .indexWritebackInvalidate 0x1000 0).IsSafe revived.1 ∧
      ∃ t, revived.1.touches (.cacheOp .indexWritebackInvalidate 0x1000 0) = [t] ∧
        t.isStore = true ∧ t.page = 0x700000000000 ∧ t.InBounds revived.1.maps revived.2 := by
  have fresh := isFresh_made false true
  have howns : ((made false true).perform (.allocate "ram" 0x1000 .readWrite)).2.arena.Owns
      ⟨0, 0x1000⟩ := ⟨⟨"ram", 0, 0x1000, .readWrite⟩, .head _, rfl, rfl⟩
  have hbacked : Traces (made false true) backed fun _ _ => none :=
    (Traces.start.call (c := .allocate "ram" 0x1000 .readWrite) trivial).call
      (c := .projectBlock 0x1000 ⟨0, 0x1000⟩ 0x1000) howns
  have run : Traces (made false true) revived.1 revived.2 :=
    hbacked.trail (by simp [Command.IsSafe])
  have hone : revived.1.touches (.cacheOp .indexWritebackInvalidate 0x1000 0) =
      [.writeBack ⟨0x700000000000, 0x1000, true, true, false, false⟩ 0 0] := by
    decide +kernel
  have hb := touches_in_bounds (c := .cacheOp .indexWritebackInvalidate 0x1000 0) fresh (by decide)
    (by decide) run trivial
  rw [hone, stays_singleton] at hb
  exact ⟨fresh, by decide, by decide, run, trivial, _, hone, rfl, rfl, hb.1⟩

end GuestMemory.Space
