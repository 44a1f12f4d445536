import GuestMemory.Proofs.Maps.Pages
import Mathlib.Logic.Relation

/-!
Histories of a space. A space starts fresh and changes by one call after the other; what holds at the
start and is kept by every call that may be made holds in every state that a history reaches.
-/
namespace GuestMemory.Space

variable {σ : Type}

/-- A space as some host has just made it. -/
def IsFresh (s : Space σ) : Prop :=
  ∃ place settings level routed kernel, create place settings level routed kernel = .ok s

/-- Places that a host may choose. -/
def anywhere : Placement := ⟨0x700000000000, 0x600000000000⟩

/-- A space with four pages of arena as such a host makes it. -/
def made (window cacheModel : Bool) : Space Unit where
  settings := { window, cacheModel, arenaSize := 0x4000 }
  arena := { base := anywhere.arena, size := 0x4000 }
  window := if window && !cacheModel then some (Window.create anywhere.window) else none

theorem isFresh_made (window cacheModel : Bool) : (made window cacheModel).IsFresh := by
  refine ⟨anywhere, { window, cacheModel, arenaSize := 0x4000 }, none, false, .linux, ?_⟩
  cases window <;> cases cacheModel <;> rfl

theorem granted_made (window cacheModel : Bool) : (made window cacheModel).Granted := by
  intro w hw
  have hmade : (if window && !cacheModel then some (Window.create anywhere.window) else none) =
      some w := hw
  split at hmade
  · cases hmade
    rfl
  · cases hmade

def Next (allowed : Space σ → Command σ → Prop) (s t : Space σ) : Prop :=
  ∃ c, allowed s c ∧ t = (s.step c).2

/-- A history of allowed calls on `s` ends in `t`. -/
abbrev Leads (allowed : Space σ → Command σ → Prop) : Space σ → Space σ → Prop :=
  Relation.ReflTransGen (Next allowed)

def Reachable (allowed : Space σ → Command σ → Prop) (t : Space σ) : Prop :=
  ∃ s, IsFresh s ∧ Leads allowed s t

variable {allowed : Space σ → Command σ → Prop}

theorem Leads.keeps {P : Space σ → Prop} {s t : Space σ} (h : Leads allowed s t) (hs : P s)
    (next : ∀ s c, P s → allowed s c → P (s.step c).2) : P t := by
  induction h with
  | refl => exact hs
  | tail _ hn ih =>
    obtain ⟨c, ha, rfl⟩ := hn
    exact next _ c ih ha

theorem Reachable.keeps {P : Space σ → Prop} {t : Space σ} (h : Reachable allowed t)
    (fresh : ∀ s, IsFresh s → P s) (next : ∀ s c, P s → allowed s c → P (s.step c).2) : P t := by
  obtain ⟨s, hs, hl⟩ := h
  exact hl.keeps (fresh s hs) next

/-- The calls of a list, made one after the other, are a history. -/
theorem leads_run {s : Space σ} {calls : List (Command σ)}
    (h : ∀ c ∈ calls, ∀ t, allowed t c) : Leads allowed s (s.run calls).2 := by
  induction calls generalizing s with
  | nil => exact .refl
  | cons c cs ih =>
    have hc : Next allowed s (s.step c).2 := ⟨c, h c (by simp) s, rfl⟩
    exact .head hc (ih fun d hd => h d (by simp [hd]))

/-- Everything about a fresh space but what it has reported. -/
theorem create_eq_ok {place : Placement} {settings : Settings} {level : Option Level}
    {routed : Bool} {kernel : Kernel} {s : Space σ}
    (h : create place settings level routed kernel = .ok s) :
    ∃ arena journal, Arena.create place.arena settings.arenaSize kernel = .ok arena ∧
      s = { settings, arena, journal
            window :=
              if settings.window && !settings.cacheModel then
                some (Window.create place.window kernel)
              else none } := by
  simp only [create, bind_eq_ok] at h
  obtain ⟨arena, ha, h⟩ := h
  refine ⟨arena, ?_⟩
  split at h
  · cases h
  · simp only [pure, Except.pure, Except.ok.injEq] at h
    obtain rfl := h
    split <;> split <;> exact ⟨_, ha, rfl⟩

theorem IsFresh.maps_shows {s : Space σ} (h : IsFresh s) (P : HostAddress → Prop) :
    s.maps.Shows P := by
  obtain ⟨place, settings, level, routed, kernel, hc⟩ := h
  obtain ⟨arena, journal, -, rfl⟩ := create_eq_ok hc
  exact ⟨PhysicalMap.shows_empty, VirtualMap.shows_empty⟩

theorem mapStep_step {s : Space σ} {c : Command σ} (hi : ¬c.IsInstall) :
    MapStep s.maps c (s.step c).1.answer (s.step c).2.maps :=
  mapStep_perform (s := s.drained) hi

end GuestMemory.Space
