import GuestMemory.Proofs.Window.Lockstep

/-!
The range of host addresses whose faults a space takes. It is given when the window is made and stays
that of the window, so a fault at an address of the window is taken, and no other one.
-/
namespace GuestMemory

namespace Window

/-- The faults of a window are those at its own addresses. -/
structure Ranged (w : Window) : Prop where
  base_eq : w.faults.base = w.base
  size_eq : w.faults.size = windowSize

theorem ranged_create (base : HostAddress) (kernel : Kernel) : (create base kernel).Ranged :=
  ⟨rfl, rfl⟩

theorem Ranged.congr {w w' : Window} (h : w.Ranged)
    (beside : (w'.base, w'.faults) = (w.base, w.faults)) : w'.Ranged := by
  obtain ⟨hbase, hfaults⟩ := Prod.mk.inj beside
  exact ⟨by rw [hfaults, hbase, h.base_eq], by rw [hfaults, h.size_eq]⟩

theorem Ranged.changes {w w' : Window} (h : w.Ranged) (hc : w.Changes w') : w'.Ranged := by
  cases hc with
  | sync v target => exact h.congr (w.beside_sync v target)
  | clear => exact h.congr w.beside_clear
  | adjust ha =>
    have hbase := ha.alike.base_eq
    cases ha with
    | same => exact h
    | pages offset size protection => exact ⟨h.base_eq.trans hbase.symm, h.size_eq⟩
    | sites base_eq size_eq => exact ⟨base_eq.trans h.base_eq, size_eq.trans h.size_eq⟩

end Window

namespace Space

variable {σ : Type} {s : Space σ}

/-- A space has a window, and takes the faults at its addresses. -/
def Ranged (s : Space σ) : Prop := ∃ w, s.window = some w ∧ w.Ranged

/-- Every call that does not give the window up. -/
theorem Ranged.perform (h : s.Ranged) {c : Command σ} (hc : c.IsHoused s) :
    (s.perform c).2.Ranged := by
  obtain ⟨w, hw, hr⟩ := h
  have hkept := s.isSome_window_perform (c := c) (by rintro rfl; exact hc)
  rw [hw] at hkept
  obtain ⟨w', hw'⟩ := Option.isSome_iff_exists.1 hkept
  obtain ⟨w₀, hw₀, hb⟩ := s.windowFrom_perform c w' hw'
  cases hw.symm.trans hw₀
  exact ⟨w', hw', hb.keeps (fun hc ha => ha.changes hc) hr⟩

theorem IsFresh.ranged (h : s.IsFresh) (on : s.window.isSome = true) : s.Ranged := by
  obtain ⟨place, settings, level, routed, kernel, hc⟩ := h
  obtain ⟨arena, journal, -, rfl⟩ := create_eq_ok hc
  split at on
  · rename_i hw
    exact ⟨_, if_pos hw, Window.ranged_create place.window kernel⟩
  · cases on

end Space

end GuestMemory
