import GuestMemory.Proofs.Space.Install
import GuestMemory.Proofs.Window.Follow

/-!
What becomes of a window over a history. No call makes a window, and a call that keeps it takes it
through a few kinds of change; so what every kind preserves holds of the window as long as there is
one, whatever calls are made.
-/
namespace GuestMemory

namespace Window

/-- The window with nothing known of sites. -/
def forgotten (w : Window) : Window := { w with faults := { w.faults with table := {} } }

/-- The ways in which a window changes. -/
inductive Changes (w : Window) : Window → Prop where
  | adjust {w' : Window} (h : w.Adjusts w') : Changes w w'
  | sync (v : GuestAddress) (target : Option (Nat × Protection)) : Changes w (w.sync v target).2
  | clear : Changes w w.clear.2

abbrev Becomes : Window → Window → Prop := Relation.ReflTransGen Changes

theorem Becomes.keeps {P : Window → Prop} {w w' : Window} (h : w.Becomes w')
    (change : ∀ {a b : Window}, a.Changes b → P a → P b) (hw : P w) : P w' := by
  induction h with
  | refl => exact hw
  | tail _ hc ih => exact change hc ih

/-- Clearing does not move the window, nor is anything about faults changed. -/
theorem beside_clear (w : Window) : (w.clear.2.base, w.clear.2.faults) = (w.base, w.faults) := by
  have hbase := w.pages.base_ask
  rw [clear]
  generalize w.pages.ask = r at hbase ⊢
  obtain ⟨_ | e, p⟩ := r <;> exact congrArg (·, w.faults) hbase

theorem Changes.base_eq {w w' : Window} (h : w.Changes w') : w'.base = w.base := by
  cases h with
  | adjust h => exact h.alike.base_eq
  | sync v target => exact w.base_sync v target
  | clear => exact congrArg Prod.fst w.beside_clear

theorem Pages.answers_protectAll {p : Pages} (h : p.answers = []) (protection : Protection)
    (vs : List GuestAddress) :
    (Pages.protectAll protection vs p).1 = none ∧
      (Pages.protectAll protection vs p).2.answers = [] := by
  induction vs generalizing p with
  | nil => exact ⟨rfl, h⟩
  | cons v vs ih =>
    rw [Pages.protectAll, Pages.ask, h]
    exact ih h

/-- The host lets protections follow, and goes on to grant what comes. -/
theorem Granted.protect {w : Window} (h : w.Granted) (offset size : UInt32)
    (protection : Protection) :
    (w.protect offset size protection).1 = none ∧ (w.protect offset size protection).2.Granted :=
  Pages.answers_protectAll h protection _

/-- A host that grants every change does so after each of them. -/
theorem Granted.changes {w w' : Window} (h : w.Granted) (hc : w.Changes w') : w'.Granted := by
  cases hc with
  | sync v target => exact (h.sync v target).2
  | clear =>
    rw [h.clear_eq]
    exact h
  | adjust ha =>
    cases ha with
    | same => exact h
    | pages offset size protection => exact (h.protect offset size protection).2
    | sites => exact h

end Window

namespace Space

variable {σ : Type} {s t u : Space σ}

/-- The window of `t`, if there is one, comes of the window of `s`. -/
def WindowFrom (s t : Space σ) : Prop :=
  ∀ w', t.window = some w' → ∃ w, s.window = some w ∧ w.Becomes w'

theorem WindowFrom.of_eq (h : t.window = s.window) : s.WindowFrom t :=
  fun w' hw => ⟨w', h ▸ hw, .refl⟩

theorem WindowFrom.trans (h : s.WindowFrom t) (h' : t.WindowFrom u) : s.WindowFrom u := by
  intro w'' hw''
  obtain ⟨w', hw', hb'⟩ := h' w'' hw''
  obtain ⟨w, hw, hb⟩ := h w' hw'
  exact ⟨w, hw, hb.trans hb'⟩

theorem windowFrom_syncWindow (s : Space σ) (v : GuestAddress) (size : UInt32) :
    s.WindowFrom (s.syncWindow v size).2 := by
  cases hw : s.window with
  | none =>
    rw [syncWindow, hw]
    exact .of_eq rfl
  | some w =>
    rw [syncWindow_eq_walk hw]
    rintro w' ⟨⟩
    refine ⟨w, hw, ?_⟩
    exact Window.Walk.visitAll_keeps (P := w.Becomes) .refl fun _ _ _ h => h.tail (.sync _ _)

/-- Remapping virtual pages brings the window up to date. -/
theorem windowFrom_remap (virtual : VirtualMap) (v : GuestAddress) (size : UInt32) :
    s.WindowFrom ({ s with virtual }.syncWindow v size).2 :=
  ({ s with virtual } : Space σ).windowFrom_syncWindow v size

/-- Resetting forgets the sites and clears the window. -/
theorem window_reset (s : Space σ) :
    s.reset.2.window = s.window.map fun w => w.forgotten.clear.2 := by
  rw [reset]
  cases s.window with
  | none => rfl
  | some w =>
    rw [Option.map_some, Window.forgotten]
    simp only
    generalize Window.clear _ = cleared
    obtain ⟨_ | e, w'⟩ := cleared <;> rfl

/-- The window of every call, if it leaves one, comes of the one before it. -/
theorem windowFrom_perform (s : Space σ) (c : Command σ) : s.WindowFrom (s.perform c).2 := by
  refine perform_keeps (P := s.WindowFrom) (fun t c hc ht => ht.trans ?_) (.of_eq rfl) c
  by_cases hmoves : c.MovesWindow
  · cases c with
    | project | projectBlock | projectBuffer | unmap =>
      exact perform_remap_keeps rfl (.of_eq rfl) fun virtual _ => windowFrom_remap virtual _ _
    | reset =>
      intro w' hw'
      have hw'' : t.reset.2.window = some w' := hw'
      rw [window_reset] at hw''
      obtain ⟨w, hw, rfl⟩ := Option.map_eq_some_iff.1 hw''
      have hsites : w.Changes w.forgotten := .adjust (.sites rfl rfl)
      exact ⟨w, hw, .tail (.single hsites) .clear⟩
    | shutdown =>
      rw [perform, shutdown]
      cases hw : t.window with
      | none => exact .of_eq rfl
      | some w =>
        rintro w' ⟨⟩
    | install => exact absurd trivial hc
    | _ => exact absurd hmoves id
  · intro w' hw'
    have hr := adjusts_window (s := t) hmoves
    rw [hw'] at hr
    cases hw : t.window with
    | none =>
      rw [hw] at hr
      cases hr
    | some w =>
      rw [hw] at hr
      cases hr with
      | some ha => exact ⟨w, rfl, .single (.adjust ha)⟩

theorem windowFrom_step (s : Space σ) (c : Command σ) : s.WindowFrom (s.step c).2 :=
  s.drained.windowFrom_perform c

theorem isSome_window_syncWindow (s : Space σ) (v : GuestAddress) (size : UInt32) :
    (s.syncWindow v size).2.window.isSome = s.window.isSome := by
  rw [syncWindow]
  cases hw : s.window with
  | none => rw [hw]
  | some w => rfl

/-- No call but shutting down gives the window up. -/
theorem isSome_window_perform (s : Space σ) {c : Command σ} (hc : c ≠ .shutdown) :
    (s.perform c).2.window.isSome = s.window.isSome := by
  have part : ∀ (t : Space σ) (d : Command σ), ¬d.IsInstall → d ≠ .shutdown →
      (t.perform d).2.window.isSome = t.window.isSome := by
    intro t d hi hd
    by_cases hmoves : d.MovesWindow
    · cases d with
      | project | projectBlock | projectBuffer | unmap =>
        exact perform_remap_keeps (P := fun u => u.window.isSome = t.window.isSome) rfl rfl
          fun virtual _ => isSome_window_syncWindow { t with virtual } _ _
      | reset =>
        rw [perform, window_reset, Option.isSome_map]
      | shutdown => exact absurd rfl hd
      | install => exact absurd trivial hi
      | _ => exact absurd hmoves id
    · have hr := adjusts_window (s := t) hmoves
      cases hw : t.window <;> cases hw' : (t.perform d).2.window <;> rw [hw, hw'] at hr <;>
        first | rfl | cases hr
  cases c with
  | install hardware =>
    refine perform_install (P := fun t => t.window.isSome = s.window.isSome) ?_ rfl
    intro t d hd ht
    refine (part t d hd.not_install ?_).trans ht
    rintro rfl
    exact hd
  | _ => exact part s _ id hc

theorem window_shutdown (s : Space σ) : s.shutdown.window = none := by
  rw [shutdown]
  cases hw : s.window with
  | none => exact hw
  | some w => rfl

/-- After every history at all. -/
theorem Leads.windowFrom {allowed : Space σ → Command σ → Prop} (h : Leads allowed s t) :
    s.WindowFrom t :=
  h.keeps (.of_eq rfl) fun u c hu _ => hu.trans (u.windowFrom_step c)

/-- A host that grants every change goes on to. -/
theorem WindowFrom.granted (h : s.WindowFrom t) (granted : s.Granted) : t.Granted := by
  intro w' hw'
  obtain ⟨w, hw, hb⟩ := h w' hw'
  exact hb.keeps (fun hc hg => hg.changes hc) (granted w hw)

theorem Leads.granted {allowed : Space σ → Command σ → Prop} (h : Leads allowed s t) :
    s.Granted → t.Granted :=
  h.windowFrom.granted

end Space

end GuestMemory
