import GuestMemory.Proofs.Space.History

/-!
Installing the standard layout. It is a series of other calls, so a property of spaces that all of
those keep is kept by the whole, also where it stops at a refusal.
-/
namespace GuestMemory

namespace Layout

variable {σ α β ι : Type} {P : Space σ → Prop} {f : Attempt σ α}

/-- The space that an attempt leaves behind, whether it stopped or not. -/
def Attempt.leaves (f : Attempt σ α) (s : Space σ) : Space σ :=
  match f s with
  | .ok _ t => t
  | .error _ t => t

def Attempt.Keeps (P : Space σ → Prop) (f : Attempt σ α) : Prop := ∀ s, P s → P (f.leaves s)

theorem Attempt.Keeps.pure (x : α) : Attempt.Keeps P (pure x : Attempt σ α) := fun _ h => h

/-- What a series leaves behind is what its first part leaves behind where that one stops. -/
theorem Attempt.leaves_bind {g : α → Attempt σ β} {s : Space σ}
    (stops : ∀ e t, f s = .error e t → P t) (goesOn : ∀ x t, f s = .ok x t → P ((g x).leaves t)) :
    P (Attempt.leaves (f >>= g) s) := by
  rw [Attempt.leaves]
  simp only [Bind.bind, EStateM.bind]
  cases h : f s with
  | ok x t => exact goesOn x t h
  | error e t => exact stops e t h

theorem Attempt.Keeps.ok (hf : f.Keeps P) {s t : Space σ} {x : α} (h : f s = .ok x t) (hs : P s) :
    P t := by
  have hfs := hf s hs
  rwa [Attempt.leaves, h] at hfs

theorem Attempt.Keeps.error (hf : f.Keeps P) {s t : Space σ} {e : Failure SetupError}
    (h : f s = .error e t) (hs : P s) : P t := by
  have hfs := hf s hs
  rwa [Attempt.leaves, h] at hfs

theorem Attempt.Keeps.bind {g : α → Attempt σ β} (hf : f.Keeps P) (hg : ∀ x, (g x).Keeps P) :
    Attempt.Keeps P (f >>= g) :=
  fun _ hs => Attempt.leaves_bind (fun _ _ h => hf.error h hs) fun x _ h => hg x _ (hf.ok h hs)

theorem Attempt.Keeps.forIn {xs : List ι} {g : ι → β → Attempt σ (ForInStep β)}
    (hg : ∀ i b, (g i b).Keeps P) (b : β) : Attempt.Keeps P (forIn xs b g) := by
  induction xs generalizing b with
  | nil => exact .pure b
  | cons i xs ih =>
    rw [List.forIn_cons]
    refine (hg i b).bind fun step => ?_
    cases step with
    | done b => exact .pure b
    | yield b => exact ih b

/-- The calls that installing is made of. -/
def IsPart : Space.Command σ → Prop
  | .register _ | .allocate .. | .mapBlock .. | .mapHandler .. | .project .. | .projectBlock .. =>
    True
  | _ => False

def IsPartWith (l : Layout) : Space.Command σ → Prop
  | .mapBlock block .. | .projectBlock _ block _ => block ∈ l.blocks
  | .mapHandler .. | .project .. => True
  | _ => False

theorem IsPartWith.isPart {l : Layout} {c : Space.Command σ} (h : IsPartWith l c) : IsPart c := by
  cases c <;> first | exact h | trivial

/-- The calls that carve the regions off and register the handler of the other pages. -/
def Provides : Space.Command σ → Prop
  | .register _ | .allocate .. => True
  | _ => False

theorem Provides.isPart {c : Space.Command σ} (h : Provides c) : IsPart c := by
  cases c <;> first | exact h | trivial

theorem IsPart.isQuiet {c : Space.Command σ} (h : IsPart c) : c.IsQuiet := by
  cases c <;> first | exact h | trivial

theorem IsPart.not_install {c : Space.Command σ} (h : IsPart c) : ¬c.IsInstall := by
  cases c <;> first | exact id | exact absurd h id

section

variable (h : ∀ s c, Provides c → P s → P (s.perform c).2)

include h

theorem keeps_allocating (name : String) (size : UInt32) (protection : Protection) :
    (allocating name size protection).Keeps P := by
  intro s hs
  have hp := h s (.allocate name size.toNat protection) trivial hs
  rw [Space.perform] at hp
  unfold Space.performAllocate at hp
  unfold Attempt.leaves allocating
  cases ha : s.allocate name size.toNat protection with
  | ok r =>
    rw [ha] at hp
    exact hp
  | error e => cases e <;> exact hs

theorem keeps_registering (handler : Handler σ) : (registering handler).Keeps P := by
  intro s hs
  have hp := h s (.register handler) trivial hs
  rw [Space.perform, Space.performRegister] at hp
  rw [Attempt.leaves, registering]
  cases hr : s.register handler with
  | ok r =>
    rw [hr] at hp
    exact hp
  | error e => exact hs

theorem keeps_allocateRegions : Attempt.Keeps P (allocateRegions : Attempt σ Layout) := by
  have ha := keeps_allocating h
  refine (ha _ _ _).bind fun _ => (ha _ _ _).bind fun _ => (ha _ _ _).bind fun _ =>
    (ha _ _ _).bind fun _ => (ha _ _ _).bind fun _ => (ha _ _ _).bind fun _ =>
      (ha _ _ _).bind fun _ => (ha _ _ _).bind fun _ => (ha _ _ _).bind fun _ =>
        (ha _ _ _).bind fun _ => (keeps_registering h _).bind fun _ => .pure _

end

section

variable {l : Layout} (h : ∀ s c, IsPartWith l c → P s → P (s.perform c).2)

include h

/-- A mapping that is a call of its own. -/
theorem keeps_mapping {map : Space σ → Except MapError (Space σ)} {c : Space.Command σ}
    (hc : IsPartWith l c) (he : ∀ s : Space σ, s.perform c = s.settle (map s)) :
    (mapping map).Keeps P := by
  intro s hs
  have hp := h s c hc hs
  rw [he] at hp
  rw [Attempt.leaves, mapping]
  cases hm : map s with
  | ok t =>
    rw [hm] at hp
    exact hp
  | error e => exact hs

theorem keeps_mapBlock {block : Block} (hb : block ∈ l.blocks) (start : GuestAddress)
    (size blockSize : UInt32) : (mapping fun s => s.mapBlock block start size blockSize).Keeps P :=
  keeps_mapping h (c := .mapBlock block start size blockSize) hb fun _ => rfl

theorem keeps_mapHandler (id : HandlerId) (start : GuestAddress) (size : UInt32) :
    (mapping fun s => s.mapHandler id start size).Keeps P :=
  keeps_mapping h (c := .mapHandler id start size) trivial fun _ => rfl

/-- The same for one that the window has to follow. -/
theorem keeps_projecting {map : Space σ → Except MapError (Option ArenaError × Space σ)}
    {c : Space.Command σ} (hc : IsPartWith l c)
    (he : ∀ s : Space σ, s.perform c = s.settleSynced (map s)) : (projecting map).Keeps P := by
  intro s hs
  have hp := h s c hc hs
  rw [he] at hp
  rw [Attempt.leaves, projecting]
  cases hm : map s with
  | ok r =>
    rw [hm] at hp
    obtain ⟨_ | e, t⟩ := r <;> exact hp
  | error e => exact hs

theorem keeps_project (v p : GuestAddress) (size : UInt32) :
    (projecting fun s => s.project v p size).Keeps P :=
  keeps_projecting h (c := .project v p size) trivial fun _ => rfl

theorem keeps_projectBlock {block : Block} (hb : block ∈ l.blocks) (v : GuestAddress)
    (size : UInt32) : (projecting fun s => s.projectBlock v block size).Keeps P :=
  keeps_projecting h (c := .projectBlock v block size) hb fun _ => rfl

theorem keeps_mapMicro (id : Option HandlerId) {block : Block} (hb : block ∈ l.blocks)
    (base : GuestAddress) (blockSize : UInt32) : (mapMicro id block base blockSize).Keeps P := by
  cases id with
  | some id => exact keeps_mapHandler h id base _
  | none => exact keeps_mapBlock h hb base _ blockSize

/-- What the calls keep that map a zone, filling the physical window keeps. -/
theorem keeps_mapPhysical (hardware : Hardware) : (mapPhysical l hardware).Keeps P := by
  have hb : ∀ {block}, block ∈ l.blocks → ∀ start size blockSize,
      (mapping fun s => s.mapBlock block start size blockSize).Keeps P := keeps_mapBlock h
  have hh := keeps_mapHandler h
  have hm : ∀ id {block}, block ∈ l.blocks → ∀ base blockSize,
      (mapMicro id block base blockSize).Keeps P := keeps_mapMicro h
  refine (hb (by simp [blocks]) _ _ _).bind fun _ => (hh _ _ _).bind fun _ =>
    Attempt.Keeps.bind ?_ fun _ => (hh _ _ _).bind fun _ => Attempt.Keeps.bind ?_ fun _ =>
      (hm _ (by simp [blocks]) _ _).bind fun _ => (hb (by simp [blocks]) _ _ _).bind fun _ =>
        (hm _ (by simp [blocks]) _ _).bind fun _ => (hb (by simp [blocks]) _ _ _).bind fun _ =>
          (hb (by simp [blocks]) _ _ _).bind fun _ => (hb (by simp [blocks]) _ _ _).bind fun _ =>
            (hb (by simp [blocks]) _ _ _).bind fun _ => hb (by simp [blocks]) _ _ _
  · exact .forIn (fun _ _ => (hh _ _ _).bind fun _ => .pure _) _
  · exact .forIn (fun _ _ => (hh _ _ _).bind fun _ => .pure _) _

theorem keeps_mapVirtual : Attempt.Keeps P (mapVirtual (σ := σ) l) := by
  have hp := keeps_project h
  exact (hp _ _ _).bind fun _ => (hp _ _ _).bind fun _ => (hp _ _ _).bind fun _ =>
    (hp _ _ _).bind fun _ => (hp _ _ _).bind fun _ => keeps_projectBlock h (by simp [blocks]) _ _

end

/-- Installing keeps a property that carving the regions keeps, and that the calls after it keep
because of something that carving them brought about. -/
theorem keeps_install {Q : Layout → Space σ → Prop}
    (provides : ∀ s c, Provides c → P s → P (s.perform c).2)
    (carved : ∀ s l t, allocateRegions s = .ok l t → P t → Q l t)
    (maps : ∀ l s c, IsPartWith l c → Q l s → Q l (s.perform c).2)
    (still : ∀ l s, Q l s → P s) (hardware : Hardware) :
    Attempt.Keeps P (install (σ := σ) hardware) := by
  have hregions := keeps_allocateRegions provides
  refine fun s hs => Attempt.leaves_bind (fun e t h => hregions.error h hs) fun l t h => ?_
  have hmaps : Attempt.Keeps (Q l) (do
      mapPhysical l hardware
      mapVirtual l
      return l : Attempt σ Layout) :=
    (keeps_mapPhysical (maps l) hardware).bind fun _ =>
      (keeps_mapVirtual (maps l)).bind fun _ => .pure l
  exact still l _ (hmaps t (carved s l t h (hregions.ok h hs)))

end Layout

namespace Space

variable {σ : Type} {P : Space σ → Prop}

theorem perform_install_leaves (s : Space σ) (hardware : Layout.Hardware) :
    (s.perform (.install hardware)).2 = (Layout.install hardware).leaves s := by
  rw [perform, performInstall, Layout.Attempt.leaves]
  cases Layout.install hardware s with
  | ok l t => rfl
  | error e t => cases e <;> rfl

/-- What all parts of installing keep, installing keeps. -/
theorem perform_install {s : Space σ} {hardware : Layout.Hardware}
    (h : ∀ s c, Layout.IsPart c → P s → P (s.perform c).2) (hs : P s) :
    P (s.perform (.install hardware)).2 := by
  rw [perform_install_leaves]
  exact Layout.keeps_install (Q := fun _ => P) (fun s c hc => h s c hc.isPart) (fun _ _ _ _ => id)
    (fun _ s c hc => h s c hc.isPart) (fun _ _ => id) hardware s hs

/-- What all other calls keep, every call keeps. -/
theorem perform_keeps (h : ∀ s c, ¬c.IsInstall → P s → P (s.perform c).2) {s : Space σ} (hs : P s)
    (c : Command σ) : P (s.perform c).2 := by
  cases c with
  | install hardware => exact perform_install (fun s d hd => h s d hd.not_install) hs
  | _ => exact h s _ id hs

end Space

end GuestMemory
