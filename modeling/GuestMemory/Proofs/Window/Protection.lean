import GuestMemory.Proofs.Maps.Partition
import GuestMemory.Proofs.Window.Lookup

/-!
What is protected in the window, and what undoes it. Protecting a block goes by the record of the
window, which has the low 32 bits of offsets, and hands it the low 32 bits of those of the block; so
the pages that are hit are those of the block up to multiples of 4 GB. Projecting a page again gives
it the protection of its region, and no other page.
-/
namespace GuestMemory

open GuestAddress

def Block.Has (block : Block) (o : Nat) : Prop :=
  block.offset ≤ o ∧ o < block.offset + block.size

/-- The low word of an offset lies in the range of the low words of a block. -/
def Block.HasModulo (block : Block) (o : Nat) : Prop :=
  block.offset % 2 ^ 32 ≤ o % 2 ^ 32 ∧
    o % 2 ^ 32 < block.offset % 2 ^ 32 + block.size % 2 ^ 32

instance (block : Block) (o : Nat) : Decidable (block.Has o) :=
  inferInstanceAs (Decidable (_ ∧ _))

instance (block : Block) (o : Nat) : Decidable (block.HasModulo o) :=
  inferInstanceAs (Decidable (_ ∧ _))

/-- In the first 4 GB the two are the same, but for a block that is as large as that. -/
theorem Block.hasModulo_iff {block : Block} (hend : block.offset + block.size ≤ 2 ^ 32)
    (hsize : block.size < 2 ^ 32) {o : Nat} (ho : o < 2 ^ 32) :
    block.HasModulo o ↔ block.Has o := by
  rw [HasModulo, Has]
  omega

namespace Window

/-- Protecting some pages changes the protection of those of them that are backed. -/
theorem get_protectAll {p : Pages} (granted : p.answers = []) (vs : List GuestAddress)
    (protection : Protection) (a : GuestAddress) :
    (Pages.protectAll protection vs p).2.get a =
      if ∃ v ∈ vs, v.page = a.page then (p.get a).map ({ · with protection }) else p.get a := by
  induction vs generalizing p with
  | nil => simp [Pages.protectAll]
  | cons v vs ih =>
    have hv : (p.protect v protection).get a =
        if v.page = a.page then (p.get a).map ({ · with protection }) else p.get a :=
      Table.get_modify _ _ v.page_lt a.page_lt
    have hrest : (p.protect v protection).answers = [] := granted
    rw [Pages.protectAll, Pages.ask, granted]
    refine (ih hrest).trans ?_
    rw [hv]
    simp only [List.mem_cons, exists_eq_or_imp]
    by_cases h : v.page = a.page
    · have hor : v.page = a.page ∨ ∃ u ∈ vs, u.page = a.page := .inl h
      rw [if_pos h, if_pos hor, Option.map_map]
      split <;> rfl
    · simp only [h, if_false, false_or]

/-- The pages that are listed for a range of whole pages are those whose word lies in it. -/
theorem Recorded.mem_ofRange {w : Window} (h : w.Recorded) {offset size : UInt32}
    (ho : offset.toNat % 4096 = 0) (hs : size.toNat % 4096 = 0) (v : GuestAddress) :
    v ∈ w.aliases.ofRange offset size ↔ pageBase v = v ∧ ∃ n, w.shows v = some n ∧
      offset.toNat ≤ (pageWord n).toNat ∧ (pageWord n).toNat < offset.toNat + size.toNat := by
  have hfirst : (pageBase offset).toNat = offset.toNat := by
    rw [toNat_pageBase]
    omega
  simp only [Aliases.Records.mem_ofRange h, hfirst, Option.map_eq_some_iff, ↓existsAndEq,
    and_true]
  refine and_congr_right fun _ => exists_congr fun n => and_congr_right fun _ => ?_
  have haligned : (pageWord n).toNat % 4096 = 0 := by
    rw [pageWord, toNat_pageBase]
    omega
  have hmax := (pageWord n).toNat_lt
  rw [and_iff_right (show pageBase (pageWord n) = pageWord n from pageBase_pageBase _)]
  omega

/-- Protecting a range of whole pages protects the pages whose word lies in it. -/
theorem Recorded.get_protect {w : Window} (h : w.Recorded) (granted : w.Granted)
    {offset size : UInt32} (ho : offset.toNat % 4096 = 0) (hs : size.toNat % 4096 = 0)
    (protection : Protection) (v : GuestAddress) :
    (w.protect offset size protection).2.pages.get v =
      (w.pages.get v).map fun b =>
        if offset.toNat ≤ (pageWord b.offset).toNat ∧
            (pageWord b.offset).toNat < offset.toNat + size.toNat then { b with protection }
        else b := by
  have hpage : w.shows v.pageBase = w.shows v := by
    rw [shows, shows, Pages.get, Pages.get, page_pageBase]
  have hlisted : (∃ u ∈ w.aliases.ofRange offset size, u.page = v.page) ↔
      ∃ n, w.shows v = some n ∧ offset.toNat ≤ (pageWord n).toNat ∧
        (pageWord n).toNat < offset.toNat + size.toNat := by
    constructor
    · rintro ⟨u, hu, he⟩
      obtain ⟨hb, hn⟩ := (h.mem_ofRange ho hs u).1 hu
      rw [← pageBase_eq_iff, hb] at he
      rwa [he, hpage] at hn
    · intro hn
      refine ⟨v.pageBase, (h.mem_ofRange ho hs _).2 ⟨pageBase_pageBase v, ?_⟩, page_pageBase v⟩
      rwa [hpage]
  rw [Window.protect]
  refine (get_protectAll granted _ _ _).trans ?_
  cases hb : w.pages.get v with
  | none => simp
  | some b =>
    have hshows : w.shows v = some b.offset := by rw [shows, hb, Option.map_some]
    simp only [hlisted, hshows, Option.some.injEq, exists_eq_left', Option.map_some]
    split <;> rfl

end Window

namespace Space

variable {σ : Type} {s : Space σ}

theorem MapStep.inTurn {m m' : Maps} {c : Command σ} {a : Answer σ} (h : MapStep m c a m')
    (hm : m.arena.InTurn) : m'.arena.InTurn := by
  cases h with
  | allocate h => exact hm.allocate h
  | _ => exact hm

theorem Leads.inTurn {s₀ : Space σ} {allowed : Space σ → Command σ → Prop}
    (run : Leads allowed s₀ s) (fresh : s₀.IsFresh) : s.arena.InTurn := by
  refine run.keeps (P := fun t => t.arena.InTurn) ?_ fun t c ht _ => ?_
  · obtain ⟨place, settings, level, routed, kernel, hc⟩ := fresh
    obtain ⟨arena, journal, ha, rfl⟩ := create_eq_ok hc
    obtain ⟨-, -, hregions⟩ := Arena.create_eq_ok ha
    exact ⟨by simp [hregions], by simp [hregions]⟩
  · exact perform_keeps (s := t.drained) (P := fun t => t.arena.InTurn)
      (fun _ _ hi hu => (mapStep_perform hi).inTurn hu) ht c

def Command.range? : Command σ → Option (GuestAddress × UInt32)
  | .project v _ size | .projectBlock v _ size | .projectBuffer v _ size => some (v, size)
  | _ => none

theorem Command.remapped?_of_range {c : Command σ} {x : GuestAddress × UInt32}
    (hc : c.range? = some x) : c.remapped? = some x := by
  cases c <;> first | exact hc | cases hc

/-- A call that projects onto a range remaps it and then brings the window up to date. -/
theorem perform_of_range {c : Command σ} {v : GuestAddress} {size : UInt32}
    (hc : c.range? = some (v, size)) (accepted : (s.perform c).1.IsAccepted) :
    ∃ virtual, s.virtual.Remaps virtual v size ∧
      (s.perform c).2 = ({ s with virtual }.syncWindow v size).2 := by
  have hremapped := Command.remapped?_of_range hc
  rw [perform_remap hremapped] at accepted ⊢
  cases h : c.remap s.maps with
  | ok virtual => exact ⟨virtual, Command.remaps_remap hremapped h, rfl⟩
  | error e =>
    rw [h] at accepted
    exact absurd accepted id

/-- What the window has to show at a page has the protection of the region that it lies in. -/
theorem windowTarget_of_leadsInto (h : s.arena.InTurn) {a : GuestAddress} {o : Nat}
    (ho : s.LeadsInto a o) {r : Region} (hr : r ∈ s.arena.regions)
    (hin : r.offset ≤ o ∧ o < r.offset + r.size) :
    s.windowTarget a.pageBase = some (o, r.protection) := by
  obtain ⟨distance, hd, hpage, -⟩ := ho
  have hg : s.virtual.get a.pageBase = .memory distance := by
    rw [VirtualMap.get, page_pageBase]
    exact hd
  simp only [windowTarget, hg]
  exact h.locate?_eq hpage hr hin

theorem windowTarget_drained (s : Space σ) : s.drained.windowTarget = s.windowTarget := rfl

theorem windowTarget_syncWindow (s : Space σ) (v : GuestAddress) (size : UInt32) :
    (s.syncWindow v size).2.windowTarget = s.windowTarget := by
  obtain ⟨window, journal, he⟩ := s.syncWindow_eq v size
  rw [he]
  rfl

/-- Protecting a block of the arena protects the pages that show it, up to multiples of 4 GB. -/
theorem KeepsStep.get_protect (h : s.KeepsStep) {w : Window} (hw : s.window = some w)
    (hrec : w.Recorded) {block : Block} (owned : s.arena.Owns block) (p : Protection)
    (v : GuestAddress) :
    (w.protect (UInt32.ofNat block.offset) (UInt32.ofNat block.size) p).2.pages.get v =
      (w.pages.get v).map fun b =>
        if block.HasModulo b.offset then { b with protection := p } else b := by
  obtain ⟨r, hr, hoffset, hsize⟩ := owned
  obtain ⟨ho, hz, -⟩ := h.paved.region r hr
  have hword : (UInt32.ofNat block.offset).toNat = block.offset % 2 ^ 32 := UInt32.toNat_ofNat'
  have hword' : (UInt32.ofNat block.size).toNat = block.size % 2 ^ 32 := UInt32.toNat_ofNat'
  obtain ⟨w', hw', -, hm⟩ := h.window
  cases hw.symm.trans hw'
  rw [hrec.get_protect (h.granted w hw) (by omega) (by omega), hword, hword']
  cases hb : w.pages.get v with
  | none => rfl
  | some b =>
    have hshows : s.maps.shown v = some b.offset := by
      rw [← hm.shows_eq, Window.shows, hb, Option.map_some]
    have hpage : (Window.pageWord b.offset).toNat = b.offset % 2 ^ 32 := by
      rw [Window.pageWord_of_aligned (h.shown_aligned hshows)]
      exact UInt32.toNat_ofNat'
    rw [Option.map_some, Option.map_some, hpage]
    rfl

/-- Protection in the window of every state that a history of a fresh space reaches, on a host that
lets the window follow. Protecting a block changes the protection of exactly the pages whose offset has
a low word in the range of the low words of the block; these are the pages that show the block if
nothing lies past the first 4 GB of the arena. A call that projects onto a range gives each of its pages
the protection of the region that the page now leads into, and no other page any. -/
theorem protect_modulo {s₀ s : Space σ} (fresh : s₀.IsFresh) (placed : s₀.IsPlaced)
    (granted : s₀.Granted) (run : Leads (fun t c => c.IsGrounded t) s₀ s) {w : Window}
    (hw : s.window = some w) :
    (∀ block p, s.arena.Owns block → ∃ w', (s.step (.protect block p)).2.window = some w' ∧
      (∀ v, w'.pages.get v = (w.pages.get v).map fun b =>
        if block.HasModulo b.offset then { b with protection := p } else b) ∧
      (block.offset + block.size ≤ 2 ^ 32 → block.size < 2 ^ 32 →
        (∀ v n, s.ReachesByte v n → n < 2 ^ 32) → ∀ v, w'.pages.get v =
          (w.pages.get v).map fun b =>
            if block.Has b.offset then { b with protection := p } else b)) ∧
    ∀ c v size, c.range? = some (v, size) → c.IsGrounded s → (s.step c).1.answer.IsAccepted →
      ∃ w', (s.step c).2.window = some w' ∧ ∀ a,
        (Covers v size a → ∀ o, (s.step c).2.LeadsInto a o → ∀ r ∈ (s.step c).2.arena.regions,
          r.offset ≤ o → o < r.offset + r.size → w'.pages.get a = some ⟨o, r.protection⟩) ∧
        (¬Covers v size a → w'.pages.get a = w.pages.get a) := by
  have htracked : s.Tracked :=
    run.keeps (P := Tracked) (fun on => fresh.keepsStep placed granted on) fun t c ht hc => ht.step hc
  have h : s.KeepsStep := htracked (by rw [hw]; rfl)
  have hrec : w.Recorded := fresh.recorded granted run w hw
  obtain ⟨w', hw', hfits, hm⟩ := h.window
  cases hw.symm.trans hw'
  constructor
  · intro block p owned
    have hstep : (s.step (.protect block p)).2.window =
        some (w.protect (UInt32.ofNat block.offset) (UInt32.ofNat block.size) p).2 := by
      have hd : s.drained.window = some w := hw
      rw [step, perform, Space.protect, hd]
      rfl
    refine ⟨_, hstep, h.get_protect hw hrec owned p, fun hend hsize hlow v => ?_⟩
    rw [h.get_protect hw hrec owned p v]
    cases hb : w.pages.get v with
    | none => rfl
    | some b =>
      have hshows : s.maps.shown v = some b.offset := by
        rw [← hm.shows_eq, Window.shows, hb, Option.map_some]
      have ho : b.offset < 2 ^ 32 := by
        have := hlow v _ (h.reachesByte_iff.2 ⟨b.offset, hshows, rfl⟩)
        omega
      simp only [Option.map_some, Block.hasModulo_iff hend hsize ho]
  · intro c v size hc hgrounded accepted
    have ht : (s.step c).2.arena.InTurn := Leads.inTurn (run.tail ⟨c, hgrounded, rfl⟩) fresh
    obtain ⟨virtual, hr, he⟩ := perform_of_range (s := s.drained) hc accepted
    have hg : ({ s.drained with virtual } : Space σ).Granted := h.granted
    obtain ⟨w', hw', -, -, hget⟩ :=
      mirrors_syncWindow (s := s.drained) hw hm hr (hg.syncWindow v size).1
    have hstep : (s.step c).2 = ({ s.drained with virtual }.syncWindow v size).2.drained :=
      congrArg drained he
    rw [hstep] at ht ⊢
    refine ⟨w', hw', fun a => ⟨fun ha o ho r hmem hle hlt => ?_, fun ha => ?_⟩⟩
    · rw [hget, if_pos ha]
      have htarget := windowTarget_of_leadsInto ht ho hmem ⟨hle, hlt⟩
      rw [windowTarget_drained, windowTarget_syncWindow] at htarget
      rw [htarget]
      rfl
    · rw [hget, if_neg ha]

/-- Protecting a block of two pages hits both, since nothing of this arena lies past 4 GB. Projecting
the second page once more gives it back its own protection, and leaves the first one as it was. -/
theorem protect_modulo_projected :
    (made true false).IsFresh ∧ (made true false).IsPlaced ∧ (made true false).Granted ∧
      Leads (fun t c => c.IsGrounded t) (made true false) projected ∧
        projected.arena.Owns ⟨0, 0x2000⟩ ∧ ∃ w, projected.window = some w ∧
          (∃ w', (projected.step (.protect ⟨0, 0x2000⟩ .readOnly)).2.window = some w' ∧
            w'.pages.get 0x2000 = some ⟨0x1000, .readOnly⟩ ∧ w'.pages.get 0x3000 = none) ∧
          ∃ w', (projected.step (.projectBlock 0x2000 ⟨0, 0x2000⟩ 0x1000)).2.window = some w' ∧
            w'.pages.get 0x2000 = some ⟨0, .readWrite⟩ ∧ w'.pages.get 0x1000 = w.pages.get 0x1000 := by
  have fresh := isFresh_made true false
  have placed : (made true false).IsPlaced := by
    refine ⟨by decide, by decide, fun w hw => ?_⟩
    cases hw
    decide
  have owns : projected.arena.Owns ⟨0, 0x2000⟩ :=
    ⟨⟨"ram", 0, 0x2000, .readWrite⟩, .head _, rfl, rfl⟩
  have owned : carved.arena.Owns ⟨0, 0x2000⟩ :=
    ⟨⟨"ram", 0, 0x2000, .readWrite⟩, .head _, rfl, rfl⟩
  have h₁ : Next (fun t c => c.IsGrounded t) (made true false) carved :=
    ⟨.allocate "ram" 0x2000 .readWrite, trivial, rfl⟩
  have h₂ : Next (fun t c => c.IsGrounded t) carved projected :=
    ⟨.projectBlock 0x1000 ⟨0, 0x2000⟩ 0x2000, owned, rfl⟩
  have leads := (Relation.ReflTransGen.single h₁).tail h₂
  obtain ⟨w, hw⟩ : ∃ w, projected.window = some w := ⟨_, rfl⟩
  have hpages : projected.window.bind (·.pages.get 0x2000) = some ⟨0x1000, .readWrite⟩ ∧
      projected.window.bind (·.pages.get 0x3000) = none := by
    decide +kernel
  rw [hw] at hpages
  obtain ⟨hsecond, hthird⟩ : w.pages.get 0x2000 = some ⟨0x1000, .readWrite⟩ ∧
    w.pages.get 0x3000 = none := hpages
  have granted := granted_made true false
  obtain ⟨hprotect, hproject⟩ := protect_modulo fresh placed granted leads hw
  obtain ⟨w₁, hw₁, -, hexact⟩ := hprotect ⟨0, 0x2000⟩ .readOnly owns
  have hget₁ := hexact (by decide) (by decide) fun v n hn => by
    obtain ⟨-, -, -, hlt⟩ := hn
    exact Nat.lt_trans hlt (by decide)
  obtain ⟨w₂, hw₂, hget₂⟩ := hproject (.projectBlock 0x2000 ⟨0, 0x2000⟩ 0x1000) 0x2000 0x1000 rfl
    owns trivial
  refine ⟨fresh, placed, granted, leads, owns, w, hw, ⟨w₁, hw₁, ?_, ?_⟩, w₂, hw₂, ?_, ?_⟩
  · rw [hget₁, hsecond]
    decide
  · rw [hget₁, hthird]
    rfl
  · refine (hget₂ 0x2000).1 (by decide) 0 ?_ ⟨"ram", 0, 0x2000, .readWrite⟩ (.head _) (by decide)
      (by decide)
    exact ⟨0x700000000000 - 0x2000, by decide +kernel, by decide +kernel,
      ⟨"ram", 0, 0x2000, .readWrite⟩, .head _, by decide, by decide⟩
  · exact (hget₂ 0x1000).2 (by decide)

/-- Protecting the block at 4 GB protects the page at the start of the arena, which is not in it. -/
theorem other_page_protected :
    wide.IsFresh ∧ wide.IsPlaced ∧ wide.Granted ∧
      Leads (fun t c => c.IsGrounded t) wide lowShown ∧
      lowShown.arena.Owns ⟨0x100000000, 0x1000⟩ ∧ ¬Block.Has ⟨0x100000000, 0x1000⟩ 0 ∧
        lowShown.window.bind (·.pages.get 0x1000) = some ⟨0, .readWrite⟩ ∧
          (lowShown.step (.protect ⟨0x100000000, 0x1000⟩ .readOnly)).2.window.bind
            (·.pages.get 0x1000) = some ⟨0, .readOnly⟩ := by
  have carved : Leads (fun t c => c.IsGrounded t) wide wideCarved :=
    leads_run (by simp [Command.IsGrounded])
  have low : wideCarved.arena.Owns ⟨0, 0x1000⟩ :=
    ⟨⟨"low", 0, 0x1000, .readWrite⟩, .head _, rfl, rfl⟩
  have leads : Leads (fun t c => c.IsGrounded t) wide lowShown :=
    carved.tail ⟨.projectBlock 0x1000 ⟨0, 0x1000⟩ 0x1000, low, rfl⟩
  have owns : lowShown.arena.Owns ⟨0x100000000, 0x1000⟩ :=
    ⟨⟨"high", 0x100000000, 0x1000, .readWrite⟩, .tail _ (.tail _ (.head _)), rfl, rfl⟩
  refine ⟨isFresh_wide, isPlaced_wide, granted_wide, leads, owns, ?_, ?_, ?_⟩ <;> decide +kernel

end Space

end GuestMemory
