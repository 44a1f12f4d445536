import GuestMemory.Proofs.Maps.Ranges
import GuestMemory.Journal
import GuestMemory.Window.Basic

/-!
What the host window shows. As long as the host grants the changes, its pages and its record of them
are changed together, so a page shows something exactly when the record has it; a walk over a range
gives every page of it what it is to show, and no other page anything.
-/
namespace GuestMemory.Window

/-- Offset in the arena of what a guest page shows. -/
def shows (w : Window) (v : GuestAddress) : Option Nat := (w.pages.get v).map Backing.offset

/-- The window shows `f`, and its record has exactly the pages that show something. -/
structure Mirrors (w : Window) (f : GuestAddress → Option Nat) : Prop where
  shows_eq : ∀ v, w.shows v = f v
  recorded : ∀ v, (w.aliases.offset? v).isSome = (f v).isSome

theorem Mirrors.congr {w : Window} {f g : GuestAddress → Option Nat} (h : w.Mirrors f)
    (hfg : ∀ v, f v = g v) : w.Mirrors g :=
  ⟨fun v => (h.shows_eq v).trans (hfg v), fun v => hfg v ▸ h.recorded v⟩

theorem mirrors_create (base : HostAddress) (kernel : Kernel) :
    (create base kernel).Mirrors fun _ => none :=
  ⟨fun _ => rfl, fun _ => rfl⟩

/-- The host grants every change to come. -/
def Granted (w : Window) : Prop := w.pages.answers = []

theorem Granted.ask {w : Window} (h : w.Granted) : w.pages.ask = (none, w.pages) := by
  rw [Pages.ask, h]

@[simp] theorem Pages.backing_ask (p : Pages) : p.ask.2.backing = p.backing := by
  rw [Pages.ask]
  cases p.answers <;> rfl

@[simp] theorem Pages.get_ask (p : Pages) (a : GuestAddress) : p.ask.2.get a = p.get a :=
  congrArg (fun backing => Table.get backing a.page) p.backing_ask

theorem Pages.get_map (p : Pages) (v a : GuestAddress) (offset : Nat) (protection : Protection) :
    (p.map v offset protection).get a =
      if v.page = a.page then some ⟨offset, protection⟩ else p.get a :=
  Table.get_set _ _ v.page_lt a.page_lt

theorem Pages.get_unmap (p : Pages) (v a : GuestAddress) :
    (p.unmap v).get a = if v.page = a.page then none else p.get a :=
  Table.get_set _ _ v.page_lt a.page_lt

@[simp] theorem Pages.base_ask (p : Pages) : p.ask.2.base = p.base := by
  rw [Pages.ask]
  cases p.answers <;> rfl

theorem Granted.clear_eq {w : Window} (h : w.Granted) :
    w.clear = (none, { w with pages := w.pages.unmapAll, aliases := {} }) := by
  rw [Window.clear, h.ask]

theorem mirrors_clear {w : Window} (h : w.Granted) : w.clear.2.Mirrors fun _ => none := by
  rw [h.clear_eq]
  exact ⟨fun _ => rfl, fun _ => rfl⟩

/-- Two windows that show and record the same, at one place. -/
structure Alike (w w' : Window) : Prop where
  base_eq : w'.base = w.base
  shows_eq : ∀ v, w'.shows v = w.shows v
  aliases_eq : w'.aliases = w.aliases

theorem Alike.refl (w : Window) : Alike w w := ⟨rfl, fun _ => rfl, rfl⟩

theorem Alike.mirrors {w w' : Window} {f : GuestAddress → Option Nat} (h : Alike w w')
    (hm : w.Mirrors f) : w'.Mirrors f :=
  ⟨fun v => (h.shows_eq v).trans (hm.shows_eq v), fun v => h.aliases_eq ▸ hm.recorded v⟩

theorem get_protect (p : Pages) (v a : GuestAddress) (protection : Protection) :
    ((p.protect v protection).get a).map Backing.offset = (p.get a).map Backing.offset := by
  simp only [Pages.get, Pages.protect]
  rw [Table.get_modify _ _ v.page_lt a.page_lt]
  split
  · simp [Function.comp_def]
  · rfl

/-- Protecting pages changes nothing of what they show, wherever the host stops it. -/
theorem alike_protectAll (protection : Protection) (vs : List GuestAddress) (p : Pages) :
    (Pages.protectAll protection vs p).2.base = p.base ∧
      ∀ a, ((Pages.protectAll protection vs p).2.get a).map Backing.offset =
        (p.get a).map Backing.offset := by
  induction vs generalizing p with
  | nil => exact ⟨rfl, fun _ => rfl⟩
  | cons v vs ih =>
    have hbase := p.base_ask
    have hget := p.get_ask
    rw [Pages.protectAll]
    generalize p.ask = r at hbase hget ⊢
    obtain ⟨_ | e, q⟩ := r
    · obtain ⟨hb, hg⟩ := ih (q.protect v protection)
      exact ⟨hb.trans hbase, fun a => by rw [hg, get_protect, hget]⟩
    · exact ⟨hbase, fun a => congrArg _ (hget a)⟩

theorem alike_protect (w : Window) (offset size : UInt32) (protection : Protection) :
    Alike w (w.protect offset size protection).2 := by
  obtain ⟨hb, hg⟩ := alike_protectAll protection (w.aliases.ofRange offset size) w.pages
  exact ⟨hb, hg, rfl⟩

/-- No page has the offset that stands for none. -/
theorem pageBase_ne_noOffset (offset : UInt32) : GuestAddress.pageBase offset ≠ noOffset := by
  intro h
  have hn := congrArg UInt32.toNat h
  rw [GuestAddress.toNat_pageBase] at hn
  have hlast : noOffset.toNat = 0xFFFFFFFF := rfl
  omega

theorem Aliases.offset?_congr (t : Aliases) {v a : GuestAddress} (h : v.page = a.page) :
    t.offset? v = t.offset? a := by
  rw [Aliases.offset?, Aliases.offset?, h]

/-- What the record has of a page after the word of another one has been set. -/
theorem Aliases.offset?_set (t : Aliases) (v a : GuestAddress) (word : UInt32)
    (showing : Table (Option (Array GuestAddress)) 20) :
    Aliases.offset? { offsets := t.offsets.set v.page word, showing } a =
      if v.page = a.page then if word = noOffset then none else some word else t.offset? a := by
  rw [Aliases.offset?]
  simp only [Table.get_set (d := 20) _ _ v.page_lt a.page_lt]
  split <;> rfl

/-- Offsets that the record has after a page has been taken out of it. -/
theorem Aliases.offset?_remove (t : Aliases) (v a : GuestAddress) :
    (t.remove v).2.offset? a = if v.page = a.page then none else t.offset? a := by
  rw [Aliases.remove]
  cases hv : t.offset? v with
  | none =>
    show t.offset? a = _
    split
    · rename_i he
      rw [← hv, t.offset?_congr he]
    · rfl
  | some offset => exact t.offset?_set v a noOffset _

theorem Aliases.offset?_create (t : Aliases) (v a : GuestAddress) (offset : UInt32) :
    (t.create v offset).2.offset? a =
      if v.page = a.page then some (GuestAddress.pageBase offset) else t.offset? a := by
  rw [Aliases.create]
  refine ((t.remove v).2.offset?_set v a _ _).trans ?_
  rw [if_neg (pageBase_ne_noOffset offset), Aliases.offset?_remove]
  split <;> rfl

/-- What bringing a page up to date comes to. A page that the record does not have is left alone if it
is to show nothing, and a change that the host refuses is not made; but before a page is unmapped it is
taken out of the record. -/
inductive Syncs (w : Window) (v : GuestAddress) :
    Option (Nat × Protection) → Except ArenaError (Option Event) × Window → Prop where
  | mapped {offset : Nat} {protection : Protection} (grants : w.pages.ask.1 = none) :
    Syncs w v (some (offset, protection)) (.ok (some (.pageMapped v offset protection)), { w with
      pages := w.pages.ask.2.map v offset protection
      aliases := (w.aliases.create v (UInt32.ofNat offset)).2 })
  | mapRefused {offset : Nat} {protection : Protection} {e : OsError}
    (refuses : w.pages.ask.1 = some e) :
    Syncs w v (some (offset, protection))
      (.error (.os .mapPage e), { w with pages := w.pages.ask.2 })
  | unrecorded (record : w.aliases.offset? v = none) : Syncs w v none (.ok none, w)
  | unmapped {o : UInt32} (record : w.aliases.offset? v = some o)
    (grants : w.pages.ask.1 = none) :
    Syncs w v none (.ok (some (.pageUnmapped v.pageBase)), { w with
      pages := w.pages.ask.2.unmap v
      aliases := (w.aliases.remove v).2 })
  | unmapRefused {o : UInt32} {e : OsError} (record : w.aliases.offset? v = some o)
    (refuses : w.pages.ask.1 = some e) :
    Syncs w v none (.error (.os .reserve e), { w with
      pages := w.pages.ask.2
      aliases := (w.aliases.remove v).2 })

/-- Bringing a page up to date comes to one of these. -/
theorem syncs (w : Window) (v : GuestAddress) (target : Option (Nat × Protection)) :
    w.Syncs v target (w.sync v target) := by
  cases target with
  | some t =>
    rw [sync]
    cases hask : w.pages.ask with
    | mk answer p =>
      obtain rfl : w.pages.ask.2 = p := by rw [hask]
      have hanswer : w.pages.ask.1 = answer := by rw [hask]
      cases answer with
      | none => exact .mapped hanswer
      | some e => exact .mapRefused hanswer
  | none =>
    rw [sync]
    cases hv : w.aliases.offset? v with
    | none =>
      have hr : w.aliases.remove v = (none, w.aliases) := by rw [Aliases.remove, hv]
      rw [hr]
      exact .unrecorded hv
    | some o =>
      have hr : w.aliases.remove v = (some o, (w.aliases.remove v).2) := by
        simp only [Aliases.remove, hv]
      rw [hr]
      cases hask : w.pages.ask with
      | mk answer p =>
        obtain rfl : w.pages.ask.2 = p := by rw [hask]
        have hanswer : w.pages.ask.1 = answer := by rw [hask]
        cases answer with
        | none => exact .unmapped hv hanswer
        | some e => exact .unmapRefused hv hanswer

/-- Bringing a page up to date does not move the window, nor is anything about faults changed. -/
theorem beside_sync (w : Window) (v : GuestAddress) (target : Option (Nat × Protection)) :
    ((w.sync v target).2.base, (w.sync v target).2.faults) = (w.base, w.faults) := by
  have h := w.syncs v target
  generalize w.sync v target = r at h ⊢
  cases h with
  | unrecorded => rfl
  | _ => exact congrArg (·, w.faults) w.pages.base_ask

@[simp] theorem base_sync (w : Window) (v : GuestAddress) (target : Option (Nat × Protection)) :
    (w.sync v target).2.base = w.base :=
  congrArg Prod.fst (w.beside_sync v target)

/-- A host that grants every change grants this one, and goes on to. -/
theorem Granted.sync {w : Window} (h : w.Granted) (v : GuestAddress)
    (target : Option (Nat × Protection)) :
    (∃ event, (w.sync v target).1 = .ok event) ∧ (w.sync v target).2.Granted := by
  have hs := w.syncs v target
  generalize w.sync v target = r at hs ⊢
  have hask := h.ask
  cases hs with
  | unrecorded => exact ⟨⟨_, rfl⟩, h⟩
  | mapped | unmapped => exact ⟨⟨_, rfl⟩, by rwa [hask]⟩
  | mapRefused refuses | unmapRefused _ refuses =>
    rw [hask] at refuses
    cases refuses

def backingOf (target : Option (Nat × Protection)) : Option Backing :=
  target.map fun t => ⟨t.1, t.2⟩

section

variable {w : Window} {f : GuestAddress → Option Nat} (h : w.Mirrors f) {v : GuestAddress}
  {target : Option (Nat × Protection)} {event : Option Event}
  (granted : (w.sync v target).1 = .ok event)

include h granted

/-- One page gets the backing of its target, and no other page changes. A page that shows nothing in the
record need not be unmapped, because it shows nothing. -/
theorem Mirrors.get_sync (a : GuestAddress) :
    (w.sync v target).2.pages.get a =
      if v.page = a.page then backingOf target else w.pages.get a := by
  have hs := w.syncs v target
  generalize w.sync v target = r at hs granted ⊢
  cases hs with
  | mapped => exact (Pages.get_map ..).trans (by rw [Pages.get_ask]; rfl)
  | unmapped => exact (Pages.get_unmap ..).trans (by rw [Pages.get_ask]; rfl)
  | unrecorded record =>
    split
    · rename_i hp
      have hn : w.shows a = none := by
        rw [h.shows_eq, ← Option.isNone_iff_eq_none, ← Option.not_isSome, ← h.recorded a,
          ← w.aliases.offset?_congr hp, record]
        rfl
      exact Option.map_eq_none_iff.1 hn
    · rfl
  | mapRefused | unmapRefused => cases granted

/-- One page shows its target from now on, and the record says so. -/
theorem Mirrors.sync :
    (w.sync v target).2.Mirrors fun a => if v.page = a.page then target.map Prod.fst else f a := by
  refine ⟨fun a => ?_, fun a => ?_⟩
  · rw [shows, h.get_sync granted, ← h.shows_eq, shows]
    split
    · rw [backingOf, Option.map_map]
      rfl
    · rfl
  · rw [apply_ite Option.isSome, Option.isSome_map, ← h.recorded a]
    have hs := w.syncs v target
    generalize w.sync v target = r at hs granted ⊢
    cases hs with
    | mapped =>
      rw [Aliases.offset?_create, apply_ite Option.isSome]
      rfl
    | unmapped =>
      rw [Aliases.offset?_remove, apply_ite Option.isSome]
      rfl
    | unrecorded record =>
      split
      · rename_i hp
        rw [← w.aliases.offset?_congr hp, record]
        rfl
      · rfl
    | mapRefused | unmapRefused => cases granted

end

/-- A page that the host refuses to bring up to date keeps what it shows, and no other page changes;
only the record of this page may be gone. -/
theorem Mirrors.sync_of_error {w : Window} {f : GuestAddress → Option Nat} (h : w.Mirrors f)
    {v : GuestAddress} {target : Option (Nat × Protection)} {e : ArenaError}
    (refused : (w.sync v target).1 = .error e) :
    (∀ a, (w.sync v target).2.shows a = f a) ∧
      ∀ a, v.page ≠ a.page → ((w.sync v target).2.aliases.offset? a).isSome = (f a).isSome := by
  have hs := w.syncs v target
  generalize w.sync v target = r at hs refused ⊢
  have hshows : ∀ a, (w.pages.ask.2.get a).map Backing.offset = f a := fun a => by
    rw [Pages.get_ask]
    exact h.shows_eq a
  cases hs with
  | mapRefused => exact ⟨hshows, fun a _ => h.recorded a⟩
  | unmapRefused =>
    refine ⟨hshows, fun a hne => ?_⟩
    rw [Aliases.offset?_remove, if_neg hne]
    exact h.recorded a
  | mapped | unmapped | unrecorded => cases refused

theorem page_pageAddress {start : GuestAddress} {i : Nat} (h : start.page + i < 2 ^ 20) :
    (VirtualMap.pageAddress start i).page = start.page + i := by
  have hs := start.toNat_lt
  rw [GuestAddress.page_eq] at h ⊢
  rw [VirtualMap.pageAddress, UInt32.toNat_add, UInt32.toNat_ofNat', pageSize, GuestAddress.page_eq]
  omega

namespace Walk

variable {k : Walk} {start v : GuestAddress} {target : GuestAddress → Option (Nat × Protection)}
  {n : Nat} {e : ArenaError}

theorem visitAll_succ (k : Walk) (start : GuestAddress)
    (target : GuestAddress → Option (Nat × Protection)) (n : Nat) :
    k.visitAll start target (n + 1) = (k.visitAll start target n).visit
      (VirtualMap.pageAddress start n) (target (VirtualMap.pageAddress start n)) :=
  Nat.fold_succ ..

/-- A walk that was refused stays as it is. -/
theorem visit_of_refused (h : k.refusal = some e) (target : Option (Nat × Protection)) :
    k.visit v target = k := by
  rw [visit, h]

theorem visit_of_ok {target : Option (Nat × Protection)} {event : Option Event} {w : Window}
    (h : k.refusal = none) (hs : k.window.sync v target = (.ok event, w)) :
    k.visit v target = { k with window := w, journal := event.elim k.journal k.journal.add } := by
  rw [visit, h, hs]

theorem visit_of_error {target : Option (Nat × Protection)} {w : Window} (h : k.refusal = none)
    (hs : k.window.sync v target = (.error e, w)) :
    k.visit v target = { k with window := w, refusal := some e } := by
  rw [visit, h, hs]

/-- A visit that is granted is of a walk that was, and brings its page up to date. -/
theorem granted_visit {target : Option (Nat × Protection)}
    (h : (k.visit v target).refusal = none) :
    k.refusal = none ∧ (∃ event, (k.window.sync v target).1 = .ok event) ∧
      (k.visit v target).window = (k.window.sync v target).2 := by
  cases hk : k.refusal with
  | some e =>
    rw [visit_of_refused hk, hk] at h
    cases h
  | none =>
    cases hs : k.window.sync v target with
    | mk result w =>
      cases result with
      | ok event => exact ⟨rfl, ⟨event, rfl⟩, by rw [visit_of_ok hk hs]⟩
      | error e =>
        rw [visit_of_error hk hs] at h
        cases h

/-- Where the window is granted every change, so is the walk. -/
theorem visitAll_of_granted (granted : k.window.Granted) (h : k.refusal = none) :
    (k.visitAll start target n).window.Granted ∧ (k.visitAll start target n).refusal = none := by
  induction n with
  | zero => exact ⟨granted, h⟩
  | succ n ih =>
    obtain ⟨hg, hn⟩ := ih
    rw [visitAll_succ]
    obtain ⟨⟨event, hok⟩, hg'⟩ :=
      hg.sync (VirtualMap.pageAddress start n) (target (VirtualMap.pageAddress start n))
    rw [visit_of_ok hn (Prod.ext hok rfl)]
    exact ⟨hg', hn⟩

/-- A walk that is refused comes to the refused page as one that is granted, and stops there. -/
theorem visitAll_of_refused (h : k.refusal = none)
    (refused : (k.visitAll start target n).refusal = some e) :
    ∃ i < n, (k.visitAll start target i).refusal = none ∧
      ((k.visitAll start target i).window.sync (VirtualMap.pageAddress start i)
        (target (VirtualMap.pageAddress start i))).1 = .error e ∧
      k.visitAll start target n = (k.visitAll start target i).visit
        (VirtualMap.pageAddress start i) (target (VirtualMap.pageAddress start i)) := by
  induction n with
  | zero =>
    cases h.symm.trans refused
  | succ n ih =>
    cases hn : (k.visitAll start target n).refusal with
    | some e' =>
      have hstay := visitAll_succ k start target n
      rw [visit_of_refused hn] at hstay
      rw [hstay] at refused
      obtain ⟨i, hi, hrest⟩ := ih refused
      exact ⟨i, Nat.lt_succ_of_lt hi, by rwa [hstay]⟩
    | none =>
      refine ⟨n, Nat.lt_succ_self n, hn, ?_, visitAll_succ k start target n⟩
      rw [visitAll_succ] at refused
      cases hs : (k.visitAll start target n).window.sync (VirtualMap.pageAddress start n)
          (target (VirtualMap.pageAddress start n)) with
      | mk result w =>
        cases result with
        | ok event =>
          rw [visit_of_ok hn hs] at refused
          cases hn.symm.trans refused
        | error e' =>
          rw [visit_of_error hn hs] at refused
          cases refused
          rfl

/-- What every sync keeps a walk keeps. -/
theorem visitAll_keeps {P : Window → Prop} (h : P k.window)
    (sync : ∀ w v target, P w → P (Window.sync w v target).2) :
    P (k.visitAll start target n).window := by
  induction n with
  | zero => exact h
  | succ n ih =>
    rw [visitAll_succ, visit]
    split
    · exact ih
    · have hs := sync _ (VirtualMap.pageAddress start n) (target (VirtualMap.pageAddress start n)) ih
      split <;> rename_i heq <;> rwa [heq] at hs

end Walk

section

variable {k : Walk} {f : GuestAddress → Option Nat} (h : k.window.Mirrors f) {start : GuestAddress}
  {target : GuestAddress → Option (Nat × Protection)} {n : Nat}
  (granted : (k.visitAll start target n).refusal = none) (hn : start.page + n ≤ 2 ^ 20)

include h granted hn

/-- A walk over `n` pages from `start` on brings exactly those up to date. -/
theorem Mirrors.walk :
    ((k.visitAll start target n).window.Mirrors fun a =>
      if start.page ≤ a.page ∧ a.page < start.page + n then
        (target (VirtualMap.pageAddress start (a.page - start.page))).map Prod.fst
      else f a) ∧
    ∀ a, (k.visitAll start target n).window.pages.get a =
      if start.page ≤ a.page ∧ a.page < start.page + n then
        backingOf (target (VirtualMap.pageAddress start (a.page - start.page)))
      else k.window.pages.get a := by
  induction n with
  | zero => exact ⟨h.congr fun a => (if_neg (by omega)).symm, fun a => (if_neg (by omega)).symm⟩
  | succ n ih =>
    rw [Walk.visitAll_succ] at granted ⊢
    obtain ⟨hbefore, ⟨event, hok⟩, hwindow⟩ := Walk.granted_visit granted
    obtain ⟨hm, hget⟩ := ih hbefore (by omega)
    have hpage : (VirtualMap.pageAddress start n).page = start.page + n :=
      page_pageAddress (by omega)
    -- the last page is beyond the others, so what it gets is all that changes
    have last : ∀ {α : Type} (a : GuestAddress) (x : GuestAddress → α) (y : α),
        (if start.page + n = a.page then x (VirtualMap.pageAddress start n)
          else if start.page ≤ a.page ∧ a.page < start.page + n then
            x (VirtualMap.pageAddress start (a.page - start.page)) else y) =
          if start.page ≤ a.page ∧ a.page < start.page + (n + 1) then
            x (VirtualMap.pageAddress start (a.page - start.page)) else y := by
      intro α a x y
      by_cases he : start.page + n = a.page
      · rw [if_pos he, if_pos (by omega), ← he, Nat.add_sub_cancel_left]
      · rw [if_neg he]
        by_cases hin : start.page ≤ a.page ∧ a.page < start.page + n
        · rw [if_pos hin, if_pos (by omega)]
        · rw [if_neg hin, if_neg (by omega)]
    rw [hwindow]
    refine ⟨(hm.sync hok).congr fun a => ?_, fun a => ?_⟩
    · rw [hpage]
      exact last a (fun v => (target v).map Prod.fst) (f a)
    · rw [hm.get_sync hok, hpage, hget]
      exact last a (fun v => backingOf (target v)) _

end

end GuestMemory.Window
