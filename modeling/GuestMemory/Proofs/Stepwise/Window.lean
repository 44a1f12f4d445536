import GuestMemory.Proofs.Maps.Regions
import GuestMemory.Proofs.Stepwise.Maps

/-!
Bringing the window up to date, operation by operation. An arena that does not wrap can be searched
for any address, and a window that does not wrap has an address for every page; so no page that the
virtual map has traps, and only the host can end the walk before the last of them.
-/
namespace GuestMemory.Stepwise

open GuestAddress

variable {S σ : Type}

/-- The first region that has an offset. The end of a region is formed only if it starts before. -/
def find (o : Nat) : List Region → Steps S (Option Region)
  | [] => return none
  | r :: rs => do
    let inside ← if r.offset ≤ o then do
        let last ← add 64 r.offset r.size
        pure (decide (o < last))
      else pure false
    if inside then return some r else find o rs

def locate (arena : Arena) (a : HostAddress) : Steps S (Option (Nat × Protection)) := do
  if a.toNat < arena.base.toNat then return none
  let last ← add 64 arena.base.toNat arena.used
  if last ≤ a.toNat then return none
  let offset ← sub a.toNat arena.base.toNat
  let region ← find offset arena.regions
  return region.map fun r => (offset, r.protection)

def target (s : Space σ) (v : GuestAddress) : Steps S (Option (Nat × Protection)) :=
  match s.virtual.get v with
  | .memory distance => locate s.arena (distance + v.toUInt64)
  | _ => return none

/-- Lets a page show what it has to. The window is changed where the page has to show something, or
where it has shown something, and only if the host grants it. -/
def syncPage (s : Space σ) (v : GuestAddress) : Steps (Window × Journal) Unit := do
  let shown ← target s v
  let (w, journal) ← get
  index v.page (2 ^ 20)
  if shown.isSome || (w.aliases.offset? v).isSome then
    let _ ← add 64 w.base.toNat v.pageBase.toNat
  match w.sync v shown with
  | (.ok event, w) => set (w, event.elim journal journal.add)
  | (.error e, w) => do
    set (w, journal)
    throw (.host e)

def onWindow (w : Window) : Steps (Window × Journal) Unit → Steps (Space σ) Unit :=
  within (fun s => (w, s.journal)) fun s p => { s with window := some p.1, journal := p.2 }

def syncWindow (v : GuestAddress) (size : UInt32) : Steps (Space σ) Unit := do
  let s ← get
  match s.window with
  | none => pure ()
  | some w =>
    onWindow w (repeated (fun i => do
      let page ← pageAt v i
      syncPage s page) (page size))

theorem find_eq {o : Nat} {rs : List Region} (h : ∀ r ∈ rs, r.offset + r.size < 2 ^ 64) :
    (find o rs : Steps S (Option Region)) =
      pure (rs.find? fun r => r.offset ≤ o && o < r.offset + r.size) := by
  induction rs with
  | nil => rfl
  | cons r rs ih =>
    have hrest := ih fun r' hr' => h r' (List.mem_cons_of_mem r hr')
    rw [find, List.find?_cons]
    by_cases hle : r.offset ≤ o
    · rw [if_pos hle, add_eq (h r (List.mem_cons_self ..)), pure_bind, pure_bind]
      by_cases hlt : o < r.offset + r.size
      · simp only [hle, hlt, decide_true, Bool.and_self, if_true]
      · simp only [hle, hlt, decide_false, decide_true, Bool.true_and, Bool.false_eq_true, if_false,
          hrest]
    · rw [if_neg hle, pure_bind]
      simp only [hle, decide_false, Bool.false_and, Bool.false_eq_true, if_false, hrest]

/-- Looking an address up in a paved arena does not trap. -/
theorem locate_eq {arena : Arena} (h : arena.IsPaved)
    (below : arena.base.toNat + arena.size < 2 ^ 64) (a : HostAddress) :
    (locate arena a : Steps S (Option (Nat × Protection))) = pure (arena.locate? a) := by
  have hused := h.used_le
  have hregions : ∀ r ∈ arena.regions, r.offset + r.size < 2 ^ 64 := by
    intro r hr
    obtain ⟨-, -, hend⟩ := h.region r hr
    omega
  rw [locate, Arena.locate?]
  by_cases hbefore : a.toNat < arena.base.toNat
  · simp only [hbefore, if_true, true_or]
  · rw [if_neg hbefore, add_eq (by omega), pure_bind]
    by_cases hafter : arena.base.toNat + arena.used ≤ a.toNat
    · simp only [hafter, hbefore, if_true, or_true]
    · simp only [hafter, hbefore, if_false, or_self]
      rw [sub_eq (by omega), pure_bind, find_eq hregions, pure_bind]

theorem target_eq {s : Space σ} (h : s.arena.IsPaved)
    (below : s.arena.base.toNat + s.arena.size < 2 ^ 64) (v : GuestAddress) :
    (target s v : Steps S (Option (Nat × Protection))) = pure (s.windowTarget v) := by
  rw [target, Space.windowTarget]
  cases s.virtual.get v with
  | memory distance => exact locate_eq h below _
  | _ => rfl

def walked (k : Window.Walk) : EStateM.Result Stop (Window × Journal) Unit :=
  ended k.refusal (k.window, k.journal)

section

variable {s : Space σ} (h : s.arena.IsPaved) (below : s.arena.base.toNat + s.arena.size < 2 ^ 64)

include h below

/-- One page is brought up to date as the walk visits it. -/
theorem syncPage_eq {k : Window.Walk} (going : k.refusal = none)
    (room : k.window.base.toNat + 2 ^ 32 ≤ 2 ^ 64) (v : GuestAddress) :
    syncPage s v (k.window, k.journal) = walked (k.visit v (s.windowTarget v)) := by
  have hv : v.page < 2 ^ 20 := v.page_lt
  have hb : k.window.base.toNat + v.pageBase.toNat < 2 ^ 64 := by
    have := v.pageBase.toNat_lt
    omega
  have hsync : ∀ r, k.window.sync v (s.windowTarget v) = r →
      (match r with
        | (.ok event, w) => set (w, event.elim k.journal k.journal.add)
        | (.error e, w) => do
          set (w, k.journal)
          throw (.host e) : Steps (Window × Journal) Unit) (k.window, k.journal) =
        walked (k.visit v (s.windowTarget v)) := by
    rintro ⟨event | e, w⟩ hr
    · rw [Window.Walk.visit_of_error going hr]
      rfl
    · rw [Window.Walk.visit_of_ok going hr, walked, going]
      rfl
  rw [syncPage, target_eq h below, pure_bind]
  show (index v.page (2 ^ 20) >>= fun _ => _) (k.window, k.journal) = _
  rw [index_eq hv, pure_bind]
  cases (s.windowTarget v).isSome || (k.window.aliases.offset? v).isSome with
  | true =>
    simp only [if_true, add_eq hb]
    exact hsync _ rfl
  | false =>
    simp only [Bool.false_eq_true, if_false]
    exact hsync _ rfl

/-- Page after page, as far as the host goes along. -/
theorem repeated_syncPage {k : Window.Walk} (going : k.refusal = none)
    (room : k.window.base.toNat + 2 ^ 32 ≤ 2 ^ 64) {v : GuestAddress} {size : UInt32}
    (hend : v.toNat + size.toNat ≤ 2 ^ 32) {n : Nat} (hn : n ≤ page size) :
    repeated (fun i => pageAt v i >>= syncPage s) n (k.window, k.journal) =
      walked (k.visitAll v s.windowTarget n) := by
  induction n with
  | zero =>
    show _ = walked k
    rw [walked, going]
    rfl
  | succ n ih =>
    have hbefore := ih (Nat.le_of_succ_le hn)
    rw [repeated, Window.Walk.visitAll_succ]
    cases hr : (k.visitAll v s.windowTarget n).refusal with
    | some e =>
      rw [walked, hr] at hbefore
      rw [bind_error hbefore, Window.Walk.visit_of_refused hr, walked, hr]
      rfl
    | none =>
      rw [walked, hr] at hbefore
      have hroom : (k.visitAll v s.windowTarget n).window.base.toNat + 2 ^ 32 ≤ 2 ^ 64 :=
        Window.Walk.visitAll_keeps (P := fun w => w.base.toNat + 2 ^ 32 ≤ 2 ^ 64) room
          fun w v target hw => (w.base_sync v target).symm ▸ hw
      rw [bind_ok hbefore, pageAt_eq hend hn, pure_bind]
      exact syncPage_eq h below hr hroom _

/-- The window follows without a trap, as far as the host goes along. -/
theorem syncWindow_eq (room : ∀ w, s.window = some w → w.base.toNat + 2 ^ 32 ≤ 2 ^ 64)
    {v : GuestAddress} {size : UInt32} (hend : v.toNat + size.toNat ≤ 2 ^ 32) :
    syncWindow v size s = ended (s.syncWindow v size).1 (s.syncWindow v size).2 := by
  rw [syncWindow, get_bind]
  cases hw : s.window with
  | none =>
    rw [Space.syncWindow, hw]
    rfl
  | some w =>
    have hwalk := repeated_syncPage h below (k := { window := w, journal := s.journal }) rfl
      (room w hw) hend (Nat.le_refl _)
    show onWindow w (repeated (fun i => pageAt v i >>= syncPage s) (page size)) s = _
    rw [onWindow, within, hwalk, walked, Space.syncWindow_eq_walk hw]
    simp only
    generalize Window.Walk.refusal _ = refusal
    cases refusal <;> rfl

end

end GuestMemory.Stepwise
