import GuestMemory.Proofs.Handlers.Pool
import GuestMemory.Proofs.Space.History

/-!
What the calls say about the slots. A roster has the handler that was put last into each slot, as the
calls and their answers tell; the handlers of a space are those of its roster, each as the accesses to
it have left it. The slots are handed out one after the other.
-/
namespace GuestMemory

/-- The handler that was put last into each slot. -/
abbrev Roster (σ : Type) := HandlerId → Option (Handler σ)

namespace Roster

variable {σ : Type} {s : Space σ} {c : Space.Command σ} {r : Roster σ}

def initial : Roster σ := fun id => if id = defaultHandler then some .initial else none

def put (r : Roster σ) (id : HandlerId) (h : Handler σ) : Roster σ :=
  fun i => if id = i then some h else r i

/-- A handler is put into a slot if the call succeeds. -/
def record (r : Roster σ) : Space.Command σ → Space.Answer σ → Roster σ
  | .register h, .slot id => r.put id h
  | .reassign id h, .replaced _ => r.put id h
  | _, _ => r

def follow (r : Roster σ) (s : Space σ) : List (Space.Command σ) → Roster σ
  | [] => r
  | c :: cs => (r.record c (s.step c).1.answer).follow (s.step c).2 cs

/-- The slots of a roster are those in use, each with a handler that is related to its entry. -/
def Lists (R : Handler σ → Handler σ → Prop) (r : Roster σ) (t : HandlerTable σ) : Prop :=
  ∀ id, Option.Rel R (r id) (t.get? id)

variable {R : Handler σ → Handler σ → Prop}

theorem lists_initial (refl : ∀ h, R h h) : Lists R initial ({} : HandlerTable σ) := by
  intro id
  by_cases h : id = defaultHandler
  · subst h
    exact .some (refl _)
  · have hv : id.val ≠ 0 := fun hv => h (Fin.ext hv)
    have hn : ({} : HandlerTable σ).get? id = none := by
      simp only [HandlerTable.get?, Array.getElem?_eq_none_iff]
      exact Nat.pos_of_ne_zero hv
    rw [initial, if_neg h, hn]
    exact .none

theorem Lists.put {t : HandlerTable σ} (h : Lists R r t) (refl : ∀ h, R h h) {id : HandlerId}
    (hc : t.contains id = true) (new : Handler σ) : Lists R (r.put id new) (t.put id new) := by
  intro i
  rw [Roster.put, HandlerTable.get?_put hc]
  split
  · exact .some (refl new)
  · exact h i

theorem Lists.push {t : HandlerTable σ} (h : Lists R r t) (refl : ∀ h, R h h)
    (free : t.slots.size < maxHandlers) (new : Handler σ) :
    Lists R (r.put ⟨t.slots.size, free⟩ new) (t.push new) := by
  intro i
  rw [Roster.put, HandlerTable.get?_push]
  by_cases hi : i.val = t.slots.size
  · rw [if_pos hi, if_pos (Fin.ext hi.symm)]
    exact .some (refl new)
  · rw [if_neg hi, if_neg fun he => hi (by rw [← he])]
    exact h i

/-- A roster goes on to list handlers that answer. -/
theorem Lists.evolve {t t' : HandlerTable σ} (h : Lists Handler.Evolves r t) (he : t.Evolves t') :
    Lists Handler.Evolves r t' := by
  intro id
  have hid := h id
  cases hg : t.get? id with
  | none =>
    have hn : t'.get? id = none := by
      rw [HandlerTable.get?, Array.getElem?_eq_none_iff] at hg ⊢
      rwa [he.size_eq]
    rw [hg] at hid
    rw [hn]
    exact hid
  | some a =>
    obtain ⟨b, hb, hab⟩ := he.slot id a hg
    rw [hg] at hid
    rw [hb]
    cases hr : r id with
    | none =>
      rw [hr] at hid
      cases hid
    | some a₀ =>
      rw [hr] at hid
      cases hid with
      | some h₀ => exact .some (h₀.trans hab)

theorem record_of_not_places (h : ¬c.Places) (a : Space.Answer σ) : r.record c a = r := by
  cases c <;> first | rfl | exact absurd trivial h

/-- One call keeps the roster up to date, if it does where it puts no handler anywhere. -/
theorem Lists.perform (h : Lists R r s.handlers) (refl : ∀ h, R h h) (hi : ¬c.IsInstall)
    (kept : ¬c.Places → Lists R r (s.perform c).2.handlers) :
    Lists R (r.record c (s.perform c).1) (s.perform c).2.handlers := by
  by_cases hp : c.Places
  · cases c with
    | register handler =>
      rw [Space.perform_register]
      split
      · rename_i free
        exact h.push refl free handler
      · exact h
    | reassign id handler =>
      rw [Space.perform_reassign]
      cases hg : s.handlers.get? id with
      | some old => exact h.put refl (HandlerTable.contains_iff.2 ⟨old, hg⟩) handler
      | none => exact h
    | install => exact absurd trivial hi
    | _ => exact absurd hp not_false
  · rw [record_of_not_places hp]
    exact kept hp

/-- Over a history the slots are those of the roster, with what accesses have made of the handlers. -/
theorem lists_follow (h : Lists Handler.Evolves r s.handlers) (calls : List (Space.Command σ))
    (hc : ∀ c ∈ calls, ¬c.IsInstall) :
    Lists Handler.Evolves (r.follow s calls) (s.run calls).2.handlers := by
  induction calls generalizing s r with
  | nil => exact h
  | cons c cs ih =>
    have hstep : Lists Handler.Evolves (r.record c (s.step c).1.answer) (s.step c).2.handlers :=
      h.perform (s := s.drained) (fun _ => .refl) (hc c (by simp)) fun hp =>
        h.evolve (Space.evolves_perform (s := s.drained) hp)
    exact ih hstep fun d hd => hc d (by simp [hd])

/-- Where there were no accesses they are still what they were. -/
theorem lists_follow_eq (h : Lists Eq r s.handlers) (calls : List (Space.Command σ))
    (hc : ∀ c ∈ calls, ¬c.IsInstall) (ha : ∀ c ∈ calls, ¬c.IsAccess) :
    Lists Eq (r.follow s calls) (s.run calls).2.handlers := by
  induction calls generalizing s r with
  | nil => exact h
  | cons c cs ih =>
    have hstep : Lists Eq (r.record c (s.step c).1.answer) (s.step c).2.handlers :=
      h.perform (s := s.drained) (fun _ => rfl) (hc c (by simp)) fun hp => by
        rw [Space.handlers_perform hp (ha c (by simp))]
        exact h
    exact ih hstep (fun d hd => hc d (by simp [hd])) fun d hd => ha d (by simp [hd])

end Roster

namespace Space

variable {σ : Type} {s : Space σ}

def granted : Command σ → Answer σ → Option HandlerId
  | .register _, .slot id => some id
  | _, _ => none

def handedOut (s : Space σ) : List (Command σ) → List HandlerId
  | [] => []
  | c :: cs => (granted c (s.step c).1.answer).toList ++ (s.step c).2.handedOut cs

/-- A call hands out the next slot or leaves their number. -/
theorem granted_perform {c : Command σ} (hi : ¬c.IsInstall) :
    (granted c (s.perform c).1 = none ∧
      (s.perform c).2.handlers.slots.size = s.handlers.slots.size) ∨
    (∃ id, granted c (s.perform c).1 = some id ∧ id.val = s.handlers.slots.size ∧
      (s.perform c).2.handlers.slots.size = s.handlers.slots.size + 1) := by
  by_cases hp : c.Places
  · cases c with
    | register handler =>
      rw [perform_register]
      split
      · exact .inr ⟨_, rfl, rfl, Array.size_push _⟩
      · exact .inl ⟨rfl, rfl⟩
    | reassign id handler =>
      rw [perform_reassign]
      cases s.handlers.get? id with
      | some old => exact .inl ⟨rfl, Array.size_setIfInBounds⟩
      | none => exact .inl ⟨rfl, rfl⟩
    | install => exact absurd trivial hi
    | _ => exact absurd hp not_false
  · refine .inl ⟨?_, (evolves_perform hp).size_eq⟩
    cases c <;> first | rfl | exact absurd trivial hp

/-- Slots are handed out in order, from the first free one on, and are all that is added. -/
theorem handedOut_eq (s : Space σ) (calls : List (Command σ))
    (hc : ∀ c ∈ calls, ¬c.IsInstall) :
    (s.handedOut calls).map Fin.val =
        List.range' s.handlers.slots.size (s.handedOut calls).length ∧
      (s.run calls).2.handlers.slots.size =
        s.handlers.slots.size + (s.handedOut calls).length := by
  induction calls generalizing s with
  | nil => exact ⟨rfl, rfl⟩
  | cons c cs ih =>
    obtain ⟨hmap, hsize⟩ := ih (s.step c).2 fun d hd => hc d (by simp [hd])
    have hrun : (s.run (c :: cs)).2 = ((s.step c).2.run cs).2 := rfl
    rcases granted_perform (s := s.drained) (hc c (by simp)) with ⟨hg, hn⟩ | ⟨id, hg, hid, hn⟩
    · have hn' : (s.step c).2.handlers.slots.size = s.handlers.slots.size := hn
      have hg' : granted c (s.step c).1.answer = none := hg
      rw [hrun, handedOut, hg', Option.toList_none, List.nil_append, ← hn']
      exact ⟨hmap, hsize⟩
    · have hn' : (s.step c).2.handlers.slots.size = s.handlers.slots.size + 1 := hn
      have hg' : granted c (s.step c).1.answer = some id := hg
      have hid' : id.val = s.handlers.slots.size := hid
      rw [hrun, handedOut, hg', Option.toList_some, List.singleton_append, List.map_cons,
        List.length_cons, List.range'_succ, hmap, hsize, hn', hid']
      exact ⟨rfl, by omega⟩

end Space

end GuestMemory
