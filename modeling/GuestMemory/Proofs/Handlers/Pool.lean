import GuestMemory.Proofs.Space.Bystanders
import Mathlib.Logic.Relation
import Mathlib.Tactic.SplitIfs

/-!
What becomes of the handlers of a space. An access changes the state of one of them, registering and
reassigning put a handler into a slot, and no other call touches them.
-/
namespace GuestMemory

namespace Handler

variable {σ : Type}

inductive Answers (h : Handler σ) : Handler σ → Prop where
  | read (w : Width) (a : GuestAddress) : Answers h (h.read w a).2.1
  | write {w : Width} (a : GuestAddress) (x : Word w) : Answers h (h.write a x).1

/-- What a handler is after some accesses. -/
abbrev Evolves : Handler σ → Handler σ → Prop := Relation.ReflTransGen Answers

end Handler

namespace HandlerTable

variable {σ : Type} {t t' t'' : HandlerTable σ}

theorem contains_iff {id : HandlerId} : t.contains id = true ↔ ∃ h, t.get? id = some h := by
  rw [contains, decide_eq_true_eq, get?]
  constructor
  · exact fun h => ⟨_, Array.getElem?_eq_getElem h⟩
  · rintro ⟨h, hh⟩
    exact (Array.getElem?_eq_some_iff.1 hh).1

def put (t : HandlerTable σ) (id : HandlerId) (h : Handler σ) : HandlerTable σ :=
  { t with slots := t.slots.setIfInBounds id.val h }

def push (t : HandlerTable σ) (h : Handler σ) : HandlerTable σ := { t with slots := t.slots.push h }

theorem get?_put {id : HandlerId} (h : t.contains id = true) (new : Handler σ) (i : HandlerId) :
    (t.put id new).get? i = if id = i then some new else t.get? i := by
  rw [contains, decide_eq_true_eq] at h
  rw [get?, put, Array.getElem?_setIfInBounds, if_pos h]
  simp only [Fin.val_inj]
  rfl

theorem get?_push (new : Handler σ) (i : HandlerId) :
    (t.push new).get? i = if i.val = t.slots.size then some new else t.get? i :=
  Array.getElem?_push

/-- The same slots, each with what its handler has become by accesses. -/
structure Evolves (t t' : HandlerTable σ) : Prop where
  size_eq : t'.slots.size = t.slots.size
  slot : ∀ id h, t.get? id = some h → ∃ h', t'.get? id = some h' ∧ h.Evolves h'

theorem Evolves.refl (t : HandlerTable σ) : t.Evolves t := ⟨rfl, fun _ h hh => ⟨h, hh, .refl⟩⟩

theorem Evolves.of_eq (h : t' = t) : t.Evolves t' := h ▸ .refl t

theorem Evolves.trans (h : t.Evolves t') (h' : t'.Evolves t'') : t.Evolves t'' := by
  refine ⟨h'.size_eq.trans h.size_eq, fun id a ha => ?_⟩
  obtain ⟨b, hb, hab⟩ := h.slot id a ha
  obtain ⟨c, hc, hbc⟩ := h'.slot id b hb
  exact ⟨c, hc, hab.trans hbc⟩

/-- One handler answers. -/
theorem Evolves.put {id : HandlerId} {h h' : Handler σ} (hg : t.get? id = some h)
    (ha : h.Answers h') : t.Evolves (t.put id h') := by
  refine ⟨Array.size_setIfInBounds, fun i k hk => ?_⟩
  rw [get?_put (contains_iff.2 ⟨h, hg⟩)]
  split
  · rename_i he
    subst he
    cases hg.symm.trans hk
    exact ⟨h', rfl, .single ha⟩
  · exact ⟨k, hk, .refl⟩

theorem evolves_read (t : HandlerTable σ) (id : HandlerId) (w : Width) (a : GuestAddress) :
    t.Evolves (t.read id w a).2.1 := by
  rw [read]
  cases hg : t.get? id with
  | none => exact .refl t
  | some h => exact .put hg (.read w a)

theorem evolves_write {w : Width} (t : HandlerTable σ) (id : HandlerId) (a : GuestAddress)
    (x : Word w) : t.Evolves (t.write id a x).1 := by
  rw [write]
  cases hg : t.get? id with
  | none => exact .refl t
  | some h => exact .put hg (.write a x)

end HandlerTable

namespace Space

variable {σ : Type} {s : Space σ} {w : Width} {v : GuestAddress}

@[simp] theorem handlers_raise (s : Space σ) (e : GuestException) :
    (s.raise e).handlers = s.handlers := by
  rw [raise]
  split <;> rfl

/-- All that an access does to the handlers is to let them answer. -/
theorem accessKeeps_evolves (t : HandlerTable σ) :
    AccessKeeps fun s : Space σ => t.Evolves s.handlers where
  store _ _ h := h
  readCached _ _ h := h
  writeCached _ _ _ h := h
  readHandler id w p h := h.trans (HandlerTable.evolves_read _ id w p)
  writeHandler id p x h := h.trans (HandlerTable.evolves_write _ id p x)
  raise e h := h.trans (.of_eq (handlers_raise _ e))

theorem evolves_readBytes (s : Space σ) (v : GuestAddress) (n : Nat) :
    s.handlers.Evolves (s.readBytes v n).2.handlers :=
  (accessKeeps_evolves s.handlers).readBytes (.refl _) v n

theorem evolves_writeBytes (s : Space σ) (v : GuestAddress) (bs : List UInt8) :
    s.handlers.Evolves (s.writeBytes v bs).handlers :=
  (accessKeeps_evolves s.handlers).writeBytes (.refl _) v bs

/-- Calls that may let a handler answer. -/
def Command.IsAccess : Command σ → Prop
  | .read .. | .write .. | .readHandler .. | .writeHandler .. => True
  | _ => False

/-- Calls that put a handler into a slot. -/
def Command.Places : Command σ → Prop
  | .register _ | .reassign .. | .install _ => True
  | _ => False

theorem perform_register (s : Space σ) (h : Handler σ) :
    s.perform (.register h) =
      if free : s.handlers.slots.size < maxHandlers then
        (.slot ⟨s.handlers.slots.size, free⟩, { s with handlers := s.handlers.push h })
      else (.refused (.map .handlerPoolExhausted), s) := by
  rw [perform, performRegister, register, HandlerTable.register]
  split_ifs <;> rfl

theorem perform_reassign (s : Space σ) (id : HandlerId) (h : Handler σ) :
    s.perform (.reassign id h) =
      match s.handlers.get? id with
      | some old => (.replaced old, { s with handlers := s.handlers.put id h })
      | none => (.refused (.map (.unknownHandler .reassign id)), s) := by
  rw [perform, performReassign, reassign, HandlerTable.reassign]
  cases s.handlers.get? id <;> rfl

/-- All other calls leave the handlers. -/
theorem handlers_perform {c : Command σ} (hp : ¬c.Places) (ha : ¬c.IsAccess) :
    (s.perform c).2.handlers = s.handlers := by
  have aside : c.StandsBy → (s.perform c).2.handlers = s.handlers := fun h =>
    congrArg Prod.fst (bystanders_perform h)
  cases c with
  | takeException => rfl
  | reset =>
    obtain ⟨window, journal, h⟩ := s.exists_reset_eq
    rw [perform, h]
  | register | reassign | install => exact absurd trivial hp
  | read | write | readHandler | writeHandler => exact absurd trivial ha
  | _ => exact aside trivial

/-- A call that puts no handler into a slot only lets those that are there answer. -/
theorem evolves_perform {c : Command σ} (hp : ¬c.Places) :
    s.handlers.Evolves (s.perform c).2.handlers := by
  by_cases ha : c.IsAccess
  · cases c with
    | read w v => exact (accessKeeps_evolves s.handlers).read (.refl _) w v
    | write w v x => exact (accessKeeps_evolves s.handlers).write (.refl _) v x
    | readHandler id w a =>
      rw [perform]
      split
      · exact s.handlers.evolves_read id w a
      · exact .refl _
    | writeHandler id w a x =>
      rw [perform]
      split
      · exact s.handlers.evolves_write id a x
      · exact .refl _
    | _ => exact absurd ha id
  · exact .of_eq (handlers_perform hp ha)

end Space

end GuestMemory
