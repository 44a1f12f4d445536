import GuestMemory.Device
import GuestMemory.Error

/-!
Registered handlers. Slot 0 holds the default handler; further slots are handed out in order and
never reused, so a page that names a slot follows whatever is put there later.
-/
namespace GuestMemory

/-- What answers the accesses of a page that is not memory. -/
inductive Handler (σ : Type) where
  /-- Reads zero, drops writes, and reports the first accesses, as many as the budget allows. -/
  | fallback (budget : Nat)
  /-- Reads zero and drops writes. -/
  | null
  | device (dev : Device σ) (state : σ)

/-- What can be noticed of an access to a handler. -/
inductive HandlerAct where
  | call (c : DeviceCall)
  | stray (isStore : Bool) (w : Width) (address : GuestAddress)
  deriving DecidableEq, Repr

namespace Handler

variable {σ : Type}

/-- The default handler as it is first installed. -/
def initial : Handler σ := .fallback 50

instance : Inhabited (Handler σ) := ⟨initial⟩

/-- The device behind a handler, if it is one. -/
def state? : Handler σ → Option σ
  | device _ s => some s
  | _ => none

def read (h : Handler σ) (w : Width) (a : GuestAddress) : Word w × Handler σ × List HandlerAct :=
  match h with
  | .fallback 0 => (0, h, [])
  | .fallback (n + 1) => (0, .fallback n, [.stray false w a])
  | .null => (0, .null, [])
  | .device dev s =>
    let (x, s, calls) := dev.read w a s
    (x, .device dev s, calls.map .call)

def write {w : Width} (h : Handler σ) (a : GuestAddress) (x : Word w) :
    Handler σ × List HandlerAct :=
  match h with
  | .fallback 0 => (h, [])
  | .fallback (n + 1) => (.fallback n, [.stray true w a])
  | .null => (.null, [])
  | .device dev s =>
    let (s, calls) := dev.write a x s
    (.device dev s, calls.map .call)

end Handler

structure HandlerTable (σ : Type) where
  slots : Array (Handler σ) := #[.initial]

namespace HandlerTable

variable {σ : Type}

def size (t : HandlerTable σ) : Nat := t.slots.size

def isEmpty (t : HandlerTable σ) : Bool := t.slots.isEmpty

def contains (t : HandlerTable σ) (id : HandlerId) : Bool := id.val < t.slots.size

def get? (t : HandlerTable σ) (id : HandlerId) : Option (Handler σ) := t.slots[id.val]?

/-- Takes the next free slot. -/
def register (t : HandlerTable σ) (h : Handler σ) : Except MapError (HandlerId × HandlerTable σ) :=
  if free : t.slots.size < maxHandlers then
    .ok (⟨t.slots.size, free⟩, { t with slots := t.slots.push h })
  else .error .handlerPoolExhausted

/-- Puts another handler into a slot and gives back the one that was there. -/
def reassign (t : HandlerTable σ) (id : HandlerId) (h : Handler σ) :
    Except MapError (Handler σ × HandlerTable σ) :=
  match t.get? id with
  | some old => .ok (old, { t with slots := t.slots.setIfInBounds id.val h })
  | none => .error (.unknownHandler .reassign id)

/-- An empty slot reads zero. -/
def read (t : HandlerTable σ) (id : HandlerId) (w : Width) (a : GuestAddress) :
    Word w × HandlerTable σ × List HandlerAct :=
  match t.get? id with
  | some h =>
    let (x, h, acts) := h.read w a
    (x, { t with slots := t.slots.setIfInBounds id.val h }, acts)
  | none => (0, t, [])

/-- An empty slot drops writes. -/
def write {w : Width} (t : HandlerTable σ) (id : HandlerId) (a : GuestAddress) (x : Word w) :
    HandlerTable σ × List HandlerAct :=
  match t.get? id with
  | some h =>
    let (h, acts) := h.write a x
    ({ t with slots := t.slots.setIfInBounds id.val h }, acts)
  | none => (t, [])

end HandlerTable

end GuestMemory
