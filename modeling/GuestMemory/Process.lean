import GuestMemory.Space.Command

/-!
A process with several address spaces. Host faults are offered to one of them at most: the latest
one that got a window, until that window is released.
-/
namespace GuestMemory

structure Process (σ : Type) where
  /-- Live spaces, each under its number. -/
  spaces : List (Nat × Space σ) := []
  /-- Number of the next space. -/
  next : Nat := 0
  /-- The space that host faults are offered to. -/
  route : Option Nat := none

namespace Process

variable {σ : Type}

instance : Inhabited (Process σ) := ⟨{}⟩

def space? (p : Process σ) (id : Nat) : Option (Space σ) := p.spaces.lookup id

def setSpace (p : Process σ) (id : Nat) (s : Space σ) : Process σ :=
  { p with spaces := p.spaces.map fun (i, t) => (i, if i = id then s else t) }

/-- Routes host faults to a space, whichever had them. -/
def activate (p : Process σ) (id : Nat) : Process σ := { p with route := some id }

/-- Takes host faults from a space, if it is the one that has them. -/
def deactivate (p : Process σ) (id : Nat) : Process σ :=
  if p.route = some id then { p with route := none } else p

/-- Adds a fresh space, which takes over the host faults if it has a window. -/
def create (p : Process σ) (place : Placement) (settings : Settings) (level : Option Level)
    (kernel : Kernel := .linux) : Except (Failure ArenaError) (Nat × Process σ) := do
  let s ← Space.create place settings level p.route.isSome kernel
  let id := p.next
  let p := { p with spaces := (id, s) :: p.spaces, next := id + 1 }
  return (id, if s.window.isSome then p.activate id else p)

/-- A call of a live space. If it releases the window, host faults no longer go there. -/
def call (p : Process σ) (id : Nat) (c : Space.Command σ) :
    Option (Space.Reply σ × Process σ) := do
  let s ← p.space? id
  let (reply, s') := s.step c
  let p := p.setSpace id s'
  return (reply, if s.window.isSome && s'.window.isNone then p.deactivate id else p)

/-- Ends the life of a space, which first shuts it down. -/
def drop (p : Process σ) (id : Nat) : Option (Space.Reply σ × Process σ) := do
  let (reply, p) ← p.call id .shutdown
  return (reply, { p with spaces := p.spaces.filter (·.1 != id) })

/-- Offers a host fault to the space that has the route; `none` if there is none. -/
def fault (p : Process σ) (pc a : HostAddress) : Option (Space.Reply σ × Process σ) := do
  p.call (← p.route) (.fault pc a)

/-- What can happen in a process. -/
inductive Command (σ : Type) where
  | create (place : Placement) (settings : Settings) (level : Option Level) (kernel : Kernel)
  | call (id : Nat) (c : Space.Command σ)
  | drop (id : Nat)
  | fault (pc a : HostAddress)

/-- One event. What is refused, or names a space that is not alive, changes nothing. -/
def step (p : Process σ) : Command σ → Process σ
  | .create place settings level kernel =>
    match p.create place settings level kernel with
    | .ok (_, p) => p
    | .error _ => p
  | .call id c => ((p.call id c).map Prod.snd).getD p
  | .drop id => ((p.drop id).map Prod.snd).getD p
  | .fault pc a => ((p.fault pc a).map Prod.snd).getD p

def run (p : Process σ) (cs : List (Command σ)) : Process σ := cs.foldl step p

end Process

end GuestMemory
