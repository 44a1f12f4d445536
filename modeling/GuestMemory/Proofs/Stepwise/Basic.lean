import GuestMemory.Error
import Mathlib.Algebra.Group.Nat.Defs

/-!
Calls as a machine makes them: operation after operation on one state, with numbers that have to fit
into words. A sum, difference or product that does not fit, an index past the end of a table and a
division by zero trap; bad arguments are refused, and the host may refuse its part. Whatever was done
before a call stops stays done.
-/
namespace GuestMemory.Stepwise

inductive Trap where
  | overflow | index | division
  deriving DecidableEq, Repr

inductive Stop where
  | trap (t : Trap)
  | refused (e : MapError)
  | host (e : ArenaError)
  deriving DecidableEq, Repr

abbrev Steps (S α : Type) := EStateM Stop S α

variable {S α β : Type}

def refuse (e : MapError) : Steps S α := throw (.refused e)

/-- Goes on if `p` holds, and traps otherwise. -/
def demand (t : Trap) (p : Prop) [Decidable p] : Steps S Unit :=
  if p then pure () else throw (.trap t)

def add (bits a b : Nat) : Steps S Nat := do
  demand .overflow (a + b < 2 ^ bits)
  return a + b

def sub (a b : Nat) : Steps S Nat := do
  demand .overflow (b ≤ a)
  return a - b

def mul (bits a b : Nat) : Steps S Nat := do
  demand .overflow (a * b < 2 ^ bits)
  return a * b

def rem (a b : Nat) : Steps S Nat := do
  demand .division (b ≠ 0)
  return a % b

def index (i n : Nat) : Steps S Unit := demand .index (i < n)

def slice (first last n : Nat) : Steps S Unit := demand .index (first ≤ last ∧ last ≤ n)

/-- `f` for the first `n` numbers, one after the other. -/
def repeated (f : Nat → Steps S Unit) : Nat → Steps S Unit
  | 0 => pure ()
  | n + 1 => do
    repeated f n
    f n

def within (part : S → α) (put : S → α → S) (f : Steps α Unit) : Steps S Unit := fun s =>
  match f (part s) with
  | .ok () a => .ok () (put s a)
  | .error e a => .error e (put s a)

/-- What operations come to that have a result or are refused, and are refused before they change
anything. -/
def answer (result : Except MapError S) (s : S) : EStateM.Result Stop S Unit :=
  match result with
  | .ok t => .ok () t
  | .error e => .error (.refused e) s

/-- What operations come to that go on as long as the host does not refuse. -/
def ended (refusal : Option ArenaError) (t : S) : EStateM.Result Stop S Unit :=
  match refusal with
  | none => .ok () t
  | some e => .error (.host e) t

/-- What operations come to that are refused before they change anything, or go on as long as the host
does not refuse. -/
def followed (result : Except MapError (Option ArenaError × S)) (s : S) :
    EStateM.Result Stop S Unit :=
  match result with
  | .ok (refusal, t) => ended refusal t
  | .error e => .error (.refused e) s

def checked (result : Except MapError Unit) : Steps S Unit :=
  match result with
  | .ok () => pure ()
  | .error e => refuse e

section

variable {s t : S} {a b n : Nat}

theorem bind_ok {f : Steps S α} {g : α → Steps S β} {x : α} (h : f s = .ok x t) :
    (f >>= g) s = g x t := by
  simp only [Bind.bind, EStateM.bind, h]

theorem bind_error {f : Steps S α} {g : α → Steps S β} {e : Stop} (h : f s = .error e t) :
    (f >>= g) s = .error e t := by
  simp only [Bind.bind, EStateM.bind, h]

theorem demand_eq {trap : Trap} {p : Prop} [Decidable p] (h : p) :
    (demand trap p : Steps S Unit) = pure () := by
  rw [demand, if_pos h]

theorem add_eq {bits : Nat} (h : a + b < 2 ^ bits) :
    (add bits a b : Steps S Nat) = pure (a + b) := by
  rw [add, demand_eq h, pure_bind]

theorem sub_eq (h : b ≤ a) : (sub a b : Steps S Nat) = pure (a - b) := by
  rw [sub, demand_eq h, pure_bind]

theorem mul_eq {bits : Nat} (h : a * b < 2 ^ bits) :
    (mul bits a b : Steps S Nat) = pure (a * b) := by
  rw [mul, demand_eq h, pure_bind]

theorem rem_eq (h : b ≠ 0) : (rem a b : Steps S Nat) = pure (a % b) := by
  rw [rem, demand_eq h, pure_bind]

theorem index_eq {i : Nat} (h : i < n) : (index i n : Steps S Unit) = pure () := demand_eq h

theorem slice_eq (hle : a ≤ b) (hn : b ≤ n) : (slice a b n : Steps S Unit) = pure () :=
  demand_eq ⟨hle, hn⟩

theorem get_bind (g : S → Steps S α) (s : S) : (get >>= g) s = g s s := rfl

/-- What operations on a part come to, they come to for the whole. -/
theorem within_answer {part : S → α} {put : S → α → S} {f : Steps α Unit}
    {result : Except MapError α} (keep : put s (part s) = s)
    (h : f (part s) = answer result (part s)) :
    within part put f s = answer (result >>= fun a => pure (put s a)) s := by
  rw [within, h]
  cases result with
  | ok a => rfl
  | error e => exact congrArg (EStateM.Result.error (Stop.refused e)) keep

/-- The host has no part in what is answered without it. -/
theorem answer_eq_followed (result : Except MapError S) (s : S) :
    answer result s = followed (result.map fun t => (none, t)) s := by
  cases result <;> rfl

/-- A loop goes through a series of states if each of its rounds leads from one to the next. -/
theorem repeated_eq_ok {round : Nat → Steps S Unit} (state : Nat → S)
    (h : ∀ i < n, round i (state i) = .ok () (state (i + 1))) :
    repeated round n (state 0) = .ok () (state n) := by
  induction n with
  | zero => rfl
  | succ n ih =>
    rw [repeated, bind_ok (ih fun i hi => h i (Nat.lt_succ_of_lt hi))]
    exact h n (Nat.lt_succ_self n)

end

end GuestMemory.Stepwise
