/-!
Tables over `d`-bit keys. A table is total: it starts constant and remembers only what was set,
so a table over a whole address space is as small as its history. Everything a caller needs is
`get` and the equations that say what an update does to it.
-/
namespace GuestMemory

/-- A total map from `d`-bit keys; `all a` maps every key to `a`. -/
inductive Table (α : Type) : Nat → Type where
  | all {d : Nat} (a : α) : Table α d
  | node {d : Nat} (low high : Table α d) : Table α (d + 1)
  deriving Repr

namespace Table

variable {α : Type}

instance [Inhabited α] {d : Nat} : Inhabited (Table α d) := ⟨.all default⟩

/-- Only the low `d` bits of the key count. -/
def get {d : Nat} : Table α d → Nat → α
  | .all a, _ => a
  | .node (d := n) low high, k => if k.testBit n then high.get k else low.get k

def modify (f : α → α) : {d : Nat} → Table α d → Nat → Table α d
  | 0, .all a, _ => .all (f a)
  | n + 1, .all a, k =>
    if k.testBit n then .node (.all a) (modify f (.all a) k)
    else .node (modify f (.all a) k) (.all a)
  | n + 1, .node low high, k =>
    if k.testBit n then .node low (modify f high k) else .node (modify f low k) high

def set {d : Nat} (t : Table α d) (k : Nat) (a : α) : Table α d :=
  t.modify (fun _ => a) k

/-- Sets the `count` keys from `first` on, key `first + i` to `f i`. -/
def fill {d : Nat} (t : Table α d) (first count : Nat) (f : Nat → α) : Table α d :=
  count.fold (fun i _ t => t.set (first + i) (f i)) t

/-- Sum of `f` over the values of all keys. -/
def sum (f : α → Nat) : {d : Nat} → Table α d → Nat
  | d, .all a => Nat.pow 2 d * f a
  | _, .node low high => low.sum f + high.sum f

@[simp] theorem get_all {d : Nat} (a : α) (k : Nat) : (all a : Table α d).get k = a := rfl

theorem get_node {d : Nat} (low high : Table α d) (k : Nat) :
    (node low high).get k = if k.testBit d then high.get k else low.get k := rfl

theorem mod_two_pow_succ_eq_iff (d i j : Nat) :
    i % Nat.pow 2 (d + 1) = j % Nat.pow 2 (d + 1) ↔
      i.testBit d = j.testBit d ∧ i % Nat.pow 2 d = j % Nat.pow 2 d := by
  show i % 2 ^ (d + 1) = j % 2 ^ (d + 1) ↔ i.testBit d = j.testBit d ∧ i % 2 ^ d = j % 2 ^ d
  rw [Nat.mod_pow_succ, Nat.mod_pow_succ, Nat.testBit_eq_decide_div_mod_eq,
    Nat.testBit_eq_decide_div_mod_eq, decide_eq_decide]
  have hi := Nat.mod_lt i (Nat.two_pow_pos d)
  have hj := Nat.mod_lt j (Nat.two_pow_pos d)
  rcases Nat.mod_two_eq_zero_or_one (i / 2 ^ d) with h | h <;>
    rcases Nat.mod_two_eq_zero_or_one (j / 2 ^ d) with h' | h' <;> simp [h, h'] <;> omega

theorem get_modify_mod (f : α → α) {d : Nat} (t : Table α d) (i j : Nat) :
    (t.modify f i).get j = if i % Nat.pow 2 d = j % Nat.pow 2 d then f (t.get j) else t.get j := by
  induction d with
  | zero =>
    cases t with
    | all a => simp [modify, Nat.mod_one]
  | succ d ih =>
    simp only [mod_two_pow_succ_eq_iff]
    cases t with
    | all a =>
      cases hi : i.testBit d <;> cases hj : j.testBit d <;> simp [modify, get_node, hi, hj, ih]
    | node low high =>
      cases hi : i.testBit d <;> cases hj : j.testBit d <;> simp [modify, get_node, hi, hj, ih]

theorem get_modify (f : α → α) {d : Nat} (t : Table α d) {i j : Nat}
    (hi : i < Nat.pow 2 d) (hj : j < Nat.pow 2 d) :
    (t.modify f i).get j = if i = j then f (t.get j) else t.get j := by
  rw [get_modify_mod, Nat.mod_eq_of_lt hi, Nat.mod_eq_of_lt hj]

theorem get_set {d : Nat} (t : Table α d) {i j : Nat} (a : α)
    (hi : i < Nat.pow 2 d) (hj : j < Nat.pow 2 d) :
    (t.set i a).get j = if i = j then a else t.get j :=
  get_modify _ t hi hj

theorem fill_zero {d : Nat} (t : Table α d) (first : Nat) (f : Nat → α) :
    t.fill first 0 f = t := rfl

theorem fill_succ {d : Nat} (t : Table α d) (first n : Nat) (f : Nat → α) :
    t.fill first (n + 1) f = (t.fill first n f).set (first + n) (f n) := by
  simp [fill, Nat.fold_succ]

theorem get_fill {d : Nat} (t : Table α d) {first count j : Nat} (f : Nat → α)
    (hc : first + count ≤ Nat.pow 2 d) (hj : j < Nat.pow 2 d) :
    (t.fill first count f).get j =
      if first ≤ j ∧ j < first + count then f (j - first) else t.get j := by
  induction count with
  | zero => rw [fill_zero, if_neg (by omega)]
  | succ n ih =>
    rw [fill_succ, get_set _ _ (by omega) hj, ih (by omega)]
    by_cases h : first + n = j
    · subst h
      simp
    · rw [if_neg h]
      by_cases h' : first ≤ j ∧ j < first + n
      · rw [if_pos h', if_pos (by omega)]
      · rw [if_neg h', if_neg (by omega)]

end Table

end GuestMemory
