import GuestMemory.Proofs.Cache.Aligned

/-!
Stores to one line as the stores of their parts. A line that is replaced twice has what was put last,
and bytes stored one after the other are the bytes stored at once: the tables that result are the
same, and not only alike at every key.
-/
namespace GuestMemory

namespace Table

variable {α : Type}

theorem modify_modify (f g : α → α) {d : Nat} (t : Table α d) (k : Nat) :
    (t.modify g k).modify f k = t.modify (f ∘ g) k := by
  induction d with
  | zero =>
    cases t with
    | all a => rfl
  | succ d ih =>
    cases t with
    | all a => cases hk : k.testBit d <;> simp [modify, hk, ih]
    | node low high => cases hk : k.testBit d <;> simp [modify, hk, ih]

/-- The first key of a run, and then the others. -/
theorem fill_cons {d : Nat} (t : Table α d) (first n : Nat) (f : Nat → α) :
    t.fill first (n + 1) f = (t.set first (f 0)).fill (first + 1) n fun i => f (i + 1) := by
  induction n with
  | zero => rfl
  | succ n ih =>
    rw [fill_succ, ih, fill_succ, Nat.add_right_comm, Nat.add_assoc]

end Table

namespace Cache

theorem LineSet.setLine_setLine (s : LineSet) (way : Way) (l l' : Line) :
    (s.setLine way l).setLine way l' = s.setLine way l' := by
  by_cases h : way = 0 <;> simp [setLine, h]

theorem setLine_setLine (c : Cache) (i : Nat) (way : Way) (l l' : Line) :
    (c.setLine i way l).setLine i way l' = c.setLine i way l' := by
  have hf : (LineSet.setLine · way l') ∘ (LineSet.setLine · way l) = (LineSet.setLine · way l') :=
    funext fun s => s.setLine_setLine way l l'
  simp only [setLine, Table.modify_modify, hf]

theorem Line.stored_cons (l : Line) (start : Nat) (b : UInt8) (bs : List UInt8) :
    l.stored start (b :: bs) = (l.stored start [b]).stored (start + 1) bs := by
  have hd : (l.put start (b :: bs)).data = ((l.stored start [b]).put (start + 1) bs).data := by
    simp only [put, stored, List.length_cons, List.length_nil, Table.fill_cons, List.getD_cons_zero,
      List.getD_cons_succ, Table.fill_zero]
  rw [stored, stored, Line.mk.injEq]
  exact ⟨rfl, hd⟩

theorem slice_succ (l : Line) (start n : Nat) :
    l.slice start (n + 1) = l.slice start 1 ++ l.slice (start + 1) n := by
  simp only [Line.slice, List.range_succ_eq_map (n := n), List.map_cons, List.map_map, List.range_one,
    List.map_nil, List.singleton_append, Nat.add_zero, List.cons.injEq, true_and]
  refine List.map_congr_left fun i _ => ?_
  simp only [Function.comp_apply, Nat.succ_eq_add_one, Nat.add_assoc, Nat.add_comm 1]

end Cache

end GuestMemory
