import Mathlib.Data.List.Induction

/-!
What has begun in a history and not ended since. Of a fact that each event brings about, ends or
leaves as it is, nothing else can be said after a whole history.
-/
namespace GuestMemory

variable {α : Type} {begins ends : List α → α → Prop} {P : List α → Prop} {l : List α}

/-- An event of the history began something, and no event after it ended it. Whether an event does so
may depend on the events before it. -/
def Since (begins ends : List α → α → Prop) (l : List α) : Prop :=
  ∃ before a after, l = before ++ a :: after ∧ begins before a ∧
    ∀ between b rest, after = between ++ b :: rest → ¬ends (before ++ a :: between) b

theorem not_since_nil : ¬Since begins ends [] := by
  rintro ⟨before, a, after, h, -⟩
  exact absurd h.symm (by simp)

/-- With one event more: it began the thing, or did not end what had begun. -/
theorem since_concat (l : List α) (a : α) :
    Since begins ends (l ++ [a]) ↔ begins l a ∨ Since begins ends l ∧ ¬ends l a := by
  constructor
  · rintro ⟨before, b, after, h, hb, he⟩
    rcases List.eq_nil_or_concat after with rfl | ⟨after, c, rfl⟩
    · obtain ⟨rfl, hlast⟩ := List.append_inj' h rfl
      cases hlast
      exact .inl hb
    · rw [List.concat_eq_append, ← List.cons_append, ← List.append_assoc] at h
      obtain ⟨rfl, hlast⟩ := List.append_inj' h rfl
      cases hlast
      refine .inr ⟨⟨before, b, after, rfl, hb, fun between d rest hd => ?_⟩, ?_⟩
      · exact he between d (rest ++ [a]) (by simp [hd])
      · exact he after a [] (by simp)
  · rintro (hb | ⟨⟨before, b, after, rfl, hb, he⟩, hn⟩)
    · exact ⟨l, a, [], rfl, hb, by simp⟩
    · refine ⟨before, b, after ++ [a], by simp, hb, fun between d rest hd => ?_⟩
      rcases List.eq_nil_or_concat rest with rfl | ⟨rest, c, rfl⟩
      · obtain ⟨rfl, hlast⟩ := List.append_inj' hd rfl
        cases hlast
        exact hn
      · rw [List.concat_eq_append, ← List.cons_append, ← List.append_assoc] at hd
        exact he between d rest (List.append_inj' hd rfl).1

/-- A fact that no history starts with, and of which it is known what each event does to it. -/
theorem iff_since (nil : ¬P [])
    (concat : ∀ l a, P (l ++ [a]) ↔ begins l a ∨ P l ∧ ¬ends l a) (l : List α) :
    P l ↔ Since begins ends l := by
  induction l using List.reverseRecOn with
  | nil => exact iff_of_false nil not_since_nil
  | append_singleton l a ih => rw [concat, since_concat, ih]

end GuestMemory
