import GuestMemory.Proofs.Footprint.Touches
import GuestMemory.Proofs.Maps.Backing

/-!
What it means that an action on host memory works on a list of touches and on nothing else. Its
answer depends on the bytes that are loaded, and so do the bytes that it stores; all others stay.
-/
namespace GuestMemory

def loads (ts : List Touch) (b : HostAddress) : Prop := ∃ t ∈ ts, t.Loads b

def stores (ts : List Touch) (b : HostAddress) : Prop := ∃ t ∈ ts, t.Stores b

@[simp] theorem stores_nil (b : HostAddress) : ¬stores [] b := by simp [stores]

theorem loads_append {ts ts' : List Touch} {b : HostAddress} :
    loads (ts ++ ts') b ↔ loads ts b ∨ loads ts' b := by
  simp [loads, or_and_right, exists_or]

theorem stores_append {ts ts' : List Touch} {b : HostAddress} :
    stores (ts ++ ts') b ↔ stores ts b ∨ stores ts' b := by
  simp [stores, or_and_right, exists_or]

/-- On a memory with the same bytes where `ts` loads, the action gives the same answer and stores
the same bytes where `ts` stores, and no others. -/
def Confined {α : Type} (ts : List Touch) (f : Memory → α × Memory) (m : Memory) : Prop :=
  ∀ m' : Memory, (∀ b, loads ts b → m'.byte b = m.byte b) →
    (f m').1 = (f m).1 ∧ (∀ b, stores ts b → (f m').2.byte b = (f m).2.byte b) ∧
      ∀ b, ¬stores ts b → (f m').2.byte b = m'.byte b

namespace Confined

variable {α β : Type} {ts ts' : List Touch} {f : Memory → α × Memory} {m : Memory}

/-- Bytes that are not stored stay. -/
theorem frame (h : Confined ts f m) {b : HostAddress} (hb : ¬stores ts b) :
    (f m).2.byte b = m.byte b :=
  (h m fun _ _ => rfl).2.2 b hb

theorem pure (x : α) (m : Memory) : Confined [] (fun m => (x, m)) m :=
  fun _ _ => ⟨rfl, fun b hb => absurd hb (stores_nil b), fun _ _ => rfl⟩

theorem map (h : Confined ts f m) (k : α → β) :
    Confined ts (fun m => (k (f m).1, (f m).2)) m := by
  intro m' hm
  obtain ⟨hx, hs, hk⟩ := h m' hm
  exact ⟨congrArg k hx, hs, hk⟩

/-- One action after the other. What the second one loads was either stored by the first one, and
then it is the same in both memories, or was there from the start. -/
theorem seq {g : α → Memory → β × Memory} (h : Confined ts f m)
    (hg : Confined ts' (g (f m).1) (f m).2) :
    Confined (ts ++ ts') (fun m => g (f m).1 (f m).2) m := by
  intro m' hm
  obtain ⟨hx, hs, hk⟩ := h m' fun b hb => hm b (loads_append.2 (.inl hb))
  have hbetween : ∀ b, loads ts' b → (f m').2.byte b = (f m).2.byte b := by
    intro b hb
    by_cases hst : stores ts b
    · exact hs b hst
    · rw [hk b hst, h.frame hst]
      exact hm b (loads_append.2 (.inr hb))
  obtain ⟨hx', hs', hk'⟩ := hg _ hbetween
  have he : g (f m').1 (f m').2 = g (f m).1 (f m').2 := by rw [hx]
  simp only [he]
  refine ⟨hx', fun b hb => ?_, fun b hb => ?_⟩
  · by_cases hst : stores ts' b
    · exact hs' b hst
    · have hfirst : stores ts b := (stores_append.1 hb).resolve_right hst
      rw [hk' b hst, hg.frame hst, hs b hfirst]
  · rw [hk' b fun h => hb (stores_append.2 (.inr h)),
      hk b fun h => hb (stores_append.2 (.inl h))]

/-- Touches of lines in the cache are none of memory. -/
theorem line (h : Confined ts f m) (v : GuestAddress) (w : Width) :
    Confined (ts ++ [.line v w]) f m := by
  have hl : ∀ b, ¬loads [.line v w] b := by simp [loads, Touch.Loads, Touch.Reaches, Touch.size]
  have hs : ∀ b, ¬stores [.line v w] b := by simp [stores, Touch.Stores, Touch.isStore]
  intro m' hm
  obtain ⟨hx, hst, hk⟩ := h m' fun b hb => hm b (loads_append.2 (.inl hb))
  exact ⟨hx, fun b hb => hst b ((stores_append.1 hb).resolve_right (hs b)),
    fun b hb => hk b fun h => hb (stores_append.2 (.inl h))⟩

theorem load (v : GuestAddress) (a : HostAddress) {n : Nat} (hn : n ≤ 2 ^ 64) (m : Memory) :
    Confined [.direct false v a n] (fun m => (m.read a n, m)) m := by
  intro m' hm
  refine ⟨?_, fun b hb => ?_, fun b _ => rfl⟩
  · have hloc : ∀ i < n, a + UInt64.ofNat i = a + UInt64.ofNat i := fun _ _ => rfl
    show m'.read a n = m.read a n
    rw [m'.read_eq_gather hloc, m.read_eq_gather hloc, gather, gather]
    refine List.map_congr_left fun i hi => hm _ ⟨_, .head _, rfl, ?_⟩
    have hi' : i < n := List.mem_range.1 hi
    rw [Touch.Reaches, Touch.start, Touch.size, Memory.toNat_offset a (by omega)]
    exact hi'
  · simp [stores, Touch.Stores, Touch.isStore] at hb

theorem store (t : Touch) (ht : t.isStore = true) {bs : List UInt8} (hl : bs.length = t.size)
    (hn : bs.length ≤ 2 ^ 64) (m : Memory) :
    Confined [t] (fun m => ((), m.write t.start bs)) m := by
  have hs : ∀ b, stores [t] b ↔ (b - t.start).toNat < bs.length := by
    intro b
    simp [stores, Touch.Stores, ht, Touch.Reaches, hl]
  intro m' _
  refine ⟨rfl, fun b hb => ?_, fun b hb => ?_⟩
  · rw [hs] at hb
    rw [Memory.byte_write _ _ _ hn, Memory.byte_write _ _ _ hn, List.getElem?_eq_getElem hb]
    rfl
  · rw [hs] at hb
    rw [Memory.byte_write _ _ _ hn, List.getElem?_eq_none (by omega)]
    rfl

end Confined

end GuestMemory
