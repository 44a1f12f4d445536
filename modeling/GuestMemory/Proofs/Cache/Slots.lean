import GuestMemory.Settings
import Mathlib.Data.List.Induction
import Mathlib.Data.Nat.Bitwise

/-!
Cache control over runs of calls. What a slot holds and what the register has are read off the
calls, the latest first, with no table in sight. A control does what its calls say as long as its
table has all the slots there are. A new one has them; one that is read from stored data has as many
as are stored, and writes to the others are lost.
-/
namespace GuestMemory

namespace Data

theorem toUInt32?_toNat (x : UInt32) : toUInt32? (.integer x.toNat) = some x := by
  have hx : x.toNat < 0x100000000 := x.toNat_lt
  show (if x.toNat < 0x100000000 then some x.toNat else none).map UInt32.ofNat = _
  rw [if_pos hx, Option.map_some, UInt32.ofNat_toNat]

end Data

namespace Cache

theorem TlbEntry.ofData?_toData (e : TlbEntry) : TlbEntry.ofData? e.toData = some e := by
  simp [TlbEntry.ofData?, TlbEntry.toData, Data.fields?, List.lookup_cons, Data.toUInt32?_toNat]

theorem TlbEntry.mapM_ofData? (es : List TlbEntry) :
    es.mapM (TlbEntry.ofData? ∘ TlbEntry.toData) = some es := by
  induction es with
  | nil => rfl
  | cons e es ih => simp [ofData?_toData, ih]

namespace Control

/-- Every control can be stored and read back. -/
theorem ofData?_toData (c : Control) : Control.ofData? c.toData = some c := by
  simp [Control.ofData?, Control.toData, Data.fields?, List.lookup_cons, Data.toUInt32?_toNat,
    Data.toList?, TlbEntry.mapM_ofData?]

variable {c : Control} {calls : List Command} {i : Nat} {e : TlbEntry} {v : GuestAddress}

theorem enabled_iff : c.enabled = true ↔ c.config.toNat.testBit 16 = true := by
  have hbit : (c.config &&& 0x10000).toNat = (c.config.toNat.testBit 16).toNat * 2 ^ 16 := by
    rw [UInt32.toNat_and]
    exact Nat.and_two_pow _ 16
  rw [enabled, bne_iff_ne, ne_eq, ← UInt32.toNat_inj, hbit]
  cases c.config.toNat.testBit 16 <;> simp

def run (c : Control) (calls : List Command) : Control := calls.foldl perform c

theorem run_concat (c : Control) (calls : List Command) (call : Command) :
    c.run (calls ++ [call]) = (c.run calls).perform call := by
  rw [run, List.foldl_append]
  rfl

/-- What slot `i` holds after calls, the latest of which comes first: what was put there since the
last reset, or what it held in the beginning. -/
def lastEntry (first : TlbEntry) (i : Nat) : List Command → TlbEntry
  | [] => first
  | .setEntry j e :: earlier => if j = i then e else lastEntry first i earlier
  | .setConfig _ :: earlier => lastEntry first i earlier
  | .reset :: _ => {}

def lastConfig (first : UInt32) : List Command → UInt32
  | [] => first
  | .setConfig config :: _ => config
  | .setEntry .. :: earlier => lastConfig first earlier
  | .reset :: _ => 0

/-- The latest call acts on what those before it have left. -/
theorem lastEntry_cons (first : TlbEntry) (i : Nat) (call : Command) (earlier : List Command) :
    lastEntry first i (call :: earlier) = lastEntry (lastEntry first i earlier) i [call] := by
  cases call <;> rfl

/-- What one call does to the slots that there are. -/
theorem getElem?_perform (c : Control) (call : Command) (i : Nat) :
    (c.perform call).tlb[i]? = c.tlb[i]?.map fun e => lastEntry e i [call] := by
  cases call with
  | setConfig config => simp [perform, setConfig, lastEntry]
  | setEntry j e =>
    rw [perform, setEntry, List.getElem?_set]
    by_cases hj : j = i
    · subst hj
      simp only [if_true, lastEntry]
      cases h : c.tlb[j]? with
      | none => rw [if_neg (by simpa using h), Option.map_none]
      | some old => rw [if_pos (List.getElem?_eq_some_iff.1 h).1, Option.map_some]
    · simp [hj, lastEntry]
  | reset =>
    rw [perform, reset, List.getElem?_map]
    rfl

theorem config_perform (c : Control) (call : Command) :
    (c.perform call).config = lastConfig c.config [call] := by
  cases call <;> rfl

/-- After calls the slots that there are hold what the calls say, and there are no others. -/
theorem getElem?_run (c : Control) (calls : List Command) (i : Nat) :
    (c.run calls).tlb[i]? = c.tlb[i]?.map fun e => lastEntry e i calls.reverse := by
  induction calls using List.reverseRecOn with
  | nil => simp [run, lastEntry]
  | append_singleton calls call ih =>
    rw [run_concat, getElem?_perform, ih, Option.map_map, List.reverse_concat]
    congr 1
    funext e
    exact (lastEntry_cons e i call _).symm

theorem config_run (c : Control) (calls : List Command) :
    (c.run calls).config = lastConfig c.config calls.reverse := by
  induction calls using List.reverseRecOn with
  | nil => rfl
  | append_singleton calls call ih =>
    rw [run_concat, config_perform, ih, List.reverse_concat]
    cases call <;> rfl

theorem length_run (c : Control) (calls : List Command) :
    (c.run calls).tlb.length = c.tlb.length := by
  induction calls using List.reverseRecOn with
  | nil => rfl
  | append_singleton calls call ih =>
    rw [run_concat, ← ih]
    cases call <;> simp [perform, setConfig, setEntry, reset]

/-- An address is cached if the cache is switched on and one of the slots caches it. -/
theorem isCached_iff :
    c.isCached v = true ↔
      c.config.toNat.testBit 16 = true ∧ ∃ i e, entry? c i = some e ∧ e.caches v = true := by
  rw [isCached, Bool.and_eq_true, enabled_iff, List.any_eq_true]
  simp only [List.mem_iff_getElem?, entry?]
  constructor
  · rintro ⟨hbit, e, ⟨i, hi⟩, he⟩
    exact ⟨hbit, i, e, hi, he⟩
  · rintro ⟨hbit, i, e, hi, he⟩
    exact ⟨hbit, e, ⟨i, hi⟩, he⟩

/-- The control is as the calls say, with `n` slots. Each slot holds what was last put there,
nothing is put beyond the slots, and an address is cached exactly if the cache is switched on and a
slot caches it. -/
structure Obeys (c : Control) (n : Nat) (calls : List Command) : Prop where
  slot : ∀ i < n, entry? (c.run calls) i = some (lastEntry (c.tlb.getD i {}) i calls.reverse)
  beyond : ∀ i, n ≤ i → ∀ e, (c.run calls).setEntry i e = c.run calls
  cached : ∀ v, (c.run calls).isCached v = true ↔
    (lastConfig c.config calls.reverse).toNat.testBit 16 = true ∧
      ∃ i < n, (lastEntry (c.tlb.getD i {}) i calls.reverse).caches v = true

theorem holds_iff :
    entry? c i = some e ↔ i < c.tlb.length ∧ e = c.tlb.getD i {} := by
  show c.tlb[i]? = some e ↔ _
  rw [List.getElem?_eq_some_iff]
  constructor
  · rintro ⟨hi, rfl⟩
    exact ⟨hi, (List.getD_eq_getElem _ _ hi).symm⟩
  · rintro ⟨hi, rfl⟩
    exact ⟨hi, (List.getD_eq_getElem _ _ hi).symm⟩

/-- A control obeys all calls with as many slots as it has. -/
theorem obeys_length (c : Control) (calls : List Command) : c.Obeys c.tlb.length calls := by
  have hslot : ∀ i < c.tlb.length,
      entry? (c.run calls) i = some (lastEntry (c.tlb.getD i {}) i calls.reverse) := by
    intro i hi
    have hfirst : c.tlb[i]? = some (c.tlb.getD i {}) := holds_iff.2 ⟨hi, rfl⟩
    show (c.run calls).tlb[i]? = _
    rw [getElem?_run, hfirst, Option.map_some]
  refine ⟨hslot, fun i hi e => ?_, fun v => ?_⟩
  · rw [← length_run c calls] at hi
    rw [setEntry, List.set_eq_of_length_le hi]
  · rw [isCached_iff, config_run]
    refine and_congr_right fun _ => ⟨?_, ?_⟩
    · rintro ⟨i, e, hi, he⟩
      have hlt : i < c.tlb.length := by
        rw [← length_run c calls]
        exact (holds_iff.1 hi).1
      rw [hslot i hlt] at hi
      exact ⟨i, hlt, Option.some.inj hi ▸ he⟩
    · rintro ⟨i, hi, he⟩
      exact ⟨i, _, hslot i hi, he⟩

/-- A shorter table lacks a slot, and a longer one takes what is put beyond. -/
theorem length_of_obeys {n : Nat} (h : c.Obeys n []) : c.tlb.length = n := by
  rcases Nat.lt_trichotomy c.tlb.length n with hshort | heq | hlong
  · have hin := (holds_iff.1 (h.slot _ hshort)).1
    exact absurd hin (Nat.lt_irrefl _)
  · exact heq
  · have hset : ∀ e, entry? c n = some e := by
      intro e
      have hsame : c.setEntry n e = c := h.beyond n (Nat.le_refl _) e
      rw [← hsame]
      exact List.getElem?_set_self hlong
    have hother := (hset {}).symm.trans (hset { hi := 1 })
    cases hother

/-- A control is as its calls say, whatever they are, with as many slots as its table has and no
other number. A new control has them all, but one that is read from stored data can have any
table. -/
theorem obeys_iff_length (c : Control) :
    (∀ n, (∀ calls, c.Obeys n calls) ↔ c.tlb.length = n) ∧
    (∀ calls, Obeys {} tlbSlots calls) ∧ Control.ofData? c.toData = some c := by
  refine ⟨fun n => ⟨fun h => length_of_obeys (h []), ?_⟩, obeys_length {}, ofData?_toData c⟩
  rintro rfl
  exact c.obeys_length

def slotless : Data := .record [("config", .integer 0x10000), ("tlb", .list [])]

/-- A control that is read from stored data without slots loses what is put into slot 0. -/
theorem slot_lost :
    ∃ c, Control.ofData? slotless = some c ∧ entry? c 0 = none ∧
      (c.run [.setEntry 0 { hi := 0x2000, lo0 := 0x18, lo1 := 0x18 }]).isCached 0x2000 = false ∧
      ¬c.Obeys tlbSlots [.setEntry 0 { hi := 0x2000, lo0 := 0x18, lo1 := 0x18 }] := by
  refine ⟨⟨0x10000, []⟩, by rfl, rfl, rfl, fun h => ?_⟩
  have hslot := h.slot 0 (by decide)
  cases hslot

end Control

end Cache

end GuestMemory
