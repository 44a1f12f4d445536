import GuestMemory.Proofs.Window.Record
import Mathlib.Algebra.BigOperators.Fin
import Mathlib.Data.Finset.Card

/-!
The record of the window over any series of its own calls. Both directions of it say of every page
what the last call about the page said, the lists have each page once and are never kept empty, and
so the sizes that are added up over the lists are the number of pages that show something.
-/
namespace GuestMemory

open GuestAddress

namespace Table

variable {α : Type}

theorem get_congr {d : Nat} (t : Table α d) {i j : Nat} (h : i % 2 ^ d = j % 2 ^ d) :
    t.get i = t.get j := by
  induction t with
  | all a => rfl
  | @node d low high ihl ihh =>
    obtain ⟨hbit, hlow⟩ := (mod_two_pow_succ_eq_iff d i j).1 h
    rw [get_node, get_node, hbit]
    split
    · exact ihh hlow
    · exact ihl hlow

/-- The sum over a table is the sum over its keys. -/
theorem sum_eq {d : Nat} (t : Table α d) (f : α → Nat) :
    t.sum f = ∑ k ∈ Finset.range (2 ^ d), f (t.get k) := by
  induction t with
  | all a => simp [sum]
  | @node d low high ihl ihh =>
    have hlow : ∀ k ∈ Finset.range (2 ^ d), f ((node low high).get k) = f (low.get k) := by
      intro k hk
      rw [get_node, Nat.testBit_lt_two_pow (Finset.mem_range.1 hk)]
      rfl
    have hhigh : ∀ k ∈ Finset.range (2 ^ d),
        f ((node low high).get (2 ^ d + k)) = f (high.get k) := by
      intro k hk
      rw [get_node, Nat.testBit_two_pow_add_eq, Nat.testBit_lt_two_pow (Finset.mem_range.1 hk),
        high.get_congr (Nat.add_mod_left _ k)]
      rfl
    rw [sum, ihl, ihh, Nat.pow_succ, Nat.mul_two, Finset.sum_range_add, Finset.sum_congr rfl hlow,
      Finset.sum_congr rfl hhigh]

end Table

namespace Window.Aliases

inductive Call where
  | create (v : GuestAddress) (offset : UInt32)
  | remove (v : GuestAddress)
  | clear

def perform (t : Aliases) : Call → Option UInt32 × Aliases
  | .create v offset => t.create v offset
  | .remove v => t.remove v
  | .clear => (none, {})

def after (calls : List Call) : Aliases := calls.foldl (fun t c => (t.perform c).2) {}

/-- What a call says of pages, if `f` has been said before. -/
def Call.say (f : GuestAddress → Option UInt32) : Call → GuestAddress → Option UInt32
  | .create v offset => fun u => if v.page = u.page then some (pageBase offset) else f u
  | .remove v => fun u => if v.page = u.page then none else f u
  | .clear => fun _ => none

/-- The offset that a series of calls has said last of each page. -/
def said (calls : List Call) : GuestAddress → Option UInt32 := calls.foldl Call.say fun _ => none

variable {t : Aliases} {f : GuestAddress → Option UInt32}

theorem Records.perform (h : t.Records f) (c : Call) : (t.perform c).2.Records (c.say f) := by
  cases c with
  | create v offset => exact h.create v offset
  | remove v => exact h.remove v
  | clear => exact records_empty

/-- The words of a record are those of pages, and none of its lists is empty. -/
structure Tidy (t : Aliases) : Prop where
  aligned : ∀ v word, t.offset? v = some word → pageBase word = word
  filled : ∀ k < 2 ^ 20, t.showing.get k ≠ some #[]

theorem tidy_empty : ({} : Aliases).Tidy := ⟨fun _ _ h => (nomatch h), fun _ _ h => nomatch h⟩

theorem without_ne_empty (v : GuestAddress) (pages : Option (Array GuestAddress)) :
    without v pages ≠ some #[] := by
  intro h
  obtain ⟨-, hne⟩ := Option.filter_eq_some_iff.1 h
  exact absurd hne (by decide)

/-- Taking a page out leaves the record tidy. -/
theorem Tidy.remove (h : t.Tidy) (v : GuestAddress) : (t.remove v).2.Tidy := by
  constructor
  · intro u word hu
    rw [offset?_remove] at hu
    split at hu
    · cases hu
    · exact h.aligned u word hu
  · intro k hk
    rw [Aliases.remove]
    cases t.offset? v with
    | none => exact h.filled k hk
    | some word =>
      simp only
      rw [Table.get_modify _ _ (page_lt word) hk]
      split
      · exact without_ne_empty _ _
      · exact h.filled k hk

/-- So does putting a page in. -/
theorem Tidy.create (h : t.Tidy) (v : GuestAddress) (offset : UInt32) :
    (t.create v offset).2.Tidy := by
  constructor
  · intro u word hu
    rw [offset?_create] at hu
    split at hu
    · cases hu
      exact pageBase_pageBase offset
    · exact h.aligned u word hu
  · intro k hk
    rw [Aliases.create]
    simp only
    rw [Table.get_modify _ _ (page_lt offset) hk]
    split
    · simp
    · exact (h.remove v).filled k hk

theorem Tidy.perform (h : t.Tidy) (c : Call) : (t.perform c).2.Tidy := by
  cases c with
  | create v offset => exact h.create v offset
  | remove v => exact h.remove v
  | clear => exact tidy_empty

/-- A series of calls takes a record of what has been said to a record of what has been said last. -/
theorem Records.foldl (calls : List Call) (h : t.Records f) (ht : t.Tidy) :
    (calls.foldl (fun t c => (t.perform c).2) t).Records (calls.foldl Call.say f) ∧
      (calls.foldl (fun t c => (t.perform c).2) t).Tidy := by
  induction calls generalizing t f with
  | nil => exact ⟨h, ht⟩
  | cons c cs ih => exact ih (h.perform c) (ht.perform c)

def pageStart (k : Nat) : GuestAddress := UInt32.ofNat (k * 4096)

theorem page_pageStart {k : Nat} (h : k < 2 ^ 20) : (pageStart k).page = k := by
  rw [page_eq, pageStart, UInt32.toNat_ofNat']
  omega

theorem pageStart_page (v : GuestAddress) : pageStart v.page = v.pageBase := by
  rw [← UInt32.toNat_inj, pageStart, UInt32.toNat_ofNat', page_eq, toNat_pageBase]
  have := v.toNat_lt
  omega

def shown (f : GuestAddress → Option UInt32) : Finset Nat :=
  (Finset.range (2 ^ 20)).filter fun k => (f (pageStart k)).isSome

def target (f : GuestAddress → Option UInt32) (k : Nat) : Nat := ((f (pageStart k)).map page).getD 0

/-- A list is as long as there are pages with its word. -/
theorem Records.size_ofOffset (h : t.Records f) (ht : t.Tidy) {k : Nat} (hk : k < 2 ^ 20) :
    (t.ofOffset (pageStart k)).size = ((shown f).filter fun j => target f j = k).card := by
  have hpages : ∀ v ∈ (t.ofOffset (pageStart k)).toList, pageStart v.page = v := by
    intro v hv
    rw [pageStart_page]
    exact ((h.mem _ v).1 (Array.mem_toList_iff.1 hv)).1
  have hnodup : ((t.ofOffset (pageStart k)).toList.map GuestAddress.page).Nodup := by
    refine (h.nodup _).map_on fun u hu v hv he => ?_
    rw [← hpages u hu, ← hpages v hv, he]
  rw [← Array.length_toList, ← List.length_map (f := GuestAddress.page),
    ← List.toFinset_card_of_nodup hnodup]
  refine congrArg Finset.card (Finset.ext fun j => ?_)
  rw [List.mem_toFinset, List.mem_map, Finset.mem_filter, shown, Finset.mem_filter, Finset.mem_range]
  constructor
  · rintro ⟨v, hv, rfl⟩
    obtain ⟨hb, hf⟩ := (h.mem _ v).1 (Array.mem_toList_iff.1 hv)
    rw [target, hpages v hv, hf]
    exact ⟨⟨v.page_lt, rfl⟩, by simp [page_pageBase, page_pageStart hk]⟩
  · rintro ⟨⟨hj, hs⟩, ht'⟩
    obtain ⟨word, hword⟩ := Option.isSome_iff_exists.1 hs
    refine ⟨pageStart j, Array.mem_toList_iff.2 ((h.mem _ _).2 ⟨?_, ?_⟩), page_pageStart hj⟩
    · rw [← pageStart_page, page_pageStart hj]
    · have haligned : pageBase word = word := ht.aligned _ _ ((h.offsets _).trans hword)
      have hpage : page word = k := by simpa [target, hword] using ht'
      rw [hword, ← hpage, pageStart_page, pageBase_pageBase, haligned]

/-- The lists together are as long as there are pages that something is said of. -/
theorem Records.size_eq (h : t.Records f) (ht : t.Tidy) : t.size = (shown f).card := by
  have hlength : ∀ k ∈ Finset.range (2 ^ 20),
      (t.showing.get k).elim 0 Array.size = ((shown f).filter fun j => target f j = k).card := by
    intro k hk
    rw [← h.size_ofOffset ht (Finset.mem_range.1 hk), ofOffset, page_pageStart (Finset.mem_range.1 hk)]
    cases t.showing.get k <;> rfl
  have hmaps : Set.MapsTo (target f) (shown f) (Finset.range (2 ^ 20)) := by
    intro j hj
    obtain ⟨-, hs⟩ := Finset.mem_filter.1 (Finset.mem_coe.1 hj)
    obtain ⟨word, hword⟩ := Option.isSome_iff_exists.1 hs
    rw [target, hword]
    exact Finset.mem_coe.2 (Finset.mem_range.2 (page_lt word))
  rw [size, Table.sum_eq, Finset.sum_congr rfl hlength]
  exact (Finset.card_eq_sum_card_fiberwise hmaps).symm

/-- There is no list exactly when there is no page in any. -/
theorem Tidy.isEmpty_iff (h : t.Tidy) : t.isEmpty = true ↔ t.size = 0 := by
  rw [isEmpty, size, beq_iff_eq, Table.sum_eq, Table.sum_eq, Finset.sum_eq_zero_iff,
    Finset.sum_eq_zero_iff]
  refine forall₂_congr fun k hk => ?_
  have hfilled := h.filled k (Finset.mem_range.1 hk)
  cases hpages : t.showing.get k with
  | none => rfl
  | some pages =>
    rw [hpages] at hfilled
    simpa using hfilled

/-- A record says `f` of every page in both directions, and its sizes and answers go by `f`. -/
structure Exact (t : Aliases) (f : GuestAddress → Option UInt32) : Prop where
  offset?_eq : ∀ v, t.offset? v = f v
  /-- Not even the last page of all has the word that stands for none. -/
  marked_iff : ∀ v, t.offsets.get v.page = noOffset ↔ f v = none
  listed_iff : ∀ v o, f v = some (pageBase o) ↔ v.pageBase ∈ t.ofOffset o
  listed_once : ∀ v o, v ∈ t.ofOffset o → v.pageBase = v ∧ (t.ofOffset o).toList.count v = 1 ∧
    ∀ o', v ∈ t.ofOffset o' → pageBase o' = pageBase o
  filled : ∀ k < 2 ^ 20, t.showing.get k ≠ some #[]
  size_eq : t.size = (shown f).card
  isEmpty_iff : t.isEmpty = true ↔ t.size = 0
  resolve_eq : ∀ v, (t.resolve v).map UInt32.toNat = (f v).map fun o => o.toNat + v.toNat % 4096
  create_eq : ∀ v o, (t.create v o).1 = f v
  remove_eq : ∀ v, (t.remove v).1 = f v

theorem marked_iff (t : Aliases) (v : GuestAddress) :
    t.offsets.get v.page = noOffset ↔ t.offset? v = none := by
  simp [offset?]

theorem fst_remove (t : Aliases) (v : GuestAddress) : (t.remove v).1 = t.offset? v := by
  rw [remove]
  cases t.offset? v <;> rfl

theorem fst_create (t : Aliases) (v : GuestAddress) (offset : UInt32) :
    (t.create v offset).1 = t.offset? v :=
  t.fst_remove v

theorem Tidy.resolve_eq (h : t.Tidy) (v : GuestAddress) :
    (t.resolve v).map UInt32.toNat = (t.offset? v).map fun o => o.toNat + v.toNat % 4096 := by
  rw [resolve, Option.map_map]
  refine Option.map_congr fun word hword => ?_
  have haligned := h.aligned v word hword
  have hn := congrArg UInt32.toNat haligned
  rw [toNat_pageBase] at hn
  rw [Function.comp_apply, ← haligned, toNat_pageBase_or, haligned, hn]

/-- After every series of calls the record is exactly what they have said last of each page. -/
theorem exact_after (calls : List Call) : (after calls).Exact (said calls) := by
  obtain ⟨h, ht⟩ : (after calls).Records (said calls) ∧ (after calls).Tidy :=
    records_empty.foldl calls tidy_empty
  have hlisted : ∀ v o, said calls v = some (pageBase o) ↔ v.pageBase ∈ (after calls).ofOffset o := by
    intro v o
    rw [h.mem, pageBase_pageBase, eq_self, true_and, h.congr_page (page_pageBase v)]
  refine ⟨h.offsets, fun v => ?_, hlisted, fun v o hv => ?_, ht.filled, h.size_eq ht, ht.isEmpty_iff,
    fun v => ?_, fun v o => ?_, fun v => ?_⟩
  · rw [marked_iff, h.offsets]
  · obtain ⟨hpage, hf⟩ := (h.mem o v).1 hv
    refine ⟨hpage, List.count_eq_one_of_mem (h.nodup o) (Array.mem_toList_iff.2 hv), fun o' hv' => ?_⟩
    have hf' := ((h.mem o' v).1 hv').2
    exact Option.some.inj (hf'.symm.trans hf)
  · rw [ht.resolve_eq, h.offsets]
  · rw [fst_create, h.offsets]
  · rw [fst_remove, h.offsets]

/-- The last byte of the last page of all is found. -/
example : (after [.create 0x1FFF 0xFFFFFFFF]).resolve 0x1FFF = some 0xFFFFFFFF := by decide +kernel

end Window.Aliases

end GuestMemory
