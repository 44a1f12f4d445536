import Mathlib.Data.Bool.Basic
import GuestMemory.Proofs.Cache.Aligned

/-!
Which way a miss fills. A request changes no tag but for its dirty flag, unless it is an access that
misses; that one turns the flag of the way it fills. So the flags of a set go through a cycle of four,
in which the two ways take turns.
-/
namespace GuestMemory.Cache

/-- An access to one line, at a guest address with the host address behind it. -/
structure Access where
  width : Width
  address : GuestAddress
  host : HostAddress
  physical : GuestAddress
  fits : Fits address width
  same_offset : host.toNat % 4096 = address.toNat % 4096

theorem Access.index_eq_hostIndex (a : Access) : index a.address = hostIndex a.host :=
  (hostIndex_of_mod a.same_offset).symm

/-- What is asked of a cache by accesses, and by the operations that drop no line and store no
flags. -/
inductive Request where
  | read (a : Access)
  | write (a : Access) (x : Word a.width)
  | writeBack (v : GuestAddress) (host : HostAddress)
  | loadTag (v : GuestAddress) (packed : UInt64)

namespace Request

def access? : Request → Option Access
  | read a | write a _ => some a
  | writeBack _ _ | loadTag _ _ => none

def stores : Request → Bool
  | write _ _ => true
  | read _ | writeBack _ _ | loadTag _ _ => false

end Request

structure Backed where
  cache : Cache := {}
  memory : Memory

namespace Backed

def serve (s : Backed) : Request → Backed
  | .read a =>
    let (_, cache, memory) := s.cache.read s.memory a.width a.address a.host a.physical a.fits
    { cache, memory }
  | .write a x =>
    let (cache, memory) := s.cache.write s.memory a.address a.host a.physical x a.fits
    { cache, memory }
  | .writeBack v host =>
    let (cache, memory) := s.cache.hitOp s.memory .hitWriteback v host
    { cache, memory }
  | .loadTag v packed =>
    let (_, cache, memory) := s.cache.indexOp s.memory .indexLoadTag v packed
    { cache, memory }

def run (s : Backed) (rs : List Request) : Backed := rs.foldl serve s

@[simp] theorem run_nil (s : Backed) : s.run [] = s := rfl

theorem run_concat (s : Backed) (rs : List Request) (r : Request) :
    s.run (rs ++ [r]) = (s.run rs).serve r := by
  rw [run, List.foldl_append, List.foldl_cons, List.foldl_nil, ← run]

theorem run_append_cons (s : Backed) (rs rs' : List Request) (r : Request) :
    s.run (rs ++ r :: rs') = ((s.run rs).serve r).run rs' := by
  rw [run, List.foldl_append, List.foldl_cons, ← run, ← run]

def misses (s : Backed) (i : Nat) (r : Request) : Bool :=
  r.access?.any fun a => index a.address == i && ((s.cache.set i).find? a.host).isNone

def missCount (s : Backed) (i : Nat) : List Request → Nat
  | [] => 0
  | r :: rs => (s.misses i r).toNat + (s.serve r).missCount i rs

/-- The way that holds the line of an access, or that is filled with it. -/
def wayFor (s : Backed) (a : Access) : Way :=
  (s.cache.touch s.memory a.address a.host a.physical).1

def touched (s : Backed) (a : Access) : Backed where
  cache := (s.cache.touch s.memory a.address a.host a.physical).2.1
  memory := (s.cache.touch s.memory a.address a.host a.physical).2.2

variable {s : Backed} {r : Request} {a : Access} {i : Nat}

theorem misses_iff (hr : r.access? = some a) :
    s.misses i r = true ↔ index a.address = i ∧ (s.cache.set i).find? a.host = none := by
  simp [misses, hr]

theorem misses_of_access?_eq_none (hr : r.access? = none) : s.misses i r = false := by
  simp [misses, hr]

/-- A request that misses a set is an access to it whose line is in neither way. -/
theorem misses_cases (s : Backed) (i : Nat) (r : Request) :
    (∃ a, r.access? = some a ∧ index a.address = i ∧ (s.cache.set i).find? a.host = none ∧
      s.misses i r = true) ∨ s.misses i r = false := by
  cases hr : r.access? with
  | none => exact .inr (misses_of_access?_eq_none hr)
  | some a =>
    cases hm : s.misses i r with
    | false => exact .inr rfl
    | true =>
      obtain ⟨hi, hf⟩ := (misses_iff hr).1 hm
      exact .inl ⟨a, rfl, hi, hf, rfl⟩

theorem missCount_append (s : Backed) (i : Nat) (rs rs' : List Request) :
    s.missCount i (rs ++ rs') = s.missCount i rs + (s.run rs).missCount i rs' := by
  induction rs generalizing s with
  | nil => simp [missCount]
  | cons r rs ih =>
    rw [List.cons_append, missCount, ih, missCount, Nat.add_assoc]
    rfl

theorem missCount_concat (s : Backed) (i : Nat) (rs : List Request) (r : Request) :
    s.missCount i (rs ++ [r]) = s.missCount i rs + ((s.run rs).misses i r).toNat := by
  rw [missCount_append]
  rfl

theorem serve_write (s : Backed) (a : Access) (x : Word a.width) :
    s.serve (.write a x) =
      { s.touched a with
        cache := (s.touched a).cache.setLine (index a.address) (s.wayFor a)
          (((s.touched a).cache.line (index a.address) (s.wayFor a)).stored (offset a.address)
            x.bytes) } := rfl

/-- An access takes its line to its way, and a store makes that line dirty. -/
theorem tag_serve (hr : r.access? = some a) {j : Nat} (hj : j < setCount) (w : Way) :
    ((s.serve r).cache.line j w).tag =
      if r.stores = true ∧ index a.address = j ∧ s.wayFor a = w then
        { ((s.touched a).cache.line j w).tag with dirty := true }
      else ((s.touched a).cache.line j w).tag := by
  cases r with
  | read a' =>
    cases hr
    rw [if_neg fun h => Bool.false_ne_true h.1]
    rfl
  | write a' x =>
    cases hr
    rw [serve_write, line_setLine _ _ _ _ (index_lt _) hj]
    by_cases h : index a.address = j ∧ s.wayFor a = w
    · obtain ⟨rfl, rfl⟩ := h
      rw [if_pos ⟨rfl, rfl⟩, if_pos ⟨rfl, rfl, rfl⟩]
      rfl
    · rw [if_neg h, if_neg fun h' => h h'.2]
  | _ => cases hr

theorem touched_of_hit {way : Way} (hf : (s.cache.set (index a.address)).find? a.host = some way) :
    s.wayFor a = way ∧ (∀ j w, (s.touched a).cache.line j w = s.cache.line j w) ∧
      (s.touched a).memory = s.memory :=
  touch_of_hit hf a.physical

/-- A miss fills the victim, and changes memory as writing the victim back does. -/
theorem touched_of_miss (hf : (s.cache.set (index a.address)).find? a.host = none) :
    s.wayFor a = (s.cache.set (index a.address)).victim ∧
      (∀ j < setCount, ∀ w, (s.touched a).cache.line j w =
        if index a.address = j ∧ s.wayFor a = w then
          (s.cache.line j w).filled (s.touched a).memory a.host a.physical
        else s.cache.line j w) ∧
      (s.touched a).memory = (s.cache.writeBack s.memory (index a.address) (s.wayFor a)).2 := by
  obtain ⟨hway, hline, hmemory⟩ := touch_of_miss (m := s.memory) hf a.physical
  have hfor : s.wayFor a = (s.cache.set (index a.address)).victim := hway
  rw [hfor]
  exact ⟨rfl, hline, hmemory⟩

/-- Bringing in a line changes no line of a set that it does not miss. -/
theorem line_touched_of_not_miss (hr : r.access? = some a) (hm : s.misses i r = false)
    (hi : i < setCount) (w : Way) : (s.touched a).cache.line i w = s.cache.line i w := by
  cases hf : (s.cache.set (index a.address)).find? a.host with
  | some way => exact (touched_of_hit hf).2.1 i w
  | none =>
    have hne : index a.address ≠ i := by
      rintro rfl
      rw [(misses_iff hr).2 ⟨rfl, hf⟩] at hm
      cases hm
    rw [(touched_of_miss hf).2.1 i hi w, if_neg fun h => hne h.1]

/-- A request that does not miss a set changes no more of its tags than whether they are dirty. -/
theorem tag_serve_of_not_miss (hm : s.misses i r = false) (hi : i < setCount) (w : Way) :
    ∃ dirty, ((s.serve r).cache.line i w).tag = { (s.cache.line i w).tag with dirty } := by
  cases hr : r.access? with
  | some a =>
    rw [tag_serve hr hi, line_touched_of_not_miss hr hm hi]
    split
    · exact ⟨_, rfl⟩
    · exact ⟨_, rfl⟩
  | none =>
    cases r with
    | writeBack v host =>
      simp only [serve, hitOp]
      cases (s.cache.set (index v)).find? host with
      | none => exact ⟨_, rfl⟩
      | some way =>
        simp only [line_writeBack _ (index_lt v) hi]
        split
        · exact ⟨_, rfl⟩
        · exact ⟨_, rfl⟩
    | loadTag v packed => exact ⟨_, rfl⟩
    | read a => cases hr
    | write a x => cases hr

/-- A miss fills the victim and changes no other line. -/
theorem serve_of_miss (hr : r.access? = some a)
    (hf : (s.cache.set (index a.address)).find? a.host = none) :
    (∀ j < setCount, ∀ w, ¬(index a.address = j ∧ (s.cache.set (index a.address)).victim = w) →
      (s.serve r).cache.line j w = s.cache.line j w) ∧
    ∃ dirty, ((s.serve r).cache.line (index a.address)
        (s.cache.set (index a.address)).victim).tag =
      { (s.cache.line (index a.address) (s.cache.set (index a.address)).victim).tag with
        hostPage := a.host.pageBase, physicalPage := a.physical.pageBase
        valid := true, dirty
        lrf := !(s.cache.line (index a.address) (s.cache.set (index a.address)).victim).tag.lrf } := by
  have hi := index_lt a.address
  obtain ⟨hway, hline, -⟩ := touched_of_miss hf
  constructor
  · intro j hj w hne
    have ht : (s.touched a).cache.line j w = s.cache.line j w := by
      rw [hline j hj w, hway, if_neg hne]
    cases r with
    | read a' =>
      cases hr
      exact ht
    | write a' x =>
      cases hr
      rw [serve_write, line_setLine _ _ _ _ hi hj, hway, if_neg hne, ht]
    | _ => cases hr
  · have ht := hline _ hi (s.cache.set (index a.address)).victim
    rw [hway, if_pos ⟨rfl, rfl⟩] at ht
    rw [tag_serve hr hi, ht]
    split
    · exact ⟨_, rfl⟩
    · exact ⟨_, rfl⟩

end Backed

/-- The way whose turn it is after `n` misses. -/
def turn (n : Nat) : Way := ⟨n % 2, Nat.mod_lt _ (by decide)⟩

/-- The tags of a set after `n` misses: each way that has been filled is valid, and its flag tells
whether it has been filled an odd number of times. -/
structure Filled (c : Cache) (i n : Nat) : Prop where
  valid : ∀ way, (c.line i way).tag.valid = decide (way.val < n)
  lrf : ∀ way, (c.line i way).tag.lrf = decide ((n + 1 - way.val) / 2 % 2 = 1)

theorem filled_empty (i : Nat) : Filled {} i 0 := by
  constructor
  · intro way
    simp [line, set, LineSet.line]
  · intro way
    have hw : (0 + 1 - way.val) / 2 % 2 ≠ 1 := by omega
    simp [line, set, LineSet.line, hw]

namespace Filled

variable {c : Cache} {i n : Nat}

/-- The way to be filled next is the one whose turn it is. -/
theorem victim (h : Filled c i n) : (c.set i).victim = turn n := by
  have h0 : (c.set i).first.tag.lrf = decide ((n + 1) / 2 % 2 = 1) := h.lrf 0
  have h1 : (c.set i).second.tag.lrf = decide (n / 2 % 2 = 1) := h.lrf 1
  have hx : (decide ((n + 1) / 2 % 2 = 1) ^^ decide (n / 2 % 2 = 1)) = decide (n % 2 = 1) := by
    rw [Bool.eq_iff_iff, Bool.xor_iff_ne, ne_eq, decide_eq_decide, decide_eq_true_eq]
    omega
  rw [LineSet.victim, h0, h1, hx]
  apply Fin.ext
  by_cases hn : n % 2 = 1
  · simp [turn, hn]
  · have hn' : n % 2 = 0 := by omega
    simp [turn, hn']

/-- The way whose turn it is has been filled once more, and the other one as often as before. -/
theorem next (h : Filled c i n) {c' : Cache}
    (filled : (c'.line i (turn n)).tag.valid = true ∧
      (c'.line i (turn n)).tag.lrf = !(c.line i (turn n)).tag.lrf)
    (kept : ∀ way ≠ turn n, (c'.line i way).tag = (c.line i way).tag) : Filled c' i (n + 1) := by
  have hturn : (turn n).val = n % 2 := rfl
  constructor
  · intro way
    by_cases hw : way = turn n
    · rw [hw, filled.1]
      exact (decide_eq_true (by omega)).symm
    · have hne : way.val ≠ n % 2 := fun he => hw (Fin.ext he)
      have := way.isLt
      rw [kept way hw, h.valid]
      exact decide_eq_decide.2 (by omega)
  · intro way
    by_cases hw : way = turn n
    · rw [hw, filled.2, h.lrf, ← decide_not]
      exact decide_eq_decide.2 (by omega)
    · have hne : way.val ≠ n % 2 := fun he => hw (Fin.ext he)
      have := way.isLt
      rw [kept way hw, h.lrf]
      exact decide_eq_decide.2 (by omega)

/-- A request makes one fill more if it misses, and none otherwise. -/
theorem serve {s : Backed} (h : Filled s.cache i n) (hi : i < setCount) (r : Request) :
    Filled (s.serve r).cache i (n + (s.misses i r).toNat) := by
  obtain ⟨a, hr, rfl, hf, hm⟩ | hm := s.misses_cases i r
  · obtain ⟨hkept, dirty, htag⟩ := Backed.serve_of_miss hr hf
    rw [h.victim] at hkept htag
    rw [hm]
    refine h.next ?_ fun way hw => by rw [hkept _ hi way fun he => hw he.2.symm]
    rw [htag]
    exact ⟨rfl, rfl⟩
  · rw [hm]
    constructor
    · intro way
      obtain ⟨dirty, ht⟩ := Backed.tag_serve_of_not_miss hm hi way
      rw [ht]
      exact h.valid way
    · intro way
      obtain ⟨dirty, ht⟩ := Backed.tag_serve_of_not_miss hm hi way
      rw [ht]
      exact h.lrf way

theorem run {s : Backed} (h : Filled s.cache i n) (hi : i < setCount) (rs : List Request) :
    Filled (s.run rs).cache i (n + s.missCount i rs) := by
  induction rs generalizing s n with
  | nil => exact h
  | cons r rs ih =>
    rw [Backed.missCount, ← Nat.add_assoc]
    exact ih (h.serve hi r)

end Filled

end GuestMemory.Cache
