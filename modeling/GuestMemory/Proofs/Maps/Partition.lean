import GuestMemory.Proofs.Maps.Regions
import Mathlib.Data.List.Basic

/-!
The arena after any requests for pieces of it, granted or not. The regions are laid end to end in the
order of the requests, so they part what has been carved off, and an offset in it has one region.
Locating a host address is therefore the inverse of adding an offset to the base.
-/
namespace GuestMemory

/-- Rounding gives the least number of whole pages that hold a size. -/
theorem roundUpToPage_bounds {size n : Nat} (h : roundUpToPage size = some n) :
    size ≤ n ∧ n < size + 4096 := by
  unfold roundUpToPage at h
  split at h
  · cases h
    simp only [pageSize]
    omega
  · cases h

def Region.Has (r : Region) (o : Nat) : Prop := r.offset ≤ o ∧ o < r.offset + r.size

/-- Regions laid end to end: the first one starts at one offset, each other one where the one before
it ends, and the last one ends at the other offset. -/
inductive EndToEnd : Nat → List Region → Nat → Prop where
  | nil (o : Nat) : EndToEnd o [] o
  | cons {first last : Nat} {r : Region} {rs : List Region} (starts : r.offset = first)
      (rest : EndToEnd (first + r.size) rs last) : EndToEnd first (r :: rs) last

namespace EndToEnd

variable {first last : Nat} {r : Region} {rs : List Region}

theorem le (h : EndToEnd first rs last) : first ≤ last := by
  induction h with
  | nil o => exact Nat.le_refl o
  | cons starts rest ih => omega

theorem concat (h : EndToEnd first rs last) (starts : r.offset = last) :
    EndToEnd first (rs ++ [r]) (last + r.size) := by
  induction h with
  | nil o => exact .cons starts (.nil _)
  | cons starts' rest ih => exact .cons starts' (ih starts)

/-- Together the regions are all that lies between the two offsets. -/
theorem exists_has_iff (h : EndToEnd first rs last) {o : Nat} :
    (∃ r ∈ rs, r.Has o) ↔ first ≤ o ∧ o < last := by
  induction h with
  | nil o' =>
    simp only [List.not_mem_nil, false_and, exists_false, false_iff]
    omega
  | @cons first last r rs starts rest ih =>
    have hle := rest.le
    simp only [List.mem_cons, exists_eq_or_imp, ih]
    rw [Region.Has, starts]
    omega

theorem within (h : EndToEnd first rs last) :
    ∀ r ∈ rs, first ≤ r.offset ∧ r.offset + r.size ≤ last := by
  induction h with
  | nil => exact fun r hr => absurd hr List.not_mem_nil
  | @cons first last r rs starts rest ih =>
    have hle := rest.le
    rintro r' hr'
    rcases List.mem_cons.1 hr' with rfl | hr'
    · omega
    · obtain ⟨hfirst, hlast⟩ := ih r' hr'
      omega

/-- Each region ends before the later ones start. -/
theorem apart (h : EndToEnd first rs last) :
    rs.Pairwise fun r r' => r.offset + r.size ≤ r'.offset := by
  induction h with
  | nil => exact .nil
  | @cons first last r rs starts rest ih =>
    refine .cons (fun r' hr' => ?_) ih
    rw [starts]
    exact (rest.within r' hr').1

/-- Whole pages laid end to end from a page boundary end at one. -/
theorem aligned (h : EndToEnd first rs last) (starts : first % 4096 = 0)
    (whole : ∀ r ∈ rs, r.size % 4096 = 0) : last % 4096 = 0 := by
  induction h with
  | nil => exact starts
  | @cons first last r rs _ rest ih =>
    have hsize := whole r (List.mem_cons_self ..)
    exact ih (by omega) fun r' hr' => whole r' (List.mem_cons_of_mem _ hr')

end EndToEnd

namespace Arena

/-- The regions have been carved off one after the other. -/
structure InTurn (arena : Arena) : Prop where
  below : ∀ r ∈ arena.regions, r.offset + r.size ≤ arena.used
  apart : arena.regions.Pairwise fun r r' => r.offset + r.size ≤ r'.offset

/-- Another region is carved off behind all others. -/
theorem InTurn.allocate {arena arena' : Arena} {name : String} {size : Nat} {p : Protection}
    {block : Block} (h : arena.InTurn) (ha : arena.allocate name size p = .ok (block, arena')) :
    arena'.InTurn := by
  obtain ⟨n, -, -, -, rfl⟩ := allocate_eq_ok ha
  constructor
  · intro r hr
    show r.offset + r.size ≤ arena.used + n
    rcases List.mem_append.1 hr with hr | hr
    · exact Nat.le_trans (h.below r hr) (Nat.le_add_right _ _)
    · exact Nat.le_of_eq (by rw [List.mem_singleton.1 hr])
  · refine List.pairwise_append.2 ⟨h.apart, List.pairwise_singleton _ _, fun r hr r' hr' => ?_⟩
    rw [List.mem_singleton.1 hr']
    exact h.below r hr

/-- An offset lies in one region at the most. -/
theorem InTurn.unique {arena : Arena} (h : arena.InTurn) {r r' : Region} {o : Nat}
    (hr : r ∈ arena.regions) (hr' : r' ∈ arena.regions) (hin : r.offset ≤ o ∧ o < r.offset + r.size)
    (hin' : r'.offset ≤ o ∧ o < r'.offset + r'.size) : r = r' := by
  obtain ⟨i, hi, rfl⟩ := List.mem_iff_getElem.1 hr
  obtain ⟨j, hj, rfl⟩ := List.mem_iff_getElem.1 hr'
  have hapart := List.pairwise_iff_getElem.1 h.apart
  rcases Nat.lt_trichotomy i j with hlt | rfl | hlt
  · have := hapart i j hi hj hlt
    omega
  · rfl
  · have := hapart j i hj hi hlt
    omega

/-- Locating an address gives the protection of the region that it lies in. -/
theorem InTurn.locate?_eq {arena : Arena} (h : arena.InTurn) {a : HostAddress} {o : Nat}
    (ha : a.toNat = arena.base.toNat + o) {r : Region} (hr : r ∈ arena.regions)
    (hin : r.offset ≤ o ∧ o < r.offset + r.size) : arena.locate? a = some (o, r.protection) := by
  have hused := h.below r hr
  have ho : a.toNat - arena.base.toNat = o := by omega
  rw [locate?, if_neg (by omega)]
  simp only [ho]
  cases hf : arena.regions.find? fun r => r.offset ≤ o && o < r.offset + r.size with
  | none =>
    have hn := List.find?_eq_none.1 hf r hr
    simp [hin] at hn
  | some r' =>
    have hin' := List.find?_some hf
    simp only [Bool.and_eq_true, decide_eq_true_eq] at hin'
    rw [h.unique hr (List.mem_of_find?_eq_some hf) hin hin']
    rfl

structure Request where
  name : String
  size : Nat
  protection : Protection
  deriving Repr

/-- The answer to a request, and the arena that it leaves. -/
def serve (arena : Arena) (q : Request) : Except (Failure ArenaError) Block × Arena :=
  match arena.allocate q.name q.size q.protection with
  | .ok (block, arena') => (.ok block, arena')
  | .error e => (.error e, arena)

def run (arena : Arena) (requests : List Request) : Arena :=
  requests.foldl (fun arena q => (arena.serve q).2) arena

/-- The regions part what has been carved off, in whole pages and in their order. -/
structure Parted (arena : Arena) : Prop where
  aligned : ∀ r ∈ arena.regions, r.offset % 4096 = 0 ∧ r.size % 4096 = 0
  contiguous : EndToEnd 0 arena.regions arena.used
  disjoint : arena.regions.Pairwise fun r r' => ∀ o, ¬(r.Has o ∧ r'.Has o)
  covers : ∀ o, o < arena.used ↔ ∃ r ∈ arena.regions, r.Has o
  used_le : arena.used ≤ arena.size

/-- A request is granted exactly if there is room for its whole pages. Granted, it gets the next bytes,
no less than it asks for, as a region of their own; refused, it changes nothing. -/
structure Answers (arena : Arena) (q : Request) : Prop where
  granted_iff : (∃ block, (arena.serve q).1 = .ok block) ↔
    ∃ n, roundUpToPage q.size = some n ∧ arena.used + n ≤ arena.size
  refused : ∀ e, (arena.serve q).1 = .error e → (arena.serve q).2 = arena
  granted : ∀ block, (arena.serve q).1 = .ok block →
    block.offset = arena.used ∧ q.size ≤ block.size ∧ block.size < q.size + 4096 ∧
      (arena.serve q).2 = { arena with
        used := arena.used + block.size
        regions := arena.regions ++ [⟨q.name, block.offset, block.size, q.protection⟩] }

variable {arena : Arena} {q : Request}

theorem serve_of_ok {block : Block} {arena' : Arena}
    (h : arena.allocate q.name q.size q.protection = .ok (block, arena')) :
    arena.serve q = (.ok block, arena') := by
  unfold serve
  rw [h]

theorem serve_of_error {e : Failure ArenaError}
    (h : arena.allocate q.name q.size q.protection = .error e) :
    arena.serve q = (.error e, arena) := by
  unfold serve
  rw [h]

/-- What allocating comes to. -/
theorem allocate_of_room (name : String) {size n : Nat} (p : Protection)
    (hn : roundUpToPage size = some n) (room : n ≤ arena.remaining) :
    arena.allocate name size p = .ok (⟨arena.used, n⟩, { arena with
      used := arena.used + n
      regions := arena.regions ++ [⟨name, arena.used, n, p⟩] }) := by
  unfold allocate
  simp only [hn]
  exact if_neg (Nat.not_lt.2 room)

theorem allocate_of_no_room (name : String) {size n : Nat} (p : Protection)
    (hn : roundUpToPage size = some n) (full : arena.remaining < n) :
    arena.allocate name size p = .error (.refused (.exhausted n arena.remaining)) := by
  unfold allocate
  simp only [hn]
  exact if_pos full

/-- Every request is answered by what room there is. -/
theorem answers (h : arena.used ≤ arena.size) (q : Request) : arena.Answers q := by
  have hroom : ∀ n, n ≤ arena.remaining ↔ arena.used + n ≤ arena.size := by
    intro n
    rw [remaining]
    omega
  cases hr : roundUpToPage q.size with
  | none =>
    have he : arena.allocate q.name q.size q.protection = .error .overflow := by
      unfold allocate
      rw [hr]
    have hs := serve_of_error he
    constructor <;> simp [hs, hr]
  | some n =>
    obtain ⟨hle, hlt⟩ := roundUpToPage_bounds hr
    by_cases room : n ≤ arena.remaining
    · have hs := serve_of_ok (allocate_of_room q.name q.protection hr room)
      constructor
      · simp [hs, hr, (hroom n).1 room]
      · simp [hs]
      · rintro block hb
        rw [hs] at hb
        cases hb
        exact ⟨rfl, hle, hlt, by rw [hs]⟩
    · have hs := serve_of_error
        (allocate_of_no_room q.name q.protection hr (Nat.lt_of_not_le room))
      have hno : ¬arena.used + n ≤ arena.size := fun hle' => room ((hroom n).2 hle')
      constructor <;> simp [hs, hr, hno]

theorem Parted.of_contiguous (aligned : ∀ r ∈ arena.regions, r.offset % 4096 = 0 ∧ r.size % 4096 = 0)
    (contiguous : EndToEnd 0 arena.regions arena.used) (used_le : arena.used ≤ arena.size) :
    arena.Parted where
  aligned := aligned
  contiguous := contiguous
  disjoint := contiguous.apart.imp fun hle o ⟨⟨_, hlt⟩, hge, _⟩ => by omega
  covers o := by rw [contiguous.exists_has_iff, and_iff_right (Nat.zero_le o)]
  used_le := used_le

theorem Parted.inTurn (h : arena.Parted) : arena.InTurn :=
  ⟨fun r hr => (h.contiguous.within r hr).2, h.contiguous.apart⟩

theorem Parted.used_aligned (h : arena.Parted) : arena.used % 4096 = 0 :=
  h.contiguous.aligned rfl fun r hr => (h.aligned r hr).2

/-- One request. -/
theorem Parted.serve (h : arena.Parted) (q : Request) : (arena.serve q).2.Parted := by
  cases ha : arena.allocate q.name q.size q.protection with
  | error e =>
    rw [serve_of_error ha]
    exact h
  | ok r =>
    obtain ⟨n, hn, hle, -, he⟩ := allocate_eq_ok ha
    rw [serve_of_ok ha, he]
    have hused := h.used_le
    rw [remaining] at hle
    refine .of_contiguous (fun r hr => ?_) (h.contiguous.concat rfl) ?_
    · rcases List.mem_append.1 hr with hr | hr
      · exact h.aligned r hr
      · rw [List.mem_singleton.1 hr]
        exact ⟨h.used_aligned, hn⟩
    · show arena.used + n ≤ arena.size
      omega

/-- A request moves neither the arena nor its end. -/
theorem serve_place (arena : Arena) (q : Request) :
    (arena.serve q).2.base = arena.base ∧ (arena.serve q).2.size = arena.size := by
  cases ha : arena.allocate q.name q.size q.protection with
  | error e =>
    rw [serve_of_error ha]
    exact ⟨rfl, rfl⟩
  | ok r =>
    obtain ⟨n, -, -, -, he⟩ := allocate_eq_ok ha
    rw [serve_of_ok ha, he]
    exact ⟨rfl, rfl⟩

theorem run_cons (arena : Arena) (q : Request) (qs : List Request) :
    arena.run (q :: qs) = (arena.serve q).2.run qs := by
  rw [run, List.foldl_cons, run]

/-- Any number of requests. -/
theorem Parted.run (h : arena.Parted) (requests : List Request) :
    (arena.run requests).Parted ∧ (arena.run requests).base = arena.base ∧
      (arena.run requests).size = arena.size := by
  induction requests generalizing arena with
  | nil => exact ⟨h, rfl, rfl⟩
  | cons q qs ih =>
    obtain ⟨hbase, hsize⟩ := arena.serve_place q
    obtain ⟨hparted, hbase', hsize'⟩ := ih (h.serve q)
    rw [run_cons]
    exact ⟨hparted, hbase'.trans hbase, hsize'.trans hsize⟩

/-- An arena that was just made is as large as it was asked to be, in whole pages. -/
theorem size_of_create {base : HostAddress} {size : Nat} {kernel : Kernel}
    (h : create base size kernel = .ok arena) : roundUpToPage size = some arena.size := by
  unfold create at h
  cases hr : roundUpToPage size with
  | none =>
    rw [hr] at h
    cases h
  | some total =>
    simp only [hr] at h
    split at h <;> cases h
    rfl

theorem parted_of_create {base : HostAddress} {size : Nat} {kernel : Kernel}
    (h : create base size kernel = .ok arena) : arena.Parted := by
  obtain ⟨-, hused, hregions⟩ := create_eq_ok h
  refine .of_contiguous ?_ ?_ ?_
  · simp [hregions]
  · rw [hused, hregions]
    exact .nil 0
  · rw [hused]
    exact Nat.zero_le _

/-- Locating is the inverse of adding an offset to the base, on what has been carved off. -/
theorem Parted.locate?_eq_some_iff (h : arena.Parted) (fits : arena.base.toNat + arena.size ≤ 2 ^ 64)
    {a : HostAddress} {o : Nat} {p : Protection} :
    arena.locate? a = some (o, p) ↔ a = arena.base + UInt64.ofNat o ∧ o < arena.used ∧
      ∃ r ∈ arena.regions, r.Has o ∧ r.protection = p := by
  have hused := h.used_le
  rw [locate?]
  by_cases hin : a.toNat < arena.base.toNat ∨ arena.base.toNat + arena.used ≤ a.toNat
  · rw [if_pos hin]
    refine ⟨fun he => absurd he (by simp), ?_⟩
    rintro ⟨rfl, ho, -⟩
    rw [UInt64.toNat_add, UInt64.toNat_ofNat'] at hin
    omega
  · have ha : a = arena.base + UInt64.ofNat o ∧ o < arena.used ↔ a.toNat - arena.base.toNat = o := by
      rw [← UInt64.toNat_inj, UInt64.toNat_add, UInt64.toNat_ofNat']
      omega
    rw [if_neg hin, ← and_assoc, ha]
    simp only [Option.map_eq_some_iff, Prod.mk.injEq]
    constructor
    · rintro ⟨r, hr, ho, hp⟩
      have hhas := List.find?_some hr
      simp only [Bool.and_eq_true, decide_eq_true_eq] at hhas
      exact ⟨ho, r, List.mem_of_find?_eq_some hr, ho ▸ hhas, hp⟩
    · rintro ⟨ho, r, hr, hhas, hp⟩
      have hfound := h.inTurn.locate?_eq (a := a) (o := o) (by omega) hr hhas
      rw [locate?, if_neg hin] at hfound
      simpa [hp] using hfound

/-- On every host, after any requests, refused ones among them, the regions part what has been carved
off, a further request is answered by what is left, and a host address is located exactly if it is the
base and an offset in what has been carved off, with the protection of the one region that has the
offset. -/
theorem partition_run {base : HostAddress} {size : Nat} {kernel : Kernel}
    (made : create base size kernel = .ok arena)
    (fits : base.toNat + arena.size ≤ 2 ^ 64) (requests : List Request) :
    roundUpToPage size = some (arena.run requests).size ∧
      (arena.run requests).Parted ∧
      (∀ q, (arena.run requests).Answers q) ∧
      (∀ a o p, (arena.run requests).locate? a = some (o, p) ↔
        a = base + UInt64.ofNat o ∧ o < (arena.run requests).used ∧
          ∃ r ∈ (arena.run requests).regions, r.Has o ∧ r.protection = p ∧
            ∀ r' ∈ (arena.run requests).regions, r'.Has o → r' = r) ∧
      ∀ r ∈ (arena.run requests).regions, ∀ k < r.size,
        (arena.run requests).locate?
            ((arena.run requests).address ⟨r.offset, r.size⟩ + UInt64.ofNat k) =
          some (r.offset + k, r.protection) := by
  obtain ⟨hparted, hbase, hsize⟩ := (parted_of_create made).run requests
  have hbase' : (arena.run requests).base = base := hbase.trans (create_eq_ok made).1
  have hfits : (arena.run requests).base.toNat + (arena.run requests).size ≤ 2 ^ 64 := by
    rw [hbase', hsize]
    exact fits
  refine ⟨hsize ▸ size_of_create made, hparted, answers hparted.used_le, fun a o p => ?_,
    fun r hr k hk => ?_⟩
  · rw [hparted.locate?_eq_some_iff hfits, hbase']
    refine and_congr_right fun _ => and_congr_right fun _ => ⟨?_, ?_⟩
    · rintro ⟨r, hr, hhas, hp⟩
      exact ⟨r, hr, hhas, hp, fun r' hr' hhas' => hparted.inTurn.unique hr' hr hhas' hhas⟩
    · rintro ⟨r, hr, hhas, hp, -⟩
      exact ⟨r, hr, hhas, hp⟩
  · have hhas : r.Has (r.offset + k) := ⟨Nat.le_add_right _ _, Nat.add_lt_add_left hk _⟩
    refine (hparted.locate?_eq_some_iff hfits).2
      ⟨?_, (hparted.covers _).2 ⟨r, hr, hhas⟩, r, hr, hhas, rfl⟩
    rw [address, UInt64.add_assoc, ← UInt64.ofNat_add]

def carving : List Request :=
  [⟨"ram", 0x1800, .readWrite⟩, ⟨"none", 0, .noAccess⟩, ⟨"more", 0x3000, .readWrite⟩,
    ⟨"rom", 0x1000, .readOnly⟩]

/-- The last region is found behind the empty one, which starts where it does. -/
theorem partition_run_carving :
    create 0x700000000000 0x3001 = .ok ⟨0x700000000000, 0x4000, 0, []⟩ ∧
      (0x700000000000 : HostAddress).toNat + 0x4000 ≤ 2 ^ 64 ∧
      (run ⟨0x700000000000, 0x4000, 0, []⟩ carving).Parted ∧
      (run ⟨0x700000000000, 0x4000, 0, []⟩ carving).locate? 0x700000002010 =
        some (0x2010, .readOnly) := by
  have made : create 0x700000000000 0x3001 = .ok ⟨0x700000000000, 0x4000, 0, []⟩ := rfl
  have fits : (0x700000000000 : HostAddress).toNat + 0x4000 ≤ 2 ^ 64 := by decide
  obtain ⟨-, hparted, -, -, hinverse⟩ := partition_run made fits carving
  have hlast : (⟨"rom", 0x2000, 0x1000, .readOnly⟩ : Region) ∈
      (run ⟨0x700000000000, 0x4000, 0, []⟩ carving).regions := .tail _ (.tail _ (.head _))
  exact ⟨made, fits, hparted, hinverse _ hlast 0x10 (by decide)⟩

end Arena

end GuestMemory
