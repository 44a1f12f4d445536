import Mathlib.Data.Finset.Card
import GuestMemory.Proofs.Cache.Schedule

/-!
How long a line stays in the cache. The misses of a set take the two ways in turn, so a line that one
of them has brought in stays until the second miss after it, which writes it back if it is dirty. All
the while its bytes are those that memory would have if the stores had gone there.
-/
namespace GuestMemory

/-- The same bytes put at the same places agree where what was there before agreed. -/
theorem Puts.agree {f f' g g' : HostAddress → UInt8} {loc : Nat → HostAddress} {bs : List UInt8}
    {b : HostAddress} (h : Puts f loc bs g) (h' : Puts f' loc bs g') (hb : f b = f' b) :
    g b = g' b := by
  by_cases hl : ∃ i, ∃ _ : i < bs.length, loc i = b
  · obtain ⟨i, hi, rfl⟩ := hl
    rw [h.stored i hi, h'.stored i hi]
  · have hn : ∀ i < bs.length, loc i ≠ b := fun i hi he => hl ⟨i, hi, he⟩
    rw [h.kept b hn, h'.kept b hn, hb]

namespace Cache

def lineOf (b : HostAddress) : Nat := b.toNat / 64

/-- Memory after a request, if there were no cache. -/
def Request.direct (m : Memory) : Request → Memory
  | .write a x => m.store a.host x
  | .read _ | .writeBack _ _ | .loadTag _ _ => m

def direct (m : Memory) (rs : List Request) : Memory := rs.foldl Request.direct m

theorem direct_concat (m : Memory) (rs : List Request) (r : Request) :
    direct m (rs ++ [r]) = r.direct (direct m rs) := by
  rw [direct, List.foldl_append, List.foldl_cons, List.foldl_nil, ← direct]

theorem turn_succ_ne (n : Nat) : turn (n + 1) ≠ turn n := by
  intro h
  have hv : (n + 1) % 2 = n % 2 := congrArg Fin.val h
  omega

theorem turn_add_two (n : Nat) : turn (n + 2) = turn n := Fin.ext (Nat.add_mod_right n 2)

theorem coherent_empty (m : Memory) : Coherent {} m := by
  have hv : ∀ i way, (line {} i way).tag.valid = false := by
    intro i way
    simp [line, set, LineSet.line]
  exact ⟨fun i _ way h => absurd h (by rw [hv]; decide),
    fun i _ way _ h => absurd h (by rw [hv]; decide), fun i _ way h => absurd h (by rw [hv]; decide)⟩

namespace Backed

variable {s t : Backed} {r : Request} {a : Access} {i n : Nat} {way : Way} {host b : HostAddress}

theorem coherent_serve (h : Coherent s.cache s.memory) (r : Request) :
    Coherent (s.serve r).cache (s.serve r).memory := by
  cases r with
  | read a => exact (read_spec h a.same_offset a.width a.physical a.fits).2.1
  | write a x => exact (write_spec h a.same_offset a.physical x a.fits).1
  | writeBack v host => exact h.hitOp .hitWriteback v host
  | loadTag v packed => exact h

/-- What is seen changes as memory would without a cache. -/
theorem seen_serve (h : Coherent s.cache s.memory) (r : Request) {m : Memory}
    (hb : s.cache.seen s.memory b = m.byte b) :
    (s.serve r).cache.seen (s.serve r).memory b = (r.direct m).byte b := by
  cases r with
  | read a =>
    have hs := (read_spec h a.same_offset a.width a.physical a.fits).2.2
    exact (congrFun hs b).trans hb
  | write a x =>
    have hl : x.bytes.length ≤ 2 ^ 64 := by
      rw [Word.length_bytes]
      exact Nat.le_trans a.width.bytes_le (by decide)
    have hp := (write_spec h a.same_offset a.physical x a.fits).2
    exact hp.agree (m.puts_write hl fun _ _ => rfl) hb
  | writeBack v host =>
    have hop : Op.hitWriteback ≠ .hitInvalidate := nofun
    exact (congrFun (seen_hitOp h hop v host) b).trans hb
  | loadTag v packed => exact hb

/-- A run shows the bytes that memory would have without a cache. -/
theorem run_spec (h : Coherent s.cache s.memory) (rs : List Request) :
    Coherent (s.run rs).cache (s.run rs).memory ∧ ∀ b (m : Memory),
      s.cache.seen s.memory b = m.byte b →
        (s.run rs).cache.seen (s.run rs).memory b = (direct m rs).byte b := by
  induction rs using List.reverseRecOn with
  | nil => exact ⟨h, fun _ _ hb => hb⟩
  | append_singleton rs r ih =>
    rw [run_concat]
    refine ⟨coherent_serve ih.1 r, fun b m hb => ?_⟩
    rw [direct_concat]
    exact seen_serve ih.1 r (ih.2 b m hb)

/-- A miss brings the line in to the way whose turn it is. -/
theorem holds_serve_of_miss (hn : Filled s.cache i n) (hr : r.access? = some a)
    (hm : s.misses i r = true) :
    ((s.serve r).cache.line i (turn n)).tag.holds a.host = true := by
  obtain ⟨rfl, hf⟩ := (misses_iff hr).1 hm
  obtain ⟨-, dirty, htag⟩ := serve_of_miss hr hf
  rw [hn.victim] at htag
  rw [htag]
  exact Tag.holds_iff.2 ⟨rfl, rfl⟩

/-- A line stays in its way unless a miss finds that it is this way's turn. -/
theorem holds_serve (hn : Filled s.cache i n) (hi : i < setCount)
    (hh : (s.cache.line i way).tag.holds host = true)
    (hm : s.misses i r = true → turn n ≠ way) :
    ((s.serve r).cache.line i way).tag.holds host = true := by
  obtain ⟨a, hr, rfl, hf, hmiss⟩ | hmiss := s.misses_cases i r
  · have hkept := (serve_of_miss hr hf).1 _ hi way fun he => hm hmiss (hn.victim ▸ he.2)
    rw [hkept, hh]
  · obtain ⟨dirty, htag⟩ := tag_serve_of_not_miss hmiss hi way
    rw [htag]
    exact hh

/-- The line in the way that was filled last stays over one more miss. -/
theorem holds_run (hn : Filled s.cache i (n + 1)) (hi : i < setCount)
    (hh : (s.cache.line i (turn n)).tag.holds host = true) {rs : List Request}
    (hc : s.missCount i rs ≤ 1) : ((s.run rs).cache.line i (turn n)).tag.holds host = true := by
  induction rs using List.reverseRecOn with
  | nil => exact hh
  | append_singleton rs r ih =>
    rw [missCount_concat] at hc
    rw [run_concat]
    refine holds_serve (hn.run hi rs) hi (ih (by omega)) fun hm => ?_
    rw [hm, Bool.toNat_true] at hc
    have hzero : s.missCount i rs = 0 := by omega
    rw [hzero]
    exact turn_succ_ne n

/-- The line around a host address is in a way, in which every access to it finds it, and its bytes
are those of `m`. -/
structure Holds (s : Backed) (host : HostAddress) (way : Way) (m : Memory) : Prop where
  found : ∀ a : Access, lineOf a.host = lineOf host →
    (s.cache.set (index a.address)).find? a.host = some way
  bytes : ∀ b, lineOf b = lineOf host →
    (s.cache.line (hostIndex host) way).data.get (hostOffset b) = m.byte b

/-- Between `s` and `t` the line around a host address leaves its way. If it is dirty, its bytes,
which are those of `m`, go to memory, and otherwise memory stays as it is. -/
structure Evicts (s t : Backed) (host : HostAddress) (way : Way) (m : Memory) : Prop where
  gone : ∀ w, (t.cache.line (hostIndex host) w).tag.holds host = false
  dirty : (s.cache.line (hostIndex host) way).tag.dirty = true → ∀ b,
    t.memory.byte b = if lineOf b = lineOf host then m.byte b else s.memory.byte b
  clean : (s.cache.line (hostIndex host) way).tag.dirty = false → t.memory = s.memory

theorem find?_of_tag (h : Coherent s.cache s.memory) (hi : i < setCount)
    (hh : (s.cache.line i way).tag.holds b = true) : (s.cache.set i).find? b = some way := by
  cases hf : (s.cache.set i).find? b with
  | some w => rw [h.holds_unique hi hh (LineSet.find?_eq_some hf)]
  | none =>
    have hn := LineSet.find?_eq_none hf way
    rw [line, hn] at hh
    cases hh

/-- A way whose tag has an address holds the line of it. -/
theorem holds_of_tag (h : Coherent s.cache s.memory)
    (hh : (s.cache.line (hostIndex host) way).tag.holds host = true) {m : Memory}
    (hm : ∀ b, lineOf b = lineOf host → s.cache.seen s.memory b = m.byte b) :
    s.Holds host way m := by
  constructor
  · intro a ha
    obtain ⟨hix, hp⟩ := sameLine_iff.1 ha
    rw [a.index_eq_hostIndex, hix]
    exact find?_of_tag h (hostIndex_lt host) (by rwa [Tag.holds_congr _ hp])
  · intro b hb
    obtain ⟨hix, hp⟩ := sameLine_iff.1 hb
    have hh' : (s.cache.line (hostIndex b) way).tag.holds b = true := by
      rwa [hix, Tag.holds_congr _ hp]
    rw [← hm b hb, seen_of_holds h hh', hix]

theorem memory_serve (hr : r.access? = some a) : (s.serve r).memory = (s.touched a).memory := by
  cases r with
  | read a' =>
    cases hr
    rfl
  | write a' x =>
    cases hr
    rfl
  | _ => cases hr

/-- A miss when it is the turn of a way replaces the line that this way holds. -/
theorem evicts_of_miss (h : Coherent s.cache s.memory) (hn : Filled s.cache (hostIndex host) n)
    (hr : r.access? = some a) (hm : s.misses (hostIndex host) r = true) {m : Memory}
    (hh : (s.cache.line (hostIndex host) (turn n)).tag.holds host = true)
    (hs : s.Holds host (turn n) m) : s.Evicts (s.serve r) host (turn n) m := by
  have hi := hostIndex_lt host
  obtain ⟨hix, hf⟩ := (misses_iff hr).1 hm
  rw [← hix] at hf
  have hmiss := serve_of_miss hr hf
  obtain ⟨hway, -, hmem⟩ := touched_of_miss hf
  rw [hix] at hf hmiss hway hmem
  rw [hn.victim] at hmiss hway
  obtain ⟨hkept, dirty, htag⟩ := hmiss
  rw [hway] at hmem
  have hline : ∀ b, hostIndex b = hostIndex host ∧
      (s.cache.line (hostIndex host) (turn n)).tag.holds b = true ↔ lineOf b = lineOf host := by
    intro b
    rw [lineOf, lineOf, sameLine_iff]
    refine and_congr_right fun _ => ?_
    rw [Tag.holds_iff, ← (Tag.holds_iff.1 hh).2, (Tag.holds_iff.1 hh).2, eq_comm (a := host.pageBase)]
    exact and_iff_right (Tag.holds_iff.1 hh).1
  refine ⟨fun w => ?_, fun hd b => ?_, fun hd => ?_⟩
  · rw [Bool.eq_false_iff]
    intro hw
    by_cases he : w = turn n
    · rw [he, htag] at hw
      have hp : a.host.pageBase = host.pageBase := (Tag.holds_iff.1 hw).2
      have hfree := LineSet.find?_eq_none hf (turn n)
      rw [← line, Tag.holds_congr _ hp, hh] at hfree
      cases hfree
    · rw [hkept _ hi w fun e => he e.2.symm] at hw
      exact he (h.holds_unique hi hw hh)
  · rw [memory_serve hr, hmem, byte_writeBack h hi]
    simp only [hline]
    split
    · rename_i hb
      exact hs.bytes b hb
    · rfl
  · rw [memory_serve hr, hmem, writeBack]
    simp only [hd, Bool.and_false, Bool.false_eq_true, if_false]

/-- Lines of a set that a run accesses. -/
def linesIn (i : Nat) (rs : List Request) : List Nat :=
  ((rs.filterMap Request.access?).filter fun a => index a.address = i).map fun a => lineOf a.host

theorem linesIn_append (i : Nat) (rs rs' : List Request) :
    linesIn i (rs ++ rs') = linesIn i rs ++ linesIn i rs' := by
  simp only [linesIn, List.filterMap_append, List.filter_append, List.map_append]

theorem mem_linesIn (hr : r.access? = some a) (rs : List Request) :
    lineOf a.host ∈ linesIn (index a.address) (r :: rs) := by
  simp [linesIn, hr]

/-- The line in each valid way is one of some. -/
def Known (c : Cache) (i : Nat) (ls : List Nat) : Prop :=
  ∀ way, (c.line i way).tag.valid = true → ∃ b, (c.line i way).tag.holds b = true ∧ lineOf b ∈ ls

/-- A request brings in no line but its own. -/
theorem known_serve {ls : List Nat} (h : Known s.cache i ls) (hn : Filled s.cache i n)
    (hi : i < setCount) (r : Request) : Known (s.serve r).cache i (ls ++ linesIn i [r]) := by
  intro way hv
  by_cases hnew : s.misses i r = true ∧ way = turn n
  · obtain ⟨hm, rfl⟩ := hnew
    obtain ⟨a, hr, rfl, -, -⟩ | hf := s.misses_cases i r
    · exact ⟨a.host, holds_serve_of_miss hn hr hm, List.mem_append_right _ (mem_linesIn hr [])⟩
    · rw [hm] at hf
      cases hf
  · have hold : (s.cache.line i way).tag.valid = true := by
      obtain ⟨a, hr, rfl, hf, hm⟩ | hm := s.misses_cases i r
      · have hne : ¬(index a.address = index a.address ∧
            (s.cache.set (index a.address)).victim = way) :=
          fun he => hnew ⟨hm, he.2.symm.trans hn.victim⟩
        rwa [(serve_of_miss hr hf).1 _ hi way hne] at hv
      · obtain ⟨dirty, ht⟩ := tag_serve_of_not_miss hm hi way
        rwa [ht] at hv
    obtain ⟨b, hb, hl⟩ := h way hold
    exact ⟨b, holds_serve hn hi hb fun hm he => hnew ⟨hm, he.symm⟩, List.mem_append_left _ hl⟩

theorem known_run (h : Known s.cache i []) (hn : Filled s.cache i n) (hi : i < setCount)
    (rs : List Request) : Known (s.run rs).cache i (linesIn i rs) := by
  induction rs using List.reverseRecOn with
  | nil => exact h
  | append_singleton rs r ih =>
    rw [run_concat, linesIn_append]
    exact known_serve ih (hn.run hi rs) hi r

/-- A miss that finds its victim valid has a third line: both ways hold one already. -/
theorem two_lt_card_of_victim_valid {ls : List Nat} (h : Coherent s.cache s.memory)
    (hk : Known s.cache i ls) (hn : Filled s.cache i n) (hi : i < setCount)
    (hf : (s.cache.set i).find? b = none) (hb : lineOf b ∈ ls)
    (hv : (s.cache.line i (turn n)).tag.valid = true) : 2 < ls.toFinset.card := by
  have hturn : (turn n).val = n % 2 := rfl
  have hvalid : ∀ way, (s.cache.line i way).tag.valid = true := by
    intro way
    have := way.isLt
    rw [hn.valid, decide_eq_true_eq] at hv ⊢
    omega
  have hfree : ∀ way b', (s.cache.line i way).tag.holds b' = true → lineOf b' ≠ lineOf b := by
    intro way b' hh he
    have hfree := LineSet.find?_eq_none hf way
    rw [← line, ← Tag.holds_congr _ (sameLine_iff.1 he).2, hh] at hfree
    cases hfree
  obtain ⟨b₀, h₀, hl₀⟩ := hk 0 (hvalid 0)
  obtain ⟨b₁, h₁, hl₁⟩ := hk 1 (hvalid 1)
  have hne : lineOf b₀ ≠ lineOf b₁ := by
    intro he
    rw [Tag.holds_congr _ (sameLine_iff.1 he).2] at h₀
    exact absurd (h.holds_unique hi h₀ h₁) (by decide)
  rw [Finset.two_lt_card_iff]
  exact ⟨lineOf b₀, lineOf b₁, lineOf b, List.mem_toFinset.2 hl₀, List.mem_toFinset.2 hl₁,
    List.mem_toFinset.2 hb, hne, hfree 0 b₀ h₀, hfree 1 b₁ h₁⟩

def empty (m : Memory) : Backed := { memory := m }

section

variable (m : Memory) (before : List Request)

theorem coherent_run : Coherent ((empty m).run before).cache ((empty m).run before).memory :=
  (run_spec (coherent_empty m) before).1

theorem filled_run (hi : i < setCount) :
    Filled ((empty m).run before).cache i ((empty m).missCount i before) := by
  have h := (show Filled (empty m).cache i 0 from filled_empty i).run hi before
  rwa [Nat.zero_add] at h

/-- What a hit changes of the tags. -/
theorem tag_serve_of_hit (hr : r.access? = some a)
    (hf : (s.cache.set (index a.address)).find? a.host = some way) {j : Nat} (hj : j < setCount)
    (w : Way) :
    ((s.serve r).cache.line j w).tag =
      if r.stores = true ∧ index a.address = j ∧ way = w then
        { (s.cache.line j w).tag with dirty := true }
      else (s.cache.line j w).tag := by
  obtain ⟨hway, hline, -⟩ := touched_of_hit hf
  rw [tag_serve hr hj, hline, hway]

/-- A miss and the misses before and after it. -/
theorem missCount_of_miss (hm : ((empty m).run before).misses i r = true) (after : List Request) :
    (empty m).missCount i (before ++ r :: after) =
      (empty m).missCount i before + 1 + (((empty m).run before).serve r).missCount i after := by
  have happ := missCount_append (empty m) i before (r :: after)
  rwa [missCount, hm, Bool.toNat_true, ← Nat.add_assoc] at happ

/-- A line that misses is held nowhere, so from then on its bytes are those of memory and what has
been stored since. -/
theorem seen_of_miss (hr : r.access? = some a)
    (hm : ((empty m).run before).misses (index a.address) r = true) (after : List Request)
    (hb : lineOf b = lineOf a.host) :
    ((empty m).run (before ++ r :: after)).cache.seen ((empty m).run (before ++ r :: after)).memory b =
      (direct ((empty m).run before).memory (r :: after)).byte b := by
  obtain ⟨hix, hp⟩ := sameLine_iff.1 hb
  have hfree := ((misses_iff hr).1 hm).2
  have hseen : ((empty m).run before).cache.seen ((empty m).run before).memory b =
      ((empty m).run before).memory.byte b := by
    refine seen_of_free fun way => ?_
    rw [hix, ← a.index_eq_hostIndex, Tag.holds_congr _ hp]
    exact LineSet.find?_eq_none hfree way
  have happ : (empty m).run (before ++ r :: after) = ((empty m).run before).run (r :: after) :=
    run_append_cons _ before after r
  rw [happ]
  exact (run_spec (coherent_run m before) (r :: after)).2 b _ hseen

/-- The line that a miss brings in is in its way until the second miss after it. -/
theorem holds_of_miss (hr : r.access? = some a)
    (hm : ((empty m).run before).misses (index a.address) r = true) {after : List Request}
    (hn : (empty m).missCount (index a.address) (before ++ r :: after) ≤
      (empty m).missCount (index a.address) before + 2) :
    (((empty m).run (before ++ r :: after)).cache.line (hostIndex a.host)
      (turn ((empty m).missCount (index a.address) before))).tag.holds a.host = true := by
  have hi := index_lt a.address
  have hk := filled_run m before hi
  have hfill := hk.serve hi r
  rw [hm, Bool.toNat_true] at hfill
  rw [missCount_of_miss m before hm after] at hn
  have hone : (((empty m).run before).serve r).missCount (index a.address) after ≤ 1 := by omega
  have hstay := holds_run hfill hi (holds_serve_of_miss hk hr hm) hone
  have happ : (empty m).run (before ++ r :: after) = (((empty m).run before).serve r).run after :=
    run_append_cons _ before after r
  rw [happ, ← a.index_eq_hostIndex]
  exact hstay

/-- The line that a miss brings in stays until the second miss after it, and then it goes. -/
theorem stays_of_miss (hr : r.access? = some a)
    (hm : ((empty m).run before).misses (index a.address) r = true) (after : List Request) :
    let k := (empty m).missCount (index a.address) before
    let n := (empty m).missCount (index a.address) (before ++ r :: after)
    let t := (empty m).run (before ++ r :: after)
    let now := direct ((empty m).run before).memory (r :: after)
    (n ≤ k + 2 → t.Holds a.host (turn k) now) ∧
      (n = k + 2 → ∀ r', t.misses (index a.address) r' = true →
        t.Evicts (t.serve r') a.host (turn k) now) := by
  intro k n t now
  have ht : Coherent t.cache t.memory := coherent_run m (before ++ r :: after)
  have hn : Filled t.cache (index a.address) n :=
    filled_run m (before ++ r :: after) (index_lt a.address)
  have hnow : ∀ b, lineOf b = lineOf a.host → t.cache.seen t.memory b = now.byte b :=
    fun b hb => seen_of_miss m before hr hm after hb
  have hheld : n ≤ k + 2 → (t.cache.line (hostIndex a.host) (turn k)).tag.holds a.host = true :=
    holds_of_miss m before hr hm
  refine ⟨fun hle => holds_of_tag ht (hheld hle) hnow, fun hlast r' hm' => ?_⟩
  have hturn : turn n = turn k := by rw [hlast, turn_add_two]
  obtain ⟨a', hr', -, -, -⟩ | hf := t.misses_cases (index a.address) r'
  · have hh := hheld (Nat.le_of_eq hlast)
    rw [← hturn] at hh ⊢
    rw [a.index_eq_hostIndex] at hm' hn
    exact evicts_of_miss ht hn hr' hm' hh (holds_of_tag ht hh hnow)
  · rw [hm'] at hf
    cases hf

/-- A run that accesses no more than two lines of each set replaces no line. -/
theorem victim_free {rs after : List Request} (two : ∀ i < setCount, (linesIn i rs).toFinset.card ≤ 2)
    (hrs : rs = before ++ r :: after) (hr : r.access? = some a)
    (hm : ((empty m).run before).misses (index a.address) r = true) :
    (((empty m).run before).cache.line (index a.address)
      (((empty m).run before).cache.set (index a.address)).victim).tag.valid = false := by
  have hi := index_lt a.address
  have hn := filled_run m before hi
  have hknown := known_run (s := empty m) (i := index a.address)
    (fun way hv => by simp [empty, line, set, LineSet.line] at hv) (filled_empty _) hi before
  have hf := ((misses_iff hr).1 hm).2
  rw [hn.victim, Bool.eq_false_iff]
  intro hv
  have hmem : lineOf a.host ∈ linesIn (index a.address) rs := by
    rw [hrs, linesIn_append]
    exact List.mem_append_right _ (mem_linesIn hr after)
  have hall : Known ((empty m).run before).cache (index a.address) (linesIn (index a.address) rs) := by
    intro way hw
    obtain ⟨b, hb, hl⟩ := hknown way hw
    rw [hrs, linesIn_append]
    exact ⟨b, hb, List.mem_append_left _ hl⟩
  have hthree := two_lt_card_of_victim_valid (coherent_run m before) hall hn hi hf hmem hv
  exact absurd (two _ hi) (Nat.not_le.2 hthree)

end

/-- From an empty cache on, the misses of a set fill its two ways in turn. The line that the `k`-th
one brings in is found in its way by every access until the `k + 2`-th one, and has the bytes that
memory had and what has been stored since; then it goes, to memory if it is dirty. Hits change no
tags but to make a line dirty that is stored to; and two lines in a set never replace each other. -/
theorem eviction_schedule (m : Memory) :
    (∀ before r a, r.access? = some a →
      let s := (empty m).run before
      let i := index a.address
      let k := (empty m).missCount i before
      (s.misses i r = true →
        (∀ j < setCount, ∀ w, ¬(i = j ∧ turn k = w) →
          (s.serve r).cache.line j w = s.cache.line j w) ∧
        ∀ after,
          let n := (empty m).missCount i (before ++ r :: after)
          let t := (empty m).run (before ++ r :: after)
          let now := direct s.memory (r :: after)
          (n ≤ k + 2 → t.Holds a.host (turn k) now) ∧
          (n = k + 2 → ∀ r', t.misses i r' = true →
            t.Evicts (t.serve r') a.host (turn k) now)) ∧
      ∀ way, (s.cache.set i).find? a.host = some way →
        (s.serve r).memory = s.memory ∧ ∀ j < setCount, ∀ w,
          ((s.serve r).cache.line j w).tag =
            if r.stores = true ∧ i = j ∧ way = w then { (s.cache.line j w).tag with dirty := true }
            else (s.cache.line j w).tag) ∧
    ∀ rs, (∀ i < setCount, (linesIn i rs).toFinset.card ≤ 2) →
      ∀ before r after a, rs = before ++ r :: after → r.access? = some a →
        let s := (empty m).run before
        s.misses (index a.address) r = true →
          (s.cache.line (index a.address) (s.cache.set (index a.address)).victim).tag.valid =
            false := by
  refine ⟨fun before r a hr => ⟨fun hm => ⟨fun j hj w hne => ?_, ?_⟩, fun way hf => ⟨?_, ?_⟩⟩, ?_⟩
  · have hf := ((misses_iff hr).1 hm).2
    refine (serve_of_miss hr hf).1 j hj w fun he => hne ⟨he.1, ?_⟩
    rw [← he.2, (filled_run m before (index_lt a.address)).victim]
  · exact stays_of_miss m before hr hm
  · rw [memory_serve hr, (touched_of_hit hf).2.2]
  · exact fun j hj w => tag_serve_of_hit hr hf hj w
  · exact fun rs two before r after a hrs hr hm => victim_free m before two hrs hr hm

/-- Three accesses to lines of one set. -/
def threePages (page : Fin 3) : Access :=
  match page with
  | 0 => ⟨.w32, 0x0040, 0x10040, 0x0040, by decide, by decide⟩
  | 1 => ⟨.w32, 0x1040, 0x11040, 0x1040, by decide, by decide⟩
  | 2 => ⟨.w32, 0x2040, 0x12040, 0x2040, by decide, by decide⟩

/-- A store to the first of three lines stays in the cache while the second one is loaded, to which
the other way is free. The third one takes its way, and the store goes to memory. -/
theorem eviction_schedule_threePages :
    let stored : Request := .write (threePages 0) 0x11223344
    let two := [stored, .read (threePages 1)]
    let t := (empty {}).run two
    (empty {}).misses 1 stored = true ∧ (empty {}).missCount 1 two = 2 ∧
      (∀ i < setCount, (linesIn i two).toFinset.card ≤ 2) ∧
        (((empty {}).run [stored]).cache.line 1 1).tag.valid = false ∧
          (t.serve (.read (threePages 0))).memory = t.memory ∧ t.Holds 0x10040 0 (direct {} two) ∧
            t.Evicts (t.serve (.read (threePages 2))) 0x10040 0 (direct {} two) ∧
              t.memory.byte 0x10040 = 0 ∧
                (t.serve (.read (threePages 2))).memory.byte 0x10040 = 0x44 := by
  intro stored two t
  have hm : (empty {}).misses 1 stored = true := by decide +kernel
  have hn : (empty {}).missCount 1 two = 2 := by decide +kernel
  have hlines : ∀ i < setCount, (linesIn i two).toFinset.card ≤ 2 := by decide +kernel
  obtain ⟨hschedule, htwo⟩ := eviction_schedule {}
  have hfree := htwo two hlines [stored] _ [] (threePages 1) rfl rfl (by decide +kernel)
  have hhit := (hschedule two (.read (threePages 0)) (threePages 0) rfl).2 0 (by decide +kernel)
  have hstays := ((hschedule [] stored (threePages 0) rfl).1 hm).2 [.read (threePages 1)]
  refine ⟨hm, hn, hlines, hfree, hhit.1, hstays.1 (Nat.le_of_eq hn), hstays.2 hn _ ?_, ?_, ?_⟩
  all_goals decide +kernel

end Backed

end Cache

end GuestMemory
