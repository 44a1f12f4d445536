import Mathlib.Data.List.Basic
import GuestMemory.Proofs.Since
import GuestMemory.Proofs.Cache.PackedTag
import GuestMemory.Proofs.Cache.Schedule

/-!
Tags that are read back after any use of the cache. A use fills a way, empties it, stores flags
into its tag or makes it clean or dirty, and it can do no more. So a way has memory behind it from
the use that fills it until the one that empties it, and is neither valid nor dirty at other times.
A tag that has just been loaded can therefore be stored again and nothing changes.
-/
namespace GuestMemory

theorem HostAddress.pageBase_ne_zero {a : HostAddress} (h : 4096 ≤ a.toNat) : a.pageBase ≠ 0 := by
  intro hz
  have hn := congrArg UInt64.toNat hz
  rw [toNat_pageBase, UInt64.toNat_zero] at hn
  omega

namespace Cache

variable {c : Cache} {m : Memory} {i : Nat} {way : Way}

/-- A load does no more than bring in its line. -/
theorem snd_read? (w : Width) (c : Cache) (m : Memory) (v : GuestAddress) (host : HostAddress)
    (phys : GuestAddress) : (c.read? m w v host phys).2 = (c.touch m v host phys).2 := by
  rw [read?]
  split <;> rfl

/-- A store that lies in its line makes it dirty after bringing it in. -/
theorem tag_write? {w : Width} (c : Cache) (m : Memory) (v : GuestAddress) (host : HostAddress)
    (phys : GuestAddress) (x : Word w) (hi : i < setCount) (way : Way) :
    ((c.write? m v host phys x).2.1.line i way).tag =
      if Fits v w ∧ index v = i ∧ (c.touch m v host phys).1 = way then
        { ((c.touch m v host phys).2.1.line i way).tag with dirty := true }
      else ((c.touch m v host phys).2.1.line i way).tag := by
  rw [write?]
  by_cases fits : Fits v w
  · have hl := line_setLine (c.touch m v host phys).2.1 (c.touch m v host phys).1 way
      (((c.touch m v host phys).2.1.line (index v) (c.touch m v host phys).1).stored (offset v)
        x.bytes) (index_lt v) hi
    rw [dif_pos fits]
    refine (congrArg Line.tag hl).trans ?_
    by_cases h : index v = i ∧ (c.touch m v host phys).1 = way
    · rw [if_pos h, if_pos ⟨fits, h⟩]
      obtain ⟨rfl, rfl⟩ := h
      rfl
    · rw [if_neg h, if_neg fun h' => h h'.2]
  · rw [dif_neg fits, if_neg fun h => fits h.1]

/-- Operations that empty the way they are about. -/
def Op.empties : Op → Bool
  | indexWritebackInvalidate | indexInvalidate | hitInvalidate | hitWritebackInvalidate => true
  | indexLoadTag | indexStoreTag | hitWriteback => false

/-- What a cache is used for. No memory is mapped to the first page of the host, so no access goes
there. Memory may also change without the cache. -/
inductive Use where
  | touch (v : GuestAddress) (host : HostAddress) (phys : GuestAddress) (mapped : 4096 ≤ host.toNat)
  | read (w : Width) (v : GuestAddress) (host : HostAddress) (phys : GuestAddress)
    (mapped : 4096 ≤ host.toNat)
  | write {w : Width} (v : GuestAddress) (host : HostAddress) (phys : GuestAddress) (x : Word w)
    (mapped : 4096 ≤ host.toNat)
  | indexOp (op : Op) (a : GuestAddress) (packed : UInt64)
  | hitOp (op : Op) (v : GuestAddress) (host : HostAddress)
  | reset
  | memory (m : Memory)

def Backed.use (s : Backed) : Use → Backed
  | .touch v host phys _ =>
    let (_, cache, memory) := s.cache.touch s.memory v host phys
    { cache, memory }
  | .read w v host phys _ =>
    let (_, cache, memory) := s.cache.read? s.memory w v host phys
    { cache, memory }
  | .write v host phys x _ =>
    let (_, cache, memory) := s.cache.write? s.memory v host phys x
    { cache, memory }
  | .indexOp op a packed =>
    let (_, cache, memory) := s.cache.indexOp s.memory op a packed
    { cache, memory }
  | .hitOp op v host =>
    let (cache, memory) := s.cache.hitOp s.memory op v host
    { cache, memory }
  | .reset => { s with cache := {} }
  | .memory memory => { s with memory }

namespace Use

variable {u : Use} {v : GuestAddress} {host : HostAddress} {t : Tag}

def access? : Use → Option (GuestAddress × HostAddress)
  | touch v host _ _ | read _ v host _ _ | write v host _ _ _ => some (v, host)
  | indexOp .. | hitOp .. | reset | memory _ => none

/-- An access misses, and it is the turn of the way. -/
def Fills (u : Use) (c : Cache) (i : Nat) (way : Way) : Prop :=
  ∃ v host, u.access? = some (v, host) ∧ index v = i ∧ (c.set i).find? host = none ∧
    (c.set i).victim = way

/-- The way is emptied: by its set and number, as the one that holds an address, or with all the
others. -/
def Clears (u : Use) (c : Cache) (i : Nat) (way : Way) : Prop :=
  match u with
  | indexOp op a _ => op.isHit = false ∧ op.empties = true ∧ index a = i ∧ wayOf a = way
  | hitOp op v host => op.isHit = true ∧ op.empties = true ∧ index v = i ∧
      (c.set i).find? host = some way
  | reset => True
  | touch .. | read .. | write .. | memory _ => False

theorem mapped (hu : u.access? = some (v, host)) : 4096 ≤ host.toNat := by
  cases u with
  | touch _ _ _ mapped | read _ _ _ _ mapped | write _ _ _ _ mapped =>
    cases hu
    exact mapped
  | _ => cases hu

theorem fills_iff (hu : u.access? = some (v, host)) : u.Fills c i way ↔
    index v = i ∧ (c.set i).find? host = none ∧ (c.set i).victim = way := by
  constructor
  · rintro ⟨v', host', hu', h⟩
    cases hu.symm.trans hu'
    exact h
  · exact fun h => ⟨v, host, hu, h⟩

theorem not_clears_of_access (hu : u.access? = some (v, host)) : ¬u.Clears c i way := by
  cases u with
  | touch | read | write => exact id
  | _ => cases hu

theorem not_fills_of_access?_eq_none (hu : u.access? = none) : ¬u.Fills c i way := by
  rintro ⟨v, host, hv, -⟩
  rw [hu] at hv
  cases hv

/-- What a use can do to the tag of a way. -/
inductive TagStep (u : Use) (c : Cache) (i : Nat) (way : Way) : Tag → Prop where
  | filled (fills : u.Fills c i way) (no_clear : ¬u.Clears c i way) (host : HostAddress)
      (mapped : 4096 ≤ host.toNat) (phys : GuestAddress) (dirty : Bool) :
      TagStep u c i way
        { (c.line i way).tag with
          hostPage := host.pageBase, physicalPage := phys.pageBase
          valid := true, dirty, lrf := !(c.line i way).tag.lrf }
  | cleared (no_fill : ¬u.Fills c i way) (clears : u.Clears c i way) : TagStep u c i way {}
  | stored (no_fill : ¬u.Fills c i way) (no_clear : ¬u.Clears c i way) (packed : UInt64) :
      TagStep u c i way ((c.line i way).tag.storeFlags packed)
  | kept (no_fill : ¬u.Fills c i way) (no_clear : ¬u.Clears c i way) (dirty : Bool)
      (sound : dirty = true → (c.line i way).tag.valid = true ∨ (c.line i way).tag.dirty = true) :
      TagStep u c i way { (c.line i way).tag with dirty }

/-- A use that leaves the tag as it is. -/
theorem TagStep.same (no_fill : ¬u.Fills c i way) (no_clear : ¬u.Clears c i way) :
    u.TagStep c i way (c.line i way).tag :=
  .kept no_fill no_clear _ .inr

/-- The line of an access is in a way, or fills one; a store makes it dirty there. -/
theorem tagStep_access (hu : u.access? = some (v, host)) (hi : i < setCount) (phys : GuestAddress)
    (stores : Prop) [Decidable stores]
    (ht : t = if stores ∧ index v = i ∧ (c.touch m v host phys).1 = way then
        { ((c.touch m v host phys).2.1.line i way).tag with dirty := true }
      else ((c.touch m v host phys).2.1.line i way).tag) : u.TagStep c i way t := by
  have hclear : ¬u.Clears c i way := not_clears_of_access hu
  cases hf : (c.set (index v)).find? host with
  | some w =>
    -- A line that is found is valid, so it may become dirty.
    obtain ⟨hway, hline, -⟩ := touch_of_hit (m := m) hf phys
    have hfill : ¬u.Fills c i way := by
      rw [fills_iff hu]
      rintro ⟨rfl, hnone, -⟩
      rw [hf] at hnone
      cases hnone
    rw [hway, hline] at ht
    subst ht
    split
    · rename_i h
      obtain ⟨-, rfl, rfl⟩ := h
      have hh := LineSet.find?_eq_some hf
      exact .kept hfill hclear _ fun _ => .inl (Tag.holds_iff.1 hh).1
    · exact .same hfill hclear
  | none =>
    obtain ⟨hway, hline, -⟩ := touch_of_miss (m := m) hf phys
    rw [hway, hline i hi way] at ht
    have hfills : u.Fills c i way ↔ index v = i ∧ (c.set (index v)).victim = way := by
      rw [fills_iff hu]
      constructor
      · rintro ⟨rfl, -, hv⟩
        exact ⟨rfl, hv⟩
      · rintro ⟨rfl, hv⟩
        exact ⟨rfl, hf, hv⟩
    by_cases h : index v = i ∧ (c.set (index v)).victim = way
    · rw [if_pos h] at ht
      subst ht
      split
      · exact .filled (hfills.2 h) hclear host (mapped hu) phys true
      · exact .filled (hfills.2 h) hclear host (mapped hu) phys false
    · rw [if_neg h, if_neg fun h' => h h'.2] at ht
      subst ht
      exact .same (fun hfill => h (hfills.1 hfill)) hclear

section

variable {j : Nat} {w : Way} (hu : u.access? = none) (hi : i < setCount) (hj : j < setCount)

include hu hi hj

/-- One way is emptied and the others are left. -/
theorem tagStep_clear (hclear : u.Clears c i way ↔ j = i ∧ w = way) :
    u.TagStep c i way ((c.clear j w).line i way).tag := by
  have hfill : ¬u.Fills c i way := not_fills_of_access?_eq_none hu
  rw [clear, line_setLine _ _ _ _ hj hi]
  split
  · rename_i h
    exact .cleared hfill (hclear.2 h)
  · rename_i h
    exact .same hfill fun hc => h (hclear.1 hc)

theorem tagStep_clear_writeBack (m : Memory) (hclear : u.Clears c i way ↔ j = i ∧ w = way) :
    u.TagStep c i way (((c.writeBack m j w).1.clear j w).line i way).tag := by
  have hl : ((c.writeBack m j w).1.clear j w).line i way = (c.clear j w).line i way := by
    rw [clear, clear, line_setLine _ _ _ _ hj hi, line_setLine _ _ _ _ hj hi,
      line_writeBack m hj hi]
    by_cases h : j = i ∧ w = way
    · rw [if_pos h, if_pos h]
    · rw [if_neg h, if_neg h, if_neg h]
  rw [hl]
  exact tagStep_clear hu hi hj hclear

theorem tagStep_writeBack (m : Memory) (no_clear : ¬u.Clears c i way) :
    u.TagStep c i way ((c.writeBack m j w).1.line i way).tag := by
  have hfill : ¬u.Fills c i way := not_fills_of_access?_eq_none hu
  rw [line_writeBack m hj hi]
  split
  · exact .kept hfill no_clear _ fun hd => .inr (Bool.and_eq_true_iff.1 hd).2
  · exact .same hfill no_clear

end

/-- What an operation by set and way does to a tag. -/
theorem tagStep_indexOp (c : Cache) (m : Memory) (op : Op) (a : GuestAddress) (packed : UInt64)
    (hi : i < setCount) (way : Way) : (indexOp op a packed).TagStep c i way
      ((c.indexOp m op a packed).2.1.line i way).tag := by
  have ha := index_lt a
  have hfill : ¬(indexOp op a packed).Fills c i way := not_fills_of_access?_eq_none rfl
  cases op with
  | indexStoreTag =>
    have hclear : ¬(indexOp .indexStoreTag a packed).Clears c i way := fun h => by cases h.2.1
    simp only [Cache.indexOp]
    rw [line_setLine _ _ _ _ ha hi]
    split
    · rename_i h
      obtain ⟨rfl, rfl⟩ := h
      exact .stored hfill hclear packed
    · exact .same hfill hclear
  | indexWritebackInvalidate =>
    exact tagStep_clear_writeBack rfl hi ha m ⟨fun h => h.2.2, fun h => ⟨rfl, rfl, h⟩⟩
  | indexInvalidate => exact tagStep_clear rfl hi ha ⟨fun h => h.2.2, fun h => ⟨rfl, rfl, h⟩⟩
  | indexLoadTag => exact .same hfill fun h => by cases h.2.1
  | hitInvalidate | hitWritebackInvalidate | hitWriteback =>
    exact .same hfill fun h => by cases h.1

/-- What an operation on the line of an address does to a tag. -/
theorem tagStep_hitOp (c : Cache) (m : Memory) (op : Op) (v : GuestAddress) (host : HostAddress)
    (hi : i < setCount) (way : Way) : (hitOp op v host).TagStep c i way
      ((c.hitOp m op v host).1.line i way).tag := by
  have hv := index_lt v
  have hfill : ¬(hitOp op v host).Fills c i way := not_fills_of_access?_eq_none rfl
  cases hf : (c.set (index v)).find? host with
  | none =>
    simp only [Cache.hitOp, hf]
    refine .same hfill ?_
    rintro ⟨-, -, rfl, h⟩
    rw [hf] at h
    cases h
  | some w =>
    have hclears : index v = i ∧ (c.set i).find? host = some way ↔ index v = i ∧ w = way :=
      and_congr_right fun h => by rw [← h, hf, Option.some_inj]
    simp only [Cache.hitOp, hf]
    cases op with
    | hitInvalidate =>
      exact tagStep_clear rfl hi hv ⟨fun h => hclears.1 h.2.2, fun h => ⟨rfl, rfl, hclears.2 h⟩⟩
    | hitWritebackInvalidate =>
      exact tagStep_clear_writeBack rfl hi hv m
        ⟨fun h => hclears.1 h.2.2, fun h => ⟨rfl, rfl, hclears.2 h⟩⟩
    | hitWriteback => exact tagStep_writeBack rfl hi hv m fun h => by cases h.2.1
    | indexLoadTag | indexStoreTag | indexWritebackInvalidate | indexInvalidate =>
      exact .same hfill fun h => by cases h.1

/-- Every use does to the tag of a way one of the things that it can do. -/
theorem tagStep_use (s : Backed) (u : Use) (hi : i < setCount) (way : Way) :
    u.TagStep s.cache i way ((s.use u).cache.line i way).tag := by
  cases u with
  | touch v host phys mapped =>
    refine tagStep_access (m := s.memory) rfl hi phys False ?_
    rw [if_neg (·.1)]
    rfl
  | read w v host phys mapped =>
    refine tagStep_access (m := s.memory) rfl hi phys False ?_
    rw [if_neg (·.1), ← snd_read? w]
    rfl
  | write v host phys x mapped =>
    rename_i width
    have ht := tag_write? s.cache s.memory v host phys x hi way
    exact tagStep_access rfl hi phys (Fits v width) ht
  | indexOp op a packed => exact tagStep_indexOp s.cache s.memory op a packed hi way
  | hitOp op v host => exact tagStep_hitOp s.cache s.memory op v host hi way
  | reset =>
    show TagStep _ _ _ _ (({} : Cache).line i way).tag
    rw [tag_empty]
    exact .cleared (not_fills_of_access?_eq_none rfl) trivial
  | memory m => exact .same (not_fills_of_access?_eq_none rfl) id

namespace TagStep

/-- There is memory behind a way that is filled, and none behind one that is emptied. -/
theorem hostPage_ne_zero_iff (h : u.TagStep c i way t) :
    t.hostPage ≠ 0 ↔ u.Fills c i way ∨ (c.line i way).tag.hostPage ≠ 0 ∧ ¬u.Clears c i way := by
  cases h with
  | filled fills no_clear host mapped phys dirty =>
    exact iff_of_true (HostAddress.pageBase_ne_zero mapped) (.inl fills)
  | cleared no_fill clears => simp [no_fill, clears]
  | stored no_fill no_clear packed => simp [no_fill, no_clear, Tag.storeFlags]
  | kept no_fill no_clear dirty sound => simp [no_fill, no_clear]

theorem isSound (h : u.TagStep c i way t) (hs : (c.line i way).tag.IsSound) : t.IsSound := by
  intro hp
  cases h with
  | filled fills no_clear host mapped phys dirty =>
    exact absurd hp (HostAddress.pageBase_ne_zero mapped)
  | cleared no_fill clears => exact ⟨rfl, rfl⟩
  | stored no_fill no_clear packed => exact Tag.isSound_storeFlags _ packed hp
  | kept no_fill no_clear dirty sound =>
    obtain ⟨hv, hd⟩ := hs hp
    exact ⟨hv, by simpa [hv, hd] using sound⟩

theorem arises (h : u.TagStep c i way t) (ha : (c.line i way).tag.Arises) : t.Arises := by
  cases h with
  | filled fills no_clear host mapped phys dirty =>
    exact (ha.filled host phys).flagged true dirty _ _
  | cleared no_fill clears => exact .empty
  | stored no_fill no_clear packed => exact ha.flagged _ _ _ _
  | kept no_fill no_clear dirty sound => exact ha.flagged _ dirty _ _

end TagStep

end Use

def after (m : Memory) (us : List Use) : Backed := us.foldl Backed.use { memory := m }

theorem after_concat (m : Memory) (us : List Use) (u : Use) :
    after m (us ++ [u]) = (after m us).use u :=
  List.foldl_concat _ _ _ _

/-- The way was filled in a history and has not been emptied since. -/
def FilledSince (m : Memory) (us : List Use) (i : Nat) (way : Way) : Prop :=
  Since (fun before u => u.Fills (after m before).cache i way)
    (fun before u => u.Clears (after m before).cache i way) us

theorem hostPage_after (m : Memory) (us : List Use) (hi : i < setCount) (way : Way) :
    ((after m us).cache.line i way).tag.hostPage ≠ 0 ↔ FilledSince m us i way := by
  refine iff_since (P := fun us => ((after m us).cache.line i way).tag.hostPage ≠ 0)
    (fun h => h (congrArg Tag.hostPage (tag_empty i way))) (fun us u => ?_) us
  rw [after_concat]
  exact (Use.tagStep_use _ u hi way).hostPage_ne_zero_iff

/-- No history makes a way valid or dirty that has no memory behind it. -/
theorem isSound_after (m : Memory) (us : List Use) (hi : i < setCount) (way : Way) :
    ((after m us).cache.line i way).tag.IsSound := by
  induction us using List.reverseRecOn with
  | nil =>
    show (({} : Cache).line i way).tag.IsSound
    rw [tag_empty]
    exact fun _ => ⟨rfl, rfl⟩
  | append_singleton us u ih =>
    rw [after_concat]
    exact (Use.tagStep_use _ u hi way).isSound ih

/-- After every history the tags are among those that arise. -/
theorem arises_after (m : Memory) (us : List Use) (hi : i < setCount) (way : Way) :
    ((after m us).cache.line i way).tag.Arises := by
  induction us using List.reverseRecOn with
  | nil =>
    show (({} : Cache).line i way).tag.Arises
    rw [tag_empty]
    exact .empty
  | append_singleton us u ih =>
    rw [after_concat]
    exact (Use.tagStep_use _ u hi way).arises ih

structure Same (c c' : Cache) : Prop where
  set : ∀ i < setCount, c'.set i = c.set i
  stats : c'.stats = c.stats

theorem LineSet.setLine_line (s : LineSet) (way : Way) : s.setLine way (s.line way) = s := by
  rw [setLine, line]
  split <;> rfl

theorem same_setLine_line (c : Cache) (hi : i < setCount) (way : Way) :
    c.Same (c.setLine i way (c.line i way)) where
  set j hj := by
    rw [set_setLine _ _ _ hi hj]
    split
    · rename_i h
      rw [← h, line, LineSet.setLine_line]
    · rfl
  stats := rfl

/-- The tag of every address can be loaded and stored back at once, and nothing changes. -/
def Backed.IsLossless (s : Backed) : Prop :=
  ∀ a x, ∃ packed c,
    s.cache.indexOp s.memory .indexLoadTag a x = (some packed, s.cache, s.memory) ∧
      s.cache.indexOp s.memory .indexStoreTag a packed = (none, c, s.memory) ∧ s.cache.Same c

theorem Backed.isLossless {s : Backed}
    (sound : ∀ i < setCount, ∀ way, (s.cache.line i way).tag.IsSound) : s.IsLossless := by
  intro a x
  have hstore := (sound _ (index_lt a) (wayOf a)).storeFlags_packed
  refine ⟨_, _, rfl, rfl, ?_⟩
  rw [hstore]
  exact same_setLine_line s.cache (index_lt a) (wayOf a)

theorem tag_after_store (m : Memory) (us : List Use) (a : GuestAddress) (x : UInt64) :
    ((after m (us ++ [.indexOp .indexStoreTag a x])).cache.line (index a) (wayOf a)).tag =
      ((after m us).cache.line (index a) (wayOf a)).tag.storeFlags x := by
  rw [after_concat]
  refine (congrArg Line.tag (line_setLine _ _ _ _ (index_lt a) (index_lt a))).trans ?_
  rw [if_pos ⟨rfl, rfl⟩]

/-- What comes of reading tags back after a history. -/
structure ReadsBack (m : Memory) (us : List Use) : Prop where
  lossless : (after m us).IsLossless
  unfilled : ∀ i < setCount, ∀ way, ¬FilledSince m us i way →
    ((after m us).cache.line i way).tag.valid = false ∧
      ((after m us).cache.line i way).tag.dirty = false
  /-- The flags of a tag that is stored reach exactly the ways with memory behind them. -/
  valid_store : ∀ a x,
    ((after m (us ++ [.indexOp .indexStoreTag a x])).cache.line (index a) (wayOf a)).tag.valid =
        true ↔ FilledSince m us (index a) (wayOf a) ∧ Tag.isSet x Tag.validFlag = true
  dirty_store : ∀ a x,
    ((after m (us ++ [.indexOp .indexStoreTag a x])).cache.line (index a) (wayOf a)).tag.dirty =
        true ↔ FilledSince m us (index a) (wayOf a) ∧ Tag.isSet x Tag.dirtyFlag = true
  arises : ∀ i < setCount, ∀ way, ((after m us).cache.line i way).tag.Arises

/-- Tags are read back after every history. -/
theorem readsBack (m : Memory) (us : List Use) : ReadsBack m us where
  lossless := Backed.isLossless fun _ hi way => isSound_after m us hi way
  unfilled i hi way hn := by
    refine isSound_after m us hi way (Classical.byContradiction fun hp => hn ?_)
    exact (hostPage_after m us hi way).1 hp
  valid_store a x := by
    rw [tag_after_store, ← hostPage_after m us (index_lt a), Tag.storeFlags, Bool.and_eq_true,
      bne_iff_ne]
  dirty_store a x := by
    rw [tag_after_store, ← hostPage_after m us (index_lt a), Tag.storeFlags, Bool.and_eq_true,
      bne_iff_ne]
  arises _ hi way := arises_after m us hi way

/-- Tags are read back without loss: by the cache, whatever it was used for, by packing them and
back, and by the bits of the packed form. -/
theorem tags_read_back :
    (∀ m us, ReadsBack m us) ∧
      (∀ t : Tag, Tag.ofPacked t.packed =
        { t with hostPage := 0, physicalPage := t.physicalPage.pageBase }) ∧
      (∀ t : Tag, t.Arises → Tag.ofPacked t.packed = { t with hostPage := 0 }) ∧
      ∀ (x : UInt64) (i : Nat), (Tag.ofPacked x).packed.toNat.testBit i =
        (x.toNat.testBit i && Tag.isPackedBit i) := by
  refine ⟨readsBack, Tag.ofPacked_packed, fun t ht => ?_, Tag.testBit_packed_ofPacked⟩
  rw [Tag.ofPacked_packed, ht.pageBase_eq]

/-- A byte is stored through a way, and flags are stored there and in the other way of the set. -/
def stamped : List Use :=
  [.write 0x340 0x10340 0x41340 (0x5A : Word .w8) (by decide),
    .indexOp .indexStoreTag 0x341 0x3C]

/-- The way that was stored through has been filled, and the other one got its flags only. -/
theorem tags_read_back_stamped :
    FilledSince {} stamped 13 0 ∧ ¬FilledSince {} stamped 13 1 ∧
      ((after {} stamped).cache.line 13 1).tag = { lrf := true, locked := true } ∧
      (after {} stamped).IsLossless ∧
      ((after {} stamped).cache.line 13 0).tag.packed = 0x41038 ∧
      Tag.ofPacked 0x41038 = { ((after {} stamped).cache.line 13 0).tag with hostPage := 0 } := by
  obtain ⟨hruns, -, hback, -⟩ := tags_read_back
  have h := hruns {} stamped
  have hpacked : ((after {} stamped).cache.line 13 0).tag.packed = 0x41038 := by decide +kernel
  refine ⟨((h.valid_store 0x340 0x10).1 (by decide +kernel)).1, fun hf => ?_, by decide +kernel,
    h.lossless, hpacked, ?_⟩
  · have hv := (h.valid_store 0x341 0x10).2 ⟨hf, by decide⟩
    revert hv
    decide +kernel
  · rw [← hpacked]
    exact hback _ (h.arises 13 (by decide) 0)

/-- A line of the first page of the host would no longer be valid once its tag is stored back. -/
example :
    let c := (({} : Cache).touch {} 0x340 0x340 0x41340).2.1
    (c.line 13 0).tag.valid = true ∧
      ((c.line 13 0).tag.storeFlags (c.line 13 0).tag.packed).valid = false := by
  decide +kernel

end Cache

end GuestMemory
