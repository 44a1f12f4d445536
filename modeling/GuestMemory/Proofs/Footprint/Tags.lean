import GuestMemory.Proofs.Footprint.Bounds

/-!
Tags name pages that were mapped once. A tag with a page got it when its way was filled, and whatever
happens to the flags, nothing else changes the page but emptying the way; so a line that is revived by
storing flags still goes back to where it came from.
-/
namespace GuestMemory.Cache

variable {P Q : HostAddress → Prop} {m : Maps} {o : Origins} {c : Cache} {i : Nat} {way : Way}

/-- The page of a tag is the one that the way was filled from, and has a property. A way that is
empty or was never filled has none. -/
def Tag.IsFrom (P : HostAddress → Prop) (origin : Option HostAddress) (tag : Tag) : Prop :=
  tag.valid = true ∨ tag.hostPage ≠ 0 →
    origin = some tag.hostPage ∧ tag.hostPage.toNat % 4096 = 0 ∧ P tag.hostPage

def Traced (P : HostAddress → Prop) (o : Origins) (c : Cache) : Prop :=
  ∀ i < setCount, ∀ way, (c.line i way).tag.IsFrom P (o i way)

/-- Touches that stay in bounds, and a cache whose tags agree with the origins after them. -/
structure Tracks (m : Maps) (o : Origins) (ts : List Touch) (c : Cache) : Prop where
  stays : Stays m o ts
  traced : c.Traced m.arena.Holds (marks o ts)

theorem Tag.isFrom_empty (origin : Option HostAddress) : Tag.IsFrom P origin {} := by
  rintro (h | h)
  · cases h
  · exact absurd rfl h

/-- Flags that are stored revive no tag that has no page. -/
theorem Tag.IsFrom.storeFlags {origin : Option HostAddress} {tag : Tag} (h : tag.IsFrom P origin)
    (packed : UInt64) : (tag.storeFlags packed).IsFrom P origin := by
  intro hs
  refine h (.inr ?_)
  rcases hs with hv | hp
  · simpa using (Bool.and_eq_true_iff.1 hv).1
  · exact hp

theorem traced_empty (o : Origins) : Traced P o {} := by
  intro i _ way
  rw [tag_empty]
  exact Tag.isFrom_empty _

theorem Traced.mono (h : c.Traced P o) (hPQ : ∀ page, P page → Q page) : c.Traced Q o := by
  intro i hi way hs
  obtain ⟨ho, ha, hP⟩ := h i hi way hs
  exact ⟨ho, ha, hPQ _ hP⟩

theorem Traced.setLine {o' : Origins} {l : Line} (h : c.Traced P o) (hi : i < setCount)
    (hl : l.tag.IsFrom P (o' i way)) (ho : ∀ j w, ¬(i = j ∧ way = w) → o' j w = o j w) :
    (c.setLine i way l).Traced P o' := by
  intro j hj w
  rw [line_setLine c way w l hi hj]
  by_cases he : i = j ∧ way = w
  · rw [if_pos he]
    obtain ⟨rfl, rfl⟩ := he
    exact hl
  · rw [if_neg he, ho j w he]
    exact h j hj w

theorem Traced.clear (h : c.Traced P o) (hi : i < setCount) (way : Way) :
    (c.clear i way).Traced P o :=
  h.setLine hi (Tag.isFrom_empty _) fun _ _ _ => rfl

theorem Traced.writeBack (h : c.Traced P o) (mem : Memory) (hi : i < setCount) (way : Way) :
    (c.writeBack mem i way).1.Traced P o := by
  intro j hj w
  rw [line_writeBack mem hi hj]
  split
  · exact h j hj w
  · exact h j hj w

theorem marks_writeBack (c : Cache) (i : Nat) (way : Way) :
    marks o (c.writeBackTouches i way) = o := by
  rw [writeBackTouches]
  split <;> rfl

theorem tracks_nil (h : c.Traced m.arena.Holds o) : Tracks m o [] c := ⟨trivial, h⟩

/-- A line is written back to the page that its way was filled from. -/
theorem tracks_writeBack (hp : m.arena.IsPaved) (h : c.Traced m.arena.Holds o) (mem : Memory)
    (hi : i < setCount) (way : Way) :
    Tracks m o (c.writeBackTouches i way) (c.writeBack mem i way).1 := by
  constructor
  · rw [writeBackTouches]
    split
    · rename_i hd
      have hv : (c.line i way).tag.valid = true := (Bool.and_eq_true_iff.1 hd).1
      obtain ⟨ho, ha, hh⟩ := h i hi way (.inl hv)
      exact stays_singleton.2 (inBounds_writeBack hp hi ho ha hh)
    · trivial
  · rw [marks_writeBack]
    exact h.writeBack mem hi way

theorem Tracks.clear {ts : List Touch} (h : Tracks m o ts c) (hi : i < setCount) (way : Way) :
    Tracks m o ts (c.clear i way) :=
  ⟨h.stays, h.traced.clear hi way⟩

/-- A fill notes the page that it puts into the tag. -/
theorem Traced.load (h : c.Traced P o) (mem : Memory) (way : Way) (v : GuestAddress)
    {host : HostAddress} (phys : GuestAddress) (hP : P host.pageBase) :
    (c.load mem (index v) way host phys).Traced P ((Touch.fill v host way).mark o) := by
  rw [load_eq]
  refine h.setLine (index_lt v) (fun _ => ?_) fun j w hn => if_neg hn
  exact ⟨if_pos ⟨rfl, rfl⟩, toNat_pageBase_mod host, hP⟩

section

variable (hp : m.arena.IsPaved) (hm : m.Shows m.arena.Holds) (h : c.Traced m.arena.Holds o)
  {v : GuestAddress} {host : HostAddress} (hv : m.virtual.resolve v = .host host) (mem : Memory)

include hp hm h hv

/-- Bringing a line in stays in bounds and gives the way its origin. -/
theorem tracks_touch (phys : GuestAddress) :
    Tracks m o (c.touchTouches v host) (c.touch mem v host phys).2.1 := by
  rw [touchTouches]
  cases hf : (c.set (index v)).find? host with
  | some way =>
    simp only [touch, hf]
    exact tracks_nil h
  | none =>
    simp only [touch, hf]
    generalize (c.set (index v)).victim = way
    have hi := index_lt v
    have hw : Tracks m o (c.writeBackTouches (index v) way) _ :=
      tracks_writeBack (c := { c with stats := { c.stats with misses := c.stats.misses + 1 } })
        hp h mem hi way
    have hpage := (hm.virtual.of_resolve hv).2
    constructor
    · rw [stays_append, stays_singleton]
      exact ⟨hw.stays, inBounds_fill hp hm hv way⟩
    · rw [marks_append]
      exact hw.traced.load _ way v phys hpage

theorem tracks_read {w : Width} (phys : GuestAddress) (fits : Fits v w) :
    Tracks m o (c.accessTouches w v host) (c.read mem w v host phys fits).2.1 := by
  obtain ⟨hs, ht⟩ := tracks_touch hp hm h hv mem phys
  constructor
  · rw [accessTouches, stays_append, stays_singleton]
    exact ⟨hs, inBounds_line fits⟩
  · rw [accessTouches, marks_append]
    exact ht

theorem tracks_write {w : Width} (phys : GuestAddress) (x : Word w) (fits : Fits v w) :
    Tracks m o (c.accessTouches w v host) (c.write mem v host phys x fits).1 := by
  obtain ⟨hs, ht⟩ := tracks_touch hp hm h hv mem phys
  have hi := index_lt v
  constructor
  · rw [accessTouches, stays_append, stays_singleton]
    exact ⟨hs, inBounds_line fits⟩
  · rw [accessTouches, marks_append]
    exact ht.setLine hi (ht _ hi _) fun _ _ _ => rfl

end

section

variable (hp : m.arena.IsPaved) (h : c.Traced m.arena.Holds o) (mem : Memory)

include hp h

/-- An operation on the line of an address stays in bounds. -/
theorem tracks_hitOp (op : Op) (v : GuestAddress) (host : HostAddress) :
    Tracks m o (c.hitOpTouches op v host) (c.hitOp mem op v host).1 := by
  have hi := index_lt v
  rw [hitOpTouches]
  cases hf : (c.set (index v)).find? host with
  | none =>
    simp only [hitOp, hf]
    exact tracks_nil h
  | some way =>
    simp only [hitOp, hf]
    have hw := tracks_writeBack hp h mem hi way
    cases op with
    | hitInvalidate => exact (tracks_nil h).clear hi way
    | hitWriteback => exact hw
    | hitWritebackInvalidate => exact hw.clear hi way
    | _ => exact tracks_nil h

/-- An operation by set and way stays in bounds. -/
theorem tracks_indexOp (op : Op) (a : GuestAddress) (packed : UInt64) :
    Tracks m o (c.indexOpTouches op a) (c.indexOp mem op a packed).2.1 := by
  have hi := index_lt a
  cases op with
  | indexWritebackInvalidate =>
    simp only [indexOpTouches, indexOp]
    exact (tracks_writeBack hp h mem hi (wayOf a)).clear hi (wayOf a)
  | indexInvalidate =>
    simp only [indexOpTouches, indexOp]
    exact (tracks_nil h).clear hi (wayOf a)
  | indexStoreTag =>
    simp only [indexOpTouches, indexOp]
    exact tracks_nil (h.setLine hi ((h _ hi (wayOf a)).storeFlags packed) fun _ _ _ => rfl)
  | _ => exact tracks_nil h

end

end GuestMemory.Cache
