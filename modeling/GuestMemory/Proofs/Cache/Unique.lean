import GuestMemory.Proofs.Cache.Moves

/-!
One way for one line. Fills look for a line before they bring it in, so no operation makes two ways
of a set valid for one page; but flags that are stored can make a way valid again after its page has
been brought into the other one. That is the only way to lose it.
-/
namespace GuestMemory.Cache

/-- No two valid ways of a set have the same page. -/
def IsUnique (c : Cache) : Prop :=
  ∀ i < setCount, ∀ way way', (c.line i way).tag.valid = true → (c.line i way').tag.valid = true →
    (c.line i way).tag.hostPage = (c.line i way').tag.hostPage → way = way'

/-- A valid tag in a way of a set would have the page of another valid way. -/
def Doubles (c : Cache) (i : Nat) (way : Way) (tag : Tag) : Prop :=
  tag.valid = true ∧
    ∃ other ≠ way, (c.line i other).tag.valid = true ∧ (c.line i other).tag.hostPage = tag.hostPage

instance (c : Cache) (i : Nat) (way : Way) (tag : Tag) : Decidable (c.Doubles i way tag) :=
  inferInstanceAs (Decidable (_ ∧ _))

variable {c c' : Cache} {m : Memory} {i : Nat} {way : Way} {v : GuestAddress} {host : HostAddress}

theorem isUnique_empty : IsUnique {} := by
  intro i _ way way' hv
  simp [line, set, LineSet.line] at hv

/-- Only the valid flags and the pages count. -/
theorem IsUnique.congr (h : c.IsUnique)
    (hc : ∀ i < setCount, ∀ way, (c'.line i way).tag.valid = (c.line i way).tag.valid ∧
      (c'.line i way).tag.hostPage = (c.line i way).tag.hostPage) : c'.IsUnique := by
  intro i hi way way' hv hv' hp
  obtain ⟨hvalid, hpage⟩ := hc i hi way
  obtain ⟨hvalid', hpage'⟩ := hc i hi way'
  exact h i hi way way' (hvalid ▸ hv) (hvalid' ▸ hv') (hpage ▸ hpage' ▸ hp)

/-- Replacing one line leaves the lines unique exactly if the new one doubles none. -/
theorem IsUnique.setLine_iff (h : c.IsUnique) (hi : i < setCount) (way : Way) (l : Line) :
    (c.setLine i way l).IsUnique ↔ ¬c.Doubles i way l.tag := by
  constructor
  · rintro hs ⟨hv, other, hne, hv', hp⟩
    refine hne (hs i hi other way ?_ ?_ ?_)
    · rwa [line_setLine c way other l hi hi, if_neg fun he => hne he.2.symm]
    · rwa [line_setLine c way way l hi hi, if_pos ⟨rfl, rfl⟩]
    · rwa [line_setLine c way other l hi hi, if_neg fun he => hne he.2.symm,
        line_setLine c way way l hi hi, if_pos ⟨rfl, rfl⟩]
  · intro hd j hj w w' hv hv' hp
    rw [line_setLine c way w l hi hj] at hv hp
    rw [line_setLine c way w' l hi hj] at hv' hp
    by_cases he : i = j ∧ way = w
    · by_cases he' : i = j ∧ way = w'
      · rw [← he.2, ← he'.2]
      · obtain ⟨rfl, rfl⟩ := he
        rw [if_pos ⟨rfl, rfl⟩] at hv hp
        rw [if_neg he'] at hv' hp
        exact absurd ⟨hv, w', fun e => he' ⟨rfl, e.symm⟩, hv', hp.symm⟩ hd
    · by_cases he' : i = j ∧ way = w'
      · obtain ⟨rfl, rfl⟩ := he'
        rw [if_neg he] at hv hp
        rw [if_pos ⟨rfl, rfl⟩] at hv' hp
        exact absurd ⟨hv', w, fun e => he ⟨rfl, e.symm⟩, hv, hp⟩ hd
      · rw [if_neg he] at hv hp
        rw [if_neg he'] at hv' hp
        exact h j hj w w' hv hv' hp

theorem not_doubles_empty (c : Cache) (i : Nat) (way : Way) : ¬c.Doubles i way {} :=
  fun h => Bool.false_ne_true h.1

/-- A tag with the page and the valid flag that its way has doubles none. -/
theorem IsUnique.not_doubles (h : c.IsUnique) (hi : i < setCount) {tag : Tag}
    (hv : tag.valid = (c.line i way).tag.valid) (hp : tag.hostPage = (c.line i way).tag.hostPage) :
    ¬c.Doubles i way tag := by
  rintro ⟨hvalid, other, hne, hv', hp'⟩
  exact hne (h i hi other way hv' (hv ▸ hvalid) (hp'.trans hp))

theorem IsUnique.clear (h : c.IsUnique) (hi : i < setCount) (way : Way) : (c.clear i way).IsUnique :=
  (h.setLine_iff hi way {}).2 (c.not_doubles_empty i way)

theorem IsUnique.writeBack (h : c.IsUnique) (m : Memory) (hi : i < setCount) (way : Way) :
    (c.writeBack m i way).1.IsUnique := by
  refine h.congr fun j hj w => ?_
  rw [line_writeBack m hi hj]
  split <;> exact ⟨rfl, rfl⟩

/-- A fill of a set that does not hold the page doubles no line. -/
theorem IsUnique.load (h : c.IsUnique) (m : Memory) (hi : i < setCount)
    (free : ∀ other, (c.line i other).tag.holds host = false) (way : Way) (phys : GuestAddress) :
    (c.load m i way host phys).IsUnique := by
  rw [load_eq]
  refine (h.setLine_iff hi way _).2 ?_
  rintro ⟨-, other, -, hv, hp⟩
  have hh : (c.line i other).tag.holds host = true := Tag.holds_iff.2 ⟨hv, hp⟩
  rw [free other] at hh
  cases hh

/-- Bringing in a line gives no two ways of a set the same page. -/
theorem IsUnique.touch (h : c.IsUnique) (m : Memory) (v : GuestAddress) (host : HostAddress)
    (phys : GuestAddress) : (c.touch m v host phys).2.1.IsUnique := by
  obtain ⟨way, stats, -, ht⟩ | ⟨hfree, way, stats, ht⟩ := c.touch_cases m v host phys <;> rw [ht]
  · exact h
  · have hi := index_lt v
    have hw : ({ c with stats } : Cache).IsUnique := h
    refine (hw.writeBack m hi way).load _ hi (fun other => ?_) way phys
    rw [holds_line_writeBack m hi hi]
    exact hfree other

theorem IsUnique.read (h : c.IsUnique) (m : Memory) (w : Width) (v : GuestAddress)
    (host : HostAddress) (phys : GuestAddress) (fits : Fits v w) :
    (c.read m w v host phys fits).2.1.IsUnique :=
  h.touch m v host phys

theorem IsUnique.write (h : c.IsUnique) (m : Memory) {w : Width} (v : GuestAddress)
    (host : HostAddress) (phys : GuestAddress) (x : Word w) (fits : Fits v w) :
    (c.write m v host phys x fits).1.IsUnique := by
  have ht := h.touch m v host phys
  exact (ht.setLine_iff (index_lt v) _ _).2 (ht.not_doubles (index_lt v) rfl rfl)

/-- Nor does an operation on the line of an address. -/
theorem IsUnique.hitOp (h : c.IsUnique) (m : Memory) (op : Op) (v : GuestAddress)
    (host : HostAddress) : (c.hitOp m op v host).1.IsUnique := by
  have hi := index_lt v
  simp only [Cache.hitOp]
  cases (c.set (index v)).find? host with
  | none => exact h
  | some way =>
    cases op with
    | hitInvalidate => exact h.clear hi way
    | hitWriteback => exact h.writeBack m hi way
    | hitWritebackInvalidate => exact (h.writeBack m hi way).clear hi way
    | _ => exact h

def OpDoubles (c : Cache) (op : Op) (a : GuestAddress) (packed : UInt64) : Prop :=
  op = .indexStoreTag ∧
    c.Doubles (index a) (wayOf a) ((c.line (index a) (wayOf a)).tag.storeFlags packed)

instance (c : Cache) (op : Op) (a : GuestAddress) (packed : UInt64) :
    Decidable (c.OpDoubles op a packed) :=
  inferInstanceAs (Decidable (_ ∧ _))

/-- Flags without the valid flag double no line. -/
theorem not_opDoubles {packed : UInt64} (h : Tag.isSet packed Tag.validFlag = false) (c : Cache)
    (op : Op) (a : GuestAddress) : ¬c.OpDoubles op a packed := by
  rintro ⟨-, hv, -⟩
  rw [Tag.storeFlags, h, Bool.and_false] at hv
  cases hv

/-- An operation by set and way does so exactly if it doubles a line. -/
theorem IsUnique.indexOp_iff (h : c.IsUnique) (m : Memory) (op : Op) (a : GuestAddress)
    (packed : UInt64) : (c.indexOp m op a packed).2.1.IsUnique ↔ ¬c.OpDoubles op a packed := by
  have hi := index_lt a
  cases op with
  | indexStoreTag =>
    have hs := h.setLine_iff hi (wayOf a) { c.line (index a) (wayOf a) with
      tag := (c.line (index a) (wayOf a)).tag.storeFlags packed }
    simpa [OpDoubles, Cache.indexOp] using hs
  | indexWritebackInvalidate =>
    simpa [OpDoubles, Cache.indexOp] using (h.writeBack m hi (wayOf a)).clear hi (wayOf a)
  | indexInvalidate => simpa [OpDoubles, Cache.indexOp] using h.clear hi (wayOf a)
  | _ => simpa [OpDoubles, Cache.indexOp] using h

end GuestMemory.Cache
