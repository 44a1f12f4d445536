import GuestMemory.Proofs.Footprint.Confined

/-!
The cache works on its touches. A write-back stores one line, a fill loads one, and which of the two
happen is decided by tags, which no byte of memory reaches.
-/
namespace GuestMemory

theorem Table.fill_congr {α : Type} {d : Nat} (t : Table α d) (first : Nat) {count : Nat}
    {f g : Nat → α} (h : ∀ i < count, f i = g i) : t.fill first count f = t.fill first count g := by
  induction count with
  | zero => rfl
  | succ n ih =>
    rw [fill_succ, fill_succ, ih fun i hi => h i (Nat.lt_succ_of_lt hi), h n (Nat.lt_succ_self n)]

namespace Cache

/-- Writing a line back stores it where its tag says, if it is dirty. -/
theorem confined_writeBack (c : Cache) (i : Nat) (way : Way) (m : Memory) :
    Confined (c.writeBackTouches i way) (fun m => c.writeBack m i way) m := by
  by_cases hd : ((c.line i way).tag.valid && (c.line i way).tag.dirty) = true
  · have hl : (c.line i way).bytes.length = lineSize := by simp [Line.bytes, Line.slice]
    have hs := Confined.store (.writeBack (c.line i way).tag i way) rfl hl (by rw [hl]; decide) m
    simp only [writeBackTouches, writeBack, hd, if_true]
    exact hs.map fun _ => _
  · simp only [writeBackTouches, writeBack, hd, Bool.false_eq_true, if_false]
    exact .pure c m

theorem confined_load (c : Cache) (i : Nat) (way : Way) (v : GuestAddress) (host : HostAddress)
    (phys : GuestAddress) (m : Memory) :
    Confined [.fill v host way] (fun m => (c.load m i way host phys, m)) m := by
  intro m' hm
  refine ⟨?_, fun b hb => ?_, fun b _ => rfl⟩
  · have hbytes : ∀ k < lineSize, m'.byte ((host &&& 0xFFFFFFFFFFFFFFC0) + UInt64.ofNat k) =
        m.byte ((host &&& 0xFFFFFFFFFFFFFFC0) + UInt64.ofNat k) := by
      intro k hk
      have hk64 : k < 2 ^ 64 := Nat.lt_trans hk (by decide)
      refine hm _ ⟨_, .head _, rfl, ?_⟩
      rw [Touch.Reaches, Touch.start, Touch.size, Memory.toNat_offset _ hk64]
      exact hk
    simp only [load, Table.fill_congr _ 0 hbytes]
  · simp [stores, Touch.Stores, Touch.isStore] at hb

def touchAct (c : Cache) (v : GuestAddress) (host : HostAddress) (phys : GuestAddress)
    (m : Memory) : (Way × Cache) × Memory :=
  let (way, c, m) := c.touch m v host phys
  ((way, c), m)

/-- Bringing a line in loads it, after the line that it replaces has been written back. -/
theorem confined_touch (c : Cache) (v : GuestAddress) (host : HostAddress) (phys : GuestAddress)
    (m : Memory) : Confined (c.touchTouches v host) (c.touchAct v host phys) m := by
  cases hf : (c.set (index v)).find? host with
  | some way =>
    have he : c.touchAct v host phys =
        fun m => ((way, { c with stats := { c.stats with hits := c.stats.hits + 1 } }), m) := by
      funext m
      simp only [touchAct, touch, hf]
    rw [he, touchTouches, hf]
    exact .pure _ m
  | none =>
    generalize hw : (c.set (index v)).victim = way
    generalize hc : ({ c with stats := { c.stats with misses := c.stats.misses + 1 } } : Cache) = c₁
    have he : c.touchAct v host phys = fun m =>
        ((way, (c₁.writeBack m (index v) way).1.load (c₁.writeBack m (index v) way).2 (index v) way
          host phys), (c₁.writeBack m (index v) way).2) := by
      funext m
      simp only [touchAct, touch, hf, hw, hc]
    have ht : c.touchTouches v host = c₁.writeBackTouches (index v) way ++ [.fill v host way] := by
      rw [touchTouches, hf, ← hc, ← hw]
      rfl
    rw [he, ht]
    have hfill := confined_load (c₁.writeBack m (index v) way).1 (index v) way v host phys
      (c₁.writeBack m (index v) way).2
    exact (confined_writeBack c₁ (index v) way m).seq
      (g := fun c m => ((way, c.load m (index v) way host phys), m)) (hfill.map fun c => (way, c))

theorem confined_read (c : Cache) (w : Width) (v : GuestAddress) (host : HostAddress)
    (phys : GuestAddress) (fits : Fits v w) (m : Memory) :
    Confined (c.accessTouches w v host) (fun m =>
      (((c.read m w v host phys fits).1, (c.read m w v host phys fits).2.1),
        (c.read m w v host phys fits).2.2)) m :=
  ((c.confined_touch v host phys m).map fun x : Way × Cache =>
    (Word.ofBytes w ((x.2.line (index v) x.1).slice (offset v) w.bytes), x.2)).line v w

theorem confined_write (c : Cache) {w : Width} (v : GuestAddress) (host : HostAddress)
    (phys : GuestAddress) (x : Word w) (fits : Fits v w) (m : Memory) :
    Confined (c.accessTouches w v host) (fun m => c.write m v host phys x fits) m :=
  ((c.confined_touch v host phys m).map fun y : Way × Cache =>
    let l := (y.2.line (index v) y.1).put (offset v) x.bytes
    y.2.setLine (index v) y.1 { l with tag := { l.tag with dirty := true } }).line v w

/-- An operation on the line of an address works on its touches. -/
theorem confined_hitOp (c : Cache) (op : Op) (v : GuestAddress) (host : HostAddress) (m : Memory) :
    Confined (c.hitOpTouches op v host) (fun m => c.hitOp m op v host) m := by
  cases hf : (c.set (index v)).find? host with
  | none =>
    simp only [hitOpTouches, hitOp, hf]
    exact .pure c m
  | some way =>
    simp only [hitOpTouches, hitOp, hf]
    have hw := c.confined_writeBack (index v) way m
    cases op with
    | hitWriteback => exact hw
    | hitWritebackInvalidate => exact hw.map fun c => c.clear (index v) way
    | _ => exact .pure _ m

/-- An operation by set and way works on its touches. -/
theorem confined_indexOp (c : Cache) (op : Op) (a : GuestAddress) (packed : UInt64) (m : Memory) :
    Confined (c.indexOpTouches op a) (fun m =>
      (((c.indexOp m op a packed).1, (c.indexOp m op a packed).2.1),
        (c.indexOp m op a packed).2.2)) m := by
  cases op with
  | indexWritebackInvalidate =>
    exact (c.confined_writeBack (index a) _ m).map fun c' : Cache =>
      ((none : Option UInt64), c'.clear (index a) (wayOf a))
  | _ =>
    simp only [indexOp, indexOpTouches]
    exact .pure _ m

end Cache

end GuestMemory
