import GuestMemory.Proofs.Cache.Moves
import GuestMemory.Proofs.Footprint.Touches
import GuestMemory.Proofs.Maps.Regions

/-!
What it means that touches stay in bounds. Every byte lies in a region of the arena and in the one
page that the touch is about: the page behind the guest byte, or the page from which the line that is
written back was filled. Tags alone do not say which page that was, so it is noted at every fill.
-/
namespace GuestMemory

open Cache (Tag Way setCount)

/-- The host page from which a way of a set was filled last. -/
abbrev Origins := Nat → Way → Option HostAddress

def Arena.HasByte (arena : Arena) (b : HostAddress) : Prop :=
  ∃ r ∈ arena.regions, arena.base.toNat + r.offset ≤ b.toNat ∧
    b.toNat < arena.base.toNat + r.offset + r.size

theorem Arena.IsPaved.hasByte {arena : Arena} (h : arena.IsPaved) {b : HostAddress}
    (hb : arena.Holds b.pageBase) : arena.HasByte b := by
  obtain ⟨r, hr, hle, hend⟩ := h.region_of_page (Cache.toNat_pageBase_mod b) hb
  have hbase := HostAddress.toNat_pageBase b
  exact ⟨r, hr, by omega, by omega⟩

namespace Touch

/-- What a touch does to the origins. -/
def mark (o : Origins) : Touch → Origins
  | fill v a way => fun i w => if Cache.index v = i ∧ way = w then some a.pageBase else o i w
  | _ => o

/-- A touch is where the maps lead, or where the line came from, or inside a line. -/
def IsPlaced (m : Maps) (o : Origins) : Touch → Prop
  | direct _ v a n =>
    ∀ i < n, m.virtual.resolve (v + UInt32.ofNat i) = .host (a + UInt64.ofNat i)
  | fill v a _ => m.virtual.resolve v = .host a
  | writeBack tag i way => o i way = some tag.hostPage
  | line v w => Cache.Fits v w

structure InBounds (m : Maps) (o : Origins) (t : Touch) : Prop where
  region : ∀ b, t.Reaches b → m.arena.HasByte b
  page : ∀ b, t.Reaches b → b.pageBase = t.page
  placed : t.IsPlaced m o

end Touch

def marks (o : Origins) (ts : List Touch) : Origins := ts.foldl Touch.mark o

/-- Touches that all are in bounds, one after the other. -/
def Stays (m : Maps) : Origins → List Touch → Prop
  | _, [] => True
  | o, t :: ts => t.InBounds m o ∧ Stays m (t.mark o) ts

theorem marks_append (o : Origins) (ts ts' : List Touch) :
    marks o (ts ++ ts') = marks (marks o ts) ts' := by
  rw [marks, List.foldl_append]
  rfl

theorem stays_append {m : Maps} {o : Origins} {ts ts' : List Touch} :
    Stays m o (ts ++ ts') ↔ Stays m o ts ∧ Stays m (marks o ts) ts' := by
  induction ts generalizing o with
  | nil => simp [Stays, marks]
  | cons t ts ih =>
    rw [List.cons_append, Stays, Stays, ih, and_assoc]
    rfl

theorem stays_singleton {m : Maps} {o : Origins} {t : Touch} :
    Stays m o [t] ↔ t.InBounds m o := by
  simp [Stays]

variable {m : Maps} {o : Origins}

/-- A byte that is less than `n` bytes above `a`, where `n` bytes stay in the page of `a`. -/
theorem pageBase_of_sub_lt {a b : HostAddress} {n : Nat} (hn : a.toNat % 4096 + n ≤ 4096)
    (h : (b - a).toNat < n) : b.pageBase = a.pageBase := by
  have ha := a.toNat_lt
  have hb := b.toNat_lt
  rw [UInt64.toNat_sub] at h
  apply UInt64.toNat_inj.1
  rw [HostAddress.toNat_pageBase, HostAddress.toNat_pageBase]
  omega

/-- The bytes of a line lie in the page of its tag. -/
theorem pageBase_of_line {tag : Tag} {i : Nat} {b : HostAddress}
    (ha : tag.hostPage.toNat % 4096 = 0) (hi : i < setCount)
    (h : (b - tag.lineAddress i).toNat < Cache.lineSize) : b.pageBase = tag.hostPage := by
  have hb : tag.lineAddress i + UInt64.ofNat (b - tag.lineAddress i).toNat = b := by
    rw [UInt64.ofNat_toNat, UInt64.add_comm, UInt64.sub_add_cancel]
  rw [← hb]
  exact Cache.pageBase_lineAddress ha hi h

/-- A touch that keeps to a page of the arena is in bounds. -/
theorem inBounds_of_page (hp : m.arena.IsPaved) {t : Touch} (hh : m.arena.Holds t.page)
    (page : ∀ b, t.Reaches b → b.pageBase = t.page) (placed : t.IsPlaced m o) :
    t.InBounds m o := by
  refine ⟨fun b hb => hp.hasByte ?_, page, placed⟩
  rw [page b hb]
  exact hh

theorem inBounds_direct (hp : m.arena.IsPaved) (hm : m.Shows m.arena.Holds) {v : GuestAddress}
    {a : HostAddress} (ha : m.virtual.resolve v = .host a) {n : Nat}
    (hn : v.toNat % 4096 + n ≤ 4096) (isStore : Bool) :
    (Touch.direct isStore v a n).InBounds m o := by
  obtain ⟨hmod, hh⟩ := hm.virtual.of_resolve ha
  have hn' : a.toNat % 4096 + n ≤ 4096 := by omega
  exact inBounds_of_page hp hh (fun b hb => pageBase_of_sub_lt hn' hb)
    fun i hi => VirtualMap.resolve_add ha (by omega)

theorem inBounds_fill (hp : m.arena.IsPaved) (hm : m.Shows m.arena.Holds) {v : GuestAddress}
    {a : HostAddress} (ha : m.virtual.resolve v = .host a) (way : Way) :
    (Touch.fill v a way).InBounds m o := by
  refine inBounds_of_page hp (hm.virtual.of_resolve ha).2 (fun b hb => ?_) ha
  have hl : a &&& 0xFFFFFFFFFFFFFFC0 =
      Tag.lineAddress { hostPage := a.pageBase } (Cache.hostIndex a) := Cache.lineBase_eq rfl
  rw [Touch.Reaches, Touch.start, Touch.size, hl] at hb
  exact pageBase_of_line (Cache.toNat_pageBase_mod a) (Cache.hostIndex_lt a) hb

theorem inBounds_writeBack (hp : m.arena.IsPaved) {tag : Tag} {i : Nat} {way : Way}
    (hi : i < setCount) (ho : o i way = some tag.hostPage) (ha : tag.hostPage.toNat % 4096 = 0)
    (hh : m.arena.Holds tag.hostPage) : (Touch.writeBack tag i way).InBounds m o :=
  inBounds_of_page hp hh (fun _ hb => pageBase_of_line ha hi hb) ho

theorem inBounds_line {v : GuestAddress} {w : Width} (fits : Cache.Fits v w) :
    (Touch.line v w).InBounds m o :=
  ⟨fun _ hb => absurd hb (Nat.not_lt_zero _), fun _ hb => absurd hb (Nat.not_lt_zero _), fits⟩

end GuestMemory
