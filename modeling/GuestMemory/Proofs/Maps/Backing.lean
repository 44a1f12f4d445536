import GuestMemory.Proofs.Maps.Atlas

/-!
Runs of guest bytes that lie in host memory. Inside a page they lie side by side; across a page
boundary they need not, but no two of them are the same byte.
-/
namespace GuestMemory

theorem add_ofNat_zero (v : GuestAddress) : v + UInt32.ofNat 0 = v := UInt32.add_zero v

theorem add_one_add (v : GuestAddress) (i : Nat) :
    v + 1 + UInt32.ofNat i = v + UInt32.ofNat (i + 1) := by
  rw [UInt32.add_assoc, UInt32.add_comm 1, UInt32.ofNat_add]
  rfl

/-- Guest addresses that follow one another, `n` of them from `v` on, are the host bytes `loc`. -/
def Backs (resolve : GuestAddress → Resolved) (v : GuestAddress) (n : Nat)
    (loc : Nat → HostAddress) : Prop :=
  ∀ i < n, resolve (v + UInt32.ofNat i) = .host (loc i)

def gather (f : HostAddress → UInt8) (loc : Nat → HostAddress) (n : Nat) : List UInt8 :=
  (List.range n).map fun i => f (loc i)

/-- `g` is `f` with bytes put at some places, and nothing else changed. -/
structure Puts (f : HostAddress → UInt8) (loc : Nat → HostAddress) (bs : List UInt8)
    (g : HostAddress → UInt8) : Prop where
  stored : ∀ i (h : i < bs.length), g (loc i) = bs[i]
  kept : ∀ b, (∀ i < bs.length, loc i ≠ b) → g b = f b

theorem gather_succ (f : HostAddress → UInt8) (loc : Nat → HostAddress) (n : Nat) :
    gather f loc (n + 1) = f (loc 0) :: gather f (fun i => loc (i + 1)) n := by
  rw [gather, List.range_succ_eq_map, List.map_cons, List.map_map]
  rfl

theorem gather_congr_loc {f : HostAddress → UInt8} {loc loc' : Nat → HostAddress} {n : Nat}
    (h : ∀ i < n, loc i = loc' i) : gather f loc n = gather f loc' n :=
  List.map_congr_left fun i hi => by rw [h i (List.mem_range.1 hi)]

theorem Puts.congr_loc {f g : HostAddress → UInt8} {loc loc' : Nat → HostAddress}
    {bs : List UInt8} (hp : Puts f loc bs g) (h : ∀ i < bs.length, loc i = loc' i) :
    Puts f loc' bs g := by
  constructor
  · intro i hi
    rw [← h i hi]
    exact hp.stored i hi
  · intro b hb
    exact hp.kept b fun i hi => h i hi ▸ hb i hi

/-- Bytes that have been put at some places are there. -/
theorem Puts.gather_eq {f g : HostAddress → UInt8} {loc : Nat → HostAddress} {bs : List UInt8}
    (h : Puts f loc bs g) : gather g loc bs.length = bs := by
  refine List.ext_getElem (by simp [gather]) fun i hi hi' => ?_
  simp only [gather, List.getElem_map, List.getElem_range]
  exact h.stored i hi'

theorem Puts.nil (f : HostAddress → UInt8) (loc : Nat → HostAddress) : Puts f loc [] f :=
  ⟨fun _ h => absurd h (Nat.not_lt_zero _), fun _ _ => rfl⟩

/-- Putting the first byte and then the others, which go elsewhere. -/
theorem Puts.cons {f g k : HostAddress → UInt8} {loc : Nat → HostAddress} {x : UInt8}
    {bs : List UInt8} (head : ∀ b, g b = if loc 0 = b then x else f b)
    (tail : Puts g (fun i => loc (i + 1)) bs k)
    (fresh : ∀ i < bs.length, loc (i + 1) ≠ loc 0) : Puts f loc (x :: bs) k := by
  constructor
  · intro i hi
    cases i with
    | zero => rw [tail.kept _ fresh, head, if_pos rfl, List.getElem_cons_zero]
    | succ i => exact tail.stored i (Nat.lt_of_succ_lt_succ hi)
  · intro b hb
    have htail : ∀ i < bs.length, loc (i + 1) ≠ b := fun i hi => hb (i + 1) (Nat.succ_lt_succ hi)
    rw [tail.kept b htail, head, if_neg (hb 0 (Nat.zero_lt_succ _))]

namespace Memory

variable {loc : Nat → HostAddress} {a : HostAddress}

theorem read_eq_gather (m : Memory) {n : Nat} (h : ∀ i < n, loc i = a + UInt64.ofNat i) :
    m.read a n = gather m.byte loc n := by
  apply List.ext_getElem?
  intro i
  by_cases hi : i < n
  · rw [getElem?_read m a hi, gather, List.getElem?_map, List.getElem?_range hi, Option.map_some,
      h i hi]
  · rw [List.getElem?_eq_none (by simpa using hi),
      List.getElem?_eq_none (by simpa [gather] using hi)]

/-- Writing puts bytes at addresses that follow one another. -/
theorem puts_write (m : Memory) {bs : List UInt8} (hl : bs.length ≤ 2 ^ 64)
    (h : ∀ i < bs.length, loc i = a + UInt64.ofNat i) :
    Puts m.byte loc bs (m.write a bs).byte := by
  constructor
  · intro i hi
    rw [h i hi, byte_write m _ _ hl, toNat_offset a (by omega),
      List.getElem?_eq_getElem hi, Option.getD_some]
  · intro b hb
    have hb' : bs.length ≤ (b - a).toNat := by
      refine Nat.le_of_not_lt fun hlt => hb (b - a).toNat hlt ?_
      rw [h _ hlt, UInt64.ofNat_toNat, UInt64.add_comm, UInt64.sub_add_cancel]
    rw [byte_write m _ _ hl, List.getElem?_eq_none hb', Option.getD_none]

end Memory

theorem Backs.head {resolve : GuestAddress → Resolved} {v : GuestAddress} {n : Nat}
    {loc : Nat → HostAddress} (h : Backs resolve v n loc) (hn : 0 < n) :
    resolve v = .host (loc 0) := by
  have h0 := h 0 hn
  rwa [add_ofNat_zero] at h0

theorem Backs.tail {resolve : GuestAddress → Resolved} {v : GuestAddress} {n : Nat}
    {loc : Nat → HostAddress} (h : Backs resolve v (n + 1) loc) :
    Backs resolve (v + 1) n fun i => loc (i + 1) := by
  intro i hi
  rw [add_one_add]
  exact h (i + 1) (Nat.succ_lt_succ hi)

namespace VirtualMap

variable {map : VirtualMap} {v : GuestAddress} {a : HostAddress}

/-- An address leads to host memory if the entry of its page does, at the same offset in the page.
-/
theorem resolve_eq_host :
    map.resolve v = .host a ↔ ∃ distance, map.get v = .memory distance ∧
      a = hostPage distance v + v.pageOffset.toUInt64 := by
  have hsum : ∀ distance : HostAddress,
      hostPage distance v + v.pageOffset.toUInt64 = distance + v.toUInt64 := by
    intro distance
    have hv := v.toNat_lt
    apply UInt64.toNat_inj.1
    simp only [hostPage, UInt64.toNat_add, UInt32.toNat_toUInt64, GuestAddress.toNat_pageBase,
      GuestAddress.toNat_pageOffset]
    omega
  simp only [resolve, hsum]
  cases map.get v with
  | memory distance => simp [VirtualEntry.resolve, eq_comm]
  | handler id distance => simp [VirtualEntry.resolve]
  | unmapped => simp [VirtualEntry.resolve]
  | busError distance => simp [VirtualEntry.resolve]

/-- A host byte lies as far into its page as the guest byte, and its page is that of the entry. -/
theorem Shows.pageBase_eq {P : HostAddress → Prop} (h : map.Shows P) {distance : HostAddress}
    (hd : map.get v = .memory distance) (ha : map.resolve v = .host a) :
    a.toNat % 4096 = v.toNat % 4096 ∧ a.pageBase = hostPage distance v := by
  obtain ⟨distance', hd', rfl⟩ := resolve_eq_host.1 ha
  cases hd.symm.trans hd'
  obtain ⟨hp, -⟩ := h v distance hd
  have ho := GuestAddress.toNat_pageOffset v
  have hn := UInt64.toNat_lt (hostPage distance v)
  have hsum : (hostPage distance v + v.pageOffset.toUInt64).toNat =
      (hostPage distance v).toNat + v.toNat % 4096 := by
    rw [UInt64.toNat_add, UInt32.toNat_toUInt64, ho]
    omega
  refine ⟨by omega, ?_⟩
  apply UInt64.toNat_inj.1
  rw [HostAddress.toNat_pageBase, hsum]
  omega

theorem Shows.of_resolve {P : HostAddress → Prop} (h : map.Shows P)
    (ha : map.resolve v = .host a) : a.toNat % 4096 = v.toNat % 4096 ∧ P a.pageBase := by
  obtain ⟨distance, hd, -⟩ := resolve_eq_host.1 ha
  obtain ⟨hm, hp⟩ := h.pageBase_eq hd ha
  exact ⟨hm, hp ▸ (h v distance hd).2⟩

/-- Bytes of one guest page are bytes of one host page. -/
theorem Shows.pageBase_congr {P : HostAddress → Prop} (h : map.Shows P) {u : GuestAddress}
    {b : HostAddress} (hp : u.pageBase = v.pageBase) (ha : map.resolve v = .host a)
    (hb : map.resolve u = .host b) : b.pageBase = a.pageBase := by
  obtain ⟨distance, hd, -⟩ := resolve_eq_host.1 ha
  have hpage : u.page = v.page := by
    have hn := congrArg UInt32.toNat hp
    rw [GuestAddress.toNat_pageBase, GuestAddress.toNat_pageBase] at hn
    rw [GuestAddress.page_eq, GuestAddress.page_eq]
    omega
  have hu : map.get u = .memory distance := by
    rw [get, hpage]
    exact hd
  rw [(h.pageBase_eq hu hb).2, (h.pageBase_eq hd ha).2, hostPage, hostPage, hp]

/-- Bytes of one page lie side by side. -/
theorem resolve_add (ha : map.resolve v = .host a) {i : Nat} (hi : v.toNat % 4096 + i < 4096) :
    map.resolve (v + UInt32.ofNat i) = .host (a + UInt64.ofNat i) := by
  obtain ⟨distance, hd, rfl⟩ := resolve_eq_host.1 ha
  have hv := v.toNat_lt
  have hsum : (v + UInt32.ofNat i).toNat = v.toNat + i := by
    rw [UInt32.toNat_add, UInt32.toNat_ofNat']
    omega
  have hpage : (v + UInt32.ofNat i).page = v.page := by
    rw [GuestAddress.page_eq, GuestAddress.page_eq, hsum]
    omega
  have hbase : (v + UInt32.ofNat i).pageBase = v.pageBase := by
    apply UInt32.toNat_inj.1
    rw [GuestAddress.toNat_pageBase, GuestAddress.toNat_pageBase, hsum]
    omega
  refine resolve_eq_host.2 ⟨distance, ?_, ?_⟩
  · rw [get, hpage]
    exact hd
  · rw [hostPage, hostPage, hbase, UInt64.add_assoc]
    congr 1
    apply UInt64.toNat_inj.1
    rw [UInt64.toNat_add, UInt32.toNat_toUInt64, UInt32.toNat_toUInt64,
      GuestAddress.toNat_pageOffset, GuestAddress.toNat_pageOffset, hsum, UInt64.toNat_ofNat']
    omega

end VirtualMap

namespace Backs

variable {map : VirtualMap} {v : GuestAddress} {n : Nat} {loc : Nat → HostAddress}

theorem side_by_side (h : Backs map.resolve v n loc) (hn : v.toNat % 4096 + n ≤ 4096) :
    ∀ i < n, loc i = loc 0 + UInt64.ofNat i := by
  intro i hi
  have hr := VirtualMap.resolve_add (h.head (by omega)) (i := i) (by omega)
  rw [h i hi] at hr
  exact Resolved.host.inj hr

theorem injective {P : HostAddress → Prop} (h : Backs map.resolve v n loc) (hm : map.Shows P)
    (hn : n ≤ 4096) {i j : Nat} (hi : i < n) (hj : j < n) (e : loc i = loc j) : i = j := by
  have hoi := (hm.of_resolve (h i hi)).1
  have hoj := (hm.of_resolve (h j hj)).1
  rw [e, hoj, UInt32.toNat_add, UInt32.toNat_add, UInt32.toNat_ofNat', UInt32.toNat_ofNat'] at hoi
  omega

end Backs

end GuestMemory
