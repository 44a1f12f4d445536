import GuestMemory.Proofs.Space.History

/-!
The arena as the host sees it. Its regions lie side by side in whole pages from the start, so what
has been carved off is exactly what a host address can be located in, and stays so.
-/
namespace GuestMemory

theorem roundUpToPage_mod {size n : Nat} (h : roundUpToPage size = some n) : n % 4096 = 0 := by
  unfold roundUpToPage at h
  split at h
  · cases h
    exact Nat.mul_mod_left _ _
  · cases h

namespace Arena

/-- A region that was carved off the arena has this block. -/
def Owns (arena : Arena) (block : Block) : Prop :=
  ∃ r ∈ arena.regions, r.offset = block.offset ∧ r.size = block.size

def Holds (arena : Arena) (a : HostAddress) : Prop :=
  arena.base.toNat ≤ a.toNat ∧ a.toNat < arena.base.toNat + arena.used

/-- A host address that is not reserved for the arena. -/
def Outside (arena : Arena) (a : HostAddress) : Prop :=
  a.toNat < arena.base.toNat ∨ arena.base.toNat + arena.size ≤ a.toNat

instance (arena : Arena) (a : HostAddress) : Decidable (arena.Holds a) :=
  inferInstanceAs (Decidable (_ ∧ _))

instance (arena : Arena) (a : HostAddress) : Decidable (arena.Outside a) :=
  inferInstanceAs (Decidable (_ ∨ _))

def offset? (arena : Arena) (a : HostAddress) : Option Nat :=
  if arena.Holds a then some (a.toNat - arena.base.toNat) else none

theorem offset?_eq_some {arena : Arena} {a : HostAddress} {o : Nat} :
    arena.offset? a = some o ↔ arena.Holds a ∧ a.toNat = arena.base.toNat + o := by
  rw [offset?]
  by_cases h : arena.Holds a
  · have hle := h.1
    rw [if_pos h, Option.some.injEq]
    constructor
    · intro he
      exact ⟨h, by omega⟩
    · rintro ⟨-, he⟩
      omega
  · simp [h]

/-- Whole pages of host memory, carved off from the start without gaps. -/
structure IsPaved (arena : Arena) : Prop where
  base_aligned : arena.base.toNat % 4096 = 0
  base_fits : arena.base.toNat + arena.size ≤ 2 ^ 64
  used_le : arena.used ≤ arena.size
  used_aligned : arena.used % 4096 = 0
  region : ∀ r ∈ arena.regions,
    r.offset % 4096 = 0 ∧ r.size % 4096 = 0 ∧ r.offset + r.size ≤ arena.used
  covered : ∀ o < arena.used, ∃ r ∈ arena.regions, r.offset ≤ o ∧ o < r.offset + r.size

/-- A region that is granted lies in whole pages behind those before it. -/
theorem allocate_eq_ok {arena arena' : Arena} {name : String} {size : Nat} {p : Protection}
    {block : Block} (h : arena.allocate name size p = .ok (block, arena')) :
    ∃ n, n % 4096 = 0 ∧ n ≤ arena.remaining ∧ block = ⟨arena.used, n⟩ ∧
      arena' = { arena with
        used := arena.used + n
        regions := arena.regions ++ [⟨name, arena.used, n, p⟩] } := by
  unfold allocate at h
  cases hr : roundUpToPage size with
  | none =>
    rw [hr] at h
    cases h
  | some n =>
    simp only [hr] at h
    split at h
    · cases h
    · rename_i hn
      cases h
      exact ⟨n, roundUpToPage_mod hr, Nat.le_of_not_lt hn, rfl, rfl⟩

/-- An arena stays paved when more is carved off. -/
theorem IsPaved.allocate {arena arena' : Arena} {name : String} {size : Nat} {p : Protection}
    {block : Block} (h : arena.IsPaved) (ha : arena.allocate name size p = .ok (block, arena')) :
    arena'.IsPaved := by
  obtain ⟨n, hn, hle, -, rfl⟩ := allocate_eq_ok ha
  have hused := h.used_le
  have hmod := h.used_aligned
  rw [remaining] at hle
  constructor
  · exact h.base_aligned
  · exact h.base_fits
  · show arena.used + n ≤ arena.size
    omega
  · show (arena.used + n) % 4096 = 0
    omega
  · intro r hr
    rcases List.mem_append.1 hr with hr | hr
    · obtain ⟨ho, hz, hend⟩ := h.region r hr
      exact ⟨ho, hz, by show r.offset + r.size ≤ arena.used + n; omega⟩
    · rw [List.mem_singleton.1 hr]
      exact ⟨hmod, hn, Nat.le_refl _⟩
  · intro o ho
    have ho' : o < arena.used + n := ho
    by_cases hlt : o < arena.used
    · obtain ⟨r, hr, hin⟩ := h.covered o hlt
      exact ⟨r, List.mem_append_left _ hr, hin⟩
    · have hle' : arena.used ≤ o := Nat.le_of_not_lt hlt
      exact ⟨_, List.mem_append_right _ (List.mem_singleton_self _), hle', ho'⟩

/-- What has been carved off stays so, and what was outside stays outside. -/
theorem Holds.allocate {arena arena' : Arena} {name : String} {size : Nat} {p : Protection}
    {block : Block} {a : HostAddress} (h : arena.Holds a)
    (ha : arena.allocate name size p = .ok (block, arena')) : arena'.Holds a := by
  obtain ⟨n, -, -, -, rfl⟩ := allocate_eq_ok ha
  obtain ⟨hle, hlt⟩ := h
  exact ⟨hle, by show a.toNat < arena.base.toNat + (arena.used + n); omega⟩

theorem Outside.allocate {arena arena' : Arena} {name : String} {size : Nat} {p : Protection}
    {block : Block} {a : HostAddress} (h : arena.Outside a)
    (ha : arena.allocate name size p = .ok (block, arena')) : arena'.Outside a := by
  obtain ⟨n, -, -, -, rfl⟩ := allocate_eq_ok ha
  exact h

theorem Owns.allocate {arena arena' : Arena} {name : String} {size : Nat} {p : Protection}
    {block b : Block} (h : arena.Owns b)
    (ha : arena.allocate name size p = .ok (block, arena')) : arena'.Owns b := by
  obtain ⟨n, -, -, -, rfl⟩ := allocate_eq_ok ha
  obtain ⟨r, hr, hb⟩ := h
  exact ⟨r, List.mem_append_left _ hr, hb⟩

theorem owns_allocate {arena arena' : Arena} {name : String} {size : Nat} {p : Protection}
    {block : Block} (ha : arena.allocate name size p = .ok (block, arena')) :
    arena'.Owns block := by
  obtain ⟨n, -, -, rfl, rfl⟩ := allocate_eq_ok ha
  exact ⟨_, List.mem_append_right _ (List.mem_singleton_self _), rfl, rfl⟩

/-- Every byte of a block of the arena is in what has been carved off. -/
theorem IsPaved.holds_block {arena : Arena} (h : arena.IsPaved) {block : Block}
    (ho : arena.Owns block) {k : Nat} (hk : k < block.size) :
    arena.Holds (arena.address block + UInt64.ofNat k) := by
  obtain ⟨r, hr, hoffset, hsize⟩ := ho
  obtain ⟨-, -, hend⟩ := h.region r hr
  have hfits := h.base_fits
  have hused := h.used_le
  have hn : (arena.address block + UInt64.ofNat k).toNat =
      arena.base.toNat + block.offset + k := by
    rw [address, UInt64.toNat_add, UInt64.toNat_add, UInt64.toNat_ofNat', UInt64.toNat_ofNat']
    omega
  rw [Holds, hn]
  omega

theorem IsPaved.hostRun_block {arena : Arena} (h : arena.IsPaved) {block : Block}
    (ho : arena.Owns block) {size : UInt32} (hsize : size.toNat ≤ block.size) :
    HostRun arena.Holds (arena.address block) size := by
  intro i hi
  rw [GuestAddress.page_eq] at hi
  exact h.holds_block ho (by omega)

/-- Locating an address gives its offset in the arena, if it is in what has been carved off. -/
theorem IsPaved.locate?_eq {arena : Arena} (h : arena.IsPaved) (a : HostAddress) :
    (arena.locate? a).map Prod.fst = arena.offset? a := by
  rw [locate?, offset?]
  by_cases hin : arena.Holds a
  · obtain ⟨hbase, hused⟩ := id hin
    have ho : ¬(a.toNat < arena.base.toNat ∨ arena.base.toNat + arena.used ≤ a.toNat) := by omega
    obtain ⟨r, hr, hle, hlt⟩ := h.covered (a.toNat - arena.base.toNat) (by omega)
    rw [if_neg ho, if_pos hin]
    cases hf : arena.regions.find? fun r =>
        r.offset ≤ a.toNat - arena.base.toNat &&
          a.toNat - arena.base.toNat < r.offset + r.size with
    | some r' => simp [hf]
    | none =>
      have hn := List.find?_eq_none.1 hf r hr
      simp [hle, hlt] at hn
  · have ho : a.toNat < arena.base.toNat ∨ arena.base.toNat + arena.used ≤ a.toNat := by
      rw [Holds] at hin
      omega
    rw [if_pos ho, if_neg hin]
    rfl

/-- A page in what has been carved off lies whole in one region. -/
theorem IsPaved.region_of_page {arena : Arena} (h : arena.IsPaved) {page : HostAddress}
    (ha : page.toNat % 4096 = 0) (hp : arena.Holds page) :
    ∃ r ∈ arena.regions, arena.base.toNat + r.offset ≤ page.toNat ∧
      page.toNat + 4096 ≤ arena.base.toNat + r.offset + r.size := by
  obtain ⟨hle, hlt⟩ := hp
  obtain ⟨r, hr, ho, hend⟩ := h.covered (page.toNat - arena.base.toNat) (by omega)
  obtain ⟨hoffset, hsize, -⟩ := h.region r hr
  have hbase := h.base_aligned
  exact ⟨r, hr, by omega, by omega⟩

theorem create_eq_ok {base : HostAddress} {size : Nat} {kernel : Kernel} {arena : Arena}
    (h : create base size kernel = .ok arena) :
    arena.base = base ∧ arena.used = 0 ∧ arena.regions = [] := by
  unfold create at h
  cases hr : roundUpToPage size with
  | none =>
    rw [hr] at h
    cases h
  | some total =>
    simp only [hr] at h
    split at h <;> cases h
    exact ⟨rfl, rfl, rfl⟩

end Arena

namespace Space

variable {σ : Type} {m m' : Maps} {c : Command σ} {a : Answer σ}

/-- One call keeps the arena paved, and what has been carved off stays so. -/
theorem MapStep.paved (h : MapStep m c a m') (hp : m.arena.IsPaved) : m'.arena.IsPaved := by
  cases h with
  | allocate h => exact hp.allocate h
  | _ => exact hp

theorem MapStep.holds (h : MapStep m c a m') (page : HostAddress) (hh : m.arena.Holds page) :
    m'.arena.Holds page := by
  cases h with
  | allocate h => exact hh.allocate h
  | _ => exact hh

/-- A fresh arena is paved, if the host put it on a page boundary and where it does not wrap. -/
theorem IsFresh.paved {s : Space σ} (h : s.IsFresh) (aligned : s.arena.base.toNat % 4096 = 0)
    (fits : s.arena.base.toNat + s.arena.size ≤ 2 ^ 64) : s.arena.IsPaved := by
  obtain ⟨place, settings, level, routed, kernel, hc⟩ := h
  obtain ⟨arena, journal, ha, rfl⟩ := create_eq_ok hc
  obtain ⟨-, hused, hregions⟩ := Arena.create_eq_ok ha
  have haligned : arena.base.toNat % 4096 = 0 := aligned
  refine ⟨haligned, fits, ?_, ?_, ?_, ?_⟩
  · simp [hused]
  · simp [hused]
  · simp [hregions]
  · simp [hused]

theorem MapStep.owns (h : MapStep m c a m') {b : Block} (ho : m.arena.Owns b) :
    m'.arena.Owns b := by
  cases h with
  | allocate h => exact ho.allocate h
  | _ => exact ho

end Space

namespace Layout

variable {σ α β : Type}

theorem attempt_bind_eq_ok {f : Attempt σ α} {g : α → Attempt σ β} {s u : Space σ} {y : β} :
    (f >>= g) s = .ok y u ↔ ∃ x t, f s = .ok x t ∧ g x t = .ok y u := by
  simp only [Bind.bind, EStateM.bind]
  cases f s with
  | ok x t =>
    constructor
    · exact fun hg => ⟨x, t, rfl, hg⟩
    · rintro ⟨_, _, ⟨⟩, hg⟩
      exact hg
  | error e t =>
    constructor
    · rintro ⟨⟩
    · rintro ⟨_, _, ⟨⟩, -⟩

def Owned (s : Space σ) (blocks : List Block) : Prop := ∀ b ∈ blocks, s.arena.Owns b

theorem owned_nil (s : Space σ) : Owned s [] := fun _ h => absurd h List.not_mem_nil

/-- A block that has been carved off is owned, and so are those before it. -/
theorem Owned.allocating {s t : Space σ} {blocks : List Block} {name : String} {size : UInt32}
    {protection : Protection} {block : Block} (h : Owned s blocks)
    (ha : allocating name size protection s = .ok block t) : Owned t (blocks ++ [block]) := by
  unfold Layout.allocating at ha
  cases hs : s.allocate name size.toNat protection with
  | error e =>
    rw [hs] at ha
    cases e <;> cases ha
  | ok r =>
    rw [hs] at ha
    obtain ⟨b, u⟩ := r
    cases ha
    obtain ⟨arena, harena, rfl⟩ := Space.allocate_eq_ok.1 hs
    intro b hb
    rcases List.mem_append.1 hb with hb | hb
    · exact (h b hb).allocate harena
    · have hnew : arena.Owns block := Arena.owns_allocate harena
      exact List.mem_singleton.1 hb ▸ hnew

/-- Every block of a layout has been carved off. -/
theorem owned_allocateRegions {s t : Space σ} {l : Layout} (h : allocateRegions s = .ok l t) :
    Owned t l.blocks.toList := by
  obtain ⟨_, s₁, h₁, h⟩ := attempt_bind_eq_ok.1 h
  obtain ⟨_, s₂, h₂, h⟩ := attempt_bind_eq_ok.1 h
  obtain ⟨_, s₃, h₃, h⟩ := attempt_bind_eq_ok.1 h
  obtain ⟨_, s₄, h₄, h⟩ := attempt_bind_eq_ok.1 h
  obtain ⟨_, s₅, h₅, h⟩ := attempt_bind_eq_ok.1 h
  obtain ⟨_, s₆, h₆, h⟩ := attempt_bind_eq_ok.1 h
  obtain ⟨_, s₇, h₇, h⟩ := attempt_bind_eq_ok.1 h
  obtain ⟨_, s₈, h₈, h⟩ := attempt_bind_eq_ok.1 h
  obtain ⟨_, s₉, h₉, h⟩ := attempt_bind_eq_ok.1 h
  obtain ⟨_, s₁₀, h₁₀, h⟩ := attempt_bind_eq_ok.1 h
  obtain ⟨_, s₁₁, h₁₁, h⟩ := attempt_bind_eq_ok.1 h
  have ho := ((owned_nil s).allocating h₁).allocating h₂ |>.allocating h₃ |>.allocating h₄
    |>.allocating h₅ |>.allocating h₆ |>.allocating h₇ |>.allocating h₈ |>.allocating h₉
    |>.allocating h₁₀
  have harena : s₁₁.arena = s₁₀.arena := by
    rw [registering, Space.register] at h₁₁
    cases hr : s₁₀.handlers.register Handler.null with
    | error e =>
      rw [hr] at h₁₁
      cases h₁₁
    | ok r =>
      rw [hr] at h₁₁
      cases h₁₁
      rfl
  cases h
  intro b hb
  rw [harena]
  exact ho b hb

end Layout

end GuestMemory
