import GuestMemory.Proofs.Access.Flat
import GuestMemory.Proofs.Access.Shown

/-!
Access to plain memory, past the cache and the devices. Loads stop at the first byte that is not
memory and stores look at all bytes before they begin, yet both succeed for the same ranges, and a
store that fails has stored nothing.
-/
namespace GuestMemory.Space

variable {σ : Type} {s : Space σ} {w : Width} {v : GuestAddress} {loc : Nat → HostAddress}
  {n : Nat}

/-- The `n` bytes from `v` on are all host memory; addresses wrap. -/
def InMemory (s : Space σ) (v : GuestAddress) (n : Nat) : Prop :=
  ∀ i < n, ∃ a, s.virtual.resolve (v + UInt32.ofNat i) = .host a

theorem inMemory_iff_backs : s.InMemory v n ↔ ∃ loc, Backs s.virtual.resolve v n loc := by
  constructor
  · intro h
    refine ⟨fun i => if hi : i < n then (h i hi).choose else 0, fun i hi => ?_⟩
    simp only [dif_pos hi]
    exact (h i hi).choose_spec
  · rintro ⟨loc, h⟩ i hi
    exact ⟨loc i, h i hi⟩

theorem inMemory_succ :
    s.InMemory v (n + 1) ↔ (∃ a, s.virtual.resolve v = .host a) ∧ s.InMemory (v + 1) n := by
  simp only [InMemory, Nat.forall_lt_succ_left, add_one_add]
  rw [add_ofNat_zero]

/-- Inside a page the first byte speaks for all. -/
theorem inMemory_of_not_straddles (h : ¬straddles v w) :
    s.InMemory v w.bytes ↔ ∃ a, s.virtual.resolve v = .host a := by
  have hpage := le_of_not_straddles h
  constructor
  · intro hm
    obtain ⟨loc, hb⟩ := inMemory_iff_backs.1 hm
    exact ⟨loc 0, hb.head w.bytes_pos⟩
  · rintro ⟨a, ha⟩ i hi
    exact ⟨_, VirtualMap.resolve_add ha (by omega)⟩

theorem isMemory_iff : s.isMemory v n = true ↔ s.InMemory v n := by
  induction n generalizing v with
  | zero => simp [isMemory, InMemory]
  | succ n ih =>
    rw [isMemory, inMemory_succ, ← ih]
    cases s.virtual.resolve v <;> simp

theorem isSome_memoryBytes?_iff : (s.memoryBytes? v n).isSome = true ↔ s.InMemory v n := by
  induction n generalizing v with
  | zero => simp [memoryBytes?, InMemory]
  | succ n ih =>
    rw [memoryBytes?, inMemory_succ, ← ih]
    cases s.virtual.resolve v <;> simp

theorem isSome_ramRead?_iff : (s.ramRead? w v).isSome = true ↔ s.InMemory v w.bytes := by
  rw [ramRead?]
  split
  · rw [Option.isSome_map, isSome_memoryBytes?_iff]
  · rename_i h
    rw [inMemory_of_not_straddles h]
    cases s.virtual.resolve v <;> simp

theorem fst_ramWrite_iff (x : Word w) : (s.ramWrite v x).1 = true ↔ s.InMemory v w.bytes := by
  rw [ramWrite]
  split
  · rw [← isMemory_iff]
    split <;> simp_all
  · rename_i h
    rw [inMemory_of_not_straddles h]
    cases s.virtual.resolve v <;> simp

/-- A store that fails stores nothing. -/
theorem snd_ramWrite_of_not (x : Word w) (h : (s.ramWrite v x).1 = false) :
    (s.ramWrite v x).2 = s := by
  rw [ramWrite] at h ⊢
  split <;> split <;> simp_all

theorem memoryBytes?_of_backs (h : Backs s.virtual.resolve v n loc) :
    s.memoryBytes? v n = some (gather s.memory.byte loc n) := by
  induction n generalizing v loc with
  | zero => rfl
  | succ n ih =>
    rw [memoryBytes?, gather_succ]
    simp only [h.head (Nat.zero_lt_succ n), ih h.tail, Option.map_some]

/-- A load gives the bytes of memory, also across a page boundary. -/
theorem ramRead?_of_backs (h : Backs s.virtual.resolve v w.bytes loc) :
    s.ramRead? w v = some (Word.ofBytes w (gather s.memory.byte loc w.bytes)) := by
  rw [ramRead?]
  split
  · rw [memoryBytes?_of_backs h, Option.map_some]
  · rename_i hn
    simp only [h.head w.bytes_pos]
    rw [Memory.load, s.memory.read_eq_gather (h.side_by_side (le_of_not_straddles hn))]

/-- Stores of bytes that go to different places do not undo one another. -/
theorem storeBytes_puts {bs : List UInt8} (h : Backs s.virtual.resolve v bs.length loc)
    (apart : ∀ i < bs.length, ∀ j < bs.length, loc i = loc j → i = j) :
    ∃ memory, s.storeBytes v bs = { s with memory } ∧ Puts s.memory.byte loc bs memory.byte := by
  induction bs generalizing s v loc with
  | nil => exact ⟨s.memory, rfl, .nil _ _⟩
  | cons b bs ih =>
    have ha := h.head (Nat.zero_lt_succ bs.length)
    -- storing the first byte changes no map, so the others still go where they went
    obtain ⟨memory, he, hp⟩ := ih (s := { s with memory := s.memory.setByte (loc 0) b }) h.tail
      fun i hi j hj e =>
        Nat.succ.inj (apart _ (Nat.succ_lt_succ hi) _ (Nat.succ_lt_succ hj) e)
    refine ⟨memory, ?_, .cons (fun c => s.memory.byte_setByte (loc 0) c b) hp fun i hi e => ?_⟩
    · rw [storeBytes]
      simp only [ha, he]
    · exact Nat.succ_ne_zero i (apart _ (Nat.succ_lt_succ hi) _ (Nat.zero_lt_succ _) e)

/-- A store past the maps puts its bytes where all of them are host memory. -/
theorem ramWrite_of_backs {P : HostAddress → Prop} (hm : s.virtual.Shows P)
    (h : Backs s.virtual.resolve v w.bytes loc) (x : Word w) :
    ∃ memory, s.ramWrite v x = (true, { s with memory }) ∧
      Puts s.memory.byte loc x.bytes memory.byte := by
  have hl : x.bytes.length = w.bytes := Word.length_bytes x
  have hw := w.bytes_le
  rw [ramWrite]
  split
  · have hall : s.isMemory v w.bytes = true := isMemory_iff.2 (inMemory_iff_backs.2 ⟨loc, h⟩)
    have hbytes : Backs s.virtual.resolve v x.bytes.length loc := hl ▸ h
    obtain ⟨memory, he, hp⟩ := storeBytes_puts hbytes fun i hi j hj e =>
      hbytes.injective hm (by omega) hi hj e
    rw [if_pos hall, he]
    exact ⟨memory, rfl, hp⟩
  · rename_i hn
    simp only [h.head w.bytes_pos]
    refine ⟨_, rfl, s.memory.puts_write (by omega) fun i hi => ?_⟩
    exact h.side_by_side (le_of_not_straddles hn) i (hl ▸ hi)

/-- What access to plain memory from `v` on is, in a state. -/
structure PlainAccess (s : Space σ) (w : Width) (v : GuestAddress) : Prop where
  loads_iff : (s.ramRead? w v).isSome = true ↔ s.InMemory v w.bytes
  stores_iff : ∀ x : Word w, (s.ramWrite v x).1 = true ↔ s.InMemory v w.bytes
  load : ∀ loc, Backs s.virtual.resolve v w.bytes loc →
    s.ramRead? w v = some (Word.ofBytes w (gather s.memory.byte loc w.bytes))
  store : ∀ loc, Backs s.virtual.resolve v w.bytes loc → ∀ x : Word w,
    ∃ memory, s.ramWrite v x = (true, { s with memory }) ∧
      Puts s.memory.byte loc x.bytes memory.byte ∧
        ({ s with memory } : Space σ).ramRead? w v = some x
  refused : ∀ x : Word w, (s.ramWrite v x).1 = false → (s.ramWrite v x).2 = s
  /-- As calls, neither reports anything, and a store changes nothing but memory. -/
  load_step : s.step (.ramRead w v) = (⟨.maybeWord w (s.ramRead? w v), #[]⟩, s.drained)
  store_step : ∀ x : Word w, ∃ memory,
    s.step (.ramWrite w v x) = (⟨.stored (s.ramWrite v x).1, #[]⟩, { s.drained with memory })
  read_eq : s.settings.cacheModel = false → ∀ x, s.ramRead? w v = some x → s.read w v = (x, s)

theorem memoryBytes?_drained (s : Space σ) (v : GuestAddress) (n : Nat) :
    s.drained.memoryBytes? v n = s.memoryBytes? v n := by
  induction n generalizing v with
  | zero => rfl
  | succ n ih =>
    rw [memoryBytes?, memoryBytes?, ih]
    rfl

theorem ramRead?_drained (s : Space σ) (w : Width) (v : GuestAddress) :
    s.drained.ramRead? w v = s.ramRead? w v := by
  rw [ramRead?, ramRead?, memoryBytes?_drained]
  rfl

theorem fst_ramWrite_drained (s : Space σ) (v : GuestAddress) (x : Word w) :
    (s.drained.ramWrite v x).1 = (s.ramWrite v x).1 := by
  rw [Bool.eq_iff_iff, fst_ramWrite_iff, fst_ramWrite_iff]
  rfl

/-- A store to plain memory changes nothing else, whether it succeeds or not. -/
theorem onlyMemory_ramWrite {P : HostAddress → Prop} (hm : s.virtual.Shows P) (x : Word w) :
    OnlyMemory s (s.ramWrite v x).2 := by
  cases hb : (s.ramWrite v x).1 with
  | true =>
    obtain ⟨loc, h⟩ := inMemory_iff_backs.1 ((fst_ramWrite_iff x).1 hb)
    obtain ⟨memory, he, -⟩ := ramWrite_of_backs hm h x
    exact ⟨memory, congrArg Prod.snd he⟩
  | false => exact ⟨s.memory, snd_ramWrite_of_not x hb⟩

/-- Access to plain memory succeeds exactly if all its bytes are memory, for loads and for stores;
then a load gives what is there and a store puts its bytes there, and otherwise nothing changes. -/
theorem plainAccess_of_reachable (h : Reachable (fun _ _ => True) s) (w : Width)
    (v : GuestAddress) : s.PlainAccess w v where
  loads_iff := isSome_ramRead?_iff
  stores_iff := fst_ramWrite_iff
  load _ hb := ramRead?_of_backs hb
  store loc hb x := by
    have hl : x.bytes.length = w.bytes := Word.length_bytes x
    obtain ⟨memory, he, hp⟩ := ramWrite_of_backs (shows_of_reachable h) hb x
    refine ⟨memory, he, hp, ?_⟩
    rw [ramRead?_of_backs (s := { s with memory }) hb, ← hl, hp.gather_eq, Word.ofBytes_bytes]
  refused := snd_ramWrite_of_not
  load_step := by
    rw [← ramRead?_drained]
    rfl
  store_step x := by
    have hm : s.virtual.Shows fun _ => True := shows_of_reachable h
    obtain ⟨memory, he⟩ := onlyMemory_ramWrite (s := s.drained) (v := v) hm x
    refine ⟨memory, ?_⟩
    simp only [step, perform]
    rw [he, fst_ramWrite_drained]
    rfl
  read_eq off x hx := by
    have hs : (s.ramRead? w v).isSome = true := by rw [hx, Option.isSome_some]
    obtain ⟨loc, hb⟩ := inMemory_iff_backs.1 (isSome_ramRead?_iff.1 hs)
    rw [ramRead?_of_backs hb] at hx
    rw [read_flat off hb, Option.some.inj hx]

/-- A word whose two bytes lie on two pages of the arena, the second page first. -/
theorem plainAccess_crossed :
    let s := ((made false false).run crossed).2
    Reachable (fun _ _ => True) s ∧ s.PlainAccess .w16 0x1FFF ∧ s.InMemory 0x1FFF 2 := by
  have hr : Reachable (fun _ _ => True) ((made false false).run crossed).2 :=
    ⟨_, isFresh_made false false, leads_run fun _ _ _ => trivial⟩
  refine ⟨hr, plainAccess_of_reachable hr .w16 0x1FFF, fun i hi => ?_⟩
  match i, hi with
  | 0, _ => exact ⟨_, rfl⟩
  | 1, _ => exact ⟨_, rfl⟩

end GuestMemory.Space
