import GuestMemory.Proofs.Access.Flat
import GuestMemory.Proofs.Window.Lockstep
import GuestMemory.Proofs.X64.Entry

/-!
The fast path. Where the window shows every byte of an access, under a protection that allows it, the
single instruction that goes through the window does what the dispatch path does.
-/
namespace GuestMemory

theorem Puts.byte_eq {f g k : HostAddress → UInt8} {loc : Nat → HostAddress} {bs : List UInt8}
    (h : Puts f loc bs g) (h' : Puts f loc bs k) (b : HostAddress) : k b = g b := by
  by_cases hb : ∃ i < bs.length, loc i = b
  · obtain ⟨i, hi, rfl⟩ := hb
    rw [h.stored i hi, h'.stored i hi]
  · have hk : ∀ i < bs.length, loc i ≠ b := fun i hi he => hb ⟨i, hi, he⟩
    rw [h.kept b hk, h'.kept b hk]

namespace Memory

/-- Bytes that are set one by one, at places that differ. -/
theorem puts_setBytes (m : Memory) {loc : Nat → HostAddress} {bs : List UInt8}
    (apart : ∀ i < bs.length, ∀ j < bs.length, loc i = loc j → i = j) :
    Puts m.byte loc bs ((((List.range bs.length).map loc).zip bs).foldl
      (fun m (t, b) => m.setByte t b) m).byte := by
  induction bs generalizing m loc with
  | nil => exact .nil _ _
  | cons b bs ih =>
    rw [List.length_cons, List.range_succ_eq_map, List.map_cons, List.map_map, List.zip_cons_cons,
      List.foldl_cons]
    have hapart : ∀ i < bs.length, ∀ j < bs.length, loc (i + 1) = loc (j + 1) → i = j :=
      fun i hi j hj e =>
        Nat.succ.inj (apart _ (Nat.succ_lt_succ hi) _ (Nat.succ_lt_succ hj) e)
    refine .cons (m.byte_setByte (loc 0) · b) (ih (m.setByte (loc 0) b) hapart) fun i hi e => ?_
    exact Nat.succ_ne_zero i (apart _ (Nat.succ_lt_succ hi) _ (Nat.zero_lt_succ bs.length) e)

end Memory

namespace Space

variable {σ : Type} {s t : Space σ} {w : Window} {v : GuestAddress} {n : Nat} {isStore : Bool}

/-- The window shows `n` bytes from `v` on, under a protection that allows the access. -/
def IsOpen (s : Space σ) (isStore : Bool) (v : GuestAddress) (n : Nat) : Prop :=
  ∀ i < n, ∃ w b, s.window = some w ∧ w.pages.get (v + UInt32.ofNat i) = some b ∧
    (if isStore then b.protection.allowsStore else b.protection.allowsLoad) = true

/-- A housed call, or code that is placed. -/
def Proceeds (s t : Space σ) : Prop :=
  Next (fun s c => c.IsHoused s) s t ∨ ∃ base code, t = s.placeCode base code

/-- Spaces that emitted code runs on: made with a window that the host grants every change of, and used
since by housed calls, beside the placing of code. -/
def RunsCode (s : Space σ) : Prop :=
  ∃ s₀ : Space σ, s₀.IsFresh ∧ s₀.IsPlaced ∧ s₀.Granted ∧ s₀.window.isSome = true ∧
    Relation.ReflTransGen Proceeds s₀ s

/-- Placing code leaves the window in step. -/
theorem KeepsStep.placeCode (h : s.KeepsStep) (base : HostAddress) (code : List X64.Instruction) :
    (s.placeCode base code).KeepsStep := by
  obtain ⟨w, hw, hfits, hm⟩ := h.window
  have hplaced : (s.placeCode base code).window =
      some { w with faults := { w.faults with code := w.faults.code.place base code } } := by
    rw [Space.placeCode, hw]
    rfl
  refine ⟨⟨h.paved, h.housed, _, hplaced, hfits, ⟨hm.shows_eq, hm.recorded⟩⟩, fun w' hw' => ?_⟩
  obtain rfl := Option.some.inj (hplaced.symm.trans hw')
  exact h.granted w hw

theorem IsFresh.cacheModel_off (h : s.IsFresh) (on : s.window.isSome = true) :
    s.settings.cacheModel = false := by
  obtain ⟨place, settings, level, routed, kernel, hc⟩ := h
  obtain ⟨arena, journal, -, rfl⟩ := create_eq_ok hc
  show settings.cacheModel = false
  cases hcache : settings.cacheModel with
  | false => rfl
  | true => simp [hcache] at on

/-- Where emitted code runs the window is in step, and there is no cache. -/
theorem RunsCode.inStep (h : s.RunsCode) : s.InStep ∧ s.settings.cacheModel = false := by
  obtain ⟨s₀, fresh, placed, granted, on, run⟩ := h
  suffices h : s.KeepsStep ∧ s.settings.cacheModel = false from ⟨h.1.toInStep, h.2⟩
  induction run with
  | refl => exact ⟨fresh.keepsStep placed granted on, fresh.cacheModel_off on⟩
  | tail _ next ih =>
    obtain ⟨hstep, hoff⟩ := ih
    rcases next with ⟨c, hc, rfl⟩ | ⟨base, code, rfl⟩
    · exact ⟨hstep.step hc,
        (congrArg Settings.cacheModel (mapStep_step hc.not_install).settings_eq).trans hoff⟩
    · exact ⟨hstep.placeCode base code, hoff⟩

/-- The window leads where the entry of the page leads. -/
theorem InStep.resolve_of_get (h : s.InStep) {b : Window.Backing} (hw : s.window = some w)
    (hb : w.pages.get v = some b) :
    s.virtual.resolve v =
      .host (s.arena.base + UInt64.ofNat b.offset + v.pageOffset.toUInt64) := by
  obtain ⟨w', hw', -, hm⟩ := h.window
  obtain rfl := Option.some.inj (hw.symm.trans hw')
  have hs : w.shows v = some b.offset := by
    rw [Window.shows, hb]
    rfl
  obtain ⟨distance, hd, ho⟩ := Maps.shown_eq_some.1 ((hm.shows_eq v).symm.trans hs)
  obtain ⟨-, hpage⟩ := Arena.offset?_eq_some.1 ho
  have he : s.arena.base + UInt64.ofNat b.offset = hostPage distance v := by
    have hbase : (hostPage distance v).toNat = s.arena.base.toNat + b.offset := hpage
    have hlt := (hostPage distance v).toNat_lt
    apply UInt64.toNat_inj.1
    rw [UInt64.toNat_add, UInt64.toNat_ofNat', hbase]
    omega
  exact VirtualMap.resolve_eq_host.2 ⟨distance, hd, by rw [he]⟩

/-- A byte that may be accessed is reached where the dispatch path finds it. -/
theorem InStep.hostTarget?_open (h : s.InStep) (hw : s.window = some w)
    (isOpen : s.IsOpen isStore v (n + 1)) :
    ∃ t, s.hostTarget? isStore (w.base + v.toUInt64) = some t ∧ s.virtual.resolve v = .host t := by
  obtain ⟨w', b, hw', hb, hp⟩ := isOpen 0 (Nat.zero_lt_succ n)
  obtain rfl := Option.some.inj (hw.symm.trans hw')
  rw [add_ofNat_zero] at hb
  obtain ⟨w', hw', hfits, -⟩ := h.window
  obtain rfl := Option.some.inj (hw.symm.trans hw')
  refine ⟨_, ?_, h.resolve_of_get hw hb⟩
  simp only [hostTarget?, hw, Option.bind_some, guest?_add hfits, hb, hp, if_true]

/-- An access to open pages reaches the bytes that the dispatch path reaches. -/
theorem hostTargets?_open (h : s.InStep) (hw : s.window = some w)
    (isOpen : s.IsOpen isStore v n) (fits : v.toNat + n ≤ 2 ^ 32) :
    ∃ loc, s.hostTargets? isStore (w.base + v.toUInt64) n = some ((List.range n).map loc) ∧
      Backs s.virtual.resolve v n loc := by
  induction n generalizing v with
  | zero => exact ⟨fun _ => 0, rfl, fun i hi => absurd hi (Nat.not_lt_zero i)⟩
  | succ n ih =>
    obtain ⟨t, ht, hr⟩ := h.hostTarget?_open hw isOpen
    have hrest : ∃ loc, s.hostTargets? isStore (w.base + v.toUInt64 + 1) n =
        some ((List.range n).map loc) ∧ Backs s.virtual.resolve (v + 1) n loc := by
      cases n with
      | zero => exact ⟨fun _ => 0, rfl, fun i hi => absurd hi (Nat.not_lt_zero i)⟩
      | succ n =>
        -- the next byte is not past the end of the guest space
        have hnext : (v + 1).toNat = v.toNat + 1 := by
          rw [UInt32.toNat_add, UInt32.toNat_one]
          omega
        have haddress : w.base + v.toUInt64 + 1 = w.base + (v + 1).toUInt64 := by
          rw [UInt64.add_assoc]
          congr 1
          apply UInt64.toNat_inj.1
          rw [UInt64.toNat_add, UInt32.toNat_toUInt64, UInt32.toNat_toUInt64, hnext,
            UInt64.toNat_one]
          omega
        rw [haddress]
        refine ih (fun i hi => ?_) (by omega)
        rw [add_one_add]
        exact isOpen (i + 1) (Nat.succ_lt_succ hi)
    obtain ⟨loc, hloc, hbacks⟩ := hrest
    refine ⟨fun i => if i = 0 then t else loc (i - 1), ?_, fun i hi => ?_⟩
    · rw [hostTargets?, ht, hloc, List.range_succ_eq_map, List.map_cons, List.map_map]
      rfl
    · cases i with
      | zero => rwa [add_ofNat_zero]
      | succ i =>
        rw [← add_one_add]
        exact hbacks i (Nat.lt_of_succ_lt_succ hi)

end Space

namespace X64

variable {σ : Type} {m : Machine σ} {e : Emitter} {d : Deferred} {v : GuestAddress}

/-- The instruction of an access does what the dispatch path does, in memory with the same bytes. -/
theorem step_fastPath (hstep : m.space.InStep)
    (hoff : m.space.settings.cacheModel = false) (hwindow : m.space.windowBase? = some e.windowBase)
    (hbase : m.gpr e.base = e.windowBase) (hv : m.gpr d.address = v.toUInt64)
    (isOpen : m.space.IsOpen (!d.access.isLoad) v d.access.width.bytes)
    (fits : v.toNat + d.access.width.bytes ≤ 2 ^ 32) :
    ∃ memory, m.step (e.fastPath d.access d.address d.data) =
        .ok ((d.dispatch m v).withMemory memory) ∧
      ∀ b, memory.byte b = (d.dispatch m v).space.memory.byte b := by
  obtain ⟨w, hw, hb⟩ := Option.map_eq_some_iff.1 hwindow
  obtain ⟨loc, htargets, hbacks⟩ := Space.hostTargets?_open hstep hw isOpen fits
  have haddress : m.gpr e.base + m.gpr d.address = w.base + v.toUInt64 := by rw [hbase, hv, hb]
  cases hl : d.access.isLoad with
  | true =>
    rw [hl] at htargets
    have hload : m.load d.access.width (m.gpr e.base + m.gpr d.address) =
        .ok (Word.ofBytes _ (gather m.space.memory.byte loc d.access.width.bytes)) := by
      rw [haddress, Machine.load, Space.hostLoad?, show false = !true from rfl, htargets,
        Option.map_some, List.map_map]
      rfl
    have hdispatch : d.dispatch m v =
        d.settle (Word.ofBytes _ (gather m.space.memory.byte loc d.access.width.bytes)) m := by
      rw [Deferred.dispatch, d.perform_of_load m v m.space hl, Space.read_flat hoff hbacks]
    refine ⟨m.space.memory, ?_, fun b => by rw [hdispatch, Deferred.space_settle]⟩
    rw [hdispatch, Deferred.settle, if_pos hl]
    cases hx : d.access.isVector <;> simp only [Emitter.fastPath, hl, hx, Machine.step, hload] <;> rfl
  | false =>
    rw [hl] at htargets
    obtain ⟨memory, hwrite, hputs⟩ := Space.write_flat hoff hstep.housed.virtual hbacks (d.value m)
    have hlen : (d.value m).bytes.length = d.access.width.bytes := Word.length_bytes _
    have hdispatch : d.dispatch m v = m.withMemory memory := by
      rw [Deferred.dispatch, d.perform_of_store m v m.space hl, Deferred.settle,
        if_neg (by simp [hl]), hwrite]
      rfl
    have hstore : ∃ memory', m.store (m.gpr e.base + m.gpr d.address) (d.value m) =
        .ok (m.withMemory memory') ∧ ∀ b, memory'.byte b = memory.byte b := by
      have hapart : ∀ i < (d.value m).bytes.length, ∀ j < (d.value m).bytes.length,
          loc i = loc j → i = j := by
        intro i hi j hj he
        have hw := d.access.width.bytes_le
        exact hbacks.injective hstep.housed.virtual (by omega) (hlen ▸ hi) (hlen ▸ hj) he
      refine ⟨_, ?_, hputs.byte_eq (m.space.memory.puts_setBytes hapart)⟩
      rw [haddress, Machine.store, Machine.storeBytes, Space.hostStore?, hlen,
        show true = !false from rfl, htargets, Option.map_some, ← hlen]
      rfl
    obtain ⟨memory', hstore, hsame⟩ := hstore
    refine ⟨memory', ?_, by rwa [hdispatch]⟩
    rw [hdispatch, Machine.withMemory_withMemory, ← hstore, Deferred.value]
    cases hx : d.access.isVector <;> simp only [Emitter.fastPath, hl, hx] <;> rfl

end X64

end GuestMemory
