import GuestMemory.Proofs.Window.Range
import GuestMemory.Proofs.X64.Diverted
import Mathlib.Tactic.ByContra

/-!
Where the fast path goes. The processor adds up addresses in 64 bits and the guest in 32; the window
is exactly as large as the guest space, so the two agree on every byte of an access up to the last
address of the guest, and part behind it: there the guest goes on at address zero, and the
instruction past the end of the window.
-/
namespace GuestMemory

/-- How far an address lies above a base, and whether it is in the range there. -/
theorem inRange_add {base : HostAddress} {size n : Nat} (fits : base.toNat + size ≤ 2 ^ 64)
    (hn : n < 2 ^ 64) :
    (decide (base ≤ base + UInt64.ofNat n) &&
      decide ((base + UInt64.ofNat n - base).toNat < size)) = decide (n < size) := by
  rw [Memory.toNat_offset base hn]
  by_cases h : n < size
  · have hle : base ≤ base + UInt64.ofNat n := by
      rw [UInt64.le_iff_toNat_le, Memory.toNat_add_offset (by omega)]
      omega
    simp [h, hle]
  · simp [h]

theorem toUInt64_add (v : GuestAddress) (i : Nat) :
    v.toUInt64 + UInt64.ofNat i = UInt64.ofNat (v.toNat + i) := by
  rw [UInt64.ofNat_add]
  congr 1
  apply UInt64.toNat_inj.1
  have hv := v.toNat_lt
  rw [UInt32.toNat_toUInt64, UInt64.toNat_ofNat']
  omega

namespace Site.FaultContext

variable {ctx : FaultContext} {pc a : HostAddress}

theorem handle_of_outside (h : ctx.contains a = false) : ctx.handle pc a = (.outside, ctx, []) := by
  rw [handle, h]
  rfl

/-- A fault in the range is never left to the host, and is one of the guest address behind it. -/
theorem handle_of_inside (h : ctx.contains a = true) :
    (ctx.handle pc a).1 ≠ .outside ∧ ∀ guestPc guest, (ctx.handle pc a).1 = .patched guestPc guest →
      guest = (a - ctx.base).toUInt32 := by
  have hh := ctx.handles_handle pc a
  generalize ctx.handle pc a = result at hh
  cases hh with
  | outside out => exact absurd (h.symm.trans out) nofun
  | patched => simp [eq_comm]
  | _ => simp

end Site.FaultContext

namespace Space

variable {σ : Type} {s : Space σ} {w : Window} {v u : GuestAddress} {a : HostAddress} {n : Nat}
  {isStore : Bool}

/-- A host address is that of a guest byte: the window has it as that byte, and a fault there is
taken for one of that byte. -/
structure Reaches (s : Space σ) (a : HostAddress) (u : GuestAddress) : Prop where
  window : ∃ w, s.window = some w ∧ w.pages.contains a = true ∧ w.pages.guest? a = some u ∧
    w.faults.contains a = true
  taken : ∀ pc, (s.handleFault pc a).1 ≠ .outside
  patched : ∀ pc guestPc guest, (s.handleFault pc a).1 = .patched guestPc guest → guest = u

/-- A host address is that of no guest byte, and a fault there is left to the host. -/
structure Escapes (s : Space σ) (a : HostAddress) : Prop where
  window : ∃ w, s.window = some w ∧ w.pages.contains a = false ∧ w.pages.guest? a = none ∧
    w.faults.contains a = false
  left : ∀ pc, s.handleFault pc a = (.outside, s)

/-- Where emitted code runs faults in the window are taken. -/
theorem RunsCode.ranged (h : s.RunsCode) : s.Ranged := by
  obtain ⟨s₀, fresh, -, -, on, hl⟩ := h
  induction hl with
  | refl => exact fresh.ranged on
  | tail _ hn ih =>
    rcases hn with ⟨c, hc, rfl⟩ | ⟨base, code, rfl⟩
    · exact Ranged.perform (s := Space.drained _) ih hc.drained
    · obtain ⟨w, hw, hr⟩ := ih
      refine ⟨{ w with faults := { w.faults with code := w.faults.code.place base code } }, ?_,
        hr.base_eq, hr.size_eq⟩
      rw [placeCode, hw]
      rfl

section

variable (hw : s.window = some w) (hr : w.Ranged) (fits : w.base.toNat + Window.windowSize ≤ 2 ^ 64)
  (hn : v.toNat + n < 2 ^ 64)

include hw hr fits hn

/-- A byte that is not past the last guest address. -/
theorem reaches_of_lt (h : v.toNat + n < 2 ^ 32) :
    s.Reaches (w.base + v.toUInt64 + UInt64.ofNat n) (v + UInt32.ofNat n) := by
  rw [UInt64.add_assoc, toUInt64_add]
  have hin : decide (v.toNat + n < Window.windowSize) = true := decide_eq_true h
  have hpages : w.pages.contains (w.base + UInt64.ofNat (v.toNat + n)) = true :=
    (inRange_add fits hn).trans hin
  have hfaults : w.faults.contains (w.base + UInt64.ofNat (v.toNat + n)) = true := by
    rw [Site.FaultContext.contains, hr.base_eq, hr.size_eq]
    exact (inRange_add fits hn).trans hin
  have hguest : (w.base + UInt64.ofNat (v.toNat + n) - w.base).toUInt32 = v + UInt32.ofNat n := by
    rw [UInt64.add_comm, UInt64.add_sub_cancel]
    apply UInt32.toNat_inj.1
    rw [UInt64.toNat_toUInt32, UInt64.toNat_ofNat', UInt32.toNat_add, UInt32.toNat_ofNat']
    omega
  refine ⟨⟨w, hw, hpages, ?_, hfaults⟩, fun pc => ?_, fun pc guestPc guest hp => ?_⟩
  · rw [Window.Pages.guest?, if_pos hpages]
    exact congrArg some hguest
  · rw [handleFault, hw]
    exact (Site.FaultContext.handle_of_inside hfaults).1
  · rw [handleFault, hw] at hp
    rw [(Site.FaultContext.handle_of_inside hfaults).2 _ _ hp, hr.base_eq, hguest]

/-- A byte past it. -/
theorem escapes_of_ge (h : 2 ^ 32 ≤ v.toNat + n) :
    s.Escapes (w.base + v.toUInt64 + UInt64.ofNat n) := by
  rw [UInt64.add_assoc, toUInt64_add]
  have hout : decide (v.toNat + n < Window.windowSize) = false := decide_eq_false (Nat.not_lt.2 h)
  have hpages : w.pages.contains (w.base + UInt64.ofNat (v.toNat + n)) = false :=
    (inRange_add fits hn).trans hout
  have hfaults : w.faults.contains (w.base + UInt64.ofNat (v.toNat + n)) = false := by
    rw [Site.FaultContext.contains, hr.base_eq, hr.size_eq]
    exact (inRange_add fits hn).trans hout
  refine ⟨⟨w, hw, hpages, ?_, hfaults⟩, fun pc => ?_⟩
  · rw [Window.Pages.guest?, hpages]
    rfl
  · rw [handleFault, hw]
    simp only [Site.FaultContext.handle_of_outside hfaults]
    rw [← hw]
    rfl

end

theorem hostTargets?_succ {t : HostAddress} (ht : s.hostTarget? isStore a = some t) (n : Nat) :
    s.hostTargets? isStore a (n + 1) = none ↔ s.hostTargets? isStore (a + 1) n = none := by
  rw [hostTargets?, ht]
  cases s.hostTargets? isStore (a + 1) n <;> simp

/-- An access is refused exactly if one of its bytes is. -/
theorem hostTargets?_eq_none :
    s.hostTargets? isStore a n = none ↔
      ∃ i < n, s.hostTarget? isStore (a + UInt64.ofNat i) = none := by
  induction n generalizing a with
  | zero => simp [hostTargets?]
  | succ n ih =>
    cases ht : s.hostTarget? isStore a with
    | none =>
      rw [hostTargets?, ht]
      exact ⟨fun _ => ⟨0, Nat.zero_lt_succ n, by simpa using ht⟩, fun _ => rfl⟩
    | some t =>
      rw [hostTargets?_succ ht, ih]
      constructor
      · rintro ⟨i, hi, h⟩
        exact ⟨i + 1, Nat.succ_lt_succ hi, Memory.add_one_add a i ▸ h⟩
      · rintro ⟨i, hi, h⟩
        cases i with
        | zero => simp [ht] at h
        | succ i => exact ⟨i, Nat.lt_of_succ_lt_succ hi, Memory.add_one_add a i ▸ h⟩

/-- The byte that is named by a fault is the first that may not be accessed. -/
theorem deniedAt_eq (h : s.hostTargets? isStore a n = none) :
    ∃ i < n, s.deniedAt isStore a n = a + UInt64.ofNat i ∧
      s.hostTarget? isStore (a + UInt64.ofNat i) = none ∧
        ∀ j < i, (s.hostTarget? isStore (a + UInt64.ofNat j)).isSome = true := by
  induction n generalizing a with
  | zero => cases h
  | succ n ih =>
    cases ht : s.hostTarget? isStore a with
    | none =>
      refine ⟨0, Nat.zero_lt_succ n, ?_, ?_, fun j hj => absurd hj (Nat.not_lt_zero j)⟩
      · simp [deniedAt, ht]
      · simpa using ht
    | some t =>
      obtain ⟨i, hi, hd, hnone, hbefore⟩ := ih (a := a + 1) ((hostTargets?_succ ht n).1 h)
      rw [Memory.add_one_add] at hd hnone
      refine ⟨i + 1, Nat.succ_lt_succ hi, ?_, hnone, fun j hj => ?_⟩
      · rw [← hd]
        simp [deniedAt, ht]
      · cases j with
        | zero => simp [ht]
        | succ j =>
          rw [← Memory.add_one_add]
          exact hbefore j (Nat.lt_of_succ_lt_succ hj)

/-- Where the window does not show a byte, or does not allow the access, it faults. -/
theorem hostTarget?_of_closed (h : s.Reaches a u) (closed : ¬s.IsOpen isStore u 1) :
    s.hostTarget? isStore a = none := by
  obtain ⟨w, hw, -, hguest, -⟩ := h.window
  simp only [hostTarget?, hw, Option.bind_some, hguest]
  cases hb : w.pages.get u with
  | none => rfl
  | some b =>
    simp only
    rw [if_neg]
    intro hp
    refine closed fun i hi => ⟨w, b, hw, ?_, hp⟩
    rw [Nat.lt_one_iff.1 hi, add_ofNat_zero, hb]

theorem exists_closed (closed : ¬s.IsOpen isStore v n) :
    ∃ i < n, ¬s.IsOpen isStore (v + UInt32.ofNat i) 1 := by
  by_contra hall
  simp only [not_exists, not_and, not_not] at hall
  refine closed fun i hi => ?_
  have h := hall i hi 0 Nat.zero_lt_one
  rwa [add_ofNat_zero] at h

end Space

namespace X64

open Space (Reaches Escapes)

variable {σ : Type} {m : Machine σ} {e : Emitter} {d : Deferred} {v : GuestAddress}

/-- The instruction of an access faults at the first of its bytes that may not be accessed. -/
theorem step_fastPath_closed (h : m.space.hostTargets? (!d.access.isLoad)
      (m.gpr e.base + m.gpr d.address) d.access.width.bytes = none) :
    m.step (e.fastPath d.access d.address d.data) =
      .error (.fault (m.space.deniedAt (!d.access.isLoad) (m.gpr e.base + m.gpr d.address)
        d.access.width.bytes)) := by
  cases hl : d.access.isLoad with
  | true =>
    rw [hl] at h
    have hload : m.load d.access.width (m.gpr e.base + m.gpr d.address) =
        .error (.fault (m.space.deniedAt false (m.gpr e.base + m.gpr d.address)
          d.access.width.bytes)) := by
      rw [Machine.load, Space.hostLoad?, show false = !true from rfl, h]
      rfl
    cases hx : d.access.isVector <;>
      simp only [Emitter.fastPath, hl, hx, Machine.step, hload] <;> rfl
  | false =>
    rw [hl] at h
    have hstore : ∀ x : Word d.access.width, m.store (m.gpr e.base + m.gpr d.address) x =
        .error (.fault (m.space.deniedAt true (m.gpr e.base + m.gpr d.address)
          d.access.width.bytes)) := by
      intro x
      rw [Machine.store, Machine.storeBytes, Space.hostStore?, Word.length_bytes,
        show true = !false from rfl, h]
      rfl
    cases hx : d.access.isVector <;> simp only [Emitter.fastPath, hl, hx, Machine.step, hstore] <;> rfl

/-- Each byte of an access that goes through the window is the guest byte that the dispatch path has
for it, and a fault there is taken as one of that byte, exactly up to the last guest address; past it
the byte is none of the guest's, and a fault there is left to the host. An access that ends by then
does what the dispatch path does, or faults at the first such byte that the window does not show. -/
theorem fastPath_in_window (runs : m.space.RunsCode)
    (hwindow : m.space.windowBase? = some e.windowBase) (hbase : m.gpr e.base = e.windowBase)
    (hv : m.gpr d.address = v.toUInt64) :
    (∀ i < d.access.width.bytes,
      (v.toNat + i < 2 ^ 32 →
        m.space.Reaches (m.gpr e.base + m.gpr d.address + UInt64.ofNat i) (v + UInt32.ofNat i)) ∧
      (2 ^ 32 ≤ v.toNat + i →
        m.space.Escapes (m.gpr e.base + m.gpr d.address + UInt64.ofNat i))) ∧
    (v.toNat + d.access.width.bytes ≤ 2 ^ 32 →
      (m.space.IsOpen (!d.access.isLoad) v d.access.width.bytes →
        ∃ memory, m.step (e.fastPath d.access d.address d.data) =
            .ok ((d.dispatch m v).withMemory memory) ∧
          ∀ b, memory.byte b = (d.dispatch m v).space.memory.byte b) ∧
      (¬m.space.IsOpen (!d.access.isLoad) v d.access.width.bytes →
        ∃ i < d.access.width.bytes,
          m.step (e.fastPath d.access d.address d.data) =
              .error (.fault (m.gpr e.base + m.gpr d.address + UInt64.ofNat i)) ∧
            m.space.hostTarget? (!d.access.isLoad)
              (m.gpr e.base + m.gpr d.address + UInt64.ofNat i) = none ∧
            ∀ j < i, (m.space.hostTarget? (!d.access.isLoad)
              (m.gpr e.base + m.gpr d.address + UInt64.ofNat j)).isSome = true)) := by
  obtain ⟨inStep, off⟩ := runs.inStep
  obtain ⟨w, hw, hr⟩ := runs.ranged
  obtain ⟨w', hw', fits, -⟩ := inStep.window
  obtain rfl := Option.some.inj (hw.symm.trans hw')
  have hbytes := d.access.width.bytes_le
  have hlt := v.toNat_lt
  have haddress : m.gpr e.base + m.gpr d.address = w.base + v.toUInt64 := by
    obtain ⟨w', hw', hb⟩ := Option.map_eq_some_iff.1 hwindow
    obtain rfl := Option.some.inj (hw.symm.trans hw')
    rw [hbase, hv, hb]
  have hreach : ∀ i < d.access.width.bytes, v.toNat + i < 2 ^ 32 →
      m.space.Reaches (m.gpr e.base + m.gpr d.address + UInt64.ofNat i) (v + UInt32.ofNat i) :=
    fun i hi h => haddress ▸ Space.reaches_of_lt hw hr fits (by omega) h
  refine ⟨fun i hi => ⟨hreach i hi, fun h => ?_⟩, fun hend => ⟨fun isOpen => ?_, fun closed => ?_⟩⟩
  · exact haddress ▸ Space.escapes_of_ge hw hr fits (by omega) h
  · exact step_fastPath inStep off hwindow hbase hv isOpen hend
  · obtain ⟨i, hi, hc⟩ := Space.exists_closed closed
    have hnone := Space.hostTargets?_eq_none.2
      ⟨i, hi, Space.hostTarget?_of_closed (hreach i hi (by omega)) hc⟩
    obtain ⟨k, hk, hd, hfirst⟩ := Space.deniedAt_eq hnone
    refine ⟨k, hk, ?_, hfirst⟩
    rw [← hd]
    exact step_fastPath_closed hnone

/-- A page of memory at both ends of the guest space. -/
def ends : Space Unit :=
  ((Space.carved.step (.projectBlock 0xFFFFF000 ⟨0, 0x2000⟩ 0x1000)).2.step
    (.projectBlock 0 ⟨0, 0x2000⟩ 0x1000)).2

def accessing (v : GuestAddress) : Machine Unit where
  gpr r := if r = rsi then v.toUInt64 else if r = Reg.ofNat 15 then 0x600000000000 else 0
  vector _ := 0
  space := ends

theorem ends_runsCode : ends.RunsCode := by
  refine ⟨Space.made true false, Space.isFresh_made true false, ⟨by decide, by decide, ?_⟩,
    Space.granted_made true false, rfl, ?_⟩
  · intro w hw
    cases hw
    decide
  · have howns : Space.carved.arena.Owns ⟨0, 0x2000⟩ :=
      ⟨⟨"ram", 0, 0x2000, .readWrite⟩, .head _, rfl, rfl⟩
    have h₁ : Space.Proceeds (Space.made true false) Space.carved :=
      .inl ⟨.allocate "ram" 0x2000 .readWrite, trivial, rfl⟩
    have h₂ : Space.Proceeds Space.carved
        (Space.carved.step (.projectBlock 0xFFFFF000 ⟨0, 0x2000⟩ 0x1000)).2 :=
      .inl ⟨.projectBlock 0xFFFFF000 ⟨0, 0x2000⟩ 0x1000, howns, rfl⟩
    have h₃ : Space.Proceeds
        (Space.carved.step (.projectBlock 0xFFFFF000 ⟨0, 0x2000⟩ 0x1000)).2 ends :=
      .inl ⟨.projectBlock 0 ⟨0, 0x2000⟩ 0x1000, howns, rfl⟩
    exact ((Relation.ReflTransGen.single h₁).tail h₂).tail h₃

theorem accessing_isOpen : (accessing 0xFFFFFFFE).space.IsOpen false 0xFFFFFFFE 2
  | 0, _ => ⟨_, ⟨0, .readWrite⟩, rfl, rfl, rfl⟩
  | 1, _ => ⟨_, ⟨0, .readWrite⟩, rfl, rfl, rfl⟩

/-- The last halfword of the guest. -/
theorem fastPath_in_window_last :
    ends.RunsCode ∧ ends.windowBase? = some windowed.windowBase ∧
      (accessing 0xFFFFFFFE).gpr windowed.base = windowed.windowBase ∧
        (accessing 0xFFFFFFFE).gpr halfLoad.address = (0xFFFFFFFE : GuestAddress).toUInt64 ∧
          ends.Reaches 0x6000FFFFFFFF 0xFFFFFFFF ∧
            ∃ u, (accessing 0xFFFFFFFE).step
              (windowed.fastPath halfLoad.access rsi rdx) = .ok u := by
  obtain ⟨hbytes, hend⟩ := fastPath_in_window (m := accessing 0xFFFFFFFE) (e := windowed)
    (d := halfLoad) (v := 0xFFFFFFFE) ends_runsCode rfl rfl rfl
  obtain ⟨memory, hstep, -⟩ := (hend (by decide)).1 accessing_isOpen
  exact ⟨ends_runsCode, rfl, rfl, rfl, (hbytes 1 (by decide)).1 (by decide), _, hstep⟩

/-- The dispatch path has the first guest byte for the second one of a halfword at the last address;
the instruction goes past the window, where a fault is not taken. -/
theorem halfword_past_window :
    ends.RunsCode ∧ (accessing 0xFFFFFFFF).gpr windowed.base = windowed.windowBase ∧
      (accessing 0xFFFFFFFF).gpr halfLoad.address = (0xFFFFFFFF : GuestAddress).toUInt64 ∧
        ends.virtual.resolve (0xFFFFFFFF + UInt32.ofNat 1) = .host 0x700000000000 ∧
          ends.Escapes ((accessing 0xFFFFFFFF).gpr windowed.base +
            (accessing 0xFFFFFFFF).gpr halfLoad.address + UInt64.ofNat 1) := by
  obtain ⟨w, hw, hr⟩ := ends_runsCode.ranged
  obtain ⟨w', hw', fits, -⟩ := ends_runsCode.inStep.1.window
  obtain rfl := Option.some.inj (hw.symm.trans hw')
  have hbase : w.base = 0x600000000000 := by
    cases hw
    rfl
  have hescapes := Space.escapes_of_ge (v := 0xFFFFFFFF) (n := 1) hw hr fits (by decide) (by decide)
  rw [hbase] at hescapes
  exact ⟨ends_runsCode, rfl, rfl, rfl, hescapes⟩

end X64

end GuestMemory
