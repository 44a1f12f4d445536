import GuestMemory.Proofs.X64.Stack

/-!
Code without calls or returns, and the four loops of a thunk: general registers that are pushed and
popped, and vector registers that are stored in slots and loaded from them.
-/
namespace GuestMemory

namespace Memory

variable {m m' : Memory} {lo : HostAddress} {i j k : Nat} {w : Width} {xs ys : List (Word w)}

def Lays (m : Memory) (lo : HostAddress) : Nat → List (Word w) → Prop
  | _, [] => True
  | k, x :: xs => m.load w (lo + UInt64.ofNat k) = x ∧ m.Lays lo (k + w.bytes) xs

theorem lays_append :
    m.Lays lo k (xs ++ ys) ↔ m.Lays lo k xs ∧ m.Lays lo (k + w.bytes * xs.length) ys := by
  induction xs generalizing k with
  | nil => simp [Lays]
  | cons x xs ih =>
    have hk : k + w.bytes + w.bytes * xs.length = k + w.bytes * (xs.length + 1) := by
      rw [Nat.mul_succ]
      omega
    rw [List.cons_append, Lays, Lays, ih, List.length_cons, hk, and_assoc]

/-- Words that lie beside the offsets stay. -/
theorem Differs.lays (h : Differs lo i j m m') (hx : m.Lays lo k xs)
    (hk : k + w.bytes * xs.length ≤ 2 ^ 64) (hb : k + w.bytes * xs.length ≤ i ∨ j ≤ k) :
    m'.Lays lo k xs := by
  induction xs generalizing k with
  | nil => trivial
  | cons x xs ih =>
    obtain ⟨hx, hxs⟩ := hx
    rw [List.length_cons, Nat.mul_succ] at hk hb
    exact ⟨(h.load (by omega) (by omega)).trans hx, ih hxs (by omega) (by omega)⟩

end Memory

namespace X64.Machine

variable {σ : Type} {host : Host} {t u : Machine σ} {lo : HostAddress} {i k size : Nat}

@[simp] theorem put_self {α : Type} (f : Reg → α) (r : Reg) : put f r (f r) = f := by
  funext q
  by_cases hq : q = r
  · rw [hq, put_same]
  · rw [put_other _ _ hq]

@[simp] theorem put_put {α : Type} (f : Reg → α) (r : Reg) (x y : α) :
    put (put f r x) r y = put f r y := by
  funext q
  by_cases hq : q = r
  · rw [hq, put_same, put_same]
  · rw [put_other _ _ hq, put_other _ _ hq, put_other _ _ hq]

/-- A register that is set again has the last value, whatever was set in between. -/
theorem put_put_put {α : Type} (f : Reg → α) (q r : Reg) (x y z : α) :
    put (put (put f r x) q y) r z = put (put f q y) r z := by
  funext p
  by_cases hp : p = r
  · rw [hp, put_same, put_same]
  · simp only [put, if_neg hp]

@[simp] theorem gpr_setGpr_same (t : Machine σ) (r : Reg) (x : UInt64) :
    (t.setGpr r x).gpr r = x := put_same ..

theorem gpr_setGpr_other (t : Machine σ) {q r : Reg} (x : UInt64) (h : q ≠ r) :
    (t.setGpr r x).gpr q = t.gpr q := put_other _ _ h

@[simp] theorem space_setGpr (t : Machine σ) (r : Reg) (x : UInt64) :
    (t.setGpr r x).space = t.space := rfl

theorem setGpr_self (t : Machine σ) (r : Reg) : t.setGpr r (t.gpr r) = t := by
  rw [setGpr, put_self]

theorem setGpr_setGpr (t : Machine σ) (r : Reg) (x y : UInt64) :
    (t.setGpr r x).setGpr r y = t.setGpr r y := by
  simp only [setGpr, put_put]

theorem setGpr_withMemory (t : Machine σ) (m : Memory) (r : Reg) (x : UInt64) :
    (t.withMemory m).setGpr r x = (t.setGpr r x).withMemory m := rfl

theorem ofNat_eq_ofInt (n : Nat) : UInt64.ofNat n = UInt64.ofInt n := by
  apply UInt64.toNat_inj.1
  rw [UInt64.ofInt, UInt64.toNat_ofNat', UInt64.toNat_ofNat']
  omega

theorem near_offset {r : Reg} {z : Int} (hr : t.gpr r = lo + UInt64.ofNat i)
    (hk : i + z = k) : t.near r z = lo + UInt64.ofNat k := by
  rw [near, hr, UInt64.add_assoc, ofNat_eq_ofInt, ← UInt64.ofInt_add, hk, ← ofNat_eq_ofInt]

def runs (t : Machine σ) (code : List Instruction) : Except Trap (Machine σ) := code.foldlM step t

theorem runs_nil : t.runs [] = .ok t := rfl

theorem runs_cons {x : Instruction} (h : t.step x = .ok u) (code : List Instruction) :
    t.runs (x :: code) = u.runs code := by
  rw [runs, List.foldlM_cons, h]
  rfl

theorem runs_append {code : List Instruction} (h : t.runs code = .ok u)
    (rest : List Instruction) : t.runs (code ++ rest) = u.runs rest := by
  rw [runs, List.foldlM_append, ← runs, h]
  rfl

/-- Code that runs through has no call or return in it, and is left at its end. -/
theorem runToReturn_append {code : List Instruction} (h : t.runs code = .ok u) (a : HostAddress)
    (rest : List Instruction) :
    t.runToReturn host a (code ++ rest) =
      u.runToReturn host (a + UInt64.ofNat (codeSize code)) rest := by
  induction code generalizing t a with
  | nil =>
    cases h
    rw [List.nil_append, codeSize, show UInt64.ofNat 0 = 0 from rfl, UInt64.add_zero]
  | cons x code ih =>
    cases hx : t.step x with
    | error e =>
      rw [runs, List.foldlM_cons, hx] at h
      cases h
    | ok t' =>
      rw [runs_cons hx] at h
      have hcall : x ≠ .callRax := by
        rintro rfl
        cases hx
      have hreturn : x ≠ .ret := by
        rintro rfl
        cases hx
      have hsize : a + UInt64.ofNat x.size + UInt64.ofNat (codeSize code) =
          a + UInt64.ofNat (codeSize (x :: code)) := by
        rw [UInt64.add_assoc, ← UInt64.ofNat_add, codeSize]
      rw [List.cons_append, runToReturn, if_neg hcall, hx]
      · exact (ih h _).trans (by rw [hsize])
      · exact hreturn

/-- A call of an entry point returns to the instruction behind it. -/
theorem runToReturn_callRax {a : HostAddress}
    (h : t.callEntry host (a + UInt64.ofNat Instruction.callRax.size) = .ok u)
    (rest : List Instruction) :
    t.runToReturn host a (.callRax :: rest) =
      u.runToReturn host (a + UInt64.ofNat Instruction.callRax.size) rest := by
  rw [runToReturn, if_pos rfl, h]
  · rfl
  · nofun

/-- Pushes put the registers below the stack pointer, the last one lowest. -/
theorem runs_push (room : t.HasRoom lo size) {regs : List Reg} (hregs : rsp ∉ regs)
    (hsp : t.gpr rsp = lo + UInt64.ofNat (k + 8 * regs.length))
    (hk : k + 8 * regs.length ≤ size) :
    ∃ memory, t.runs (regs.map .push) =
        .ok ((t.setGpr rsp (lo + UInt64.ofNat k)).withMemory memory) ∧
      Memory.Differs lo k (k + 8 * regs.length) t.space.memory memory ∧
      memory.Lays lo k (regs.reverse.map fun r => gprWord (t.gpr r)) := by
  have hfits := room.fits
  induction regs generalizing t with
  | nil =>
    have hk : t.gpr rsp = lo + UInt64.ofNat k := hsp
    refine ⟨t.space.memory, ?_, .refl _ _ _ _, trivial⟩
    rw [← hk, setGpr_self]
    rfl
  | cons r regs ih =>
    rw [List.mem_cons, not_or] at hregs
    rw [List.length_cons] at hsp hk
    obtain ⟨m, hpush, hstore, hslot⟩ :=
      push_of_room room (k := k + 8 * regs.length) hsp (by omega) (t.gpr r)
    obtain ⟨memory, hrun, hdiffers, hlays⟩ := ih
      (t := (t.setGpr rsp (lo + UInt64.ofNat (k + 8 * regs.length))).withMemory m)
      (room.of_window rfl) hregs.2 (put_same t.gpr rsp _) (by omega)
    refine ⟨memory, ?_, ?_, ?_⟩
    · rw [List.map_cons, runs_cons (show t.step (.push r) = _ from hpush), hrun,
        setGpr_withMemory, setGpr_setGpr, withMemory_withMemory]
    · rw [List.length_cons]
      exact (hstore.mono (by omega) (by omega)).trans (hdiffers.mono (by omega) (by omega))
    · have hkeep : ∀ q ∈ regs.reverse, put t.gpr rsp (lo + UInt64.ofNat (k + 8 * regs.length)) q =
          t.gpr q := fun q hq => put_other _ _ fun h => hregs.2 (h ▸ List.mem_reverse.1 hq)
      -- the register pushed first lies above all others
      rw [List.reverse_cons, List.map_append, Memory.lays_append]
      refine ⟨?_, ?_, trivial⟩
      · rw [List.map_congr_left fun q hq => congrArg gprWord (hkeep q hq).symm]
        exact hlays
      · rw [List.length_map, List.length_reverse]
        exact (hdiffers.load (by simp only [Width.bytes_w64]; omega) (.inr (Nat.le_refl _))).trans
          hslot

/-- Registers of the list from one file, all others from another. -/
def putAll {α : Type} (f g : Reg → α) (regs : List Reg) : Reg → α :=
  fun q => if q ∈ regs then g q else f q

@[simp] theorem putAll_nil {α : Type} (f g : Reg → α) : putAll f g [] = f := by
  funext q
  simp [putAll]

theorem putAll_other {α : Type} (f g : Reg → α) {q : Reg} {regs : List Reg} (h : q ∉ regs) :
    putAll f g regs q = f q := if_neg h

@[simp] theorem putAll_reverse {α : Type} (f g : Reg → α) (regs : List Reg) :
    putAll f g regs.reverse = putAll f g regs := by
  funext q
  simp [putAll]

theorem put_putAll_put {α : Type} (f g : Reg → α) (r : Reg) (regs : List Reg) (x y : α) :
    put (putAll (put f r x) g regs) r y = put (putAll f g regs) r y := by
  funext q
  by_cases hq : q = r
  · rw [hq, put_same, put_same]
  · simp only [put, putAll, if_neg hq]

@[simp] theorem putAll_put {α : Type} (f g : Reg → α) (r : Reg) (regs : List Reg) :
    putAll (put f r (g r)) g regs = putAll f g (r :: regs) := by
  funext q
  by_cases hq : q = r
  · simp [putAll, hq]
  · simp [putAll, hq, put_other f (g r) hq]

/-- Pops take the words above the stack pointer, lowest first. -/
theorem runs_pop (room : t.HasRoom lo size) {regs : List Reg} (hregs : rsp ∉ regs)
    {f : Reg → UInt64} (hsp : t.gpr rsp = lo + UInt64.ofNat k)
    (hlays : t.space.memory.Lays lo k (regs.map fun r => gprWord (f r)))
    (hk : k + 8 * regs.length ≤ size) :
    t.runs (regs.map .pop) = .ok { t with
      gpr := put (putAll t.gpr f regs) rsp (lo + UInt64.ofNat (k + 8 * regs.length)) } := by
  induction regs generalizing t k with
  | nil =>
    have hk : t.gpr rsp = lo + UInt64.ofNat (k + 8 * ([] : List Reg).length) := hsp
    rw [putAll_nil, ← hk, put_self]
    rfl
  | cons r regs ih =>
    rw [List.mem_cons, not_or] at hregs
    rw [List.length_cons] at hk
    obtain ⟨hslot, hlays⟩ := hlays
    have hpop : t.step (.pop r) =
        .ok ((t.setGpr rsp (lo + UInt64.ofNat (k + 8))).setGpr r (f r)) := by
      rw [step, pop_of_room room hsp (by omega), hslot]
      rfl
    have hsp' : put (put t.gpr rsp (lo + UInt64.ofNat (k + 8))) r (f r) rsp =
        lo + UInt64.ofNat (k + 8) := by
      rw [put_other _ _ hregs.1, put_same]
    have hlen : k + 8 + 8 * regs.length = k + 8 * (r :: regs).length := by
      rw [List.length_cons]
      omega
    rw [List.map_cons, runs_cons hpop, ih (t := (t.setGpr rsp _).setGpr r (f r)) (k := k + 8)
      (room.of_window rfl) hregs.2 hsp' hlays (by omega), hlen]
    simp only [setGpr, putAll_put, put_putAll_put]

/-- Stores of vector registers in slots above the stack pointer. -/
theorem runs_vectorStoreRsp (room : t.HasRoom lo size) {xs : List Reg}
    (hsp : t.gpr rsp = lo + UInt64.ofNat k) (hk : k + 16 * (i + xs.length) ≤ size) :
    ∃ memory, t.runs ((xs.zipIdx i).map fun (x, i) => .vectorStoreRsp x (16 * i)) =
        .ok (t.withMemory memory) ∧
      Memory.Differs lo (k + 16 * i) (k + 16 * (i + xs.length)) t.space.memory memory ∧
      memory.Lays lo (k + 16 * i) (xs.map fun x => vectorWord (t.vector x)) := by
  have hfits := room.fits
  induction xs generalizing t i with
  | nil => exact ⟨t.space.memory, rfl, .refl _ _ _ _, trivial⟩
  | cons x xs ih =>
    rw [List.length_cons] at hk
    have hnear : t.near rsp (16 * i) = lo + UInt64.ofNat (k + 16 * i) := near_offset hsp (by omega)
    obtain ⟨m, hstore, hfirst, hslot⟩ := store_of_room (w := .w128) room (k := k + 16 * i)
      (by simp only [Width.bytes_w128]; omega) (vectorWord (t.vector x))
    have hstep : t.step (.vectorStoreRsp x (16 * i)) = .ok (t.withMemory m) := by
      rw [step, hnear]
      exact hstore
    obtain ⟨memory, hrun, hdiffers, hlays⟩ := ih (t := t.withMemory m) (i := i + 1)
      (room.of_window rfl) hsp (by omega)
    have hnext : k + 16 * i + 16 = k + 16 * (i + 1) := by omega
    refine ⟨memory, ?_, ?_, ?_, ?_⟩
    · rw [List.zipIdx_cons, List.map_cons, runs_cons hstep, hrun, withMemory_withMemory]
    · rw [List.length_cons]
      exact (hfirst.mono (by omega) (by simp only [Width.bytes_w128]; omega)).trans
        (hdiffers.mono (by omega) (by omega))
    · exact (hdiffers.load (by simp only [Width.bytes_w128]; omega)
        (.inl (by simp only [Width.bytes_w128]; omega))).trans hslot
    · rw [Width.bytes_w128, hnext]
      exact hlays

/-- Loads of vector registers from slots below the frame pointer. -/
theorem runs_vectorLoadRbp (room : t.HasRoom lo size) {xs : List Reg}
    {f : Reg → BitVec 128} {d : Nat} (hbp : t.gpr rbp = lo + UInt64.ofNat (k + d))
    (hlays : t.space.memory.Lays lo (k + 16 * i) (xs.map fun x => vectorWord (f x)))
    (hk : k + 16 * (i + xs.length) ≤ size) :
    t.runs ((xs.zipIdx i).map fun (x, i) => .vectorLoadRbp x (16 * i - d)) =
      .ok { t with vector := putAll t.vector f xs } := by
  induction xs generalizing t i with
  | nil =>
    rw [putAll_nil]
    rfl
  | cons x xs ih =>
    rw [List.length_cons] at hk
    obtain ⟨hslot, hlays⟩ := hlays
    have hnear : t.near rbp (16 * i - d) = lo + UInt64.ofNat (k + 16 * i) :=
      near_offset hbp (by omega)
    have hload : t.step (.vectorLoadRbp x (16 * i - d)) = .ok (t.setVector x (f x)) := by
      rw [step, hnear, load_of_room (w := .w128) room (by simp only [Width.bytes_w128]; omega),
        hslot]
      rfl
    have hnext : k + 16 * i + 16 = k + 16 * (i + 1) := by omega
    rw [Width.bytes_w128, hnext] at hlays
    rw [List.zipIdx_cons, List.map_cons, runs_cons hload,
      ih (t := t.setVector x (f x)) (i := i + 1) (room.of_window rfl) hbp hlays (by omega)]
    simp only [setVector, putAll_put]

end X64.Machine

end GuestMemory
