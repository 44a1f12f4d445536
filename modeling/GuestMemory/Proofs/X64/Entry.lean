import GuestMemory.Proofs.Footprint.SpaceWork
import GuestMemory.Proofs.X64.Thunk

/-!
The access of a thunk. It is the same guest access as that of the dispatch path, made with the frame
of the thunk in memory; the thunk passes the address and the value to the entry point that makes it.
-/
namespace GuestMemory

namespace Space.Works

variable {σ α : Type} {s : Space σ} {ts : List Touch} {op : Space σ → α × Space σ}

/-- An operation that neither loads nor stores `n` bytes does the same whatever is in them, and
leaves them. -/
theorem beside (h : s.Works ts op) {lo : HostAddress} {n : Nat}
    (apart : ∀ b, (b - lo).toNat < n → ¬loads ts b ∧ ¬stores ts b) {m : Memory}
    (hm : Memory.Differs lo 0 n s.memory m) :
    ∃ m', op { s with memory := m } = ((op s).1, { (op s).2 with memory := m' }) ∧
      Memory.Differs lo 0 n (op s).2.memory m' ∧ Memory.Differs lo n (2 ^ 64) m m' := by
  obtain ⟨m', he, hst, hk⟩ := h.apply (m := m) fun b hb =>
    hm b (.inr (Nat.le_of_not_lt fun hn => (apart b hn).1 hb))
  refine ⟨m', he, fun b hb => ?_, fun b hb => ?_⟩
  · by_cases hs : stores ts b
    · exact hst b hs
    · rw [hk b hs, hm b hb]
      exact (h.frame hs).symm
  · have hn : (b - lo).toNat < n := hb.resolve_right (Nat.not_le_of_lt (b - lo).toNat_lt)
    exact hk b (apart b hn).2

end Space.Works

namespace X64

variable {σ : Type} {host : Host} {t m : Machine σ} {s : Space σ} {d : Deferred}
  {lo back : HostAddress} {n : Nat} {v : GuestAddress}

structure Entries.Distinct (entries : Entries) : Prop where
  read : Function.Injective entries.read
  write : Function.Injective entries.write
  read_ne_write : ∀ w w', entries.read w ≠ entries.write w'

theorem bits_le_of_ne {w : Width} (h : w ≠ .w128) : w.bits ≤ 64 := by
  cases w with
  | w128 => exact absurd rfl h
  | _ => decide

theorem load_w128 {memory : Memory} {a : HostAddress} {w : Width} {x : Word w} (hw : w = .w128)
    (h : memory.load w a = x) : memory.load .w128 a = x.setWidth 128 := by
  subst hw
  exact h.trans (BitVec.setWidth_eq x).symm

theorem find?_allWidths {f : Width → UInt64} (hf : Function.Injective f) (w : Width) :
    allWidths.find? (f · == f w) = some w := by
  have he : (fun w' => f w' == f w) = fun w' => w' == w := by
    funext w'
    rw [Bool.eq_iff_iff, beq_iff_eq, beq_iff_eq, hf.eq_iff]
  rw [he]
  cases w <;> rfl

namespace Deferred

def value (d : Deferred) (m : Machine σ) : Word d.access.width :=
  if d.access.isVector then (m.vector d.data).setWidth _ else (m.gpr d.data).toBitVec.setWidth _

def command (d : Deferred) (m : Machine σ) (v : GuestAddress) : Space.Command σ :=
  if d.access.isLoad then .read d.access.width v else .write d.access.width v (d.value m)

def perform (d : Deferred) (m : Machine σ) (v : GuestAddress) (s : Space σ) :
    Word d.access.width × Space σ :=
  if d.access.isLoad then s.read d.access.width v else (d.value m, s.write v (d.value m))

/-- A load brings its word into the data register, extended to the whole of it. -/
def settle (d : Deferred) (x : Word d.access.width) (m : Machine σ) : Machine σ :=
  if d.access.isLoad then
    if d.access.isVector then m.setVector d.data (x.setWidth 128)
    else m.setGpr d.data (extend d.access.isSigned x)
  else m

def dispatch (d : Deferred) (m : Machine σ) (v : GuestAddress) : Machine σ :=
  d.settle (d.perform m v m.space).1 { m with space := (d.perform m v m.space).2 }

section

variable (m : Machine σ) (v : GuestAddress) (s : Space σ)

theorem perform_of_load (hl : d.access.isLoad = true) :
    d.perform m v s = s.read d.access.width v := by
  rw [perform, if_pos hl]

theorem perform_of_store (hl : d.access.isLoad = false) :
    d.perform m v s = (d.value m, s.write v (d.value m)) := by
  rw [perform, if_neg (by simp [hl])]

end

@[simp] theorem space_settle (d : Deferred) (x : Word d.access.width) (m : Machine σ) :
    (d.settle x m).space = m.space := by
  rw [settle]
  split
  · split <;> rfl
  · rfl

/-- The access of a site works on the touches of its call. -/
theorem works_perform (d : Deferred) (m : Machine σ) (v : GuestAddress) (s : Space σ) :
    s.Works (s.touches (d.command m v)) (d.perform m v) := by
  cases h : d.access.isLoad with
  | true =>
    have hp : d.perform m v = fun s => s.read d.access.width v :=
      funext fun s => perform_of_load m v s h
    rw [hp, command, if_pos h]
    exact s.works_read d.access.width v
  | false =>
    have hp : d.perform m v = fun s => (d.value m, s.write v (d.value m)) :=
      funext fun s => perform_of_store m v s h
    rw [hp, command, if_neg (by simp [h])]
    exact (s.works_write v (d.value m)).map fun _ => d.value m

theorem window_perform (d : Deferred) (m : Machine σ) (v : GuestAddress) (s : Space σ) :
    (d.perform m v s).2.window = s.window := by
  rw [perform]
  split
  · exact congrArg Wiring.window (s.wiring_read d.access.width v)
  · exact congrArg Wiring.window (s.wiring_write v (d.value m))

/-- What the emitter grants of the registers of an access. -/
structure Usable (d : Deferred) : Prop where
  address_ne_rsp : d.address ≠ rsp
  address_ne_rbp : d.address ≠ rbp
  data_ne : d.access.isVector = false → d.data ≠ rsp ∧ d.data ≠ rbp
  general : d.access.isVector = false → d.access.width ≠ .w128
  vector : d.access.isVector = true → d.access.width ≠ .w8 ∧ d.access.width ≠ .w16

/-- What is passed to the entry point: the address of the place for a value if that has 128 bits,
else the value itself. -/
def Passes (d : Deferred) (lo : HostAddress) (n : Nat) (y : Word d.access.width) (x : UInt64)
    (memory : Memory) : Prop :=
  (d.access.width = .w128 → x = lo + UInt64.ofNat (n + 352)) ∧
    (d.access.isLoad = false →
      if d.access.width = .w128 then
        memory.load d.access.width (lo + UInt64.ofNat (n + 352)) = y
      else x.toBitVec.setWidth _ = y)

/-- Where the entry point leaves what was loaded. -/
def Answers (d : Deferred) (lo : HostAddress) (n : Nat) (x : Word d.access.width) (c : Machine σ) :
    Prop :=
  if d.access.width = .w128 then
    c.space.memory.load d.access.width (lo + UInt64.ofNat (n + 352)) = x
  else c.gpr rax = extend false x

/-- What an entry point that gives `x` leaves in a register that it may change: the word, if it goes
into `rax`, and otherwise anything. -/
def left (host : Host) (d : Deferred) (x : Word d.access.width) (r : Reg) : UInt64 :=
  if r = rax ∧ d.access.isLoad = true ∧ d.access.width ≠ .w128 then extend false x
  else host.gprLeft r

/-- The general registers after an entry point has returned `x`. -/
structure Returns (host : Host) (d : Deferred) (x : Word d.access.width) (t c : Machine σ) : Prop where
  kept : ∀ r, isCallerSaved r = false → r ≠ rsp → c.gpr r = t.gpr r
  changed : ∀ r, isCallerSaved r = true → c.gpr r = d.left host x r

end Deferred

theorem general?_eq_some {e : Emitter} {n : UInt8} {r : Reg} (h : e.general? n = some r) :
    r ≠ rsp ∧ r ≠ rbp := by
  rw [Emitter.general?] at h
  split at h
  · split at h
    · cases h
    · rename_i hn
      obtain rfl := Option.some.inj h
      rw [not_or] at hn
      exact ⟨fun he => hn.1 (congrArg Fin.val he), fun he => hn.2 (.inl (congrArg Fin.val he))⟩
  · cases h

/-- What the emitter accepts is usable. -/
theorem usable_of_operands? {e : Emitter} (h : e.operands? d.access = some (d.address, d.data)) :
    d.Usable := by
  rw [Emitter.operands?, Option.bind_eq_bind, Option.bind_eq_some_iff] at h
  obtain ⟨address, ha, h⟩ := h
  split at h
  · rename_i hvector
    split at h
    · split at h
      · cases h
      · rename_i hw
        obtain ⟨rfl, -⟩ := Prod.mk.inj (Option.some.inj h)
        rw [not_or] at hw
        obtain ⟨hsp, hbp⟩ := general?_eq_some ha
        exact ⟨hsp, hbp, by simp [hvector], by simp [hvector], fun _ => hw⟩
    · cases h
  · rename_i hgeneral
    rw [Option.bind_eq_some_iff] at h
    obtain ⟨data, hd, h⟩ := h
    split at h
    · cases h
    · rename_i hw
      split at h
      · cases h
      · obtain ⟨rfl, rfl⟩ := Prod.mk.inj (Option.some.inj h)
        obtain ⟨hsp, hbp⟩ := general?_eq_some ha
        exact ⟨hsp, hbp, fun _ => general?_eq_some hd, fun _ => hw, fun hv => absurd hv hgeneral⟩

/-- The access is made with the frame in memory as it is made without, and leaves the stack. -/
theorem Framed.perform (framed : Framed d lo n back m s t)
    (apart : ∀ b, (b - lo).toNat < n + frameSize → ¬loads (s.touches (d.command m v)) b ∧
      ¬stores (s.touches (d.command m v)) b) :
    ∃ memory, d.perform m v t.space =
        ((d.perform m v s).1, { (d.perform m v s).2 with memory }) ∧
      Framed d lo n back m (d.perform m v s).2
        { t with space := { (d.perform m v s).2 with memory } } ∧
      Memory.Differs lo (n + frameSize) (2 ^ 64) t.space.memory memory := by
  obtain ⟨memory, hperform, hout, hin⟩ := (d.works_perform m v s).beside apart framed.differs
  rw [← framed.space] at hperform
  refine ⟨memory, hperform, ⟨framed.room.of_window ?_, rfl, hout,
    framed.saved.of_differs hin framed.room.fits (.inr (.inr (Nat.le_refl _)))⟩, hin⟩
  rw [framed.space]
  exact d.window_perform m v s

theorem callee_ne {q r : Reg} (hr : isCallerSaved r = false) (hq : isCallerSaved q = true) :
    r ≠ q := by
  rintro rfl
  rw [hr] at hq
  cases hq

namespace Machine

open Emitter

/-- A called function changes no other registers than those that it may. -/
theorem gpr_called (t : Machine σ) (x : UInt64) {r : Reg} (hr : isCallerSaved r = false) :
    (t.called host x).gpr r = t.gpr r := by
  have hne : r ≠ rax := callee_ne hr rfl
  simp only [called, if_neg hne, hr, Bool.false_eq_true, if_false]

theorem returns_called {x : Word d.access.width} {u : Machine σ}
    (hu : ∀ r, r ≠ rsp → u.gpr r = t.gpr r) :
    d.Returns host x t (u.called host (d.left host x rax)) := by
  refine ⟨fun r hr hsp => ?_, fun r hr => ?_⟩
  · rw [gpr_called u _ hr, hu r hsp]
  · by_cases hax : r = rax
    · simp only [called, hax, if_true]
    · simp only [called, hax, hr, if_true, Deferred.left, false_and, if_false]

/-- A value that is passed on the stack goes through it, past the address, to its register. -/
theorem runs_exchange {k size : Nat} {address data : Reg} (room : t.HasRoom lo size)
    (hdata : data ≠ rsp) (hsp : t.gpr rsp = lo + UInt64.ofNat k) (hlow : 16 ≤ k) (hk : k ≤ size)
    (hv : t.gpr address = v.toUInt64) :
    ∃ memory, t.runs [.push address, .push data, .popShort rdx, .popShort rsi,
        .mov32Short rsi rsi] =
        .ok (((t.setGpr rsi v.toUInt64).setGpr rdx (t.gpr data)).withMemory memory) ∧
      Memory.Differs lo 0 k t.space.memory memory := by
  have hfits := room.fits
  -- both are on the stack before a register changes, as `data` may be `rsi` and `address` be `rdx`
  obtain ⟨j, rfl⟩ : ∃ j, k = j + 8 + 8 := ⟨k - 16, by omega⟩
  obtain ⟨m₁, hpush₁, hd₁, hslot₁⟩ := push_of_room (k := j + 8) room hsp (by omega) (t.gpr address)
  have room₁ : ((t.setGpr rsp (lo + UInt64.ofNat (j + 8))).withMemory m₁).HasRoom lo size :=
    room.of_window rfl
  have hother : ((t.setGpr rsp (lo + UInt64.ofNat (j + 8))).withMemory m₁).gpr data = t.gpr data :=
    gpr_setGpr_other t _ hdata
  obtain ⟨m₂, hpush₂, hd₂, hslot₂⟩ := push_of_room (k := j)
    (t := (t.setGpr rsp (lo + UInt64.ofNat (j + 8))).withMemory m₁) room₁ (by simp) (by omega)
    (t.gpr data)
  have haddress : m₂.load .w64 (lo + UInt64.ofNat (j + 8)) = gprWord v.toUInt64 := by
    rw [← hv]
    exact (hd₂.load (w := .w64) (by simp only [Width.bytes_w64]; omega)
      (.inr (Nat.le_refl _))).trans hslot₁
  rw [setGpr_withMemory, setGpr_setGpr, withMemory_withMemory] at hpush₂
  generalize hu : (t.setGpr rsp (lo + UInt64.ofNat j)).withMemory m₂ = u at hpush₂
  have room₂ : ∀ gpr : Reg → UInt64, ({ u with gpr } : Machine σ).HasRoom lo size :=
    fun _ => room.of_window (by rw [← hu]; rfl)
  have hm : u.space.memory = m₂ := by rw [← hu, memory_withMemory]
  have hpop₁ : u.step (.popShort rdx) =
      .ok ((u.setGpr rsp (lo + UInt64.ofNat (j + 8))).setGpr rdx (t.gpr data)) := by
    rw [step, pop_of_room (k := j) (room₂ u.gpr) (by simp [← hu]) (by omega), hm, hslot₂]
    rfl
  generalize hu₁ : (u.setGpr rsp (lo + UInt64.ofNat (j + 8))).setGpr rdx (t.gpr data) = u₁ at hpop₁
  have hpop₂ : u₁.step (.popShort rsi) =
      .ok ((u₁.setGpr rsp (lo + UInt64.ofNat (j + 8 + 8))).setGpr rsi v.toUInt64) := by
    have hsp₁ : u₁.gpr rsp = lo + UInt64.ofNat (j + 8) := by
      rw [← hu₁, gpr_setGpr_other _ _ (by decide), gpr_setGpr_same]
    rw [step, pop_of_room (k := j + 8) (by rw [← hu₁]; exact room₂ _) hsp₁ (by omega), ← hu₁,
      space_setGpr, space_setGpr, hm, haddress]
    rfl
  refine ⟨m₂, ?_, ?_⟩
  · rw [runs_cons (show t.step (.push address) = _ from hpush₁), runs_cons (show step _
      (.push data) = _ from (congrArg _ hother).trans hpush₂), runs_cons hpop₁, runs_cons hpop₂]
    rw [runs_cons (show step _ (.mov32Short _ _) = .ok _ from rfl), runs_nil, gpr_setGpr_same,
      UInt32.toUInt32_toUInt64, setGpr_setGpr, ← hu₁, ← hu]
    simp only [setGpr, withMemory]
    congr 2
    funext q
    by_cases hq : q = rsp
    · rw [hq, ← hsp]
      simp [put, rsp, rsi, rdx]
    · by_cases hs : q = rsi
      · rw [hs]
        simp [put, rsi, rdx]
      · simp only [put, if_neg hq, if_neg hs]
  · exact (hd₁.mono (Nat.zero_le _) (by omega)).trans (hd₂.mono (Nat.zero_le _) (by omega))

/-- The arguments are set. -/
theorem runs_arguments (usable : d.Usable) (framed : Framed d lo n back m s t)
    (hsp : t.gpr rsp = lo + UInt64.ofNat (d.vectorsAt n))
    (hbp : t.gpr rbp = lo + UInt64.ofNat (n + 368)) (hv : t.gpr d.address = v.toUInt64) :
    ∃ u, t.runs (arguments d) = .ok u ∧ Framed d lo n back m s u ∧
      u.gpr rsi = v.toUInt64 ∧ d.Passes lo n (d.value t) (u.gpr rdx) u.space.memory ∧
      ∀ r, isCallerSaved r = false → u.gpr r = t.gpr r := by
  have room := framed.room
  have hf : frameSize = 384 := rfl
  obtain ⟨hg, hvec, hlow⟩ := d.offsets n
  have hother : ∀ r, isCallerSaved r = false → (t.setGpr rsi v.toUInt64).gpr r = t.gpr r :=
    fun r hr => gpr_setGpr_other t _ (callee_ne hr rfl)
  have hcallee : ∀ x r, isCallerSaved r = false →
      ((t.setGpr rsi v.toUInt64).setGpr rdx x).gpr r = t.gpr r :=
    fun x r hr => (gpr_setGpr_other _ x (callee_ne hr rfl)).trans (hother r hr)
  have hmov : ∀ u : Machine σ, u.gpr = t.gpr →
      u.step (.mov32 rsi d.address) = .ok (u.setGpr rsi v.toUInt64) := by
    intro u hu
    rw [step, hu, hv, UInt32.toUInt32_toUInt64]
    rfl
  have hlea : ∀ u : Machine σ, u.gpr = put t.gpr rsi v.toUInt64 →
      u.step (.leaRbp rdx (-scratchSize)) = .ok (u.setGpr rdx (lo + UInt64.ofNat (n + 352))) := by
    intro u hu
    have hbp : u.gpr rbp = lo + UInt64.ofNat (n + 368) := by
      rw [hu, put_other _ _ (by decide), hbp]
    rw [step, near_offset hbp (k := n + 352) (by simp only [scratchSize]; omega)]
    rfl
  -- a load, of 128 bits or fewer; a store of a vector register, of 128 bits or fewer; any other store
  generalize hcode : arguments d = code
  rw [arguments] at hcode
  split at hcode <;> rw [← hcode]
  · rename_i hl hw
    refine ⟨(t.setGpr rsi v.toUInt64).setGpr rdx (lo + UInt64.ofNat (n + 352)), ?_, framed.congr rfl, ?_,
      ⟨fun _ => gpr_setGpr_same .., by simp [hl]⟩, hcallee _⟩
    · rw [runs_cons (hmov t rfl), runs_cons (hlea _ rfl), runs_nil]
    · rw [gpr_setGpr_other _ _ (by decide), gpr_setGpr_same]
  · rename_i hl hw
    refine ⟨t.setGpr rsi v.toUInt64, ?_, framed.congr rfl, gpr_setGpr_same ..,
      ⟨fun h => absurd h hw, by simp [hl]⟩, hother⟩
    rw [runs_cons (hmov t rfl), runs_nil]
  · rename_i hl hx hw
    obtain ⟨memory, hstore, hd, hslot⟩ := store_of_room (w := .w128) (k := n + 352) room
      (by rw [Width.bytes_w128]; omega) (vectorWord (t.vector d.data))
    have hput : t.step (.vectorStoreRbp d.data (-scratchSize)) = .ok (t.withMemory memory) := by
      rw [step, near_offset hbp (k := n + 352) (by simp only [scratchSize]; omega)]
      exact hstore
    refine ⟨((t.setGpr rsi v.toUInt64).setGpr rdx (lo + UInt64.ofNat (n + 352))).withMemory memory, ?_,
      (framed.withMemory hd (.inr ⟨Nat.le_refl _, Nat.le_refl _⟩)).congr rfl, ?_,
      ⟨fun _ => by rw [gpr_withMemory, gpr_setGpr_same], fun _ => ?_⟩, hcallee _⟩
    · rw [runs_cons hput, runs_cons (hmov (t.withMemory memory) rfl),
        runs_cons (hlea ((t.withMemory memory).setGpr rsi v.toUInt64) rfl)]
      rfl
    · rw [gpr_withMemory, gpr_setGpr_other _ _ (by decide), gpr_setGpr_same]
    · rw [if_pos hw, Deferred.value, if_pos hx]
      generalize d.access.width = w at hw
      subst hw
      exact hslot.trans (BitVec.setWidth_eq _).symm
  · rename_i hl hx hw
    refine ⟨(t.setGpr rsi v.toUInt64).setGpr rdx (UInt64.ofBitVec ((t.vector d.data).setWidth 64)),
      ?_, framed.congr rfl, ?_, ⟨fun h => absurd h hw, fun _ => ?_⟩, hcallee _⟩
    · rw [runs_cons (hmov t rfl)]
      rfl
    · rw [gpr_setGpr_other _ _ (by decide), gpr_setGpr_same]
    · rw [if_neg hw, Deferred.value, if_pos hx, gpr_setGpr_same]
      exact BitVec.setWidth_setWidth_of_le _ (bits_le_of_ne hw)
  · rename_i hl hx
    obtain ⟨memory, hrun, hd⟩ := runs_exchange room (usable.data_ne hx).1 hsp (by omega)
      (by omega) hv
    refine ⟨_, hrun, (framed.withMemory hd (.inl (Nat.le_refl _))).congr rfl, ?_,
      ⟨fun h => absurd h (usable.general hx), fun _ => ?_⟩, hcallee _⟩
    · rw [gpr_withMemory, gpr_setGpr_other _ _ (by decide), gpr_setGpr_same]
    · rw [if_neg (usable.general hx), Deferred.value, if_neg (by simp [hx]), gpr_withMemory,
        gpr_setGpr_same]

end Machine

end X64

end GuestMemory
