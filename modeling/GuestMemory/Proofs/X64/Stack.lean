import GuestMemory.Proofs.Footprint.Confined
import GuestMemory.X64.Machine

/-!
The host stack. Its bytes are counted from an address below it, and lie outside the window, so that
emitted code works on plain memory there: what has been stored at some offsets is loaded from them
again as long as nothing is stored over it.
-/
namespace GuestMemory

namespace Memory

variable {m m' m'' : Memory} {lo a : HostAddress} {i j i' j' k : Nat} {w : Width}

/-- `m'` has the bytes of `m` but at the offsets from `i` to below `j`. -/
def Differs (lo : HostAddress) (i j : Nat) (m m' : Memory) : Prop :=
  ∀ b, (b - lo).toNat < i ∨ j ≤ (b - lo).toNat → m'.byte b = m.byte b

theorem Differs.refl (lo : HostAddress) (i j : Nat) (m : Memory) : Differs lo i j m m :=
  fun _ _ => rfl

theorem Differs.trans (h : Differs lo i j m m') (h' : Differs lo i j m' m'') :
    Differs lo i j m m'' :=
  fun b hb => (h' b hb).trans (h b hb)

theorem Differs.mono (h : Differs lo i j m m') (hi : i' ≤ i) (hj : j ≤ j') :
    Differs lo i' j' m m' :=
  fun b hb => h b (hb.imp (fun hb => Nat.lt_of_lt_of_le hb hi) (fun hb => Nat.le_trans hj hb))

theorem differs_write (m : Memory) (lo : HostAddress) {bs : List UInt8}
    (hk : k + bs.length ≤ 2 ^ 64) :
    Differs lo k (k + bs.length) m (m.write (lo + UInt64.ofNat k) bs) := by
  intro b hb
  have hoff : bs.length ≤ (b - (lo + UInt64.ofNat k)).toNat := by
    have hlo := lo.toNat_lt
    have hblt := b.toNat_lt
    rw [UInt64.toNat_sub] at hb ⊢
    rw [UInt64.toNat_add, UInt64.toNat_ofNat']
    omega
  rw [byte_write _ _ _ (by omega), List.getElem?_eq_none (by omega), Option.getD_none]

theorem read_congr {n : Nat}
    (h : ∀ i < n, m'.byte (a + UInt64.ofNat i) = m.byte (a + UInt64.ofNat i)) :
    m'.read a n = m.read a n := by
  rw [m'.read_eq_gather fun _ _ => rfl, m.read_eq_gather fun _ _ => rfl]
  exact List.map_congr_left fun i hi => h i (List.mem_range.1 hi)

/-- Bytes that lie beside the offsets are read as before. -/
theorem Differs.read {n : Nat} (h : Differs lo i j m m') (hk : k + n ≤ 2 ^ 64)
    (hb : k + n ≤ i ∨ j ≤ k) :
    m'.read (lo + UInt64.ofNat k) n = m.read (lo + UInt64.ofNat k) n := by
  refine read_congr fun l hl => h _ ?_
  rw [UInt64.add_assoc, ← UInt64.ofNat_add, toNat_offset lo (by omega)]
  omega

/-- A word that lies beside the offsets is loaded as before. -/
theorem Differs.load (h : Differs lo i j m m') (hk : k + w.bytes ≤ 2 ^ 64)
    (hb : k + w.bytes ≤ i ∨ j ≤ k) :
    m'.load w (lo + UInt64.ofNat k) = m.load w (lo + UInt64.ofNat k) :=
  congrArg (Word.ofBytes w) (h.read hk hb)

@[simp] theorem load_store (m : Memory) (a : HostAddress) (x : Word w) :
    (m.store a x).load w a = x := by
  have hw := w.bytes_le
  have hl : x.bytes.length = w.bytes := Word.length_bytes x
  rw [load, store, ← hl, read_write _ _ (by omega), Word.ofBytes_bytes]

end Memory

namespace Space

variable {σ : Type} {s : Space σ} {a : HostAddress}

def IsPlain (s : Space σ) (a : HostAddress) : Prop :=
  s.window.bind (·.pages.guest? a) = none

/-- Outside the window an access reaches the bytes at its own address. -/
theorem hostTargets?_plain (isStore : Bool) {n : Nat}
    (h : ∀ i < n, s.IsPlain (a + UInt64.ofNat i)) :
    ∃ targets, s.hostTargets? isStore a n = some targets ∧
      (∀ m : Memory, targets.map m.byte = m.read a n) ∧
        ∀ bs : List UInt8, bs.length = n → ∀ m : Memory,
          (targets.zip bs).foldl (fun m (t, b) => m.setByte t b) m = m.write a bs := by
  induction n generalizing a with
  | zero =>
    refine ⟨[], rfl, fun _ => rfl, fun bs hbs m => ?_⟩
    rw [List.eq_nil_of_length_eq_zero hbs]
    rfl
  | succ n ih =>
    have h0 : s.IsPlain a := by
      have h0 := h 0 (Nat.zero_lt_succ n)
      rwa [show UInt64.ofNat 0 = 0 from rfl, UInt64.add_zero] at h0
    have htarget : s.hostTarget? isStore a = some a := by
      rw [hostTarget?, h0]
    obtain ⟨targets, ht, hread, hwrite⟩ := ih (a := a + 1) fun i hi => by
      rw [Memory.add_one_add]
      exact h (i + 1) (Nat.succ_lt_succ hi)
    refine ⟨a :: targets, ?_, fun m => ?_, fun bs hbs m => ?_⟩
    · rw [hostTargets?, htarget, ht]
      rfl
    · rw [List.map_cons, hread, Memory.read]
    · cases bs with
      | nil => cases hbs
      | cons b bs =>
        rw [List.zip_cons_cons, List.foldl_cons, hwrite bs (Nat.succ.inj hbs), Memory.write]

theorem hostLoad?_plain {n : Nat} (h : ∀ i < n, s.IsPlain (a + UInt64.ofNat i)) :
    s.hostLoad? a n = some (s.memory.read a n) := by
  obtain ⟨targets, ht, hread, -⟩ := hostTargets?_plain false h
  rw [hostLoad?, ht, Option.map_some, hread]

theorem hostStore?_plain {bs : List UInt8}
    (h : ∀ i < bs.length, s.IsPlain (a + UInt64.ofNat i)) :
    s.hostStore? a bs = some { s with memory := s.memory.write a bs } := by
  obtain ⟨targets, ht, -, hwrite⟩ := hostTargets?_plain true h
  rw [hostStore?, ht, Option.map_some, hwrite bs rfl]

end Space

namespace X64

variable {σ : Type}

/-- Bytes that the code of a diverted access uses of the stack: the return address, the saved frame
pointer, 16 bytes for a value, up to 9 general and 16 vector registers, and below them either two
words for arguments or, where the stack has been aligned, the return address of the entry point. -/
def frameSize : Nat := 8 + 8 + scratchSize + 8 * 9 + 16 * 16 + 24

/-- Bytes of the stack that a diverted access uses, the entry point included. -/
def Host.stackSize (host : Host) : Nat := host.frame.length + frameSize

namespace Machine

variable {t : Machine σ} {lo : HostAddress} {k size : Nat} {w : Width}

/-- The stack has `size` bytes above `lo`, outside the window. -/
structure HasRoom (lo : HostAddress) (size : Nat) (t : Machine σ) : Prop where
  plain : ∀ k < size, t.space.IsPlain (lo + UInt64.ofNat k)
  fits : size ≤ 2 ^ 64

theorem HasRoom.of_window {u : Machine σ} (h : t.HasRoom lo size)
    (hw : u.space.window = t.space.window) : u.HasRoom lo size := by
  refine ⟨fun k hk => ?_, h.fits⟩
  rw [Space.IsPlain, hw]
  exact h.plain k hk

/-- A stack below the window has room. -/
theorem hasRoom_of_le {w : Window} (hw : t.space.window = some w)
    (h : lo.toNat + size ≤ w.base.toNat) : t.HasRoom lo size := by
  have hbase := w.base.toNat_lt
  refine ⟨fun k hk => ?_, by omega⟩
  have hsum : (lo + UInt64.ofNat k).toNat = lo.toNat + k := Memory.toNat_add_offset (by omega)
  have hout : ¬w.pages.contains (lo + UInt64.ofNat k) = true := by
    have hpages : w.pages.base = w.base := rfl
    rw [Window.Pages.contains, Bool.and_eq_true, decide_eq_true_eq, UInt64.le_iff_toNat_le, hsum,
      hpages]
    omega
  rw [Space.IsPlain, hw, Option.bind_some, Window.Pages.guest?, if_neg hout]

def withMemory (t : Machine σ) (memory : Memory) : Machine σ :=
  { t with space := { t.space with memory } }

@[simp] theorem gpr_withMemory (t : Machine σ) (m : Memory) : (t.withMemory m).gpr = t.gpr := rfl

@[simp] theorem memory_withMemory (t : Machine σ) (m : Memory) :
    (t.withMemory m).space.memory = m := rfl

@[simp] theorem withMemory_withMemory (t : Machine σ) (m m' : Memory) :
    (t.withMemory m).withMemory m' = t.withMemory m' := rfl

section

variable (room : t.HasRoom lo size)

include room

theorem isPlain_of_room {n : Nat} (hk : k + n ≤ size) :
    ∀ i < n, t.space.IsPlain (lo + UInt64.ofNat k + UInt64.ofNat i) := by
  intro i hi
  rw [UInt64.add_assoc, ← UInt64.ofNat_add]
  exact room.plain (k + i) (by omega)

theorem load_of_room (hk : k + w.bytes ≤ size) :
    t.load w (lo + UInt64.ofNat k) = .ok (t.space.memory.load w (lo + UInt64.ofNat k)) := by
  rw [load, Space.hostLoad?_plain (isPlain_of_room room hk)]
  rfl

/-- Bytes that are stored go to their offset, and the rest of the memory stays. -/
theorem storeBytes_of_room {bs : List UInt8} (hk : k + bs.length ≤ size) :
    t.storeBytes (lo + UInt64.ofNat k) bs =
        .ok (t.withMemory (t.space.memory.write (lo + UInt64.ofNat k) bs)) ∧
      Memory.Differs lo k (k + bs.length) t.space.memory
        (t.space.memory.write (lo + UInt64.ofNat k) bs) := by
  refine ⟨?_, Memory.differs_write _ lo (Nat.le_trans hk room.fits)⟩
  rw [storeBytes, Space.hostStore?_plain (isPlain_of_room room hk)]
  rfl

/-- A store puts a word at its offset and leaves the rest of the memory. -/
theorem store_of_room (hk : k + w.bytes ≤ size) (x : Word w) :
    ∃ memory, t.store (lo + UInt64.ofNat k) x = .ok (t.withMemory memory) ∧
      Memory.Differs lo k (k + w.bytes) t.space.memory memory ∧
      memory.load w (lo + UInt64.ofNat k) = x := by
  have hl : x.bytes.length = w.bytes := Word.length_bytes x
  obtain ⟨hstore, hdiffers⟩ := storeBytes_of_room (k := k) room
    (show _ + x.bytes.length ≤ _ by omega)
  rw [hl] at hdiffers
  exact ⟨_, hstore, hdiffers, Memory.load_store _ _ x⟩

end

def gprWord (x : UInt64) : Word .w64 := x.toBitVec

def vectorWord (x : BitVec 128) : Word .w128 := x

theorem sub_ofNat (a : HostAddress) {i j : Nat} (h : j ≤ i) :
    a + UInt64.ofNat i - UInt64.ofNat j = a + UInt64.ofNat (i - j) := by
  have hi : UInt64.ofNat i = UInt64.ofNat (i - j) + UInt64.ofNat j := by
    rw [← UInt64.ofNat_add, Nat.sub_add_cancel h]
  rw [hi, ← UInt64.add_assoc, UInt64.add_sub_cancel]

/-- A push puts a word below the stack pointer. -/
theorem push_of_room (room : t.HasRoom lo size) (hsp : t.gpr rsp = lo + UInt64.ofNat (k + 8))
    (hk : k + 8 ≤ size) (x : UInt64) :
    ∃ memory, t.push x = .ok ((t.setGpr rsp (lo + UInt64.ofNat k)).withMemory memory) ∧
      Memory.Differs lo k (k + 8) t.space.memory memory ∧
      memory.load .w64 (lo + UInt64.ofNat k) = gprWord x := by
  have htop : t.gpr rsp - 8 = lo + UInt64.ofNat k := by
    rw [hsp]
    exact sub_ofNat lo (i := k + 8) (j := 8) (by omega)
  have hroom : (t.setGpr rsp (lo + UInt64.ofNat k)).HasRoom lo size := room.of_window rfl
  rw [push, htop]
  exact store_of_room (w := .w64) hroom hk (gprWord x)

/-- A pop takes the word at the stack pointer. -/
theorem pop_of_room (room : t.HasRoom lo size) (hsp : t.gpr rsp = lo + UInt64.ofNat k)
    (hk : k + 8 ≤ size) :
    t.pop = .ok (UInt64.ofBitVec (t.space.memory.load .w64 (lo + UInt64.ofNat k)),
      t.setGpr rsp (lo + UInt64.ofNat (k + 8))) := by
  have hnext : lo + UInt64.ofNat k + 8 = lo + UInt64.ofNat (k + 8) := by
    rw [UInt64.add_assoc, UInt64.ofNat_add]
    rfl
  rw [pop, hsp, load_of_room room hk, hnext]
  rfl

end Machine

end X64

end GuestMemory
