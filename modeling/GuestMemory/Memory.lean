import GuestMemory.Page
import GuestMemory.Table
import GuestMemory.Width

/-!
Host memory: a byte for every 64-bit address, all zero at the start. Runs of bytes wrap at the top.
-/
namespace GuestMemory

structure Memory where
  cells : Table UInt8 64 := .all 0

namespace Memory

instance : Inhabited Memory := ⟨{}⟩

def byte (m : Memory) (a : HostAddress) : UInt8 := m.cells.get a.toNat

def setByte (m : Memory) (a : HostAddress) (b : UInt8) : Memory :=
  { m with cells := m.cells.set a.toNat b }

def read (m : Memory) (a : HostAddress) : Nat → List UInt8
  | 0 => []
  | n + 1 => m.byte a :: m.read (a + 1) n

def write (m : Memory) (a : HostAddress) : List UInt8 → Memory
  | [] => m
  | b :: bs => (m.setByte a b).write (a + 1) bs

/-- The word at an address; alignment is not asked for. -/
def load (m : Memory) (w : Width) (a : HostAddress) : Word w := Word.ofBytes w (m.read a w.bytes)

def store {w : Width} (m : Memory) (a : HostAddress) (x : Word w) : Memory := m.write a x.bytes

/-- The 64-bit FNV-1a digest of a run of bytes. -/
def digest (m : Memory) (a : HostAddress) (n : Nat) : UInt64 :=
  n.fold (fun i _ h => (h ^^^ (m.byte (a + UInt64.ofNat i)).toUInt64) * 0x100000001b3)
    0xcbf29ce484222325

theorem add_one_add (a : HostAddress) (i : Nat) :
    a + 1 + UInt64.ofNat i = a + UInt64.ofNat (i + 1) := by
  rw [UInt64.add_assoc, UInt64.ofNat_add, UInt64.add_comm 1]
  rfl

/-- An offset is the distance from the base, whether or not the sum wraps. -/
theorem toNat_offset (a : HostAddress) {i : Nat} (h : i < 0x10000000000000000) :
    (a + UInt64.ofNat i - a).toNat = i := by
  rw [UInt64.add_comm, UInt64.add_sub_cancel]
  exact UInt64.toNat_ofNat_of_lt' h

theorem toNat_add_offset {a : HostAddress} {i : Nat} (h : a.toNat + i < 0x10000000000000000) :
    (a + UInt64.ofNat i).toNat = a.toNat + i := by
  rw [UInt64.toNat_add, UInt64.toNat_ofNat']
  omega

theorem byte_setByte (m : Memory) (a c : HostAddress) (b : UInt8) :
    (m.setByte a b).byte c = if a = c then b else m.byte c := by
  rw [byte, setByte, Table.get_set _ _ a.toNat_lt c.toNat_lt]
  simp only [UInt64.toNat_inj, byte]

@[simp] theorem length_read (m : Memory) (a : HostAddress) (n : Nat) :
    (m.read a n).length = n := by
  induction n generalizing a with
  | zero => rfl
  | succ n ih => simp [read, ih]

theorem getElem?_read (m : Memory) (a : HostAddress) {n i : Nat} (h : i < n) :
    (m.read a n)[i]? = some (m.byte (a + UInt64.ofNat i)) := by
  induction n generalizing a i with
  | zero => omega
  | succ n ih =>
    cases i with
    | zero => simp [read]
    | succ i =>
      rw [read, List.getElem?_cons_succ, ih _ (by omega), add_one_add]

/-- A run no longer than the address space stores each of its bytes once. -/
theorem byte_write (m : Memory) (a c : HostAddress) {bs : List UInt8}
    (h : bs.length ≤ 0x10000000000000000) :
    (m.write a bs).byte c = (bs[(c - a).toNat]?).getD (m.byte c) := by
  induction bs generalizing m a with
  | nil => simp [write]
  | cons b bs ih =>
    have hl : bs.length < 2 ^ 64 := by
      rw [List.length_cons] at h
      omega
    rw [write, ih _ _ (Nat.le_of_lt hl), byte_setByte]
    by_cases hc : a = c
    · subst hc
      have hn : (a - (a + 1)).toNat = 2 ^ 64 - 1 := by
        have := a.toNat_lt
        rw [UInt64.toNat_sub, UInt64.toNat_add]
        simp only [UInt64.reduceToNat]
        omega
      rw [hn, List.getElem?_eq_none (by omega)]
      simp
    · have hs : (c - a).toNat = (c - (a + 1)).toNat + 1 := by
        have hne : c.toNat ≠ a.toNat := fun e => hc (UInt64.toNat_inj.1 e.symm)
        have := a.toNat_lt
        have := c.toNat_lt
        rw [UInt64.toNat_sub, UInt64.toNat_sub, UInt64.toNat_add]
        simp only [UInt64.reduceToNat]
        omega
      rw [hs, List.getElem?_cons_succ, if_neg hc]

theorem read_write (m : Memory) (a : HostAddress) {bs : List UInt8}
    (h : bs.length ≤ 0x10000000000000000) :
    (m.write a bs).read a bs.length = bs := by
  apply List.ext_getElem?
  intro i
  by_cases hi : i < bs.length
  · have hn := toNat_offset a (i := i) (by omega)
    rw [getElem?_read _ _ hi, byte_write _ _ _ h, hn, List.getElem?_eq_getElem hi]
    rfl
  · rw [List.getElem?_eq_none (by simpa using hi), List.getElem?_eq_none (by omega)]

end Memory

end GuestMemory
