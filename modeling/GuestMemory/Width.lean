/-!
Access widths and the words they carry. A `Word w` is a bit vector; in memory and on the way to a
device it is the list of its bytes, least significant first, and the two forms determine each other.
-/
namespace GuestMemory

/-- Width of a single guest access. -/
inductive Width where
  | w8 | w16 | w32 | w64 | w128
  deriving DecidableEq, Repr, Inhabited

namespace Width

/-- Binary logarithm of the number of bytes. -/
def rank : Width → Nat
  | w8 => 0
  | w16 => 1
  | w32 => 2
  | w64 => 3
  | w128 => 4

/-- The width of `2 ^ n` bytes, at most the widest. -/
def ofRank : Nat → Width
  | 0 => w8
  | 1 => w16
  | 2 => w32
  | 3 => w64
  | _ => w128

def bytes (w : Width) : Nat := Nat.pow 2 w.rank

def bits (w : Width) : Nat := 8 * w.bytes

def ofBits? : Nat → Option Width
  | 8 => some w8
  | 16 => some w16
  | 32 => some w32
  | 64 => some w64
  | 128 => some w128
  | _ => none

def name : Width → String
  | w8 => "W8"
  | w16 => "W16"
  | w32 => "W32"
  | w64 => "W64"
  | w128 => "W128"

@[simp] theorem bytes_w8 : bytes w8 = 1 := rfl
@[simp] theorem bytes_w16 : bytes w16 = 2 := rfl
@[simp] theorem bytes_w32 : bytes w32 = 4 := rfl
@[simp] theorem bytes_w64 : bytes w64 = 8 := rfl
@[simp] theorem bytes_w128 : bytes w128 = 16 := rfl

theorem bytes_pos (w : Width) : 0 < w.bytes := Nat.two_pow_pos _

theorem bytes_le (w : Width) : w.bytes ≤ 16 := by cases w <;> decide

theorem ofBits?_bits (w : Width) : ofBits? w.bits = some w := by cases w <;> rfl

end Width

/-- The value that an access of width `w` moves. -/
abbrev Word (w : Width) := BitVec w.bits

/-- The number whose little-endian digits in base 256 are the given bytes. -/
def natOfBytes : List UInt8 → Nat
  | [] => 0
  | b :: bs => b.toNat + 256 * natOfBytes bs

/-- The `n` low bytes of a number, least significant first. -/
def bytesOfNat : Nat → Nat → List UInt8
  | 0, _ => []
  | n + 1, x => UInt8.ofNat x :: bytesOfNat n (x / 256)

@[simp] theorem length_bytesOfNat (n x : Nat) : (bytesOfNat n x).length = n := by
  induction n generalizing x with
  | zero => rfl
  | succ n ih => simp [bytesOfNat, ih]

theorem natOfBytes_lt (bs : List UInt8) : natOfBytes bs < Nat.pow 256 bs.length := by
  show natOfBytes bs < 256 ^ bs.length
  induction bs with
  | nil => decide
  | cons b bs ih =>
    have hb := b.toNat_lt
    simp only [natOfBytes, List.length_cons, Nat.pow_succ]
    omega

theorem natOfBytes_bytesOfNat (n x : Nat) :
    natOfBytes (bytesOfNat n x) = x % Nat.pow 256 n := by
  show natOfBytes (bytesOfNat n x) = x % 256 ^ n
  induction n generalizing x with
  | zero => simp [bytesOfNat, natOfBytes, Nat.mod_one]
  | succ n ih =>
    rw [bytesOfNat, natOfBytes, ih, Nat.pow_succ, Nat.mul_comm (256 ^ n), Nat.mod_mul]
    simp

theorem bytesOfNat_natOfBytes (bs : List UInt8) :
    bytesOfNat bs.length (natOfBytes bs) = bs := by
  induction bs with
  | nil => rfl
  | cons b bs ih =>
    have hb := b.toNat_lt
    have hd : (b.toNat + 256 * natOfBytes bs) / 256 = natOfBytes bs := by omega
    have hm : UInt8.ofNat (b.toNat + 256 * natOfBytes bs) = b := by
      apply UInt8.toNat_inj.1
      simp
    simp [bytesOfNat, natOfBytes, hd, hm, ih]

namespace Word

/-- Bytes of a word as they lie in memory. -/
def bytes {w : Width} (x : Word w) : List UInt8 := bytesOfNat w.bytes x.toNat

/-- The word with the given bytes, least significant first. -/
def ofBytes (w : Width) (bs : List UInt8) : Word w := BitVec.ofNat _ (natOfBytes bs)

@[simp] theorem length_bytes {w : Width} (x : Word w) : x.bytes.length = w.bytes :=
  length_bytesOfNat _ _

theorem two_pow_bits (w : Width) : Nat.pow 2 w.bits = Nat.pow 256 w.bytes := by
  show 2 ^ w.bits = 256 ^ w.bytes
  rw [Width.bits, Nat.pow_mul]

@[simp] theorem ofBytes_bytes {w : Width} (x : Word w) : ofBytes w x.bytes = x := by
  have hb : 2 ^ w.bits = Nat.pow 256 w.bytes := two_pow_bits w
  apply BitVec.eq_of_toNat_eq
  rw [ofBytes, BitVec.toNat_ofNat, bytes, natOfBytes_bytesOfNat, ← hb, Nat.mod_mod]
  exact Nat.mod_eq_of_lt x.isLt

theorem bytes_ofBytes {w : Width} {bs : List UInt8} (h : bs.length = w.bytes) :
    (ofBytes w bs).bytes = bs := by
  have hb : 2 ^ w.bits = Nat.pow 256 w.bytes := two_pow_bits w
  rw [bytes, ofBytes, BitVec.toNat_ofNat, hb, ← h,
    Nat.mod_eq_of_lt (natOfBytes_lt bs), bytesOfNat_natOfBytes]

end Word

end GuestMemory
