import GuestMemory.Device
import Mathlib.Algebra.Group.Nat.Defs

/-!
How a device answers a width that it does not decode. The halves of an access are halved again until
a width is reached that the device does decode, and that is the widest one that fits the access. So
every access is a row of calls of that width, from the lowest address on, each of which moves its
own part of the word.
-/
namespace GuestMemory

namespace Word

theorem length_flatMap_bytes {w : Width} (xs : List (Word w)) :
    (xs.flatMap bytes).length = xs.length * w.bytes := by
  induction xs with
  | nil => simp
  | cons x xs ih =>
    rw [List.flatMap_cons, List.length_append, ih, length_bytes, List.length_cons, Nat.succ_mul,
      Nat.add_comm]

end Word

namespace Device

variable {σ : Type} {dev : Device σ} {w W : Width} {n : Nat}

def sideBySide (w : Width) (p : GuestAddress) (n : Nat) : List GuestAddress :=
  (List.range n).map fun i => p + UInt32.ofNat (i * w.bytes)

@[simp] theorem length_sideBySide (w : Width) (p : GuestAddress) (n : Nat) :
    (sideBySide w p n).length = n := by
  simp [sideBySide]

theorem sideBySide_add (w : Width) (p : GuestAddress) (m n : Nat) :
    sideBySide w p (m + n) =
      sideBySide w p m ++ sideBySide w (p + UInt32.ofNat (m * w.bytes)) n := by
  rw [sideBySide, List.range_add, List.map_append, List.map_map]
  congr 1
  apply List.map_congr_left
  intro i _
  rw [Function.comp_apply, Nat.add_mul, UInt32.ofNat_add, UInt32.add_assoc]

/-- Calls of one width, one after the other: what they give, and the state they leave. -/
def readEach (dev : Device σ) (w : Width) : List GuestAddress → σ → List (Word w) × σ
  | [], s => ([], s)
  | a :: rest, s =>
    let (x, s) := dev.onRead w a s
    let (xs, s) := dev.readEach w rest s
    (x :: xs, s)

def writeEach (dev : Device σ) (w : Width) : List (GuestAddress × Word w) → σ → σ
  | [], s => s
  | (a, x) :: rest, s => dev.writeEach w rest (dev.onWrite w a x s)

theorem readEach_append (dev : Device σ) (w : Width) (as bs : List GuestAddress) (s : σ) :
    dev.readEach w (as ++ bs) s =
      ((dev.readEach w as s).1 ++ (dev.readEach w bs (dev.readEach w as s).2).1,
        (dev.readEach w bs (dev.readEach w as s).2).2) := by
  induction as generalizing s with
  | nil => rfl
  | cons a as ih => simp [readEach, ih]

theorem writeEach_append (dev : Device σ) (w : Width) (as bs : List (GuestAddress × Word w))
    (s : σ) : dev.writeEach w (as ++ bs) s = dev.writeEach w bs (dev.writeEach w as s) := by
  induction as generalizing s with
  | nil => rfl
  | cons a as ih => exact ih _

/-- Halving an access of `2 ^ n` bytes comes to a width that the device decodes. -/
inductive HalvesTo (dev : Device σ) (w : Width) : Nat → Prop where
  | native : dev.isNative w = true → dev.HalvesTo w w.rank
  | half {n : Nat} : dev.isNative (.ofRank (n + 1)) = false → dev.HalvesTo w n →
    dev.HalvesTo w (n + 1)

theorem HalvesTo.rank_le (h : dev.HalvesTo w n) : w.rank ≤ n := by
  induction h with
  | native h => exact Nat.le_refl _
  | half h _ ih => exact Nat.le_succ_of_le ih

theorem HalvesTo.isNative (h : dev.HalvesTo w n) : dev.isNative w = true := by
  induction h with
  | native h => exact h
  | half _ _ ih => exact ih

theorem readBytes_native (h : dev.isNative w = true) (a : GuestAddress) (s : σ) :
    dev.readBytes w.rank a s = ((dev.onRead w a s).1.bytes, (dev.onRead w a s).2, [.read w a]) := by
  cases w with
  | w8 => rfl
  | _ => exact if_pos h

theorem writeBytes_native (h : dev.isNative w = true) (a : GuestAddress) (bs : List UInt8)
    (s : σ) :
    dev.writeBytes w.rank a bs s =
      (dev.onWrite w a (Word.ofBytes w bs) s, [.write w a bs]) := by
  cases w with
  | w8 => rfl
  | _ => exact if_pos h

theorem readBytes_half (h : dev.isNative (.ofRank (n + 1)) = false) (a : GuestAddress) (s : σ) :
    dev.readBytes (n + 1) a s =
      let low := dev.readBytes n a s
      let high := dev.readBytes n (a + UInt32.ofNat (2 ^ n)) low.2.1
      (low.1 ++ high.1, high.2.1, low.2.2 ++ high.2.2) :=
  if_neg (ne_true_of_eq_false h)

theorem writeBytes_half (h : dev.isNative (.ofRank (n + 1)) = false) (a : GuestAddress)
    (bs : List UInt8) (s : σ) :
    dev.writeBytes (n + 1) a bs s =
      let low := dev.writeBytes n a (bs.take (2 ^ n)) s
      let high := dev.writeBytes n (a + UInt32.ofNat (2 ^ n)) (bs.drop (2 ^ n)) low.1
      (high.1, low.2 ++ high.2) :=
  if_neg (ne_true_of_eq_false h)

theorem HalvesTo.words_mul (h : dev.HalvesTo w n) : 2 ^ (n - w.rank) * w.bytes = 2 ^ n := by
  show 2 ^ (n - w.rank) * 2 ^ w.rank = _
  rw [← Nat.pow_add, Nat.sub_add_cancel h.rank_le]

/-- The words of twice as many bytes, in two halves. -/
theorem HalvesTo.sideBySide_succ (h : dev.HalvesTo w n) (a : GuestAddress) :
    sideBySide w a (2 ^ (n + 1 - w.rank)) =
      sideBySide w a (2 ^ (n - w.rank)) ++
        sideBySide w (a + UInt32.ofNat (2 ^ n)) (2 ^ (n - w.rank)) := by
  rw [Nat.succ_sub h.rank_le, Nat.pow_succ, Nat.mul_two, sideBySide_add, h.words_mul]

/-- Reading is a row of calls, by induction on the halving. -/
theorem HalvesTo.readBytes (h : dev.HalvesTo w n) (a : GuestAddress) (s : σ) :
    let row := sideBySide w a (2 ^ (n - w.rank))
    dev.readBytes n a s = ((dev.readEach w row s).1.flatMap Word.bytes, (dev.readEach w row s).2,
      row.map (.read w)) := by
  induction h generalizing a s with
  | native h =>
    rw [readBytes_native h, Nat.sub_self]
    simp [sideBySide, readEach]
  | half hnot h ih =>
    rw [h.sideBySide_succ, readBytes_half hnot]
    simp only [ih, readEach_append, List.flatMap_append, List.map_append]

/-- Writing is a row of calls, each with its own word. -/
theorem HalvesTo.writeBytes (h : dev.HalvesTo w n) (a : GuestAddress) {xs : List (Word w)}
    (hxs : xs.length = 2 ^ (n - w.rank)) (s : σ) :
    let row := (sideBySide w a (2 ^ (n - w.rank))).zip xs
    dev.writeBytes n a (xs.flatMap Word.bytes) s =
      (dev.writeEach w row s, row.map fun (a, x) => .write w a x.bytes) := by
  induction h generalizing a s xs with
  | native h =>
    rw [Nat.sub_self] at hxs
    obtain ⟨x, rfl⟩ := List.length_eq_one_iff.1 hxs
    rw [writeBytes_native h, Nat.sub_self]
    simp [sideBySide, writeEach]
  | @half n hnot h ih =>
    rw [Nat.succ_sub h.rank_le, Nat.pow_succ, Nat.mul_two] at hxs
    obtain ⟨low, high, rfl, hlow⟩ : ∃ low high, xs = low ++ high ∧
        low.length = 2 ^ (n - w.rank) :=
      ⟨_, _, (List.take_append_drop (2 ^ (n - w.rank)) xs).symm, by rw [List.length_take]; omega⟩
    have hhigh : high.length = 2 ^ (n - w.rank) := by
      rw [List.length_append, hlow] at hxs
      exact Nat.add_left_cancel hxs
    -- the bytes are cut where the words are
    have hbytes : (low.flatMap Word.bytes).length = 2 ^ n := by
      rw [Word.length_flatMap_bytes, hlow, h.words_mul]
    have hlength : (sideBySide w a (2 ^ (n - w.rank))).length = low.length := by
      rw [length_sideBySide, hlow]
    rw [h.sideBySide_succ, writeBytes_half hnot]
    simp only [List.flatMap_append, List.take_left' hbytes, List.drop_left' hbytes, ih _ hlow,
      ih _ hhigh, List.zip_append hlength, writeEach_append, List.map_append]

end Device

end GuestMemory
