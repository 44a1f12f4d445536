import GuestMemory.Page
import GuestMemory.Width

/-!
Devices. A device decodes bytes and any further widths it names; a width it does not name is two
accesses of half that width, the low half first. `Device.read` and `Device.write` give the outcome
of an access of any width together with the calls that the device itself saw, in order.
-/
namespace GuestMemory

/-- A memory-mapped device over states `σ`: what it does at the widths it decodes. The callbacks
at other widths than eight bits and those in `decodes` are never used. -/
structure Device (σ : Type) where
  decodes : Width → Bool
  onRead : (w : Width) → GuestAddress → σ → Word w × σ
  onWrite : (w : Width) → GuestAddress → Word w → σ → σ

/-- One callback of a device, with the bytes it was given to store. -/
inductive DeviceCall where
  | read (w : Width) (address : GuestAddress)
  | write (w : Width) (address : GuestAddress) (bytes : List UInt8)
  deriving DecidableEq, Repr

namespace Device

variable {σ : Type}

def isNative (dev : Device σ) (w : Width) : Bool := w == .w8 || dev.decodes w

/-- Reads `2 ^ n` bytes: in one call if the device decodes that width, else as two halves. -/
def readBytes (dev : Device σ) : (n : Nat) → GuestAddress → σ → List UInt8 × σ × List DeviceCall
  | 0, a, s =>
    let (x, s) := dev.onRead .w8 a s
    (x.bytes, s, [.read .w8 a])
  | n + 1, a, s =>
    if dev.isNative (.ofRank (n + 1)) then
      let (x, s) := dev.onRead (.ofRank (n + 1)) a s
      (x.bytes, s, [.read (.ofRank (n + 1)) a])
    else
      let (low, s, calls) := dev.readBytes n a s
      let (high, s, calls') := dev.readBytes n (a + UInt32.ofNat (2 ^ n)) s
      (low ++ high, s, calls ++ calls')

/-- Writes `2 ^ n` bytes: in one call if the device decodes that width, else as two halves. -/
def writeBytes (dev : Device σ) : (n : Nat) → GuestAddress → List UInt8 → σ → σ × List DeviceCall
  | 0, a, bs, s => (dev.onWrite .w8 a (Word.ofBytes .w8 bs) s, [.write .w8 a bs])
  | n + 1, a, bs, s =>
    if dev.isNative (.ofRank (n + 1)) then
      (dev.onWrite (.ofRank (n + 1)) a (Word.ofBytes _ bs) s, [.write (.ofRank (n + 1)) a bs])
    else
      let (s, calls) := dev.writeBytes n a (bs.take (2 ^ n)) s
      let (s, calls') := dev.writeBytes n (a + UInt32.ofNat (2 ^ n)) (bs.drop (2 ^ n)) s
      (s, calls ++ calls')

def read (dev : Device σ) (w : Width) (a : GuestAddress) (s : σ) : Word w × σ × List DeviceCall :=
  let (bs, s, calls) := dev.readBytes w.rank a s
  (Word.ofBytes w bs, s, calls)

def write {w : Width} (dev : Device σ) (a : GuestAddress) (x : Word w) (s : σ) :
    σ × List DeviceCall :=
  dev.writeBytes w.rank a x.bytes s

end Device

end GuestMemory
