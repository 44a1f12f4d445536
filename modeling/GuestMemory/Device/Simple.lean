import GuestMemory.Device
import Std.Data.HashMap

/-!
Simple devices: a counter, byte memory, and a pattern that depends on the address alone.
-/
namespace GuestMemory.Device

inductive Behaviour where
  /-- Counts its reads in 128 bits and reads the count; a write sets it. -/
  | counter
  /-- Keeps the bytes written to it. -/
  | memory
  /-- Reads a function of the address and the width; writes are dropped. -/
  | pattern
  deriving DecidableEq, Repr

/-- State of a simple device with a name. -/
structure Simple where
  name : String
  count : Nat := 0
  bytes : Std.HashMap UInt32 UInt8 := ∅

namespace Simple

/-- Byte `i` of a pattern at `a`, for an access of `w`. -/
def patternByte (w : Width) (fill : UInt8) (a : GuestAddress) (i : Nat) : UInt8 :=
  let p := a + UInt32.ofNat i
  (p ^^^ (p >>> 8) ^^^ UInt32.ofNat w.bits).toUInt8 ^^^ fill

def storeBytes (s : Simple) (a : GuestAddress) : List UInt8 → Simple
  | [] => s
  | b :: bs => { s with bytes := s.bytes.insert a b }.storeBytes (a + 1) bs

def read (behaviour : Behaviour) (fill : UInt8) (w : Width) (a : GuestAddress) (s : Simple) :
    Word w × Simple :=
  match behaviour with
  | .counter =>
    let n := (s.count + 1) % 0x100000000000000000000000000000000
    (BitVec.ofNat _ n, { s with count := n })
  | .memory =>
    (Word.ofBytes w ((List.range w.bytes).map fun i => s.bytes.getD (a + UInt32.ofNat i) fill), s)
  | .pattern => (Word.ofBytes w ((List.range w.bytes).map (patternByte w fill a)), s)

def write (behaviour : Behaviour) {w : Width} (a : GuestAddress) (x : Word w) (s : Simple) :
    Simple :=
  match behaviour with
  | .counter => { s with count := x.toNat }
  | .memory => s.storeBytes a x.bytes
  | .pattern => s

end Simple

/-- A simple device that decodes the given widths; `fill` stands for bytes that were never written,
and is mixed into patterns. -/
def simple (behaviour : Behaviour) (fill : UInt8) (widths : List Width) : Device Simple where
  decodes w := widths.contains w
  onRead := Simple.read behaviour fill
  onWrite _ a x s := Simple.write behaviour a x s

end GuestMemory.Device
