import GuestMemory.Page
import GuestMemory.Width

/-!
The instructions of emitted code and their bytes. `encode` has one fixed form for each, so that the
length of a piece of code is known before it is placed.
-/
namespace GuestMemory.X64

/-- Number of a general or of a vector register. -/
abbrev Reg := Fin 16

/-- The register that the low four bits of a number name. -/
def Reg.ofNat (n : Nat) : Reg := Fin.ofNat 16 n

def rax : Reg := 0
def rdx : Reg := 2
def rbx : Reg := 3
def rsp : Reg := 4
def rbp : Reg := 5
def rsi : Reg := 6
def rdi : Reg := 7

inductive Instruction where
  /-- Register from memory at `base + index`, extended to 64 bits. -/
  | load (w : Width) (signed : Bool) (data base index : Reg)
  | store (w : Width) (data base index : Reg)
  /-- Vector register from memory at `base + index`, the rest cleared. -/
  | vectorLoad (w : Width) (data base index : Reg)
  | vectorStore (w : Width) (data base index : Reg)
  | nop
  | movImmediate (r : Reg) (value : UInt64)
  | mov64 (target source : Reg)
  /-- Clears the upper half of the target. -/
  | mov32 (target source : Reg)
  /-- `mov32` between the first eight registers, without prefix byte. -/
  | mov32Short (target source : Reg)
  | push (r : Reg)
  | pop (r : Reg)
  /-- `push` of one of the first eight registers, without prefix byte. -/
  | pushShort (r : Reg)
  | popShort (r : Reg)
  | subRsp (n : Nat)
  /-- Rounds the stack pointer down to sixteen bytes. -/
  | alignRsp
  /-- Address `rbp + offset`. -/
  | leaRbp (target : Reg) (offset : Int)
  | vectorStoreRsp (x : Reg) (offset : Int)
  | vectorStoreRbp (x : Reg) (offset : Int)
  | vectorLoadRbp (x : Reg) (offset : Int)
  /-- Low half of a vector register to a general one. -/
  | movFromVector (target : Reg) (x : Reg)
  /-- Low bits of `rax` to a vector register, the rest cleared. -/
  | movToVector (w : Width) (x : Reg)
  /-- Low bits of `rax` extended to 64 bits. -/
  | extendRax (w : Width) (signed : Bool) (target : Reg)
  | callRax
  /-- Call with a distance from the end of the instruction. -/
  | call (distance : Int)
  | ret
  /-- Bytes that are not looked at. -/
  | raw (bytes : List UInt8)
  deriving DecidableEq, Repr

namespace Instruction

/-- The prefix byte with the width bit and the upper bits of the registers. -/
def rex (wide : Bool) (reg index base : Nat) : UInt8 :=
  UInt8.ofNat (0x40 + (if wide then 8 else 0) + reg / 8 * 4 + index / 8 * 2 + base / 8)

def modRm (mode reg rm : Nat) : UInt8 := UInt8.ofNat (mode * 64 + reg % 8 * 8 + rm % 8)

/-- Operand bytes of `[base + index]`, with a displacement byte of zero. -/
def indexed (data base index : Reg) : List UInt8 :=
  [modRm 1 data 4, UInt8.ofNat (index.val % 8 * 8 + base.val % 8), 0]

def immediate32 (i : Int) : List UInt8 := bytesOfNat 4 (i % 0x100000000).toNat

def immediate64 (n : UInt64) : List UInt8 := bytesOfNat 8 n.toNat

def loadOpcode (w : Width) (signed : Bool) : List UInt8 :=
  match w, signed with
  | .w8, false => [0x0F, 0xB6]
  | .w8, true => [0x0F, 0xBE]
  | .w16, false => [0x0F, 0xB7]
  | .w16, true => [0x0F, 0xBF]
  | .w32, true => [0x63]
  | _, _ => [0x8B]

/-- Whether a load sets all 64 bits by its operand size. -/
def isWide (w : Width) (signed : Bool) : Bool := signed || w == .w64 || w == .w128

def encode : Instruction → List UInt8
  | load w signed data base index =>
    rex (isWide w signed) data index base :: loadOpcode w signed ++ indexed data base index
  | store .w8 data base index => rex false data index base :: 0x88 :: indexed data base index
  | store .w16 data base index =>
    0x66 :: rex false data index base :: 0x89 :: indexed data base index
  | store w data base index =>
    rex (isWide w false) data index base :: 0x89 :: indexed data base index
  | vectorLoad .w32 data base index =>
    [0x66, rex false data index base, 0x0F, 0x6E] ++ indexed data base index
  | vectorLoad .w64 data base index =>
    [0xF3, rex false data index base, 0x0F, 0x7E] ++ indexed data base index
  | vectorLoad _ data base index =>
    [0xF3, rex false data index base, 0x0F, 0x6F] ++ indexed data base index
  | vectorStore .w32 data base index =>
    [0x66, rex false data index base, 0x0F, 0x7E] ++ indexed data base index
  | vectorStore .w64 data base index =>
    [0x66, rex false data index base, 0x0F, 0xD6] ++ indexed data base index
  | vectorStore _ data base index =>
    [0xF3, rex false data index base, 0x0F, 0x7F] ++ indexed data base index
  | nop => [0x90]
  | movImmediate r value => rex true 0 0 r :: UInt8.ofNat (0xB8 + r.val % 8) :: immediate64 value
  | mov64 target source => [rex true source 0 target, 0x89, modRm 3 source target]
  | mov32 target source => [rex false source 0 target, 0x89, modRm 3 source target]
  | mov32Short target source => [0x89, modRm 3 source target]
  | push r => [rex false 0 0 r, UInt8.ofNat (0x50 + r.val % 8)]
  | pop r => [rex false 0 0 r, UInt8.ofNat (0x58 + r.val % 8)]
  | pushShort r => [UInt8.ofNat (0x50 + r.val % 8)]
  | popShort r => [UInt8.ofNat (0x58 + r.val % 8)]
  | subRsp n => [0x48, 0x81, 0xEC] ++ immediate32 n
  | alignRsp => [0x48, 0x83, 0xE4, 0xF0]
  | leaRbp target offset => [rex true target 0 0, 0x8D, modRm 2 target 5] ++ immediate32 offset
  | vectorStoreRsp x offset =>
    [0xF3, rex false x 0 0, 0x0F, 0x7F, modRm 2 x 4, 0x24] ++ immediate32 offset
  | vectorStoreRbp x offset =>
    [0xF3, rex false x 0 0, 0x0F, 0x7F, modRm 2 x 5] ++ immediate32 offset
  | vectorLoadRbp x offset =>
    [0xF3, rex false x 0 0, 0x0F, 0x6F, modRm 2 x 5] ++ immediate32 offset
  | movFromVector target x => [0x66, rex true x 0 target, 0x0F, 0x7E, modRm 3 x target]
  | movToVector w x => [0x66, rex (w != .w32) x 0 0, 0x0F, 0x6E, modRm 3 x 0]
  | extendRax .w32 true target => [rex true target 0 0, 0x63, modRm 3 target 0]
  | extendRax .w8 signed target =>
    [rex signed target 0 0, 0x0F, if signed then 0xBE else 0xB6, modRm 3 target 0]
  | extendRax .w16 signed target =>
    [rex signed target 0 0, 0x0F, if signed then 0xBF else 0xB7, modRm 3 target 0]
  | extendRax w _ target => [rex (w != .w32) 0 0 target, 0x89, modRm 3 0 target]
  | callRax => [0xFF, 0xD0]
  | call distance => 0xE8 :: immediate32 distance
  | ret => [0xC3]
  | raw bytes => bytes

def size (i : Instruction) : Nat := i.encode.length

end Instruction

/-- The bytes of a piece of code. -/
def encode (code : List Instruction) : List UInt8 := code.flatMap Instruction.encode

def codeSize : List Instruction → Nat
  | [] => 0
  | i :: is => i.size + codeSize is

theorem length_encode (code : List Instruction) : (encode code).length = codeSize code := by
  induction code with
  | nil => rfl
  | cons i is ih =>
    rw [encode, List.flatMap_cons, List.length_append, ← encode, ih]
    rfl

end GuestMemory.X64
