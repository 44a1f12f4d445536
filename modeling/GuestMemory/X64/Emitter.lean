import GuestMemory.Site.Access
import GuestMemory.X64.CallPatch

/-!
Emission of guarded accesses. Each is a single move to or from the host window, long enough for a
call; its slow path, a thunk that saves what is live and calls an entry point of the space, follows
when the block is finished.
-/
namespace GuestMemory.X64

open Site

/-- What thunks call: the entry points for each width and the space that they are given. -/
structure Entries where
  space : UInt64
  read : Width → UInt64
  write : Width → UInt64

/-- An emitted access whose thunk is still to come. -/
structure Deferred where
  siteOffset : Nat
  codeSize : UInt32
  access : Access
  address : Reg
  data : Reg
  deriving Repr

structure Emitter where
  entries : Entries
  windowBase : HostAddress
  /-- Holds the window's base in all emitted code. -/
  base : Reg
  pending : List Deferred := []

/-- Bytes below the saved frame pointer for values of 128 bits. -/
def scratchSize : Nat := 16

/-- Registers that a called function may change. -/
def isCallerSaved (r : Reg) : Bool := r.val ≤ 2 || 6 ≤ r.val && r.val ≤ 11

namespace Emitter

/-- An emitter for a register that is free to hold the window's base. -/
def create? (entries : Entries) (windowBase? : Option HostAddress) (base : Nat) :
    Option Emitter := do
  if h : base < 16 then
    if base = rsp.val ∨ base = rbp.val then none
    else return { entries, windowBase := ← windowBase?, base := ⟨base, h⟩ }
  else none

/-- A register that holds neither the stack, the frame nor the window's base. -/
def general? (e : Emitter) (r : UInt8) : Option Reg :=
  if h : r.toNat < 16 then
    if r.toNat = rsp.val ∨ r.toNat = rbp.val ∨ r.toNat = e.base.val then none
    else some ⟨r.toNat, h⟩
  else none

/-- Address and data register of an access that can be emitted. A byte store from one of the
registers 4 to 7 would name another register without a prefix and is left out. -/
def operands? (e : Emitter) (a : Access) : Option (Reg × Reg) := do
  let address ← e.general? a.addressRegister
  if a.isVector then
    if h : a.dataRegister.toNat < 16 then
      if a.width = .w8 ∨ a.width = .w16 then none
      else return (address, ⟨a.dataRegister.toNat, h⟩)
    else none
  else
    let data ← e.general? a.dataRegister
    if a.width = .w128 then none
    else if a.width = .w8 ∧ !a.isLoad ∧ 4 ≤ data.val ∧ data.val < 8 then none
    else return (address, data)

def fastPath (e : Emitter) (a : Access) (address data : Reg) : Instruction :=
  match a.isVector, a.isLoad with
  | false, true => .load a.width a.isSigned data e.base address
  | false, false => .store a.width data e.base address
  | true, true => .vectorLoad a.width data e.base address
  | true, false => .vectorStore a.width data e.base address

/-- Loads the window's base. -/
def loadBase (e : Emitter) : List Instruction := [.movImmediate e.base e.windowBase]

/-- An access with no-operations up to the length of a call. -/
def guarded (e : Emitter) (a : Access) (address data : Reg) : List Instruction :=
  let move := e.fastPath a address data
  move :: List.replicate (callSize - move.size) .nop

def savedGprs (d : Deferred) : List Reg :=
  (List.finRange 16).filter fun r =>
    isCallerSaved r && d.access.gprMask.toNat.testBit r &&
      !(d.access.isLoad && !d.access.isVector && r == d.data)

def savedVectors (d : Deferred) : List Reg :=
  (List.finRange 16).filter fun x =>
    d.access.vectorMask.toNat.testBit x &&
      !(d.access.isLoad && d.access.isVector && x == d.data)

/-- Brings the address into `rsi` and the value, or a place for it, into `rdx`. -/
def arguments (d : Deferred) : List Instruction :=
  match d.access.isLoad, d.access.isVector, d.access.width with
  | true, _, .w128 => [.mov32 rsi d.address, .leaRbp rdx (-scratchSize)]
  | true, _, _ => [.mov32 rsi d.address]
  | false, true, .w128 =>
    [.vectorStoreRbp d.data (-scratchSize), .mov32 rsi d.address, .leaRbp rdx (-scratchSize)]
  | false, true, _ => [.mov32 rsi d.address, .movFromVector rdx d.data]
  | false, false, _ =>
    [.push d.address, .push d.data, .popShort rdx, .popShort rsi, .mov32Short rsi rsi]

/-- Brings the answer of a load into the data register. -/
def result (d : Deferred) : List Instruction :=
  match d.access.isLoad, d.access.isVector, d.access.width with
  | false, _, _ => []
  | true, false, w => [.extendRax w d.access.isSigned d.data]
  | true, true, .w128 => [.vectorLoadRbp d.data (-scratchSize)]
  | true, true, w => [.movToVector w d.data]

def thunk (e : Emitter) (d : Deferred) : List Instruction :=
  let gprs := savedGprs d
  let vectors := savedVectors d
  let gprBytes := 8 * gprs.length
  let vectorBytes := 16 * vectors.length
  let entry := if d.access.isLoad then e.entries.read d.access.width
    else e.entries.write d.access.width
  [.pushShort rbp, .mov64 rbp rsp, .subRsp scratchSize]
    ++ gprs.map .push
    ++ (if vectors.isEmpty then [] else [.subRsp vectorBytes])
    ++ vectors.zipIdx.map (fun (x, i) => .vectorStoreRsp x (16 * i))
    ++ arguments d
    ++ [.movImmediate rdi e.entries.space, .alignRsp, .movImmediate rax entry, .callRax]
    ++ result d
    ++ vectors.zipIdx.map
      (fun (x, i) => .vectorLoadRbp x (16 * i - (scratchSize + gprBytes + vectorBytes)))
    ++ [.leaRbp rsp (-(scratchSize + gprBytes))]
    ++ gprs.reverse.map .pop
    ++ [.mov64 rsp rbp, .popShort rbp, .ret]

/-- Puts an access at the end of the code, if it can be emitted. -/
def emit (e : Emitter) (code : List Instruction) (a : Access) :
    Option Emitted × Emitter × List Instruction :=
  match e.operands? a with
  | none => (none, e, code)
  | some (address, data) =>
    let site := e.guarded a address data
    let siteOffset := codeSize code
    let codeSize := UInt32.ofNat (codeSize site)
    (some ⟨siteOffset, codeSize⟩,
      { e with pending := e.pending ++ [⟨siteOffset, codeSize, a, address, data⟩] }, code ++ site)

/-- Puts accesses at the end of the code, one after another. -/
def emitAll (e : Emitter) (code : List Instruction) :
    List Access → List (Option Emitted) × Emitter × List Instruction
  | [] => ([], e, code)
  | a :: as =>
    let (site, e, code) := e.emit code a
    let (sites, e, code) := e.emitAll code as
    (site :: sites, e, code)

/-- Puts the thunks of the pending accesses, in their order, at the end of the code. -/
def emitThunks (e : Emitter) (code : List Instruction) :
    List Deferred → List Pending × List Instruction
  | [] => ([], code)
  | d :: ds =>
    let (rest, code') := e.emitThunks (code ++ e.thunk d) ds
    (⟨d.siteOffset, codeSize code, d.access.record d.codeSize 0⟩ :: rest, code')

def finish (e : Emitter) (code : List Instruction) : List Pending × Emitter × List Instruction :=
  let (sites, code) := e.emitThunks code e.pending
  (sites, { e with pending := [] }, code)

end Emitter

end GuestMemory.X64
