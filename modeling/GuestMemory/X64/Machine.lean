import GuestMemory.Space.Access
import GuestMemory.Space.Window
import GuestMemory.X64.Emitter

/-!
The processor that runs emitted code: its registers, host memory with the window in it, and what
each instruction does. A call of an entry point is a guest access of the space; a function that is
called leaves anything in the registers that it may change, and on the stack below its return
address.
-/
namespace GuestMemory

namespace Space

variable {σ : Type}

/-- Where a byte at a host address is kept, if the access is allowed: in the window this is a byte
of the arena, elsewhere it is the address itself. -/
def hostTarget? (s : Space σ) (isStore : Bool) (a : HostAddress) : Option HostAddress :=
  match s.window.bind (·.pages.guest? a) with
  | none => some a
  | some v =>
    match s.window.bind (·.pages.get v) with
    | none => none
    | some b =>
      if if isStore then b.protection.allowsStore else b.protection.allowsLoad then
        some (s.arena.base + UInt64.ofNat b.offset + v.pageOffset.toUInt64)
      else none

def hostTargets? (s : Space σ) (isStore : Bool) (a : HostAddress) :
    Nat → Option (List HostAddress)
  | 0 => some []
  | n + 1 => do
    let t ← s.hostTarget? isStore a
    return t :: (← s.hostTargets? isStore (a + 1) n)

/-- The first of the `n` bytes at a host address that may not be accessed. -/
def deniedAt (s : Space σ) (isStore : Bool) (a : HostAddress) : Nat → HostAddress
  | 0 => a
  | n + 1 => if (s.hostTarget? isStore a).isNone then a else s.deniedAt isStore (a + 1) n

/-- The `n` bytes at a host address, if all of them may be loaded. -/
def hostLoad? (s : Space σ) (a : HostAddress) (n : Nat) : Option (List UInt8) :=
  (s.hostTargets? false a n).map fun targets => targets.map s.memory.byte

/-- Stores bytes at a host address, all of them or none. -/
def hostStore? (s : Space σ) (a : HostAddress) (bs : List UInt8) : Option (Space σ) :=
  (s.hostTargets? true a bs.length).map fun targets =>
    { s with memory := (targets.zip bs).foldl (fun m (t, b) => m.setByte t b) s.memory }

end Space

namespace X64

variable {σ : Type}

structure Machine (σ : Type) where
  gpr : Reg → UInt64
  vector : Reg → BitVec 128
  space : Space σ

/-- What runs beside the emitted code: the entry points, and what called functions leave in the
registers that they may change. -/
structure Host where
  entries : Entries
  gprLeft : Reg → UInt64
  vectorLeft : Reg → BitVec 128
  /-- Bytes that called functions leave below their return address. -/
  frame : List UInt8 := []

inductive Trap where
  /-- The byte at a host address may not be accessed. -/
  | fault (a : HostAddress)
  /-- The code did what called functions or the processor do not define. -/
  | undefined
  deriving DecidableEq, Repr

def put {α : Type} (f : Reg → α) (r : Reg) (x : α) : Reg → α := fun q => if q = r then x else f q

@[simp] theorem put_same {α : Type} (f : Reg → α) (r : Reg) (x : α) : put f r x r = x := by
  simp [put]

theorem put_other {α : Type} (f : Reg → α) {q r : Reg} (x : α) (h : q ≠ r) :
    put f r x q = f q := by
  simp [put, h]

/-- A word as a general register holds it. -/
def extend {w : Width} (signed : Bool) (x : Word w) : UInt64 :=
  UInt64.ofBitVec (if signed then x.signExtend 64 else x.setWidth 64)

def allWidths : List Width := [.w8, .w16, .w32, .w64, .w128]

namespace Machine

def setGpr (m : Machine σ) (r : Reg) (x : UInt64) : Machine σ := { m with gpr := put m.gpr r x }

def setVector (m : Machine σ) (r : Reg) (x : BitVec 128) : Machine σ :=
  { m with vector := put m.vector r x }

def load (m : Machine σ) (w : Width) (a : HostAddress) : Except Trap (Word w) :=
  match m.space.hostLoad? a w.bytes with
  | some bs => .ok (Word.ofBytes w bs)
  | none => .error (.fault (m.space.deniedAt false a w.bytes))

def storeBytes (m : Machine σ) (a : HostAddress) (bs : List UInt8) : Except Trap (Machine σ) :=
  match m.space.hostStore? a bs with
  | some space => .ok { m with space }
  | none => .error (.fault (m.space.deniedAt true a bs.length))

def store {w : Width} (m : Machine σ) (a : HostAddress) (x : Word w) : Except Trap (Machine σ) :=
  m.storeBytes a x.bytes

def push (m : Machine σ) (x : UInt64) : Except Trap (Machine σ) :=
  let top := m.gpr rsp - 8
  (m.setGpr rsp top).store (w := .w64) top x.toBitVec

def pop (m : Machine σ) : Except Trap (UInt64 × Machine σ) := do
  let x ← m.load .w64 (m.gpr rsp)
  return (UInt64.ofBitVec x, m.setGpr rsp (m.gpr rsp + 8))

/-- Address at a signed distance from the frame or stack pointer. -/
def near (m : Machine σ) (r : Reg) (offset : Int) : HostAddress := m.gpr r + UInt64.ofInt offset

/-- Registers after a called function has returned `answer`. -/
def called (host : Host) (m : Machine σ) (answer : UInt64) : Machine σ :=
  { m with
    gpr := fun r => if r = rax then answer else if isCallerSaved r then host.gprLeft r else m.gpr r
    vector := host.vectorLeft }

/-- A function that runs leaves its bytes below its return address. -/
def useStack (host : Host) (m : Machine σ) : Except Trap (Machine σ) :=
  m.storeBytes (m.gpr rsp - UInt64.ofNat host.frame.length) host.frame

/-- The access of the entry point at the address in `rax`, with its answer. -/
def serve (host : Host) (m : Machine σ) : Except Trap (UInt64 × Machine σ) := do
  let v : GuestAddress := (m.gpr rsi).toUInt32
  match allWidths.find? (host.entries.read · == m.gpr rax) with
  | some w =>
    let (x, space) := m.space.read w v
    let m := { m with space }
    if w = .w128 then return (host.gprLeft rax, ← m.store (m.gpr rdx) x)
    else return (extend false x, m)
  | none =>
    match allWidths.find? (host.entries.write · == m.gpr rax) with
    | some w =>
      let x ← if w = .w128 then m.load w (m.gpr rdx)
        else pure ((m.gpr rdx).toBitVec.setWidth w.bits)
      return (host.gprLeft rax, { m with space := m.space.write v x })
    | none => throw .undefined

/-- Runs the entry point up to its return. It uses the stack on both sides of its access. -/
def runEntry (host : Host) (m : Machine σ) : Except Trap (HostAddress × Machine σ) := do
  let (answer, m) ← (← m.useStack host).serve host
  let (back, m) ← (← m.useStack host).pop
  return (back, m.called host answer)

/-- Calls the entry point at the address in `rax`, which must find the stack aligned and the space in
`rdi`, from an instruction before `next`. -/
def callEntry (host : Host) (m : Machine σ) (next : HostAddress) : Except Trap (Machine σ) := do
  if m.gpr rsp % 16 != 0 || m.gpr rdi != host.entries.space then throw .undefined
  let (back, m) ← (← m.push next).runEntry host
  if back = next then return m else throw .undefined

/-- One instruction other than calls and returns. -/
def step (m : Machine σ) : Instruction → Except Trap (Machine σ)
  | .load w signed data base index => do
    let x ← m.load w (m.gpr base + m.gpr index)
    return m.setGpr data (extend signed x)
  | .store w data base index =>
    m.store (w := w) (m.gpr base + m.gpr index) ((m.gpr data).toBitVec.setWidth w.bits)
  | .vectorLoad w data base index => do
    let x ← m.load w (m.gpr base + m.gpr index)
    return m.setVector data (x.setWidth 128)
  | .vectorStore w data base index =>
    m.store (w := w) (m.gpr base + m.gpr index) ((m.vector data).setWidth w.bits)
  | .nop => return m
  | .movImmediate r value => return m.setGpr r value
  | .mov64 target source => return m.setGpr target (m.gpr source)
  | .mov32 target source | .mov32Short target source =>
    return m.setGpr target (m.gpr source).toUInt32.toUInt64
  | .push r | .pushShort r => m.push (m.gpr r)
  | .pop r | .popShort r => do
    let (x, m) ← m.pop
    return m.setGpr r x
  | .subRsp n => return m.setGpr rsp (m.gpr rsp - UInt64.ofNat n)
  | .alignRsp => return m.setGpr rsp (m.gpr rsp &&& 0xFFFFFFFFFFFFFFF0)
  | .leaRbp target offset => return m.setGpr target (m.near rbp offset)
  | .vectorStoreRsp x offset => m.store (w := .w128) (m.near rsp offset) (m.vector x)
  | .vectorStoreRbp x offset => m.store (w := .w128) (m.near rbp offset) (m.vector x)
  | .vectorLoadRbp x offset => do
    let value ← m.load .w128 (m.near rbp offset)
    return m.setVector x value
  | .movFromVector target x => return m.setGpr target (UInt64.ofBitVec ((m.vector x).setWidth 64))
  | .movToVector w x =>
    return m.setVector x (((m.gpr rax).toBitVec.setWidth w.bits).setWidth 128)
  | .extendRax w signed target =>
    return m.setGpr target
      (extend (w := w) signed ((m.gpr rax).toBitVec.setWidth w.bits))
  | .callRax | .call _ | .ret | .raw _ => .error .undefined

/-- Runs code at a host address up to its return, which goes to the address on top of the stack. -/
def runToReturn (host : Host) (m : Machine σ) (a : HostAddress) : List Instruction →
    Except Trap (HostAddress × Machine σ)
  | [] => .error .undefined
  | .ret :: _ => m.pop
  | i :: code => do
    let next := a + UInt64.ofNat i.size
    let m ← if i = .callRax then m.callEntry host next else m.step i
    m.runToReturn host next code

def code (m : Machine σ) : Code := (m.space.window.map (·.faults.code)).getD {}

/-- Runs the call in the place of a diverted site: the thunk, and back to the end of the call. -/
def runCall (host : Host) (m : Machine σ) (site : HostAddress) (distance : Int) :
    Except Trap (Machine σ) := do
  let next := site + UInt64.ofNat callSize
  let thunk := next + UInt64.ofInt distance
  match m.code.fetch? thunk with
  | none => throw .undefined
  | some code =>
    let (back, m) ← (← m.push next).runToReturn host thunk code
    if back = next then return m else throw .undefined

/-- Runs the access at a site. A fault is offered to the space, and if that diverts the site the
access is run again through its call. -/
def runSite (host : Host) (m : Machine σ) (site : HostAddress) : Except Trap (Machine σ) := do
  match m.code.fetch? site with
  | some (.call distance :: _) => m.runCall host site distance
  | some (i :: _) =>
    match m.step i with
    | .error (.fault a) =>
      let (outcome, space) := m.space.handleFault site a
      let m := { m with space }
      match outcome, m.code.fetch? site with
      | .patched .., some (.call distance :: _) => m.runCall host site distance
      | _, _ => throw (.fault a)
    | result => result
  | _ => throw .undefined

/-- Whether a site has been diverted. -/
def isDiverted (code : Code) (site : HostAddress) : Bool :=
  match code.fetch? site with
  | some (.call _ :: _) => true
  | _ => false

end Machine

end X64

end GuestMemory
