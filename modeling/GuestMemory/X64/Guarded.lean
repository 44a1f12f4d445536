import GuestMemory.X64.Machine

/-!
A piece of code that holds one guarded access: placing it with its slow path, and running it with
given registers.
-/
namespace GuestMemory.X64

open Site

variable {σ : Type}

/-- A guarded access that has been placed. -/
structure Guarded where
  access : Access
  /-- Register that holds the window's base. -/
  base : Reg
  site : HostAddress
  codeSize : UInt32
  deriving Repr

/-- Whether the data register has a known value after a run, on either path: a load sets it, a store
keeps it if it is live. -/
def Guarded.settlesData (g : Guarded) : Bool :=
  let live := if g.access.isVector then g.access.vectorMask else g.access.gprMask
  g.access.isLoad || live.toNat.testBit g.access.dataRegister.toNat

inductive Placing where
  /-- The space has no window, or the register cannot hold its base. -/
  | noEmitter
  /-- The emitter leaves the access to the dispatch path. -/
  | notEmitted
  | placed (g : Guarded)
  deriving Repr

/-- Emits an access and its slow path at a host address and registers the site. -/
def place (entries : Entries) (s : Space σ) (base : Nat) (codeBase : HostAddress) (a : Access) :
    Placing × Space σ :=
  match Emitter.create? entries s.windowBase? base with
  | none => (.noEmitter, s)
  | some e =>
    match e.emit [] a with
    | (none, _, _) => (.notEmitted, s)
    | (some emitted, e', code) =>
      let (pending, _, code) := e'.finish code
      let s := s.placeCode codeBase code
      let s := (pending.filterMap (·.resolve? codeBase)).foldl
        (fun s (site, r) => s.registerSite site r) s
      (.placed ⟨a, e.base, codeBase + UInt64.ofNat emitted.offset, emitted.codeSize⟩, s)

/-- The data register as 128 bits; a general register fills the low half, and `upper` gives the
other. -/
def Machine.data (m : Machine σ) (g : Guarded) (upper : BitVec 128) : BitVec 128 :=
  let r : Reg := Reg.ofNat g.access.dataRegister.toNat
  if g.access.isVector then m.vector r
  else (upper.extractLsb' 64 64) ++ (m.gpr r).toBitVec

/-- Registers for a run: the data, the window's base, the guest address, and a stack. -/
def Machine.prepare (s : Space σ) (g : Guarded) (stack : HostAddress) (v : GuestAddress)
    (data : BitVec 128) : Machine σ :=
  let r : Reg := Reg.ofNat g.access.dataRegister.toNat
  let m : Machine σ := { gpr := fun _ => 0, vector := fun _ => 0, space := s }
  let m := if g.access.isVector then m.setVector r data
    else m.setGpr r (UInt64.ofBitVec (data.setWidth 64))
  ((m.setGpr rsp stack).setGpr g.base (s.windowBase?.getD 0)).setGpr
    (Reg.ofNat g.access.addressRegister.toNat) v.toUInt64

/-- Whether a site has been diverted to its slow path. -/
def isDiverted (s : Space σ) (site : HostAddress) : Bool :=
  s.window.any fun w => Machine.isDiverted w.faults.code site

/-- What came of running a placed access. -/
inductive Ran where
  | windowOff
  /-- Nothing could divert the site: it has no record. -/
  | unregistered
  /-- Nothing could divert the site: the patcher does not. -/
  | noPatcher
  /-- Some byte would lie past the end of the window. -/
  | wraps
  | trapped (t : Trap)
  /-- It ran, with the data register afterwards. -/
  | finished (data : BitVec 128)
  deriving DecidableEq, Repr

/-- Why a site that has not been diverted should not be run at a guest address. -/
def obstacle? (w : Window) (g : Guarded) (v : GuestAddress) : Option Ran :=
  if Machine.isDiverted w.faults.code g.site then none
  else if (w.faults.table.get? g.site).isNone then some .unregistered
  else
    match w.faults.patcher with
    | .call => if 0x100000000 < v.toNat + g.access.width.bytes then some .wraps else none
    | _ => some .noPatcher

/-- Runs a placed access at a guest address. -/
def run (host : Host) (s : Space σ) (g : Guarded) (stack : HostAddress) (v : GuestAddress)
    (data : BitVec 128) : Ran × Space σ :=
  match s.window with
  | none => (.windowOff, s)
  | some w =>
    match obstacle? w g v with
    | some o => (o, s)
    | none =>
      match (Machine.prepare s g stack v data).runSite host g.site with
      | .ok m => (.finished (m.data g data), m.space)
      | .error t => (.trapped t, s)

end GuestMemory.X64
