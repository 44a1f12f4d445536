import GuestMemory.Journal
import GuestMemory.Site.Table
import GuestMemory.X64.CallPatch
import GuestMemory.X64.Code

/-!
Faults of emitted code. A fault in the host window at a registered site uses up the record of the
site, lets the patcher divert it and marks its guest program counter. Everything else is left to the
host.
-/
namespace GuestMemory.Site

/-- How a site is diverted to its slow path. -/
inductive Patcher where
  /-- Emits no accesses of its own and diverts none. -/
  | dispatchOnly
  /-- Puts a call in the place of the site. -/
  | call
  | custom (attempt : HostAddress → Record → Except PatchError Unit)

/-- Diverts a site. Changing protection spans whole pages, and the end of the last one has to stay
below `2 ^ 64`. -/
def Patcher.patch (p : Patcher) (code : X64.Code) (site : HostAddress) (r : Record) :
    Except (Failure PatchError) X64.Code :=
  match p with
  | .dispatchOnly => .error (.refused .unsupported)
  | .custom attempt =>
    match attempt site r with
    | .ok _ => .ok code
    | .error e => .error (.refused e)
  | .call =>
    match X64.callDistance site r.codeSize r.thunk with
    | .error e => .error (.refused e)
    | .ok distance =>
      if 0x10000000000000000 ≤ site.toNat + r.codeSize.toNat + pageSize then .error .overflow
      else if code.holds site r.codeSize.toNat then
        match code.overwrite? site (X64.callPatch distance r.codeSize) with
        | some code => .ok code
        | none => .error (.refused (.protection site code.unmapped))
      else .error (.refused (.protection site code.unmapped))

inductive FaultOutcome where
  | outside
  | patched (guestPc guest : GuestAddress)
  | unhandled
  /-- The patcher's arithmetic left 64 bits. -/
  | overflow
  deriving DecidableEq, Repr

/-- What handling a fault needs: the range it is responsible for, the sites, the patcher, and the
code that holds the sites. -/
structure FaultContext where
  base : HostAddress
  size : Nat
  table : Table := {}
  patcher : Patcher := .dispatchOnly
  code : X64.Code := {}

namespace FaultContext

def contains (ctx : FaultContext) (a : HostAddress) : Bool :=
  ctx.base ≤ a && (a - ctx.base).toNat < ctx.size

/-- Handles a fault at host address `a` of the instruction at `pc`. -/
def handle (ctx : FaultContext) (pc a : HostAddress) : FaultOutcome × FaultContext × List Event :=
  if !ctx.contains a then (.outside, ctx, [])
  else
    let guest := (a - ctx.base).toUInt32
    match ctx.table.take pc with
    | .error cause => (.unhandled, ctx, [.siteUnknown guest cause])
    | .ok (r, table) =>
      let ctx := { ctx with table }
      match ctx.patcher.patch ctx.code pc r with
      | .error .overflow => (.overflow, ctx, [.patchTried pc r])
      | .error (.refused cause) =>
        (.unhandled, ctx, [.patchTried pc r, .patchFailed pc r guest cause])
      | .ok code =>
        (.patched r.guestPc guest, { ctx with table := ctx.table.mark r.guestPc, code },
          [.patchTried pc r, .patched pc r guest])

end FaultContext

end GuestMemory.Site
