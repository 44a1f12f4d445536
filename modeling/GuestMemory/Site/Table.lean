import GuestMemory.Error
import GuestMemory.Site.Access

/-!
Bookkeeping of sites: which ones can be diverted, which guest program counters have been, and which
of those still have to be recompiled.
-/
namespace GuestMemory.Site

structure Table where
  /-- Live sites, each address at most once. -/
  sites : List (HostAddress × Record) := []
  faulting : List GuestAddress := []
  /-- Counters to recompile, in the order of their first fault. -/
  requests : List GuestAddress := []
  deriving Repr

namespace Table

instance : Inhabited Table := ⟨{}⟩

def size (t : Table) : Nat := t.sites.length

def isEmpty (t : Table) : Bool := t.sites.isEmpty

def get? (t : Table) (site : HostAddress) : Option Record := t.sites.lookup site

def erase (t : Table) (site : HostAddress) : Table :=
  { t with sites := t.sites.filter (·.1 != site) }

/-- The latest record of a site replaces an earlier one. -/
def register (t : Table) (site : HostAddress) (r : Record) : Table :=
  { t with sites := (site, r) :: (t.erase site).sites }

/-- Removes a site and gives its record, which is thus used once. -/
def take (t : Table) (site : HostAddress) : Except PatchError (Record × Table) :=
  match t.get? site with
  | some r => .ok (r, t.erase site)
  | none => .error (.unknownSite site)

/-- Forgets the sites from `first` to below `last`. -/
def removeRange (t : Table) (first last : HostAddress) : Table :=
  { t with sites := t.sites.filter fun (site, _) => !(first ≤ site && site < last) }

def isFaulting (t : Table) (pc : GuestAddress) : Bool := t.faulting.contains pc

/-- Notes that a counter needs the slow path; the first time this also asks for recompilation. -/
def mark (t : Table) (pc : GuestAddress) : Table :=
  if t.isFaulting pc then t
  else { t with faulting := pc :: t.faulting, requests := t.requests ++ [pc] }

def takeRequests (t : Table) : List GuestAddress × Table := (t.requests, { t with requests := [] })

end Table

/-- The calls that change a table. -/
inductive Command where
  | register (site : HostAddress) (r : Record)
  | take (site : HostAddress)
  | removeRange (first last : HostAddress)
  | mark (pc : GuestAddress)
  | takeRequests
  | clear
  deriving DecidableEq, Repr

inductive Answer where
  | done
  | record (r : Record)
  | refused (cause : PatchError)
  | requests (pcs : List GuestAddress)
  deriving DecidableEq, Repr

def Table.perform (t : Table) : Command → Answer × Table
  | .register site r => (.done, t.register site r)
  | .take site =>
    match t.take site with
    | .ok (r, t) => (.record r, t)
    | .error e => (.refused e, t)
  | .removeRange first last => (.done, t.removeRange first last)
  | .mark pc => (.done, t.mark pc)
  | .takeRequests =>
    let (pcs, t) := t.takeRequests
    (.requests pcs, t)
  | .clear => (.done, {})

end GuestMemory.Site
