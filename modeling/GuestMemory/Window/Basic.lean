import GuestMemory.Site.Fault
import GuestMemory.Virtual
import GuestMemory.Window.Aliases
import GuestMemory.Window.Pages

/-!
The host window together with its bookkeeping and the faults of the code that uses it. Pages follow
the virtual map: `sync` gives a page what the map now says.
-/
namespace GuestMemory

structure Window where
  pages : Window.Pages
  aliases : Window.Aliases := {}
  faults : Site.FaultContext

namespace Window

/-- A window at `base` that shows nothing. -/
def create (base : HostAddress) (kernel : Kernel := .linux) : Window where
  pages := { base, answers := kernel.changes }
  faults := { base, size := windowSize, code := { unmapped := kernel.unmappedCode } }

def base (w : Window) : HostAddress := w.pages.base

/-- Lets guest page `v` show an arena page, or nothing. The bookkeeping of a page that is mapped
follows the host, and that of one that is unmapped goes before it. -/
def sync (w : Window) (v : GuestAddress) (target : Option (Nat × Protection)) :
    Except ArenaError (Option Event) × Window :=
  match target with
  | some (offset, protection) =>
    match w.pages.ask with
    | (some e, pages) => (.error (.os .mapPage e), { w with pages })
    | (none, pages) =>
      (.ok (some (.pageMapped v offset protection)), { w with
        pages := pages.map v offset protection
        aliases := (w.aliases.create v (UInt32.ofNat offset)).2 })
  | none =>
    match w.aliases.remove v with
    | (none, aliases) => (.ok none, { w with aliases })
    | (some _, aliases) =>
      match w.pages.ask with
      | (some e, pages) => (.error (.os .reserve e), { w with pages, aliases })
      | (none, pages) =>
        (.ok (some (.pageUnmapped v.pageBase)), { w with pages := pages.unmap v, aliases })

/-- A walk over guest pages that are brought up to date, with what it reports. It ends at the first
change that the host refuses. -/
structure Walk where
  window : Window
  journal : Journal
  refusal : Option ArenaError := none

namespace Walk

def visit (k : Walk) (v : GuestAddress) (target : Option (Nat × Protection)) : Walk :=
  match k.refusal with
  | some _ => k
  | none =>
    match k.window.sync v target with
    | (.ok event, window) => { k with window, journal := event.elim k.journal k.journal.add }
    | (.error e, window) => { k with window, refusal := some e }

/-- Visits `n` pages from `start` on. -/
def visitAll (k : Walk) (start : GuestAddress)
    (target : GuestAddress → Option (Nat × Protection)) (n : Nat) : Walk :=
  n.fold (fun i _ k => k.visit (VirtualMap.pageAddress start i)
    (target (VirtualMap.pageAddress start i))) k

end Walk

/-- Protects guest pages one after another, up to the first that the host refuses. -/
def Pages.protectAll (protection : Protection) : List GuestAddress → Pages →
    Option ArenaError × Pages
  | [], w => (none, w)
  | v :: vs, w =>
    match w.ask with
    | (some e, w) => (some (.os .protectPage e), w)
    | (none, w) => protectAll protection vs (w.protect v protection)

/-- Protects every guest page that shows a page of the arena range at `offset`. -/
def protect (w : Window) (offset size : UInt32) (protection : Protection) :
    Option ArenaError × Window :=
  let (refusal, pages) := Pages.protectAll protection (w.aliases.ofRange offset size) w.pages
  (refusal, { w with pages })

/-- Arena offset behind a host address in the window. -/
def resolve (w : Window) (a : HostAddress) : Option UInt32 :=
  (w.pages.guest? a).bind w.aliases.resolve

/-- Shows nothing any more, unless the host refuses; the bookkeeping is cleared in any case. -/
def clear (w : Window) : Option ArenaError × Window :=
  match w.pages.ask with
  | (some e, pages) => (some (.os .reserve e), { w with pages, aliases := {} })
  | (none, pages) => (none, { w with pages := pages.unmapAll, aliases := {} })

end Window

end GuestMemory
