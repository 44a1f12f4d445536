import GuestMemory.Space.Basic

/-!
The host window of a space, the sites of the code that uses it, and the end of a space's life.
-/
namespace GuestMemory.Space

variable {σ : Type}

def windowBase? (s : Space σ) : Option HostAddress := s.window.map Window.base

/-- Protects every guest page of the window that shows a page of the block, up to the first that the
host refuses. The dispatch path is not affected; projecting a page again restores the protection of its
region. -/
def protect (s : Space σ) (block : Block) (protection : Protection) :
    Option ArenaError × Space σ :=
  match s.window with
  | none => (none, s)
  | some w =>
    let (refusal, w) := w.protect (UInt32.ofNat block.offset) (UInt32.ofNat block.size) protection
    (refusal, { s with window := some w })

/-- Changes what is known of sites; nothing is, without a window. -/
def modifySites (s : Space σ) (f : Site.Table → Site.Table) : Space σ :=
  { s with
    window := s.window.map fun w =>
      { w with faults := { w.faults with table := f w.faults.table } } }

def sites? (s : Space σ) : Option Site.Table := s.window.map (·.faults.table)

def registerSite (s : Space σ) (site : HostAddress) (r : Site.Record) : Space σ :=
  s.modifySites (·.register site r)

/-- Whether the access at a guest program counter has to use the slow path. -/
def isFaulting (s : Space σ) (pc : GuestAddress) : Bool := s.sites?.any (·.isFaulting pc)

def setPatcher (s : Space σ) (p : Site.Patcher) : Space σ :=
  { s with window := s.window.map fun w => { w with faults := { w.faults with patcher := p } } }

/-- Puts code into executable memory. -/
def placeCode (s : Space σ) (base : HostAddress) (code : List X64.Instruction) : Space σ :=
  { s with
    window := s.window.map fun w =>
      { w with faults := { w.faults with code := w.faults.code.place base code } } }

/-- Offers a host fault at address `a` of the instruction at `pc`. -/
def handleFault (s : Space σ) (pc a : HostAddress) : Site.FaultOutcome × Space σ :=
  match s.window with
  | none => (.outside, s)
  | some w =>
    let (outcome, faults, events) := w.faults.handle pc a
    (outcome, { s with window := some { w with faults }, journal := s.journal.addAll events })

/-- Back to the state after creation, but for handlers, regions, patcher, code and budgets. Only the
window is left as it was, if the host refuses to clear it. -/
def reset (s : Space σ) : Option ArenaError × Space σ :=
  let s := { s with
    cache := {}
    control := s.control.reset
    physical := {}
    virtual := {}
    pending := none }
  match s.window with
  | none => (none, s.note .reset)
  | some w =>
    let w := { w with faults := { w.faults with table := {} } }
    match w.clear with
    | (some e, w) => (some e, { s with window := some w })
    | (none, w) => (none, ({ s with window := some w }.note .windowCleared).note .reset)

/-- Gives up the host window; the dispatch path keeps working. -/
def shutdown (s : Space σ) : Space σ :=
  let s :=
    match s.window with
    | none => s
    | some _ =>
      { s with
        window := none
        journal := s.journal.addAll [.windowDisabled, .windowReleased, .shutDown] }
  { s with cache := {} }

end GuestMemory.Space
