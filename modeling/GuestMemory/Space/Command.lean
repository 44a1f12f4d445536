import GuestMemory.Layout
import GuestMemory.Space.Access

/-!
The calls of an address space as data, so that a history is a list of them. `perform` says what each
call answers and leaves behind, `step` adds what was reported meanwhile, and `run` goes through a
history.
-/
namespace GuestMemory.Space

inductive Command (σ : Type) where
  | register (h : Handler σ)
  | reassign (id : HandlerId) (h : Handler σ)
  | readHandler (id : HandlerId) (w : Width) (a : GuestAddress)
  | writeHandler (id : HandlerId) (w : Width) (a : GuestAddress) (x : Word w)
  | allocate (name : String) (size : Nat) (protection : Protection)
  | mapBlock (block : Block) (start : GuestAddress) (size blockSize : UInt32)
  | mapMemory (base : HostAddress) (start : GuestAddress) (size blockSize : UInt32)
  | mapHandler (id : HandlerId) (start : GuestAddress) (size : UInt32)
  | duplicate (target start : GuestAddress) (size : UInt32)
  | project (v p : GuestAddress) (size : UInt32)
  | projectBlock (v : GuestAddress) (block : Block) (size : UInt32)
  | projectBuffer (v : GuestAddress) (buffer : HostAddress) (size : UInt32)
  | unmap (v : GuestAddress) (size : UInt32)
  | install (hardware : Layout.Hardware)
  | read (w : Width) (v : GuestAddress)
  | write (w : Width) (v : GuestAddress) (x : Word w)
  | ramRead (w : Width) (v : GuestAddress)
  | ramWrite (w : Width) (v : GuestAddress) (x : Word w)
  /-- Bytes put into host memory past all maps, as a loader does. -/
  | loadBytes (a : HostAddress) (bytes : List UInt8)
  | takeException
  | control (c : Cache.Control.Command)
  | cacheOp (op : Cache.Op) (v : GuestAddress) (packed : UInt64)
  | protect (block : Block) (protection : Protection)
  | setPatcher (p : Site.Patcher)
  | sites (c : Site.Command)
  | fault (pc a : HostAddress)
  | reset
  | shutdown

inductive Answer (σ : Type) where
  | done
  | refused (cause : SetupError)
  | overflow
  | slot (id : HandlerId)
  | noHandler
  | replaced (old : Handler σ)
  | block (b : Block)
  | layout (l : Layout)
  | word (w : Width) (x : Word w)
  | maybeWord (w : Width) (x : Option (Word w))
  | stored (b : Bool)
  | exception (e : Option GuestException)
  | tag (packed : Option UInt64)
  | sites (a : Site.Answer)
  | outcome (o : Site.FaultOutcome)

variable {σ : Type}

/-- The answer of a mapping call; one that is refused changes nothing. -/
def settle (s : Space σ) (result : Except MapError (Space σ)) : Answer σ × Space σ :=
  match result with
  | .ok s => (.done, s)
  | .error e => (.refused (.map e), s)

/-- The answer of a call that the host had to follow. -/
def Answer.ofRefusal : Option ArenaError → Answer σ
  | none => .done
  | some e => .refused (.arena e)

/-- The answer of a call that changes the virtual map, and then the window. -/
def settleSynced (s : Space σ) (result : Except MapError (Option ArenaError × Space σ)) :
    Answer σ × Space σ :=
  match result with
  | .ok (refusal, s) => (.ofRefusal refusal, s)
  | .error e => (.refused (.map e), s)

def performRegister (s : Space σ) (h : Handler σ) : Answer σ × Space σ :=
  match s.register h with
  | .ok (id, s) => (.slot id, s)
  | .error e => (.refused (.map e), s)

def performReassign (s : Space σ) (id : HandlerId) (h : Handler σ) : Answer σ × Space σ :=
  match s.reassign id h with
  | .ok (old, s) => (.replaced old, s)
  | .error e => (.refused (.map e), s)

def performAllocate (s : Space σ) (name : String) (size : Nat) (protection : Protection) :
    Answer σ × Space σ :=
  match s.allocate name size protection with
  | .ok (b, s) => (.block b, s)
  | .error (.refused e) => (.refused (.arena e), s)
  | .error .overflow => (.overflow, s)

def performInstall (s : Space σ) (hardware : Layout.Hardware) : Answer σ × Space σ :=
  match Layout.install hardware s with
  | .ok l s => (.layout l, s)
  | .error (.refused e) s => (.refused e, s)
  | .error .overflow s => (.overflow, s)

/-- Without a window there are no sites, and what is registered is lost. -/
def performSites (s : Space σ) (c : Site.Command) : Answer σ × Space σ :=
  let (a, t) := (s.sites?.getD {}).perform c
  (.sites a, s.modifySites fun _ => t)

def performFault (s : Space σ) (pc a : HostAddress) : Answer σ × Space σ :=
  match s.handleFault pc a with
  | (.overflow, s) => (.overflow, s)
  | (o, s) => (.outcome o, s)

def perform (s : Space σ) : Command σ → Answer σ × Space σ
  | .register h => s.performRegister h
  | .reassign id h => s.performReassign id h
  | .readHandler id w a =>
    if s.handlers.contains id then
      let (x, s) := s.readHandler id w a
      (.word w x, s)
    else (.noHandler, s)
  | .writeHandler id _ a x =>
    if s.handlers.contains id then (.done, s.writeHandler id a x) else (.noHandler, s)
  | .allocate name size protection => s.performAllocate name size protection
  | .mapBlock block start size blockSize => s.settle (s.mapBlock block start size blockSize)
  | .mapMemory base start size blockSize => s.settle (s.mapMemory base start size blockSize)
  | .mapHandler id start size => s.settle (s.mapHandler id start size)
  | .duplicate target start size => s.settle (s.duplicate target start size)
  | .project v p size => s.settleSynced (s.project v p size)
  | .projectBlock v block size => s.settleSynced (s.projectBlock v block size)
  | .projectBuffer v buffer size => s.settleSynced (s.projectBuffer v buffer size)
  | .unmap v size => s.settleSynced (s.unmap v size)
  | .install hardware => s.performInstall hardware
  | .read w v =>
    let (x, s) := s.read w v
    (.word w x, s)
  | .write _ v x => (.done, s.write v x)
  | .ramRead w v => (.maybeWord w (s.ramRead? w v), s)
  | .ramWrite _ v x =>
    let (b, s) := s.ramWrite v x
    (.stored b, s)
  | .loadBytes a bytes => (.done, { s with memory := s.memory.write a bytes })
  | .takeException =>
    let (e, s) := s.takeException
    (.exception e, s)
  | .control c => (.done, { s with control := s.control.perform c })
  | .cacheOp op v packed =>
    let (tag, s) := s.cacheOp op v packed
    (.tag tag, s)
  | .protect block protection =>
    let (refusal, s) := s.protect block protection
    (.ofRefusal refusal, s)
  | .setPatcher p => (.done, s.setPatcher p)
  | .sites c => s.performSites c
  | .fault pc a => s.performFault pc a
  | .reset =>
    let (refusal, s) := s.reset
    (.ofRefusal refusal, s)
  | .shutdown => (.done, s.shutdown)

/-- What a call answered and what was reported meanwhile. -/
structure Reply (σ : Type) where
  answer : Answer σ
  events : Array Event

/-- One call, with the journal of this call alone. -/
def step (s : Space σ) (c : Command σ) : Reply σ × Space σ :=
  let (answer, s) := s.drained.perform c
  (⟨answer, s.journal.events⟩, s.drained)

def run (s : Space σ) : List (Command σ) → List (Reply σ) × Space σ
  | [] => ([], s)
  | c :: cs =>
    let (reply, s) := s.step c
    let (replies, s) := s.run cs
    (reply :: replies, s)

end GuestMemory.Space
