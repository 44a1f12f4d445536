import GuestMemory.X64.Emitter

/-!
How a buffer is laid out. An emitter puts guarded accesses into it, other code may come between, and
from time to time a block is finished with the thunks of the accesses since the last one. Each
accepted access is handed back once, by the next finish and in its place, with the offsets of its
site and of its thunk; no two sites share a byte, nor do two thunks, nor a site and a thunk.
-/
namespace GuestMemory.X64

open Site

variable {code piece : List Instruction} {offset : Nat}

theorem encode_append (code more : List Instruction) :
    encode (code ++ more) = encode code ++ encode more := List.flatMap_append

theorem codeSize_append (code more : List Instruction) :
    codeSize (code ++ more) = codeSize code + codeSize more := by
  simp only [← length_encode, encode_append, List.length_append]

theorem encode_nops (n : Nat) : encode (List.replicate n .nop) = List.replicate n 0x90 := by
  induction n with
  | zero => rfl
  | succ n ih =>
    rw [List.replicate_succ, List.replicate_succ, ← ih]
    rfl

def HasAt (code : List Instruction) (offset : Nat) (piece : List Instruction) : Prop :=
  ∃ before after, code = before ++ piece ++ after ∧ codeSize before = offset

theorem hasAt_end (code piece : List Instruction) : HasAt (code ++ piece) (codeSize code) piece :=
  ⟨code, [], by rw [List.append_nil], rfl⟩

theorem HasAt.append (h : HasAt code offset piece) (more : List Instruction) :
    HasAt (code ++ more) offset piece := by
  obtain ⟨before, after, rfl, hb⟩ := h
  exact ⟨before, after ++ more, by rw [List.append_assoc], hb⟩

theorem HasAt.end_le (h : HasAt code offset piece) : offset + codeSize piece ≤ codeSize code := by
  obtain ⟨before, after, rfl, rfl⟩ := h
  rw [codeSize_append, codeSize_append]
  omega

/-- What is asked of an emitter and of the code around it. -/
inductive Request where
  | access (a : Access)
  /-- Code that the emitter takes no part in. -/
  | other (code : List Instruction)
  | finish

structure Accepted where
  access : Access
  site : Emitted

namespace Accepted

def last (x : Accepted) : Nat := x.site.offset + x.site.codeSize.toNat

/-- Offset and record with which the site has to be handed back, the address of the thunk left
open. -/
def due (x : Accepted) : Nat × Record := (x.site.offset, x.access.record x.site.codeSize 0)

end Accepted

def Deferred.accepted (d : Deferred) : Accepted := ⟨d.access, d.siteOffset, d.codeSize⟩

/-- The accesses between two finishes, and the sites that the second one handed back. -/
structure FinishedBlock where
  accepted : List Accepted
  sites : List Pending

/-- A buffer while it is filled, with the answers of its emitter so far. -/
structure Assembly where
  emitter : Emitter
  code : List Instruction := []
  /-- Accesses since the last finish. -/
  opened : List Accepted := []
  blocks : List FinishedBlock := []

namespace Assembly

def step (b : Assembly) : Request → Assembly
  | .access a =>
    match b.emitter.emit b.code a with
    | (none, emitter, code) => { b with emitter, code }
    | (some site, emitter, code) => { b with emitter, code, opened := b.opened ++ [⟨a, site⟩] }
  | .other code => { b with code := b.code ++ code }
  | .finish =>
    let (sites, emitter, code) := b.emitter.finish b.code
    { emitter, code, opened := [], blocks := b.blocks ++ [⟨b.opened, sites⟩] }

def run (b : Assembly) (requests : List Request) : Assembly := requests.foldl step b

def accepted (b : Assembly) : List Accepted := b.blocks.flatMap (·.accepted) ++ b.opened

def handed (b : Assembly) : List Pending := b.blocks.flatMap (·.sites)

end Assembly

namespace Emitter

def fill (e : Emitter) (requests : List Request) : Assembly :=
  Assembly.run { emitter := e } requests

/-- The slow path of a site. -/
def thunkOf? (e : Emitter) (p : Pending) : Option (List Instruction) :=
  (e.operands? p.record.toAccess).map fun (address, data) =>
    e.thunk ⟨p.siteOffset, p.record.codeSize, p.record.toAccess, address, data⟩

/-- The access stands at its site, which has room for a call. -/
structure HasSite (e : Emitter) (code : List Instruction) (x : Accepted) : Prop where
  long : callSize ≤ x.site.codeSize.toNat
  placed : ∃ address data, e.operands? x.access = some (address, data) ∧
    HasAt code x.site.offset (e.guarded x.access address data) ∧
    codeSize (e.guarded x.access address data) = x.site.codeSize.toNat

/-- The slow path of a site stands in the code beside all of the accesses. -/
def HasThunk (e : Emitter) (code : List Instruction) (accepted : List Accepted) (p : Pending) :
    Prop :=
  ∃ thunk, e.thunkOf? p = some thunk ∧ HasAt code p.thunkOffset thunk ∧
    ∀ x ∈ accepted, x.last ≤ p.thunkOffset ∨ p.thunkOffset + codeSize thunk ≤ x.site.offset

/-- The slow path of one site ends before that of another begins. -/
def Precedes (e : Emitter) (p q : Pending) : Prop :=
  ∀ thunk, e.thunkOf? p = some thunk → p.thunkOffset + codeSize thunk ≤ q.thunkOffset

/-- How a buffer that such an emitter has filled is laid out. -/
structure Lays (e : Emitter) (b : Assembly) : Prop where
  /-- Each finish hands back the accesses since the last one. -/
  returns : ∀ block ∈ b.blocks,
    block.sites.map (fun p => (p.siteOffset, p.record)) = block.accepted.map Accepted.due
  site : ∀ x ∈ b.accepted, e.HasSite b.code x
  apart : b.accepted.Pairwise fun x y => x.last ≤ y.site.offset
  thunk : ∀ p ∈ b.handed, e.HasThunk b.code b.accepted p
  ordered : b.handed.Pairwise e.Precedes

variable {e : Emitter} {b : Assembly} {x : Accepted} {p : Pending} {accepted : List Accepted}

theorem size_fastPath_le (e : Emitter) (a : Access) (address data : Reg) :
    (e.fastPath a address data).size ≤ 8 := by
  obtain ⟨pc, w, load, signed, vector, ra, rd, gprs, vectors⟩ := a
  cases load <;> cases vector <;> cases signed <;> cases w <;>
    simp [fastPath, Instruction.size, Instruction.encode, Instruction.loadOpcode,
      Instruction.indexed]

theorem codeSize_guarded (e : Emitter) (a : Access) (address data : Reg) :
    codeSize (e.guarded a address data) = max (e.fastPath a address data).size callSize := by
  rw [guarded, codeSize, ← length_encode, encode_nops, List.length_replicate]
  omega

theorem HasSite.append (h : e.HasSite code x) (more : List Instruction) :
    e.HasSite (code ++ more) x := by
  obtain ⟨long, address, data, hops, hat, hsize⟩ := h
  exact ⟨long, address, data, hops, hat.append more, hsize⟩

theorem HasSite.last_le (h : e.HasSite code x) : x.last ≤ codeSize code := by
  obtain ⟨-, address, data, -, hat, hsize⟩ := h
  rw [Accepted.last, ← hsize]
  exact hat.end_le

theorem HasThunk.append (h : e.HasThunk code accepted p) (more : List Instruction) :
    e.HasThunk (code ++ more) accepted p := by
  obtain ⟨thunk, hthunk, hat, beside⟩ := h
  exact ⟨thunk, hthunk, hat.append more, beside⟩

/-- An access that comes at the end of the code lies behind the thunks in it. -/
theorem HasThunk.concat (h : e.HasThunk code accepted p) (hx : codeSize code ≤ x.site.offset) :
    e.HasThunk code (accepted ++ [x]) p := by
  obtain ⟨thunk, hthunk, hat, beside⟩ := h
  refine ⟨thunk, hthunk, hat, fun y hy => ?_⟩
  rcases List.mem_append.1 hy with hy | hy
  · exact beside y hy
  · rw [List.mem_singleton.1 hy]
    exact .inr (Nat.le_trans hat.end_le hx)

theorem HasThunk.precedes {q : Pending} (h : e.HasThunk code accepted p)
    (hq : codeSize code ≤ q.thunkOffset) : e.Precedes p q := by
  obtain ⟨thunk, hthunk, hat, -⟩ := h
  intro other hother
  obtain rfl := Option.some.inj (hthunk.symm.trans hother)
  exact Nat.le_trans hat.end_le hq

theorem emit_of_operands {a : Access} {address data : Reg} (e : Emitter) (code : List Instruction)
    (h : e.operands? a = some (address, data)) :
    e.emit code a =
      (some ⟨codeSize code, UInt32.ofNat (codeSize (e.guarded a address data))⟩,
        { e with pending := e.pending ++ [⟨codeSize code,
          UInt32.ofNat (codeSize (e.guarded a address data)), a, address, data⟩] },
        code ++ e.guarded a address data) := by
  rw [emit, h]

theorem emit_of_operands_none {a : Access} (e : Emitter) (code : List Instruction)
    (h : e.operands? a = none) : e.emit code a = (none, e, code) := by
  rw [emit, h]

theorem hasSite_end {a : Access} {address data : Reg} (code : List Instruction)
    (h : e.operands? a = some (address, data)) :
    e.HasSite (code ++ e.guarded a address data)
      ⟨a, codeSize code, UInt32.ofNat (codeSize (e.guarded a address data))⟩ := by
  have hsize := codeSize_guarded e a address data
  have hmove := size_fastPath_le e a address data
  have hcall : callSize = 5 := rfl
  have hcode : (UInt32.ofNat (codeSize (e.guarded a address data))).toNat =
      codeSize (e.guarded a address data) := UInt32.toNat_ofNat_of_lt' (by
    show _ < 2 ^ 32
    omega)
  exact ⟨by simp only [hcode]; omega, address, data, h, hasAt_end _ _, hcode.symm⟩

/-- The thunks come in order, behind all else, each for an access that was deferred. -/
theorem emitThunks_spec {ds : List Deferred} (e : Emitter) (code : List Instruction)
    (usable : ∀ d ∈ ds, e.operands? d.access = some (d.address, d.data))
    (hx : ∀ x ∈ accepted, x.last ≤ codeSize code) :
    ∃ thunks sites, e.emitThunks code ds = (sites, code ++ thunks) ∧
      sites.map (fun p => (p.siteOffset, p.record)) =
        (ds.map Deferred.accepted).map Accepted.due ∧
      (∀ p ∈ sites, e.HasThunk (code ++ thunks) accepted p ∧ codeSize code ≤ p.thunkOffset) ∧
      sites.Pairwise e.Precedes := by
  induction ds generalizing code with
  | nil => exact ⟨[], [], by rw [List.append_nil]; rfl, rfl, by simp, .nil⟩
  | cons d ds ih =>
    have hle : codeSize code ≤ codeSize (code ++ e.thunk d) := by
      rw [codeSize_append]
      omega
    obtain ⟨thunks, sites, hrest, hdue, hthunks, ordered⟩ := ih (code ++ e.thunk d)
      (fun d' hd' => usable d' (List.mem_cons_of_mem d hd'))
      (fun x hx' => Nat.le_trans (hx x hx') hle)
    let p : Pending := ⟨d.siteOffset, codeSize code, d.access.record d.codeSize 0⟩
    have hp : e.HasThunk (code ++ e.thunk d) accepted p := by
      refine ⟨e.thunk d, ?_, hasAt_end code _, fun x hx' => .inl (hx x hx')⟩
      exact congrArg (Option.map _) (usable d List.mem_cons_self)
    refine ⟨e.thunk d ++ thunks, p :: sites, ?_, congrArg (_ :: ·) hdue, ?_, ?_⟩
    · rw [emitThunks, hrest, List.append_assoc]
    · rw [← List.append_assoc, List.forall_mem_cons]
      exact ⟨⟨hp.append thunks, Nat.le_refl _⟩, fun q hq =>
        ⟨(hthunks q hq).1, Nat.le_trans hle (hthunks q hq).2⟩⟩
    · rw [List.pairwise_cons]
      exact ⟨fun q hq => hp.precedes (hthunks q hq).2, ordered⟩

/-- The layout, with what the emitter still owes. -/
structure Fills (e : Emitter) (b : Assembly) : Prop extends e.Lays b where
  emitter : ∃ ds, b.emitter = { e with pending := ds } ∧ b.opened = ds.map Deferred.accepted ∧
    ∀ d ∈ ds, e.operands? d.access = some (d.address, d.data)

theorem fills_new (h : e.pending = []) : e.Fills { emitter := e } where
  returns block hblock := absurd hblock List.not_mem_nil
  site x hx := absurd hx List.not_mem_nil
  apart := .nil
  thunk p hp := absurd hp List.not_mem_nil
  ordered := .nil
  emitter := ⟨[], by rw [← h], rfl, fun d hd => absurd hd List.not_mem_nil⟩

/-- One site more, behind all others. -/
theorem Lays.concat (h : e.Lays b) (emitter : Emitter) {site : List Instruction}
    (hx : codeSize b.code ≤ x.site.offset) (hsite : e.HasSite (b.code ++ site) x) :
    e.Lays ⟨emitter, b.code ++ site, b.opened ++ [x], b.blocks⟩ := by
  have haccepted : (⟨emitter, b.code ++ site, b.opened ++ [x], b.blocks⟩ : Assembly).accepted =
      b.accepted ++ [x] := (List.append_assoc ..).symm
  constructor
  case returns => exact h.returns
  case site =>
    intro y hy
    rw [haccepted, List.mem_append, List.mem_singleton] at hy
    rcases hy with hy | rfl
    · exact (h.site y hy).append site
    · exact hsite
  case apart =>
    rw [haccepted, List.pairwise_append]
    refine ⟨h.apart, List.pairwise_singleton _ _, fun y hy z hz => ?_⟩
    rw [List.mem_singleton.1 hz]
    exact Nat.le_trans (h.site y hy).last_le hx
  case thunk =>
    rw [haccepted]
    exact fun p hp => ((h.thunk p hp).concat hx).append site
  case ordered => exact h.ordered

/-- Emitting an access adds its site and what is owed for it. -/
theorem Fills.access (h : e.Fills b) (a : Access) : e.Fills (b.step (.access a)) := by
  obtain ⟨ds, hemitter, hopened, usable⟩ := h.emitter
  have hsame : b.emitter.operands? a = e.operands? a := by
    rw [hemitter]
    rfl
  cases hops : e.operands? a with
  | none =>
    rw [Assembly.step, emit_of_operands_none _ _ (hsame.trans hops)]
    exact h
  | some operands =>
    obtain ⟨address, data⟩ := operands
    rw [Assembly.step, emit_of_operands _ _ (hsame.trans hops), hemitter]
    refine ⟨h.concat _ (Nat.le_refl _) (hasSite_end b.code hops), _, rfl, ?_, fun d hd => ?_⟩
    · rw [List.map_append, ← hopened]
      rfl
    · rcases List.mem_append.1 hd with hd | hd
      · exact usable d hd
      · rw [List.mem_singleton.1 hd]
        exact hops

theorem Fills.other (h : e.Fills b) (more : List Instruction) :
    e.Fills (b.step (.other more)) where
  returns := h.returns
  site x hx := (h.site x hx).append more
  apart := h.apart
  thunk p hp := (h.thunk p hp).append more
  ordered := h.ordered
  emitter := h.emitter

/-- A finish puts the slow paths behind the sites that it hands back. -/
theorem Lays.close (h : e.Lays b) (emitter : Emitter) {thunks : List Instruction}
    {sites : List Pending}
    (hdue : sites.map (fun p => (p.siteOffset, p.record)) = b.opened.map Accepted.due)
    (hthunks : ∀ p ∈ sites,
      e.HasThunk (b.code ++ thunks) b.accepted p ∧ codeSize b.code ≤ p.thunkOffset)
    (ordered : sites.Pairwise e.Precedes) :
    e.Lays ⟨emitter, b.code ++ thunks, [], b.blocks ++ [⟨b.opened, sites⟩]⟩ := by
  have haccepted : (⟨emitter, b.code ++ thunks, [], b.blocks ++ [⟨b.opened, sites⟩]⟩ :
      Assembly).accepted = b.accepted := by
    simp [Assembly.accepted]
  have hhanded : (⟨emitter, b.code ++ thunks, [], b.blocks ++ [⟨b.opened, sites⟩]⟩ :
      Assembly).handed = b.handed ++ sites := by
    simp [Assembly.handed]
  constructor
  case returns =>
    intro block hblock
    rcases List.mem_append.1 hblock with hblock | hblock
    · exact h.returns block hblock
    · rw [List.mem_singleton.1 hblock]
      exact hdue
  case site =>
    rw [haccepted]
    exact fun x hx => (h.site x hx).append thunks
  case apart =>
    rw [haccepted]
    exact h.apart
  case thunk =>
    rw [haccepted, hhanded]
    intro p hp
    rcases List.mem_append.1 hp with hp | hp
    · exact (h.thunk p hp).append thunks
    · exact (hthunks p hp).1
  case ordered =>
    rw [hhanded, List.pairwise_append]
    exact ⟨h.ordered, ordered, fun p hp q hq => (h.thunk p hp).precedes (hthunks q hq).2⟩

theorem Fills.finish (h : e.Fills b) : e.Fills (b.step .finish) := by
  obtain ⟨ds, hemitter, hopened, usable⟩ := h.emitter
  obtain ⟨thunks, sites, hemits, hdue, hthunks, ordered⟩ :=
    emitThunks_spec { e with pending := ds } b.code usable fun x hx => (h.site x hx).last_le
  rw [← hopened] at hdue
  rw [Assembly.step, Emitter.finish, hemitter, hemits]
  exact ⟨h.close _ hdue hthunks ordered, [], rfl, rfl, fun d hd => absurd hd List.not_mem_nil⟩

theorem Fills.step (h : e.Fills b) (request : Request) : e.Fills (b.step request) := by
  cases request with
  | access a => exact h.access a
  | other code => exact h.other code
  | finish => exact h.finish

theorem Fills.run (h : e.Fills b) (requests : List Request) : e.Fills (b.run requests) := by
  induction requests generalizing b with
  | nil => exact h
  | cons request requests ih => exact ih (h.step request)

theorem lays_fill (h : e.pending = []) (requests : List Request) : e.Lays (e.fill requests) :=
  ((fills_new h).run requests).toLays

/-- What has been handed back is what was due, up to the last finish. -/
theorem Lays.map_handed (h : e.Lays b) :
    b.handed.map (fun p => (p.siteOffset, p.record)) ++ b.opened.map Accepted.due =
      b.accepted.map Accepted.due := by
  have hblocks : b.blocks.map (fun block => block.sites.map fun p => (p.siteOffset, p.record)) =
      b.blocks.map fun block => block.accepted.map Accepted.due :=
    List.map_congr_left h.returns
  rw [Assembly.handed, Assembly.accepted, List.map_append, List.map_flatMap, List.map_flatMap,
    List.flatMap_def, List.flatMap_def, hblocks]

theorem Lays.due (h : e.Lays b) (hp : p ∈ b.handed) :
    ∃ x ∈ b.accepted, x.due = (p.siteOffset, p.record) := by
  apply List.mem_map.1
  rw [← h.map_handed]
  exact List.mem_append_left _ (List.mem_map_of_mem hp)

end Emitter

end GuestMemory.X64
