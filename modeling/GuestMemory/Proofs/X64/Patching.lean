import GuestMemory.Proofs.X64.Diverted
import GuestMemory.Proofs.X64.Layout
import Mathlib.Data.List.Perm.Subperm

/-!
Patching of a filled buffer, byte by byte. Wherever the buffer comes to lie, each site that was
handed back can be overwritten by a call of the thunk of its own access. Sites share no byte, so any
of them may be patched in any order, and the code ends up the same.
-/
namespace GuestMemory

theorem Memory.read_add (m : Memory) (a : HostAddress) (n k : Nat) :
    m.read a (n + k) = m.read a n ++ m.read (a + UInt64.ofNat n) k := by
  induction n generalizing a with
  | zero => simp [read]
  | succ n ih =>
    rw [Nat.add_right_comm, read, ih, add_one_add, read, List.cons_append]

namespace Site.Pending

def last (p : Pending) : Nat := p.siteOffset + p.record.codeSize.toNat

/-- The address is one of the site, once the buffer lies at `base`. -/
def Covers (p : Pending) (base a : HostAddress) : Prop :=
  p.siteOffset ≤ (a - base).toNat ∧ (a - base).toNat < p.last

def Apart (p q : Pending) : Prop := p.last ≤ q.siteOffset ∨ q.last ≤ p.siteOffset

end Site.Pending

namespace X64

open Site

variable {m m' m'' : Memory} {base site thunk a : HostAddress} {p : Pending}
  {sites sites' : List Pending}

/-- A piece of code is in memory where the code is. -/
theorem HasAt.read {code piece : List Instruction} {offset : Nat} (h : HasAt code offset piece)
    (holds : m.read base (codeSize code) = encode code) :
    m.read (base + UInt64.ofNat offset) (codeSize piece) = encode piece := by
  obtain ⟨before, after, rfl, rfl⟩ := h
  simp only [List.append_assoc, codeSize_append, encode_append, Memory.read_add] at holds
  have hbefore : (m.read base (codeSize before)).length = (encode before).length := by
    rw [Memory.length_read, length_encode]
  have hpiece : (m.read (base + UInt64.ofNat (codeSize before)) (codeSize piece)).length =
      (encode piece).length := by
    rw [Memory.length_read, length_encode]
  exact (List.append_inj (List.append_inj holds hbefore).2 hpiece).1

/-- Where the call that stands at an address goes, read off its bytes: the opcode, and a signed
distance from the end of the call. -/
def callTarget? (a : HostAddress) : List UInt8 → Option HostAddress
  | 0xE8 :: b₀ :: b₁ :: b₂ :: b₃ :: _ =>
    some (a + 5 + UInt64.ofBitVec ((Word.ofBytes .w32 [b₀, b₁, b₂, b₃]).signExtend 64))
  | _ => none

/-- The bytes at a site are a call of a thunk, filled up with no-operations. -/
structure Calls (site thunk : HostAddress) (bytes : List UInt8) : Prop where
  target : callTarget? site bytes = some thunk
  filled : ∀ b ∈ bytes.drop callSize, b = 0x90

/-- Four bytes hold a distance, sign and all, that fits them. -/
theorem toInt_immediate32 {i : Int} (low : -0x80000000 ≤ i) (high : i < 0x80000000) :
    (Word.ofBytes .w32 (Instruction.immediate32 i)).toInt = i := by
  have hword : Word.ofBytes .w32 (Instruction.immediate32 i) = BitVec.ofInt Width.w32.bits i := by
    apply BitVec.eq_of_toNat_eq
    rw [Word.ofBytes, Instruction.immediate32, natOfBytes_bytesOfNat]
    simp [Width.bits]
    omega
  rw [hword, BitVec.toInt_ofInt]
  exact Int.bmod_eq_of_le (by simp [Width.bits]; omega) (by simp [Width.bits]; omega)

theorem ofBitVec_signExtend {w : Nat} (x : BitVec w) :
    UInt64.ofBitVec (x.signExtend 64) = UInt64.ofInt x.toInt := by
  apply UInt64.toNat_inj.1
  rw [BitVec.signExtend, UInt64.ofInt, UInt64.toNat_ofNat', UInt64.toNat_ofBitVec,
    BitVec.toNat_ofInt]
  omega

theorem encode_callPatch (distance : Int) (codeSize : UInt32) :
    encode (callPatch distance codeSize) =
      0xE8 :: Instruction.immediate32 distance ++
        List.replicate (codeSize.toNat - callSize) 0x90 := by
  rw [callPatch, ← encode_nops]
  rfl

theorem length_callPatch (distance : Int) {codeSize : UInt32} (h : callSize ≤ codeSize.toNat) :
    (encode (callPatch distance codeSize)).length = codeSize.toNat := by
  have hcall : callSize = 5 := rfl
  simp [encode_callPatch, Instruction.immediate32]
  omega

theorem encodeCallPatch_of_distance {codeSize : UInt32} {distance : Int}
    (h : callDistance site codeSize thunk = .ok distance) :
    encodeCallPatch site codeSize thunk = .ok (encode (callPatch distance codeSize)) := by
  rw [encodeCallPatch, h]
  rfl

theorem calls_callPatch {codeSize : UInt32} {distance : Int}
    (h : callDistance site codeSize thunk = .ok distance) :
    Calls site thunk (encode (callPatch distance codeSize)) := by
  obtain ⟨-, -, low, high⟩ := callDistance_eq_ok_iff.1 h
  rw [encode_callPatch]
  constructor
  · show some (site + UInt64.ofNat callSize + UInt64.ofBitVec
      ((Word.ofBytes .w32 (Instruction.immediate32 distance)).signExtend 64)) = _
    rw [ofBitVec_signExtend, toInt_immediate32 low high, Machine.near_thunk h]
  · intro b hb
    exact List.eq_of_mem_replicate hb

/-- Address and bytes with which a site is diverted, once the buffer lies at `base`. -/
def patch? (base : HostAddress) (p : Pending) : Option (HostAddress × List UInt8) := do
  let (site, r) ← p.resolve? base
  let bytes ← (encodeCallPatch site r.codeSize r.thunk).toOption
  return (site, bytes)

def patchAll? (base : HostAddress) : List Pending → Memory → Option Memory
  | [], m => some m
  | p :: sites, m => do
    let (site, bytes) ← patch? base p
    patchAll? base sites (m.write site bytes)

/-- A site that can be diverted with a buffer at `base`. -/
structure Fits (base : HostAddress) (p : Pending) : Prop where
  long : callSize ≤ p.record.codeSize.toNat
  site : base.toNat + p.last ≤ 2 ^ 64
  thunk : base.toNat + p.thunkOffset < 2 ^ 64
  near : p.last ≤ 2 ^ 31 ∧ p.thunkOffset < 2 ^ 31

/-- A site that fits is given the bytes of a call of its slow path, which fill it. -/
theorem Fits.patch (h : Fits base p) :
    ∃ bytes, patch? base p = some (base + UInt64.ofNat p.siteOffset, bytes) ∧
      bytes.length = p.record.codeSize.toNat ∧
      Calls (base + UInt64.ofNat p.siteOffset) (base + UInt64.ofNat p.thunkOffset) bytes := by
  obtain ⟨long, hsite, hthunk, hlast, hnear⟩ := h
  have hcall : callSize = 5 := rfl
  rw [Pending.last] at hsite hlast
  have hs : (base + UInt64.ofNat p.siteOffset).toNat = base.toNat + p.siteOffset :=
    Memory.toNat_add_offset (by omega)
  have ht : (base + UInt64.ofNat p.thunkOffset).toNat = base.toNat + p.thunkOffset :=
    Memory.toNat_add_offset hthunk
  have hresolve : p.resolve? base = some (base + UInt64.ofNat p.siteOffset,
      { p.record with thunk := base + UInt64.ofNat p.thunkOffset }) :=
    if_pos ⟨hthunk, by omega⟩
  obtain ⟨distance, hdistance⟩ : ∃ distance, callDistance (base + UInt64.ofNat p.siteOffset)
      p.record.codeSize (base + UInt64.ofNat p.thunkOffset) = .ok distance :=
    ⟨p.thunkOffset - (p.siteOffset + callSize : Nat),
      callDistance_eq_ok_iff.2 ⟨long, by omega, by omega, by omega⟩⟩
  have hbytes := encodeCallPatch_of_distance hdistance
  refine ⟨_, ?_, length_callPatch _ long, calls_callPatch hdistance⟩
  simp only [patch?, hresolve, Option.bind_eq_bind, Option.bind_some, hbytes]
  rfl

/-- Each site has the bytes that divert it, and nothing else has changed. -/
structure Patched (base : HostAddress) (sites : List Pending) (m m' : Memory) : Prop where
  written : ∀ p ∈ sites, patch? base p = some (base + UInt64.ofNat p.siteOffset,
    m'.read (base + UInt64.ofNat p.siteOffset) p.record.codeSize.toNat)
  other : ∀ a, (∀ p ∈ sites, ¬p.Covers base a) → m'.byte a = m.byte a

/-- An offset of a site, as an address in memory. -/
theorem Fits.toNat_sub {i : Nat} (h : Fits base p) (hi : i < p.record.codeSize.toNat) :
    (base + UInt64.ofNat p.siteOffset + UInt64.ofNat i - base).toNat = p.siteOffset + i := by
  have hsite := h.site
  rw [Pending.last] at hsite
  rw [UInt64.add_assoc, ← UInt64.ofNat_add]
  exact Memory.toNat_offset base (by omega)

theorem Fits.covers_iff (h : Fits base p) :
    p.Covers base a ↔ ∃ i < p.record.codeSize.toNat,
      a = base + UInt64.ofNat p.siteOffset + UInt64.ofNat i := by
  constructor
  · rintro ⟨low, high⟩
    rw [Pending.last] at high
    refine ⟨(a - base).toNat - p.siteOffset, by omega, ?_⟩
    rw [UInt64.add_assoc, ← UInt64.ofNat_add, Nat.add_sub_cancel' low, UInt64.ofNat_toNat,
      UInt64.add_comm, UInt64.sub_add_cancel]
  · rintro ⟨i, hi, rfl⟩
    rw [Pending.Covers, Pending.last, h.toNat_sub hi]
    omega

/-- Sites apart from one another are patched whatever their order. -/
theorem patchAll?_spec (fits : ∀ p ∈ sites, Fits base p) (apart : sites.Pairwise Pending.Apart)
    (m : Memory) : ∃ m', patchAll? base sites m = some m' ∧ Patched base sites m m' := by
  induction sites generalizing m with
  | nil => exact ⟨m, rfl, fun p hp => absurd hp List.not_mem_nil, fun _ _ => rfl⟩
  | cons p sites ih =>
    rw [List.forall_mem_cons] at fits
    rw [List.pairwise_cons] at apart
    obtain ⟨bytes, hpatch, hlength, -⟩ := fits.1.patch
    have hsite := fits.1.site
    rw [Pending.last] at hsite
    obtain ⟨m', hrest, written, other⟩ :=
      ih fits.2 apart.2 (m.write (base + UInt64.ofNat p.siteOffset) bytes)
    refine ⟨m', ?_, ?_, fun a ha => ?_⟩
    · rw [patchAll?, hpatch]
      exact hrest
    · rw [List.forall_mem_cons]
      refine ⟨?_, written⟩
      -- the sites to come leave this one alone
      have hkept : m'.read (base + UInt64.ofNat p.siteOffset) p.record.codeSize.toNat = bytes := by
        have hshort : bytes.length ≤ 2 ^ 64 := by omega
        have hwritten := m.read_write (base + UInt64.ofNat p.siteOffset) hshort
        rw [← hwritten, hlength]
        refine Memory.read_congr fun i hi => other _ fun q hq hcovers => ?_
        have hpq := apart.1 q hq
        rw [Pending.Covers, fits.1.toNat_sub hi] at hcovers
        rw [Pending.Apart, Pending.last] at hpq
        omega
      rw [hpatch, hkept]
    · rw [List.forall_mem_cons] at ha
      rw [other a ha.2]
      refine Memory.differs_write m base (k := p.siteOffset) (by omega) a ?_
      have hp := ha.1
      rw [Pending.Covers, Pending.last] at hp
      omega

/-- Memory after patching depends on which sites were patched only. -/
theorem Patched.unique (h : Patched base sites m m') (h' : Patched base sites' m m'')
    (fits : ∀ p ∈ sites, Fits base p) (same : ∀ p, p ∈ sites' ↔ p ∈ sites) (a : HostAddress) :
    m''.byte a = m'.byte a := by
  by_cases hcovers : ∃ p ∈ sites, p.Covers base a
  · obtain ⟨p, hp, hcovers⟩ := hcovers
    obtain ⟨i, hi, rfl⟩ := (fits p hp).covers_iff.1 hcovers
    have hread : m''.read (base + UInt64.ofNat p.siteOffset) p.record.codeSize.toNat =
        m'.read (base + UInt64.ofNat p.siteOffset) p.record.codeSize.toNat := by
      have hboth := (h'.written p ((same p).2 hp)).symm.trans (h.written p hp)
      exact (Prod.mk.inj (Option.some.inj hboth)).2
    have hbyte := congrArg (·[i]?) hread
    simp only [Memory.getElem?_read _ _ hi] at hbyte
    exact Option.some.inj hbyte
  · have hout : ∀ p ∈ sites, ¬p.Covers base a := fun p hp hc => hcovers ⟨p, hp, hc⟩
    rw [h.other a hout, h'.other a fun p hp => hout p ((same p).1 hp)]

namespace Emitter

variable {e : Emitter} {b : Assembly}

theorem codeSize_thunk_pos (e : Emitter) (d : Deferred) : 0 < codeSize (e.thunk d) := by
  rw [thunk]
  simp only [List.append_assoc, List.cons_append, codeSize]
  exact Nat.lt_of_lt_of_le Nat.zero_lt_one (Nat.le_add_right 1 _)

theorem Lays.last_handed (h : e.Lays b) (hp : p ∈ b.handed) :
    ∃ x ∈ b.accepted, x.site.offset = p.siteOffset ∧ x.site.codeSize = p.record.codeSize ∧
      x.last = p.last := by
  obtain ⟨x, hx, hdue⟩ := h.due hp
  obtain ⟨hoffset, hrecord⟩ := Prod.mk.inj hdue
  have hsize : x.site.codeSize = p.record.codeSize := congrArg Record.codeSize hrecord
  exact ⟨x, hx, hoffset, hsize, by rw [Accepted.last, Pending.last, hoffset, hsize]⟩

/-- Every site that was handed back fits, in code below 2 GB. -/
theorem Lays.fits (h : e.Lays b) (small : codeSize b.code < 2 ^ 31)
    (lands : base.toNat + codeSize b.code ≤ 2 ^ 64) (hp : p ∈ b.handed) : Fits base p := by
  obtain ⟨x, hx, -, hsize, hlast⟩ := h.last_handed hp
  obtain ⟨thunk, hthunk, hat, -⟩ := h.thunk p hp
  have hpos : 0 < codeSize thunk := by
    rw [thunkOf?, Option.map_eq_some_iff] at hthunk
    obtain ⟨operands, -, rfl⟩ := hthunk
    exact codeSize_thunk_pos e _
  have hsite := h.site x hx
  have hxlast := hsite.last_le
  have hend := hat.end_le
  exact ⟨hsize ▸ hsite.long, by omega, by omega, by omega, by omega⟩

/-- What comes of patching some sites: each calls the thunk of its own access, which is in place,
and all else is as it was. -/
structure Diverts (e : Emitter) (base : HostAddress) (sites : List Pending) (m m' : Memory) :
    Prop where
  calls : ∀ p ∈ sites, Calls (base + UInt64.ofNat p.siteOffset) (base + UInt64.ofNat p.thunkOffset)
    (m'.read (base + UInt64.ofNat p.siteOffset) p.record.codeSize.toNat)
  thunk : ∀ p ∈ sites, ∃ thunk, e.thunkOf? p = some thunk ∧
    m'.read (base + UInt64.ofNat p.thunkOffset) (codeSize thunk) = encode thunk
  other : ∀ a, (∀ p ∈ sites, ¬p.Covers base a) → m'.byte a = m.byte a

theorem Lays.apart_handed (h : e.Lays b) : b.handed.Pairwise Pending.Apart := by
  have hdue : (b.accepted.map Accepted.due).Pairwise
      fun x y => x.1 + x.2.codeSize.toNat ≤ y.1 := List.pairwise_map.2 h.apart
  rw [← h.map_handed, List.pairwise_append] at hdue
  exact (List.pairwise_map.1 hdue.1).imp .inl

/-- Patching leaves the thunks alone, and makes calls of them. -/
theorem Lays.diverts (h : e.Lays b) (small : codeSize b.code < 2 ^ 31)
    (lands : base.toNat + codeSize b.code ≤ 2 ^ 64)
    (holds : m.read base (codeSize b.code) = encode b.code) (within : ∀ p ∈ sites, p ∈ b.handed)
    (patched : Patched base sites m m') : e.Diverts base sites m m' := by
  refine ⟨fun p hp => ?_, fun p hp => ?_, patched.other⟩
  · obtain ⟨bytes, hpatch, -, hcalls⟩ := (h.fits small lands (within p hp)).patch
    rw [patched.written p hp] at hpatch
    obtain ⟨-, rfl⟩ := Prod.mk.inj (Option.some.inj hpatch)
    exact hcalls
  · obtain ⟨thunk, hthunk, hat, beside⟩ := h.thunk p (within p hp)
    have hend := hat.end_le
    refine ⟨thunk, hthunk, ?_⟩
    rw [← hat.read holds]
    refine Memory.read_congr fun i hi => patched.other _ fun q hq hcovers => ?_
    obtain ⟨x, hx, hoffset, -, hlast⟩ := h.last_handed (within q hq)
    have hxbeside := beside x hx
    rw [Pending.Covers, UInt64.add_assoc, ← UInt64.ofNat_add,
      Memory.toNat_offset base (by omega)] at hcovers
    omega

/-- Whatever is asked of an emitter while it fills a buffer, each access that it accepts is handed
back by the next finish, and no two sites or thunks overlap. Wherever the buffer comes to lie, any
of the sites can be patched in any order; each then calls its own thunk, and the code does not
depend on the order. -/
theorem fill_patchable (fresh : e.pending = []) (requests : List Request)
    (small : codeSize (e.fill requests).code < 2 ^ 31) :
    e.Lays (e.fill requests) ∧
      ∀ (base : HostAddress) (m : Memory), base.toNat + codeSize (e.fill requests).code ≤ 2 ^ 64 →
        m.read base (codeSize (e.fill requests).code) = encode (e.fill requests).code →
        ∀ order : List Pending, order.Subperm (e.fill requests).handed →
          ∃ m', patchAll? base order m = some m' ∧ e.Diverts base order m m' ∧
            ∀ order' : List Pending, order'.Perm order →
              ∃ m'', patchAll? base order' m = some m'' ∧ ∀ a, m''.byte a = m'.byte a := by
  have hlays := lays_fill fresh requests
  refine ⟨hlays, fun base m lands holds order hsubperm => ?_⟩
  have hmem : ∀ p ∈ order, p ∈ (e.fill requests).handed := fun p hp => hsubperm.subset hp
  have fits : ∀ p ∈ order, Fits base p := fun p hp => hlays.fits small lands (hmem p hp)
  have apart : order.Pairwise Pending.Apart := by
    obtain ⟨part, hperm, hsublist⟩ := hsubperm
    exact hperm.pairwise (hlays.apart_handed.sublist hsublist) Or.symm
  obtain ⟨m', hpatch, patched⟩ := patchAll?_spec fits apart m
  refine ⟨m', hpatch, hlays.diverts small lands holds hmem patched, fun order' hperm => ?_⟩
  obtain ⟨m'', hpatch', patched'⟩ := patchAll?_spec (fun p hp => fits p (hperm.mem_iff.1 hp))
    (hperm.symm.pairwise apart Or.symm) m
  exact ⟨m'', hpatch', patched.unique patched' fits fun p => hperm.mem_iff⟩

def vectorStore : Access := ⟨0x80001010, .w128, false, false, true, 3, 9, 0x8, 0x200⟩

/-- Two blocks with code in between. The emitter refuses the second access, whose address would be
in the stack pointer, and the last one is not finished. -/
def twoBlocks : List Request :=
  [.access halfLoad.access, .access { halfLoad.access with addressRegister := 4 },
    .other [.ret, .raw [0xCC, 0xCC]], .access vectorStore, .finish, .other [.nop],
    .access { halfLoad.access with isSigned := false, width := .w8 }, .finish, .finish,
    .access vectorStore]

/-- The blocks lie at the end of the address space, in memory that is zero elsewhere. -/
def landed : Memory :=
  ({} : Memory).write 0xFFFFFFFFFFFFFED0 (encode (windowed.fill twoBlocks).code)

def laterSites : List Pending := ((windowed.fill twoBlocks).handed.drop 1).reverse

/-- Two sites of the three are diverted, in the other order. -/
theorem fill_patchable_twoBlocks :
    windowed.pending = [] ∧ codeSize (windowed.fill twoBlocks).code < 2 ^ 31 ∧
      (0xFFFFFFFFFFFFFED0 : HostAddress).toNat + codeSize (windowed.fill twoBlocks).code ≤ 2 ^ 64 ∧
      landed.read 0xFFFFFFFFFFFFFED0 (codeSize (windowed.fill twoBlocks).code) =
        encode (windowed.fill twoBlocks).code ∧
      laterSites.Subperm (windowed.fill twoBlocks).handed ∧
      laterSites.map (fun p => (p.siteOffset, p.thunkOffset)) = [(201, 207), (9, 106)] ∧
      ∃ m', patchAll? 0xFFFFFFFFFFFFFED0 laterSites landed = some m' ∧
        windowed.Diverts 0xFFFFFFFFFFFFFED0 laterSites landed m' := by
  have small : codeSize (windowed.fill twoBlocks).code < 2 ^ 31 := by decide
  have lands : (0xFFFFFFFFFFFFFED0 : HostAddress).toNat +
      codeSize (windowed.fill twoBlocks).code ≤ 2 ^ 64 := by decide
  have holds : landed.read 0xFFFFFFFFFFFFFED0 (codeSize (windowed.fill twoBlocks).code) =
      encode (windowed.fill twoBlocks).code := by
    rw [← length_encode] at small ⊢
    exact Memory.read_write _ _ (by omega)
  have subperm : laterSites.Subperm (windowed.fill twoBlocks).handed :=
    (List.reverse_perm _).subperm.trans (List.drop_sublist 1 _).subperm
  obtain ⟨m', hpatch, hdiverts, -⟩ :=
    (fill_patchable rfl twoBlocks small).2 _ landed lands holds _ subperm
  exact ⟨rfl, small, lands, holds, subperm, by decide, m', hpatch, hdiverts⟩

end Emitter

end X64

end GuestMemory
