import GuestMemory.Proofs.X64.Patching

/-!
The bytes that divert a site, for every site, size and thunk. They are refused exactly if the site
is too short for a call or the thunk too far from it; otherwise they fill the site with one call of
the thunk and no-operations, so that control which returns from the thunk comes to the end of the
site.
-/
namespace GuestMemory.X64

variable {m : Memory} {a site thunk : HostAddress} {codeSize : UInt32} {distance : Int}
  {back : List HostAddress}

/-- The instructions that the bytes of a site are, if they are calls and no-operations. -/
def decode? : List UInt8 → Option (List Instruction)
  | [] => some []
  | 0x90 :: bytes => (decode? bytes).map (.nop :: ·)
  | 0xE8 :: b₀ :: b₁ :: b₂ :: b₃ :: bytes =>
    (decode? bytes).map (.call (Word.ofBytes .w32 [b₀, b₁, b₂, b₃]).toInt :: ·)
  | _ => none

theorem decode?_nops (n : Nat) :
    decode? (List.replicate n 0x90) = some (List.replicate n .nop) := by
  induction n with
  | zero => rfl
  | succ n ih =>
    rw [List.replicate_succ, decode?, ih]
    rfl

/-- The bytes of a site decode to what they encode. -/
theorem decode?_callPatch (low : -0x80000000 ≤ distance) (high : distance < 0x80000000)
    (codeSize : UInt32) :
    decode? (encode (callPatch distance codeSize)) = some (callPatch distance codeSize) := by
  rw [encode_callPatch, callPatch]
  show (decode? (List.replicate _ 0x90)).map
    (.call (Word.ofBytes .w32 (Instruction.immediate32 distance)).toInt :: ·) = _
  rw [decode?_nops, toInt_immediate32 low high]
  rfl

structure Flow where
  next : HostAddress
  back : List HostAddress
  deriving DecidableEq, Repr

namespace Flow

/-- Where one instruction in memory takes control, if it is a no-operation, a call or a return. -/
def step? (m : Memory) (f : Flow) : Option Flow :=
  match m.byte f.next with
  | 0x90 => some { f with next := f.next + 1 }
  | 0xE8 => (callTarget? f.next (m.read f.next callSize)).map fun target =>
    ⟨target, (f.next + UInt64.ofNat callSize) :: f.back⟩
  | 0xC3 =>
    match f.back with
    | [] => none
    | a :: back => some ⟨a, back⟩
  | _ => none

def run? (m : Memory) : Nat → Flow → Option Flow
  | 0, f => some f
  | n + 1, f => (f.step? m).bind (run? m n)

theorem run?_succ {n : Nat} {f g : Flow} (h : f.step? m = some g) :
    run? m (n + 1) f = run? m n g := by
  rw [run?, h, Option.bind_some]

theorem step?_nop (h : m.byte a = 0x90) : step? m ⟨a, back⟩ = some ⟨a + 1, back⟩ := by
  rw [step?, h]
  rfl

theorem step?_ret (h : m.byte a = 0xC3) : step? m ⟨a, site :: back⟩ = some ⟨site, back⟩ := by
  rw [step?, h]
  rfl

theorem step?_call (h : m.byte a = 0xE8) (target : callTarget? a (m.read a callSize) = some thunk) :
    step? m ⟨a, back⟩ = some ⟨thunk, (a + UInt64.ofNat callSize) :: back⟩ := by
  rw [step?, h]
  simp only [target]
  rfl

theorem run?_nops {n : Nat} (h : ∀ i < n, m.byte (a + UInt64.ofNat i) = 0x90) :
    run? m n ⟨a, back⟩ = some ⟨a + UInt64.ofNat n, back⟩ := by
  induction n generalizing a with
  | zero => simp [run?]
  | succ n ih =>
    have hfirst : m.byte a = 0x90 := by simpa using h 0 (Nat.succ_pos n)
    rw [run?_succ (step?_nop hfirst), ih fun i hi => ?_, Memory.add_one_add]
    rw [Memory.add_one_add]
    exact h (i + 1) (Nat.succ_lt_succ hi)

end Flow

/-- Bytes that fill a site of `size` bytes and send control from it to a thunk, and from the thunk's
return to the end of the site. -/
structure Detour (site thunk : HostAddress) (size : Nat) (bytes : List UInt8) : Prop where
  length : bytes.length = size
  decoded : ∃ distance : Int, (site.toNat : Int) + callSize + distance = thunk.toNat ∧
    decode? bytes = some (.call distance :: List.replicate (size - callSize) .nop)
  enters : ∀ (m : Memory) (back : List HostAddress),
    Flow.step? (m.write site bytes) ⟨site, back⟩ =
      some ⟨thunk, (site + UInt64.ofNat callSize) :: back⟩
  returns : ∀ (m : Memory) (back : List HostAddress) (a : HostAddress),
    (m.write site bytes).byte a = 0xC3 →
      Flow.run? (m.write site bytes) (1 + (size - callSize))
        ⟨a, (site + UInt64.ofNat callSize) :: back⟩ = some ⟨site + UInt64.ofNat size, back⟩

/-- What memory has at a site once it is diverted: the call, and no-operations behind it. -/
theorem read_callPatch (m : Memory) (site : HostAddress) (distance : Int)
    (long : callSize ≤ codeSize.toNat) :
    let m' := m.write site (encode (callPatch distance codeSize))
    m'.read site callSize = 0xE8 :: Instruction.immediate32 distance ∧
      m'.read (site + UInt64.ofNat callSize) (codeSize.toNat - callSize) =
        List.replicate (codeSize.toNat - callSize) 0x90 := by
  intro m'
  have hlength := length_callPatch distance long
  have hsize : codeSize.toNat < 2 ^ 32 := codeSize.toNat_lt
  have hread : m'.read site codeSize.toNat = encode (callPatch distance codeSize) := by
    rw [← hlength]
    exact m.read_write site (by omega)
  rw [← Nat.add_sub_cancel' long, Memory.read_add, encode_callPatch] at hread
  exact List.append_inj hread (Memory.length_read ..)

/-- The patch is a detour over the thunk. -/
theorem detour_callPatch (h : callDistance site codeSize thunk = .ok distance) :
    Detour site thunk codeSize.toNat (encode (callPatch distance codeSize)) := by
  obtain ⟨long, hsum, low, high⟩ := callDistance_eq_ok_iff.1 h
  constructor
  case length => exact length_callPatch distance long
  case decoded => exact ⟨distance, hsum, decode?_callPatch low high codeSize⟩
  case enters =>
    intro m back
    obtain ⟨hread, -⟩ := read_callPatch m site distance long
    have hfirst := Memory.getElem?_read (m.write site (encode (callPatch distance codeSize))) site
      (show 0 < callSize by decide)
    rw [hread] at hfirst
    apply Flow.step?_call
    · simpa using hfirst.symm
    · have htarget := (calls_callPatch h).target
      rw [encode_callPatch] at htarget
      rw [hread]
      exact htarget
  case returns =>
    intro m back a hret
    obtain ⟨-, hread⟩ := read_callPatch m site distance long
    -- the return comes first, and only no-operations are left
    rw [Nat.add_comm, Flow.run?_succ (Flow.step?_ret hret), Flow.run?_nops fun i hi => ?_]
    · rw [UInt64.add_assoc, ← UInt64.ofNat_add, Nat.add_sub_cancel' long]
    · have hbyte := Memory.getElem?_read (m.write site (encode (callPatch distance codeSize)))
        (site + UInt64.ofNat callSize) hi
      rw [hread, List.getElem?_replicate_of_lt hi] at hbyte
      exact (Option.some.inj hbyte).symm

/-- How far a thunk is from the end of a call at a site, backwards if negative. -/
def wayTo (site thunk : HostAddress) : Int := thunk.toNat - (site.toNat + 5)

/-- A signed word of 32 bits holds the way. -/
def IsNear (site thunk : HostAddress) : Prop :=
  -0x80000000 ≤ wayTo site thunk ∧ wayTo site thunk < 0x80000000

instance (site thunk : HostAddress) : Decidable (IsNear site thunk) :=
  inferInstanceAs (Decidable (_ ∧ _))

/-- The three outcomes, with what each depends on. -/
theorem callDistance_cases (site : HostAddress) (codeSize : UInt32) (thunk : HostAddress) :
    (codeSize.toNat < 5 ∧
      callDistance site codeSize thunk = .error (.siteTooSmall site codeSize 5)) ∨
    (5 ≤ codeSize.toNat ∧ ¬IsNear site thunk ∧
      callDistance site codeSize thunk = .error (.thunkOutOfRange site thunk)) ∨
    (5 ≤ codeSize.toNat ∧ IsNear site thunk ∧
      callDistance site codeSize thunk = .ok (wayTo site thunk)) := by
  by_cases hsmall : codeSize.toNat < 5
  · exact .inl ⟨hsmall, if_pos hsmall⟩
  · have hlong : callDistance site codeSize thunk =
        if IsNear site thunk then .ok (wayTo site thunk)
        else .error (.thunkOutOfRange site thunk) :=
      if_neg hsmall
    by_cases hnear : IsNear site thunk
    · exact .inr (.inr ⟨Nat.le_of_not_lt hsmall, hnear, hlong.trans (if_pos hnear)⟩)
    · exact .inr (.inl ⟨Nat.le_of_not_lt hsmall, hnear, hlong.trans (if_neg hnear)⟩)

/-- A site is diverted exactly if it holds a call and the thunk is near; a site that is too small is
told first. The bytes then lead control through the thunk and to the end of the site. -/
theorem encodeCallPatch_detours (site : HostAddress) (codeSize : UInt32) (thunk : HostAddress) :
    ((∃ bytes, encodeCallPatch site codeSize thunk = .ok bytes) ↔
      5 ≤ codeSize.toNat ∧ IsNear site thunk) ∧
    (encodeCallPatch site codeSize thunk = .error (.siteTooSmall site codeSize 5) ↔
      codeSize.toNat < 5) ∧
    (encodeCallPatch site codeSize thunk = .error (.thunkOutOfRange site thunk) ↔
      5 ≤ codeSize.toNat ∧ ¬IsNear site thunk) ∧
    ∀ bytes, encodeCallPatch site codeSize thunk = .ok bytes →
      Detour site thunk codeSize.toNat bytes := by
  rcases callDistance_cases site codeSize thunk with
    ⟨small, h⟩ | ⟨long, far, h⟩ | ⟨long, near, h⟩
  · have hresult : encodeCallPatch site codeSize thunk =
        .error (.siteTooSmall site codeSize 5) := by
      rw [encodeCallPatch, h]
      rfl
    simp [hresult, small, Nat.not_le.2 small]
  · have hresult : encodeCallPatch site codeSize thunk = .error (.thunkOutOfRange site thunk) := by
      rw [encodeCallPatch, h]
      rfl
    simp [hresult, long, far, Nat.not_lt.2 long]
  · have hresult := encodeCallPatch_of_distance h
    simp [hresult, long, near, Nat.not_lt.2 long, detour_callPatch h]

/-- A site of seven bytes, diverted to the farthest thunk that is behind it. -/
theorem encodeCallPatch_detours_farthest :
    let bytes : List UInt8 := [0xE8, 0x00, 0x00, 0x00, 0x80, 0x90, 0x90]
    IsNear 0x400000001000 0x3FFF80001005 ∧ ¬IsNear 0x400000001000 0x3FFF80001004 ∧
      encodeCallPatch 0x400000001000 7 0x3FFF80001005 = .ok bytes ∧
      Detour 0x400000001000 0x3FFF80001005 7 bytes := by
  refine ⟨by decide, by decide, by rfl, ?_⟩
  exact (encodeCallPatch_detours 0x400000001000 7 0x3FFF80001005).2.2.2 _ rfl

end GuestMemory.X64
