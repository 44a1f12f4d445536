import GuestMemory.Error
import GuestMemory.X64.Instruction

/-!
The code that takes the place of a diverted site: a call of its slow path, filled up with one-byte
no-operations to the length of the site.
-/
namespace GuestMemory.X64

/-- Length of a call with a 32-bit distance. -/
def callSize : Nat := 5

/-- Distance from the end of the call to its target, if the call fits its site and the distance fits
a signed word of 32 bits. -/
def callDistance (site : HostAddress) (codeSize : UInt32) (thunk : HostAddress) :
    Except PatchError Int :=
  if codeSize.toNat < callSize then
    .error (.siteTooSmall site codeSize (UInt32.ofNat callSize))
  else
    let distance : Int := thunk.toNat - (site.toNat + callSize)
    if -0x80000000 ≤ distance ∧ distance < 0x80000000 then .ok distance
    else .error (.thunkOutOfRange site thunk)

theorem callDistance_eq_ok_iff {site thunk : HostAddress} {codeSize : UInt32} {distance : Int} :
    callDistance site codeSize thunk = .ok distance ↔
      callSize ≤ codeSize.toNat ∧ (site.toNat : Int) + callSize + distance = thunk.toNat ∧
        -0x80000000 ≤ distance ∧ distance < 0x80000000 := by
  rw [callDistance]
  split
  · constructor
    · rintro ⟨⟩
    · omega
  · simp only
    split
    · constructor
      · rintro ⟨⟩
        omega
      · intro h
        congr 1
        omega
    · rename_i hfits
      constructor
      · rintro ⟨⟩
      · intro h
        exact absurd (by omega) hfits

/-- A call over the given distance in a site of `codeSize` bytes. -/
def callPatch (distance : Int) (codeSize : UInt32) : List Instruction :=
  .call distance :: List.replicate (codeSize.toNat - callSize) .nop

/-- The bytes that divert `site` to `thunk`. -/
def encodeCallPatch (site : HostAddress) (codeSize : UInt32) (thunk : HostAddress) :
    Except PatchError (List UInt8) :=
  (callDistance site codeSize thunk).map fun distance => encode (callPatch distance codeSize)

end GuestMemory.X64
