import GuestMemory.X64.Instruction

/-!
Executable memory: pieces of code at fixed host addresses. Code can be fetched from, and overwritten
at, the address of any instruction.
-/
namespace GuestMemory.X64

/-- A piece of code that has been placed. -/
structure Block where
  base : HostAddress
  code : List Instruction
  deriving Repr

/-- Splits code after its first `n` bytes, if an instruction begins there. -/
def splitAt? : Nat → List Instruction → Option (List Instruction × List Instruction)
  | 0, code => some ([], code)
  | _, [] => none
  | n, i :: code =>
    if n < i.size then none
    else (splitAt? (n - i.size) code).map fun (before, after) => (i :: before, after)

namespace Block

def size (b : Block) : Nat := codeSize b.code

/-- The instructions from a host address on, if one begins there. -/
def fetch? (b : Block) (a : HostAddress) : Option (List Instruction) :=
  if b.base ≤ a then (splitAt? (a.toNat - b.base.toNat) b.code).map Prod.snd else none

/-- Puts other code of the same size in the place of the instructions at a host address. -/
def overwrite? (b : Block) (a : HostAddress) (code : List Instruction) : Option Block := do
  if a < b.base then none
  let (before, rest) ← splitAt? (a.toNat - b.base.toNat) b.code
  let (_, after) ← splitAt? (codeSize code) rest
  return { b with code := before ++ code ++ after }

end Block

/-- Executable memory, the latest piece first. -/
structure Code where
  blocks : List Block := []
  /-- The host's error number for a change of protection where no code is. -/
  unmapped : Nat := 12
  deriving Repr

namespace Code

instance : Inhabited Code := ⟨{}⟩

def place (c : Code) (base : HostAddress) (code : List Instruction) : Code :=
  { c with blocks := ⟨base, code⟩ :: c.blocks }

/-- The piece that holds the `size` bytes at a host address. -/
def holds (c : Code) (a : HostAddress) (size : Nat) : Bool :=
  c.blocks.any fun b => b.base ≤ a && a.toNat + size ≤ b.base.toNat + b.size

def fetch? (c : Code) (a : HostAddress) : Option (List Instruction) :=
  c.blocks.findSome? (·.fetch? a)

def overwriteIn (a : HostAddress) (code : List Instruction) : List Block → Option (List Block)
  | [] => none
  | b :: bs =>
    match b.overwrite? a code with
    | some b => some (b :: bs)
    | none => (overwriteIn a code bs).map (b :: ·)

/-- `none` if no code was placed there. -/
def overwrite? (c : Code) (a : HostAddress) (code : List Instruction) : Option Code :=
  (overwriteIn a code c.blocks).map fun blocks => { c with blocks }

end Code

end GuestMemory.X64
