/-!
Numbers and bytes in base sixteen.
-/
namespace GuestMemory.Text

/-- Digits in lower case, no padding. -/
def hex (n : Nat) : String := String.ofList (Nat.toDigits 16 n)

/-- Digits in lower case behind `0x`. -/
def prefixedHex (n : Nat) : String := "0x" ++ hex n

def upperHex (n : Nat) : String := String.ofList ((Nat.toDigits 16 n).map Char.toUpper)

/-- Digits in upper case, filled up with zeros to eight. -/
def upperHex8 (n : Nat) : String :=
  let digits := (Nat.toDigits 16 n).map Char.toUpper
  String.ofList (List.replicate (8 - digits.length) '0' ++ digits)

/-- Two digits for each byte, in lower case. -/
def hexBytes (bs : List UInt8) : String :=
  String.join (bs.map fun b => (if b < 16 then "0" else "") ++ hex b.toNat)

/-- The value of a digit of either case. -/
def hexDigit? (c : Char) : Option Nat :=
  if c.isDigit then some (c.toNat - 48)
  else if 'a' ≤ c ∧ c ≤ 'f' then some (c.toNat - 87)
  else if 'A' ≤ c ∧ c ≤ 'F' then some (c.toNat - 55)
  else none

/-- The number with the given digits; there has to be one. -/
def ofHexDigits? (cs : List Char) : Option Nat :=
  if cs.isEmpty then none else cs.foldlM (fun n c => (hexDigit? c).map (16 * n + ·)) 0

/-- Reads digits behind `0x`. -/
def ofPrefixedHex? (s : String) : Option Nat :=
  match s.toList with
  | '0' :: 'x' :: digits => ofHexDigits? digits
  | _ => none

/-- The bytes that pairs of digits stand for. -/
def bytesOfHexDigits? : List Char → Option (List UInt8)
  | [] => some []
  | [_] => none
  | a :: b :: rest => do
    let n ← ofHexDigits? [a, b]
    return UInt8.ofNat n :: (← bytesOfHexDigits? rest)

end GuestMemory.Text
