import GuestMemory.Data
import GuestMemory.Text.Hex

/-!
Plain data as text, in the notation of objects, arrays, strings and numbers that settings files use.
`ofText?` reads it and `toText` writes it without spaces. A number counts as an integer only if it is
written as one: `1.0`, `1e3` and `-0` are not.
-/
namespace GuestMemory

open Text

namespace Data

def isBlank (c : Char) : Bool := c == ' ' || c == '\t' || c == '\n' || c == '\r'

def isNumeral (c : Char) : Bool :=
  c.isDigit || c == '-' || c == '+' || c == '.' || c == 'e' || c == 'E'

/-- What a one-letter escape stands for. -/
def escaped (c : Char) : Char :=
  match c with
  | 'n' => '\n'
  | 't' => '\t'
  | 'r' => '\r'
  | 'b' => Char.ofNat 8
  | 'f' => Char.ofNat 12
  | c => c

/-- The rest of a string up to its closing quote, and what follows; `done` is what was read, in
reverse order. A character above the first 65536 is written as two units. -/
def scanString (done : List Char) : List Char → Option (String × List Char)
  | [] => none
  | '"' :: rest => some (String.ofList done.reverse, rest)
  | '\\' :: 'u' :: a :: b :: c :: d :: '\\' :: 'u' :: e :: f :: g :: h :: rest =>
    match ofHexDigits? [a, b, c, d], ofHexDigits? [e, f, g, h] with
    | some high, some low =>
      if 0xD800 ≤ high ∧ high < 0xDC00 ∧ 0xDC00 ≤ low ∧ low < 0xE000 then
        scanString (Char.ofNat (0x10000 + (high - 0xD800) * 0x400 + (low - 0xDC00)) :: done) rest
      else scanString (Char.ofNat high :: done) ('\\' :: 'u' :: e :: f :: g :: h :: rest)
    | _, _ => none
  | '\\' :: 'u' :: a :: b :: c :: d :: rest =>
    match ofHexDigits? [a, b, c, d] with
    | some n => scanString (Char.ofNat n :: done) rest
    | none => none
  | '\\' :: c :: rest => scanString (escaped c :: done) rest
  | c :: rest => scanString (c :: done) rest
termination_by cs => cs.length

def ofNumeral? (digits : String) : Option Data :=
  if digits == "-0" then some fraction
  else
    match digits.toInt? with
    | some i => some (integer i)
    | none => if digits.any Char.isDigit then some fraction else none

mutual

/-- A value at the start of a text, and what follows it. The fuel bounds depth and length. -/
def scan : Nat → List Char → Option (Data × List Char)
  | 0, _ => none
  | fuel + 1, cs =>
    match cs.dropWhile isBlank with
    | '{' :: rest =>
      match rest.dropWhile isBlank with
      | '}' :: rest => some (record [], rest)
      | rest => scanFields fuel rest []
    | '[' :: rest =>
      match rest.dropWhile isBlank with
      | ']' :: rest => some (list [], rest)
      | rest => scanItems fuel rest []
    | '"' :: rest => (scanString [] rest).map fun (s, rest) => (text s, rest)
    | 't' :: 'r' :: 'u' :: 'e' :: rest => some (bool true, rest)
    | 'f' :: 'a' :: 'l' :: 's' :: 'e' :: rest => some (bool false, rest)
    | 'n' :: 'u' :: 'l' :: 'l' :: rest => some (null, rest)
    | cs =>
      (ofNumeral? (String.ofList (cs.takeWhile isNumeral))).map (·, cs.dropWhile isNumeral)

/-- The rest of an array; `done` holds the items before, in reverse order. -/
def scanItems : Nat → List Char → List Data → Option (Data × List Char)
  | 0, _, _ => none
  | fuel + 1, cs, done => do
    let (item, rest) ← scan fuel cs
    match rest.dropWhile isBlank with
    | ',' :: rest => scanItems fuel rest (item :: done)
    | ']' :: rest => some (list (item :: done).reverse, rest)
    | _ => none

/-- The rest of an object; `done` holds the fields before, in reverse order. -/
def scanFields : Nat → List Char → List (String × Data) → Option (Data × List Char)
  | 0, _, _ => none
  | fuel + 1, cs, done =>
    match cs.dropWhile isBlank with
    | '"' :: rest => do
      let (name, rest) ← scanString [] rest
      match rest.dropWhile isBlank with
      | ':' :: rest =>
        let (value, rest) ← scan fuel rest
        match rest.dropWhile isBlank with
        | ',' :: rest => scanFields fuel rest ((name, value) :: done)
        | '}' :: rest => some (record ((name, value) :: done).reverse, rest)
        | _ => none
      | _ => none
    | _ => none

end

def ofText? (s : String) : Option Data :=
  let cs := s.toList
  match scan (cs.length + 1) cs with
  | some (d, rest) => if rest.all isBlank then some d else none
  | none => none

def escape (c : Char) : String :=
  if c = '"' then "\\\""
  else if c = '\\' then "\\\\"
  else if c.toNat < 32 then
    "\\u00" ++ (if c.toNat < 16 then "0" else "") ++ hex c.toNat
  else c.toString

def quote (s : String) : String := "\"" ++ String.join (s.toList.map escape) ++ "\""

mutual

def toText : Data → String
  | null => "null"
  | bool b => if b then "true" else "false"
  | integer i => toString i
  | fraction => "null"
  | text s => quote s
  | list items => "[" ++ itemsText items ++ "]"
  | record fields => "\x7b" ++ fieldsText fields ++ "\x7d"

def itemsText : List Data → String
  | [] => ""
  | [d] => d.toText
  | d :: ds => d.toText ++ "," ++ itemsText ds

def fieldsText : List (String × Data) → String
  | [] => ""
  | [(name, d)] => quote name ++ ":" ++ d.toText
  | (name, d) :: fs => quote name ++ ":" ++ d.toText ++ "," ++ fieldsText fs

end

end Data

end GuestMemory
