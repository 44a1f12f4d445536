/-!
Stored settings as plain data: what a settings file holds once its text has been read. A structure
is a record of named fields or a list of its fields in order.
-/
namespace GuestMemory

inductive Data where
  | null
  | bool (b : Bool)
  | integer (i : Int)
  /-- A number that is not written as an integer. -/
  | fraction
  | text (s : String)
  | list (items : List Data)
  | record (fields : List (String × Data))
  deriving Repr, Inhabited

namespace Data

/-- The given fields of a structure, `none` for each that is missing. Other fields are ignored, the
last of two fields of one name counts, and a list may not be longer than the structure. -/
def fields? (names : List String) : Data → Option (List (Option Data))
  | record fs => some (names.map fun n => (fs.reverse.lookup n))
  | list items =>
    if items.length ≤ names.length then
      some ((List.range names.length).map fun i => items[i]?)
    else none
  | _ => none

def toBool? : Data → Option Bool
  | bool b => some b
  | _ => none

/-- An integer from zero to below `bound`. -/
def toNat? (bound : Nat) : Data → Option Nat
  | integer (.ofNat n) => if n < bound then some n else none
  | _ => none

def toUInt32? (d : Data) : Option UInt32 := (d.toNat? 0x100000000).map UInt32.ofNat

def toList? : Data → Option (List Data)
  | list items => some items
  | _ => none

end Data

end GuestMemory
