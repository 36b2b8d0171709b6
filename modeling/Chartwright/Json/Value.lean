import Chartwright.Assoc
import Chartwright.Number.Binary64
import Chartwright.Text.Basic
/-!
JSON values. Members of an object keep their order; a number is an integer of any size or a
floating-point number, as it was written. A string that holds half of a surrogate pair is a value,
but no text.
-/
namespace Chartwright

inductive Json where
  | null
  | bool (value : Bool)
  | int (value : Int)
  | float (value : Binary64)
  | text (value : Text)
  | brokenText
  | list (items : List Json)
  | object (members : List (Text × Json))
deriving Repr

namespace Json

/-- A member of an object. -/
def get? (name : String) : Json → Option Json
  | object members => Assoc.find? name.toList members
  | _ => none

/-- An object from names and values. -/
def ofMembers (members : List (String × Json)) : Json :=
  object (members.map fun (n, v) => (n.toList, v))

/-- A text, or null. -/
def ofText? : Option Text → Json
  | some t => text t
  | none => null

/-- An integer, or null. -/
def ofInt? : Option Int → Json
  | some n => int n
  | none => null

def ofNat (n : Nat) : Json := int n

def ofTexts (ts : List Text) : Json := list (ts.map text)

mutual

/-- All numbers in a value are finite, so that it can be written in standard JSON. -/
def isFinite : Json → Bool
  | float .nan => false
  | float (.infinity _) => false
  | list items => areFinite items
  | object members => membersAreFinite members
  | _ => true

def areFinite : List Json → Bool
  | [] => true
  | j :: rest => isFinite j && areFinite rest

def membersAreFinite : List (Text × Json) → Bool
  | [] => true
  | (_, j) :: rest => isFinite j && membersAreFinite rest

end

end Json
end Chartwright
