import Chartwright.Json.Value
import Chartwright.Number.Numeral
/-!
Checking JSON values against what is expected of them. A check finds all faults of a value, each
with its place, in the order of the parts that it looks at; it succeeds only when there is none.

Checks are lenient about spelling: an integer may come as a text or as a floating-point number
without a fraction, a truth value as a word or as zero or one. A text comes as a text only.
-/
namespace Chartwright

/-- What is wrong with a value. -/
inductive Fault where
  | missing | notText | brokenText | notChoice | notList | notObject | notRecord | notMapping
  | notInteger | unreadableInteger | fractional | tooLarge | notFinite
  | notBoolean | unreadableBoolean
deriving DecidableEq, Repr

/-- One step on the way to a part of a value. -/
inductive Step where
  | member (name : Text)
  | item (index : Nat)
deriving DecidableEq, Repr

/-- A fault, the way to the value that has it, and that value; of a missing member, the value that
lacks it. -/
structure Issue where
  place : List Step
  fault : Fault
  value : Json
deriving Repr

/-- The outcome of a check. -/
inductive Checked (α : Type) where
  | sound (value : α)
  | faulty (issues : List Issue)
deriving Repr

namespace Fault

/-- The code that a fault is reported by. -/
def code : Fault → Text
  | missing => "missing".toList
  | notText => "string_type".toList
  | brokenText => "string_unicode".toList
  | notChoice => "enum".toList
  | notList => "list_type".toList
  | notObject => "model_type".toList
  | notRecord => "model_attributes_type".toList
  | notMapping => "dict_type".toList
  | notInteger => "int_type".toList
  | unreadableInteger => "int_parsing".toList
  | fractional => "int_from_float".toList
  | tooLarge => "int_parsing_size".toList
  | notFinite => "finite_number".toList
  | notBoolean => "bool_type".toList
  | unreadableBoolean => "bool_parsing".toList

end Fault

namespace Checked

variable {α β : Type}

/-- A value that is refused as a whole. -/
def fail (value : Json) (fault : Fault) : Checked α := faulty [⟨[], fault, value⟩]

def map (f : α → β) : Checked α → Checked β
  | sound a => sound (f a)
  | faulty issues => faulty issues

/-- Both checks, with the faults of the first before those of the second. -/
def both (f : Checked (α → β)) (a : Checked α) : Checked β :=
  match f, a with
  | sound f, sound a => sound (f a)
  | sound _, faulty issues => faulty issues
  | faulty issues, sound _ => faulty issues
  | faulty issues, faulty more => faulty (issues ++ more)

instance : Applicative Checked where
  pure := sound
  map := map
  seq f a := both f (a ())

/-- The second check on what the first made of a value. -/
def andThen (a : Checked α) (f : α → Checked β) : Checked β :=
  match a with
  | sound a => f a
  | faulty issues => faulty issues

/-- A check of a part, its faults placed in the whole. -/
def within (step : Step) : Checked α → Checked α
  | sound a => sound a
  | faulty issues => faulty (issues.map fun i => { i with place := step :: i.place })

/-- All of a list of checks. -/
def all : List (Checked α) → Checked (List α)
  | [] => sound []
  | c :: cs => both (map (fun a as => a :: as) c) (all cs)

end Checked

/-- A check of JSON values. -/
abbrev Check (α : Type) : Type := Json → Checked α

namespace Check

variable {α : Type}

/-- The check that finds the fault, if there is one, in the value itself. -/
def ofReader (read : Json → Except Fault α) : Check α := fun j =>
  match read j with
  | .ok a => .sound a
  | .error fault => .fail j fault

def readText : Json → Except Fault Text
  | .text t => .ok t
  | .brokenText => .error .brokenText
  | _ => .error .notText

def text : Check Text := ofReader readText

/-- A text that names one of some values. -/
def choice (named? : Text → Option α) : Check α := ofReader fun j =>
  match j with
  | .text t => (named? t).elim (.error .notChoice) .ok
  | _ => .error .notChoice

/-- An integer as a text: a numeral whose plain form is not too long. -/
def readNumeral (t : Text) : Except Fault Int :=
  match Numeral.plain? t with
  | none => .error (if Numeral.isTooLong t then .tooLarge else .unreadableInteger)
  | some plain =>
    if Numeral.isTooLong t || Numeral.isTooLong plain then .error .tooLarge
    else (Numeral.value? plain).elim (.error .unreadableInteger) .ok

/-- The integers of 64 bits, one of them the sign, lie below it. -/
def wordBound : Int := 0x8000000000000000

/-- A floating-point number without a fraction, as an integer of 64 bits. -/
def readWhole (x : Binary64) : Except Fault Int :=
  match x with
  | .nan => .error .notFinite
  | .infinity _ => .error .notFinite
  | x =>
    match x.toInt? with
    | none => .error .fractional
    | some n => if -wordBound < n ∧ n < wordBound then .ok n else .error .tooLarge

def readInteger : Json → Except Fault Int
  | .int n => .ok n
  | .bool b => .ok (if b then 1 else 0)
  | .float x => readWhole x
  | .text t => readNumeral t
  | .brokenText => .error .unreadableInteger
  | _ => .error .notInteger

def integer : Check Int := ofReader readInteger

def falseWords : List Text := ["0", "off", "f", "false", "n", "no"].map String.toList

def trueWords : List Text := ["1", "on", "t", "true", "y", "yes"].map String.toList

/-- An integer fits into 64 bits, one of them the sign. -/
def isSmall (n : Int) : Bool := -wordBound ≤ n && n < wordBound

def zeroOrOne (n : Int) : Except Fault Bool :=
  if n = 0 then .ok false else if n = 1 then .ok true else .error .unreadableBoolean

def readBoolean : Json → Except Fault Bool
  | .bool b => .ok b
  | .int n => if isSmall n then zeroOrOne n else .error .notBoolean
  | .float x =>
    match readWhole x with
    | .ok n => zeroOrOne n
    | .error _ => .error .notBoolean
  | .text t =>
    let word := t.map Char.toLower
    if falseWords.contains word then .ok false
    else if trueWords.contains word then .ok true
    else .error .unreadableBoolean
  | .brokenText => .error .unreadableBoolean
  | _ => .error .notBoolean

def boolean : Check Bool := ofReader readBoolean

/-- Null, or what another check accepts. -/
def optional (check : Check α) : Check (Option α)
  | .null => .sound none
  | j => (check j).map some

def listOf (check : Check α) : Check (List α)
  | .list items => Checked.all (items.zipIdx.map fun (j, i) => (check j).within (.item i))
  | j => .fail j .notList

/-- Values by name, in the order of their names. -/
def mappingOf (check : Check α) : Check (List (Text × α))
  | .object members =>
    Checked.all (members.map fun (name, j) =>
      ((check j).map fun a => (name, a)).within (.member name))
  | j => .fail j .notMapping

/-- An object, checked through its members; anything else is the fault `whole`. -/
def record (whole : Fault) (check : List (Text × Json) → Checked α) : Check α
  | .object members => check members
  | j => .fail j whole

/-- A member that must be there. -/
def field (name : String) (check : Check α) (members : List (Text × Json)) : Checked α :=
  match Assoc.find? name.toList members with
  | some j => (check j).within (.member name.toList)
  | none => .faulty [⟨[.member name.toList], .missing, .object members⟩]

/-- A member that may be left out. -/
def fieldOr (name : String) (default : α) (check : Check α) (members : List (Text × Json)) :
    Checked α :=
  match Assoc.find? name.toList members with
  | some j => (check j).within (.member name.toList)
  | none => .sound default

/-- Members with one known under an older name as well; the present name takes precedence. -/
def rename (old new : String) (members : List (Text × Json)) : List (Text × Json) :=
  match Assoc.find? old.toList members, Assoc.find? new.toList members with
  | some j, none => Assoc.remove old.toList members ++ [(new.toList, j)]
  | _, _ => members

end Check
end Chartwright
