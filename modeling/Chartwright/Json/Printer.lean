import Chartwright.Json.Value
import Chartwright.Number.Decimal
import Chartwright.Text.Quoted
/-!
JSON texts of values, in two layouts: on one line with every character that is not printable ASCII
escaped, as messages are sent, and indented with characters as they are, as files are saved.
Printing stops at an integer with too many digits.
-/
namespace Chartwright.Json

/-- How a value is laid out as text. -/
structure Layout where
  /-- Characters other than those from the space to the tilde are escaped. -/
  asciiOnly : Bool
  /-- Items and members stand on lines of their own. -/
  indented : Bool
deriving DecidableEq, Repr

/-- The layout of messages. -/
def Layout.message : Layout := ⟨true, false⟩

/-- The layout of files. -/
def Layout.file : Layout := ⟨false, true⟩

/-- A UTF-16 unit as an escape. -/
def escapeUnit (n : Nat) : Text := ['\\', 'u'] ++ Text.hexadecimal 4 n

/-- A character as escapes of its UTF-16 units. -/
def escapeUnits (c : Char) : Text :=
  if c.toNat < 0x10000 then escapeUnit c.toNat
  else
    escapeUnit (0xD800 + (c.toNat - 0x10000) / 0x400) ++
      escapeUnit (0xDC00 + (c.toNat - 0x10000) % 0x400)

/-- A character inside a string. -/
def printChar (asciiOnly : Bool) (c : Char) : Text :=
  if c = '"' then ['\\', '"']
  else if c = '\\' then ['\\', '\\']
  else if c = '\n' then ['\\', 'n']
  else if c = '\r' then ['\\', 'r']
  else if c = '\t' then ['\\', 't']
  else if c.toNat = 8 then ['\\', 'b']
  else if c.toNat = 12 then ['\\', 'f']
  else if c.toNat < 32 then escapeUnit c.toNat
  else if asciiOnly && 126 < c.toNat then escapeUnits c
  else [c]

def printText (asciiOnly : Bool) (t : Text) : Text :=
  ['"'] ++ t.flatMap (printChar asciiOnly) ++ ['"']

/-- A floating-point number; those that are not finite have names. -/
def printFloat : Binary64 → Text
  | .nan => "NaN".toList
  | .infinity negative => if negative then "-Infinity".toList else "Infinity".toList
  | x => Decimal.write x

/-- A line end and the indent of a depth, or nothing in a layout on one line. -/
def lineBreak (l : Layout) (depth : Nat) : Text :=
  if l.indented then '\n' :: List.replicate (2 * depth) ' ' else []

/-- What stands between two items or members. -/
def separator (l : Layout) (depth : Nat) : Text :=
  if l.indented then ',' :: lineBreak l depth else [',', ' ']

/-- As much of a value as was printed, and why no more was. -/
structure Printed where
  text : Text
  failure : Option Integer.TooLong
deriving DecidableEq, Repr

namespace Printed

/-- All of a text. -/
def whole (t : Text) : Printed := ⟨t, none⟩

/-- Nothing is printed any more after a failure. -/
def append (p q : Printed) : Printed :=
  match p.failure with
  | some e => ⟨p.text, some e⟩
  | none => ⟨p.text ++ q.text, q.failure⟩

end Printed

/-- An integer with a text before it; neither is printed when the integer has too many digits. -/
def printInt (before : Text) (n : Int) : Printed :=
  match Integer.write n with
  | .ok digits => .whole (before ++ digits)
  | .error e => ⟨[], some e⟩

mutual

/-- A value that stands at a depth, printed up to the first integer with too many digits. A string
that is no text prints as null. -/
def print (l : Layout) (depth : Nat) : Json → Printed
  | null => .whole "null".toList
  | bool b => .whole (if b then "true".toList else "false".toList)
  | int n => printInt [] n
  | float x => .whole (printFloat x)
  | text t => .whole (printText l.asciiOnly t)
  | brokenText => .whole "null".toList
  | list [] => .whole ['[', ']']
  | list (item :: rest) =>
    (printItems l (depth + 1) ('[' :: lineBreak l (depth + 1)) (item :: rest)).append
      (.whole (lineBreak l depth ++ [']']))
  | object [] => .whole ['{', '}']
  | object (member :: rest) =>
    (printMembers l (depth + 1) ('{' :: lineBreak l (depth + 1)) (member :: rest)).append
      (.whole (lineBreak l depth ++ ['}']))

/-- Items with what stands before the first of them. An integer is printed together with what stands
before it. -/
def printItems (l : Layout) (depth : Nat) (before : Text) : List Json → Printed
  | [] => .whole []
  | int n :: rest => (printInt before n).append (printItems l depth (separator l depth) rest)
  | item :: rest =>
    ((Printed.whole before).append (print l depth item)).append
      (printItems l depth (separator l depth) rest)

/-- Members with what stands before the first of them. -/
def printMembers (l : Layout) (depth : Nat) (before : Text) : List (Text × Json) → Printed
  | [] => .whole []
  | (name, value) :: rest =>
    ((Printed.whole (before ++ printText l.asciiOnly name ++ [':', ' '])).append
      (print l depth value)).append (printMembers l depth (separator l depth) rest)

end

/-- A value in a layout. -/
def write (l : Layout) (value : Json) : Printed := print l 0 value

end Chartwright.Json
