import Chartwright.Json.Value
import Chartwright.Number.Decimal
/-!
Reading JSON texts. A text that is no JSON is refused at an offset: the place where no continuation
could be read any more, or where an unfinished string started. A text also goes beyond what is read
when an integer has too many digits or values are nested too deeply; what is met first decides.

Besides the standard, NaN and the two infinities are read by name. Of several members with one name
the last value counts, at the place of the first.
-/
namespace Chartwright.Json

/-- Why a text is no JSON. -/
inductive Refusal where
  | value | name | colon | comma | unterminated | controlCharacter | escape | unicodeEscape
  | trailing | byteOrderMark
deriving DecidableEq, Repr

/-- What holds other values. -/
inductive Container where
  | list | object
deriving DecidableEq, Repr

/-- A refusal and where it was met, an integer with too many digits, or the container that is nested
too deeply. -/
inductive ReadError where
  | refused (refusal : Refusal) (offset : Nat)
  | tooLong (e : Integer.TooLong)
  | tooDeep (innermost : Container)
deriving DecidableEq, Repr

/-- How many containers may be open at once. -/
def nestingLimit : Nat := 960

/-- The rest of a text, and the offset at which it starts. -/
structure Rest where
  text : Text
  offset : Nat
deriving DecidableEq, Repr

namespace Rest

def drop (r : Rest) (n : Nat) : Rest := ⟨r.text.drop n, r.offset + n⟩

def isSpace (c : Char) : Bool := c = ' ' || c = '\t' || c = '\n' || c = '\r'

/-- The rest after white space. -/
def skipSpace (r : Rest) : Rest := r.drop (r.text.takeWhile isSpace).length

end Rest

/-- The value of a hexadecimal digit. -/
def hexDigit? (c : Char) : Option Nat :=
  if '0' ≤ c ∧ c ≤ '9' then some (c.toNat - 48)
  else if 'a' ≤ c ∧ c ≤ 'f' then some (c.toNat - 87)
  else if 'A' ≤ c ∧ c ≤ 'F' then some (c.toNat - 55)
  else none

/-- The value of four hexadecimal digits. -/
def hexUnit? (a b c d : Char) : Option Nat := do
  return ((← hexDigit? a) * 16 + (← hexDigit? b)) * 256 + (← hexDigit? c) * 16 + (← hexDigit? d)

def isHighSurrogate (n : Nat) : Bool := 0xD800 ≤ n && n < 0xDC00

def isLowSurrogate (n : Nat) : Bool := 0xDC00 ≤ n && n < 0xE000

/-- The character of a pair of surrogates. -/
def joinSurrogates (high low : Nat) : Char :=
  Char.ofNat (0x10000 + (high - 0xD800) * 0x400 + (low - 0xDC00))

/-- The character that a letter after a backslash stands for. -/
def escaped? : Char → Option Char
  | '"' => some '"'
  | '\\' => some '\\'
  | '/' => some '/'
  | 'b' => some (Char.ofNat 8)
  | 'f' => some (Char.ofNat 12)
  | 'n' => some '\n'
  | 'r' => some '\r'
  | 't' => some '\t'
  | _ => none

/-- A string as far as it has been read; `whole` is false once half a surrogate pair was met. -/
structure Piece where
  whole : Bool
  text : Text
  rest : Rest
deriving DecidableEq, Repr

namespace Piece

def push (c : Char) (p : Piece) : Piece := { p with text := c :: p.text }

/-- A character given by its number; the replacement character for half a surrogate pair. -/
def pushUnit (n : Nat) (p : Piece) : Piece :=
  if isHighSurrogate n || isLowSurrogate n then { p.push (Char.ofNat 0xFFFD) with whole := false }
  else p.push (Char.ofNat n)

end Piece

/-- The rest of a string whose opening quote stands at `start`. At least one character must follow
four hexadecimal digits, and one must follow a pair of escapes for it to be read as a surrogate
pair. -/
def readString (start offset : Nat) : Text → Except ReadError Piece
  | [] => .error (.refused .unterminated start)
  | '"' :: rest => .ok ⟨true, [], ⟨rest, offset + 1⟩⟩
  | ['\\'] => .error (.refused .unterminated start)
  | '\\' :: 'u' :: a :: b :: c :: d :: e :: rest =>
    match hexUnit? a b c d with
    | none => .error (.refused .unicodeEscape (offset + 1))
    | some n =>
      match e, rest with
      | '\\', 'u' :: a' :: b' :: c' :: d' :: f :: rest' =>
        if isHighSurrogate n then
          match hexUnit? a' b' c' d' with
          | none => .error (.refused .unicodeEscape (offset + 7))
          | some n' =>
            if isLowSurrogate n' then
              (readString start (offset + 12) (f :: rest')).map (·.push (joinSurrogates n n'))
            else
              (readString start (offset + 6)
                ('\\' :: 'u' :: a' :: b' :: c' :: d' :: f :: rest')).map (·.pushUnit n)
        else
          (readString start (offset + 6) ('\\' :: 'u' :: a' :: b' :: c' :: d' :: f :: rest')).map
            (·.pushUnit n)
      | e, rest => (readString start (offset + 6) (e :: rest)).map (·.pushUnit n)
  | '\\' :: 'u' :: _ => .error (.refused .unicodeEscape (offset + 1))
  | '\\' :: c :: rest =>
    match escaped? c with
    | none => .error (.refused .escape offset)
    | some c => (readString start (offset + 2) rest).map (·.push c)
  | c :: rest =>
    if c.toNat < 32 then .error (.refused .controlCharacter offset)
    else (readString start (offset + 1) rest).map (·.push c)
termination_by t => t.length

/-- The whole digits at the front of a number: one zero, or a row that starts with another digit. -/
def wholeDigits : Text → Text
  | '0' :: _ => ['0']
  | t => t.takeWhile Text.isAsciiDigit

/-- A point and digits. -/
def fraction : Text → Text
  | '.' :: rest =>
    if rest.head?.any Text.isAsciiDigit then '.' :: rest.takeWhile Text.isAsciiDigit else []
  | _ => []

/-- The letter e, perhaps a sign, and digits. -/
def exponent : Text → Text
  | c :: rest =>
    if c = 'e' || c = 'E' then
      match rest with
      | s :: digits =>
        if s = '+' || s = '-' then
          if digits.head?.any Text.isAsciiDigit then c :: s :: digits.takeWhile Text.isAsciiDigit
          else []
        else if Text.isAsciiDigit s then c :: rest.takeWhile Text.isAsciiDigit
        else []
      | [] => []
    else []
  | [] => []

/-- A number at the front of a text, and how wide it is. With a fraction or an exponent it is a
floating-point number, else an integer. -/
def readNumber? (t : Text) : Option (Except Integer.TooLong Json × Nat) :=
  let sign := t.takeWhile (· = '-')
  let body := t.drop sign.length
  let whole := wholeDigits body
  let part := fraction (body.drop whole.length)
  let power := exponent (body.drop (whole.length + part.length))
  let written := body.take (whole.length + part.length + power.length)
  if 1 < sign.length || whole.isEmpty then none
  else
    let value : Except Integer.TooLong Json :=
      if part.isEmpty && power.isEmpty then (Integer.ofDigits (!sign.isEmpty) whole).map int
      else .ok (float ((Decimal.readUnsigned? (!sign.isEmpty) written).getD .nan))
    some (value, sign.length + written.length)

/-- The values that are written as words. -/
def words : List (Text × Json) :=
  [("null".toList, null), ("true".toList, bool true), ("false".toList, bool false),
   ("NaN".toList, float .nan), ("Infinity".toList, float (.infinity false)),
   ("-Infinity".toList, float (.infinity true))]

/-- A word at the front of a text, and how wide it is. -/
def readWord? (t : Text) : Option (Json × Nat) :=
  words.findSome? fun (word, value) =>
    if Text.startsWith word t then some (value, word.length) else none

/-- The value of a string. -/
def ofPiece (p : Piece) : Json := if p.whole then text p.text else brokenText

/-- The name of a member. -/
def nameOf (p : Piece) : Text := p.text

/-- A word or a number at the front of a rest. -/
def readScalar (r : Rest) : Except ReadError (Json × Rest) :=
  match readWord? r.text with
  | some (value, width) => .ok (value, r.drop width)
  | none =>
    match readNumber? r.text with
    | some (.ok value, width) => .ok (value, r.drop width)
    | some (.error e, _) => .error (.tooLong e)
    | none => .error (.refused .value r.offset)

mutual

/-- A value at the front of a rest without white space before it, with `depth` more containers that
may be opened. A level takes two units of `fuel` and at least one character, an item one unit and at
least one character, so twice the length of the text suffices. -/
def readValue : Nat → Nat → Rest → Except ReadError (Json × Rest)
  | 0, _, r => .error (.refused .value r.offset)
  | fuel + 1, depth, r =>
    match r.text, depth with
    | '"' :: rest, _ => (readString r.offset (r.offset + 1) rest).map fun p => (ofPiece p, p.rest)
    | '{' :: _, 0 => .error (.tooDeep .object)
    | '{' :: _, depth + 1 =>
      let inside := (r.drop 1).skipSpace
      if inside.text.head? = some '}' then .ok (object [], inside.drop 1)
      else (readMembers fuel depth [] inside).map fun (members, rest) => (object members, rest)
    | '[' :: _, 0 => .error (.tooDeep .list)
    | '[' :: _, depth + 1 =>
      let inside := (r.drop 1).skipSpace
      if inside.text.head? = some ']' then .ok (list [], inside.drop 1)
      else (readItems fuel depth inside).map fun (items, rest) => (list items, rest)
    | _, _ => readScalar r

/-- Items up to the closing bracket. -/
def readItems : Nat → Nat → Rest → Except ReadError (List Json × Rest)
  | 0, _, r => .error (.refused .value r.offset)
  | fuel + 1, depth, r => do
    let (item, after) ← readValue fuel depth r
    let after := after.skipSpace
    match after.text with
    | ']' :: _ => return ([item], after.drop 1)
    | ',' :: _ =>
      let (items, rest) ← readItems fuel depth (after.drop 1).skipSpace
      return (item :: items, rest)
    | _ => .error (.refused .comma after.offset)

/-- Members up to the closing brace, added to those read before. -/
def readMembers :
    Nat → Nat → List (Text × Json) → Rest → Except ReadError (List (Text × Json) × Rest)
  | 0, _, _, r => .error (.refused .name r.offset)
  | fuel + 1, depth, sofar, r =>
    match r.text with
    | '"' :: rest => do
      let key ← readString r.offset (r.offset + 1) rest
      let colon := key.rest.skipSpace
      if colon.text.head? != some ':' then .error (.refused .colon colon.offset)
      let (value, after) ← readValue fuel depth (colon.drop 1).skipSpace
      let members := Assoc.put (nameOf key) value sofar
      let after := after.skipSpace
      match after.text with
      | '}' :: _ => return (members, after.drop 1)
      | ',' :: _ => readMembers fuel depth members (after.drop 1).skipSpace
      | _ => .error (.refused .comma after.offset)
    | _ => .error (.refused .name r.offset)

end

/-- A whole text as a value, white space around it allowed. -/
def read (t : Text) : Except ReadError Json :=
  if t.head?.any fun c => c.toNat = 0xFEFF then .error (.refused .byteOrderMark 0)
  else
    match readValue (2 * t.length + 2) nestingLimit (Rest.mk t 0).skipSpace with
    | .error e => .error e
    | .ok (value, rest) =>
      let rest := rest.skipSpace
      if rest.text.isEmpty then .ok value else .error (.refused .trailing rest.offset)

end Chartwright.Json
