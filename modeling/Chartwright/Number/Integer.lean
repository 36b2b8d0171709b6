import Chartwright.Text.Blank
import Chartwright.Text.Digit
/-!
Integers in decimal: writing them, reading one off the front of a text, and reading a whole text as
one. Digits of every script are read; ASCII digits are written. More than 4300 digits are neither
read nor written.
-/
namespace Chartwright.Integer

/-- How many digits an integer may have when it is read or written. -/
def digitLimit : Nat := 4300

/-- Too many digits: in a row that is read, or in an integer that is to be written. -/
inductive TooLong where
  | reading (digits : Nat)
  | writing
deriving DecidableEq, Repr

def TooLong.message (e : TooLong) : Text :=
  let counted :=
    match e with
    | reading digits => ": value has ".toList ++ Nat.toDigits 10 digits ++ " digits".toList
    | writing => []
  "Exceeds the limit (".toList ++ Nat.toDigits 10 digitLimit ++
    " digits) for integer string conversion".toList ++ counted ++
    "; use sys.set_int_max_str_digits() to increase the limit".toList

/-- An integer without leading zeros, with a minus sign if it is negative, however long it is. -/
def decimal (n : Int) : Text :=
  if n < 0 then '-' :: Nat.toDigits 10 n.natAbs else Nat.toDigits 10 n.natAbs

/-- An integer as it is written; the sign is no digit. -/
def write (n : Int) : Except TooLong Text :=
  if digitLimit < (Nat.toDigits 10 n.natAbs).length then .error .writing else .ok (decimal n)

/-- The integer that a sign and a row of digits denote. -/
def ofDigits (negative : Bool) (digits : Text) : Except TooLong Int :=
  if digitLimit < digits.length then .error (.reading digits.length)
  else
    let n : Int := Text.natOfDigits digits
    .ok (if negative then -n else n)

/-- The minus sign at the front of a text, and the rest. -/
def readMinus : Text → Bool × Text
  | '-' :: rest => (true, rest)
  | t => (false, t)

/-- The integer at the front of a text, if there is one: perhaps a minus sign, and the longest row
of digits. -/
def leading (t : Text) : Except TooLong (Option Int) :=
  let (negative, rest) := readMinus t
  let digits := rest.takeWhile Text.isDigit
  if digits.isEmpty then .ok none else (ofDigits negative digits).map some

/-- Blanks that may stand around a number; the separators U+001C to U+001F may not. -/
def isMargin (c : Char) : Bool := Text.isBlank c && !(28 ≤ c.toNat && c.toNat ≤ 31)

/-- A text without the margins around it. -/
def trimMargin (t : Text) : Text := ((t.dropWhile isMargin).reverse.dropWhile isMargin).reverse

/-- A sign at the front of a text, true for a minus, and the rest. -/
def readSign : Text → Bool × Text
  | '-' :: rest => (true, rest)
  | '+' :: rest => (false, rest)
  | t => (false, t)

/-- Rows of digits, with single low lines between them. -/
def isGrouped (t : Text) : Bool :=
  (Text.pieces '_' t).all fun row => !row.isEmpty && row.all Text.isDigit

/-- A whole text as an integer, if it is one: margins, a sign, and digits that single low lines may
group. Too many digits are refused whatever follows them. -/
def read (t : Text) : Except TooLong (Option Int) :=
  let (negative, body) := readSign (trimMargin t)
  let row := body.takeWhile fun c => Text.isDigit c || c = '_'
  if isGrouped row then
    (ofDigits negative (row.filter (· != '_'))).map fun n =>
      if row.length = body.length then some n else none
  else .ok none

end Chartwright.Integer
