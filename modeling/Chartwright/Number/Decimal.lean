import Chartwright.Number.Binary64
import Chartwright.Number.Integer
/-!
Decimal notation of binary floating-point numbers. Writing takes the fewest digits that read back;
reading rounds to the nearest number.
-/
namespace Chartwright.Decimal

/-- Which decimal exponents are written positionally, from the first up to and without the second: a
point inside or after the digits, or up to four zeros in front. -/
def positional (point : Int) : Bool := -4 < point && point ≤ 16

/-- Digits without the zeros at their end, and the decimal exponent that makes up for them. -/
def stripZeros (digits : Text) : Text := (digits.reverse.dropWhile (· = '0')).reverse

/-- The exponent of a number in scientific notation: a sign and at least two digits. -/
def writeExponent (e : Int) : Text :=
  let digits := Nat.toDigits 10 e.natAbs
  ['e', if e < 0 then '-' else '+'] ++ (if digits.length < 2 then '0' :: digits else digits)

/-- A number in scientific notation. -/
def writeScientific (digits : Text) (e : Int) : Text :=
  match digits with
  | [] => []
  | [d] => d :: writeExponent e
  | d :: ds => d :: '.' :: ds ++ writeExponent e

/-- A number in positional notation with at least one digit on each side of the point; `point` is
the place of the point, counted from before the first digit. -/
def writePositional (digits : Text) (point : Int) : Text :=
  if point ≤ 0 then "0.".toList ++ List.replicate point.natAbs '0' ++ digits
  else if digits.length ≤ point.toNat then
    digits ++ List.replicate (point.toNat - digits.length) '0' ++ ".0".toList
  else digits.take point.toNat ++ ['.'] ++ digits.drop point.toNat

/-- The shortest notation of a number. -/
def write : Binary64 → Text
  | .nan => "nan".toList
  | .infinity negative => if negative then "-inf".toList else "inf".toList
  | .finite negative m e =>
    let sign := if negative then ['-'] else []
    if m = 0 then sign ++ "0.0".toList
    else
      let decimal := Binary64.shortest m e
      let all := Nat.toDigits 10 decimal.digits
      let point := (all.length : Int) + decimal.scale
      let digits := stripZeros all
      sign ++
        if positional point then writePositional digits point
        else writeScientific digits (point - 1)

/-- A row of digits, the number it denotes and how many there are, and the rest. -/
def readDigits (t : Text) : Nat × Nat × Text :=
  (Text.natOfDigits (t.takeWhile Text.isDigit), (t.takeWhile Text.isDigit).length,
    t.dropWhile Text.isDigit)

/-- An exponent with its letter: nothing when the text is empty. -/
def readExponent? : Text → Option Int
  | [] => some 0
  | c :: rest =>
    if c = 'e' || c = 'E' then
      let (negative, digits) := Integer.readSign rest
      if digits.isEmpty || !digits.all Text.isDigit then none
      else
        let n : Int := Text.natOfDigits digits
        some (if negative then -n else n)
    else none

/-- A number without sign: digits with a point before, among or after them, and perhaps an
exponent. -/
def readUnsigned? (negative : Bool) (t : Text) : Option Binary64 :=
  let (whole, wholeCount, rest) := readDigits t
  let (part, partCount, rest) :=
    match rest with
    | '.' :: rest => readDigits rest
    | rest => (0, 0, rest)
  if wholeCount + partCount = 0 then none
  else
    (readExponent? rest).map fun e =>
      Binary64.ofDecimal negative (whole * Nat.pow 10 partCount + part) (e - partCount)

/-- A name of an infinity or of no number, in any ASCII case. -/
def readName? (negative : Bool) (t : Text) : Option Binary64 :=
  let name := t.map Char.toLower
  if name = "inf".toList || name = "infinity".toList then some (.infinity negative)
  else if name = "nan".toList then some .nan
  else none

/-- Low lines stand only between two digits. -/
def isGrouped (t : Text) : Bool :=
  (Text.pieces '_' t).zipIdx.all fun (piece, i) =>
    (i = 0 || piece.head?.any Text.isDigit) &&
      (i + 1 = (Text.pieces '_' t).length || piece.getLast?.any Text.isDigit)

/-- A whole text as a number: margins, a sign, and a decimal or a name. -/
def read? (t : Text) : Option Binary64 :=
  let trimmed := Integer.trimMargin t
  if isGrouped trimmed then
    let (negative, rest) := Integer.readSign (trimmed.filter (· != '_'))
    readName? negative rest <|> readUnsigned? negative rest
  else none

end Chartwright.Decimal
