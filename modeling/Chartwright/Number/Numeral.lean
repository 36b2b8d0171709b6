import Chartwright.Number.Integer
/-!
Numerals in ASCII digits: the value of a plain one, and the plain form of one that carries a plus
sign, superfluous zeros, a point with zeros after it, or low lines that group its digits.
-/
namespace Chartwright.Numeral

/-- How many characters a plain numeral may have, its sign included. -/
def longest : Nat := 4300

/-- The value of a plain numeral: perhaps a minus sign, then a zero alone or digits of which the
first is not zero. -/
def value? (t : Text) : Option Int :=
  let (negative, digits) := Integer.readMinus t
  if digits.isEmpty || !digits.all Text.isAsciiDigit ||
      (1 < digits.length && digits.head? = some '0') then none
  else
    let n : Int := Text.natOfDigits digits
    some (if negative then -n else n)

/-- A text starts like a plain numeral that is longer than the longest, whatever follows. -/
def isTooLong (t : Text) : Bool :=
  let (_, digits) := Integer.readMinus t
  digits.head? != some '0' && longest < t.length - (digits.dropWhile Text.isAsciiDigit).length

/-- A numeral without a plus sign, which no minus sign may follow. -/
def withoutPlus? : Text → Option Text
  | '+' :: '-' :: _ => none
  | '+' :: rest => some rest
  | t => some t

/-- Zeros at the front of a numeral may be grouped by low lines in any way. -/
def isFill (c : Char) : Bool := c = '0' || c = '_'

/-- A numeral without superfluous zeros at its front; of zeros alone, or before a point, the last
character is kept. A minus sign may follow the zeros, and is then the sign of the numeral. -/
def withoutZeros? (t : Text) : Option Text :=
  match t with
  | [] => none
  | '0' :: _ =>
    let kept := (t.takeWhile isFill).getLast?.toList
    match t.dropWhile isFill with
    | [] => some kept
    | '.' :: rest => some (kept ++ '.' :: rest)
    | c :: rest => if Text.isAsciiDigit c || c = '-' then some (c :: rest) else none
  | c :: _ => if Text.isAsciiDigit c then some t else none

/-- A numeral without its point, if one zero or more and nothing else stand after it. -/
def withoutPoint (t : Text) : Text :=
  match Text.cut? ['.'] t with
  | some (whole, part) => if !part.isEmpty && part.all (· = '0') then whole else t
  | none => t

/-- A numeral without low lines, if they stand alone and neither first nor last. -/
def withoutLowLines (t : Text) : Text :=
  if t.head? = some '_' || t.getLast? = some '_' || (Text.cut? ['_', '_'] t).isSome then t
  else t.filter (· != '_')

/-- The plain form of a numeral with margins around it; a minus sign at its front stays there. What
it gives for other texts may not be plain: a second minus sign behind zeros is left for `value?` to
refuse. -/
def plain? (t : Text) : Option Text :=
  (withoutPlus? (Integer.trimMargin t)).bind fun t =>
    let (negative, unsigned) := Integer.readMinus t
    (withoutZeros? unsigned).map fun t =>
      let digits := withoutLowLines (withoutPoint t)
      if negative then '-' :: digits else digits

end Chartwright.Numeral
