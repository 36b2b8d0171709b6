/-!
Binary floating-point numbers with 53 significant bits, kept exactly: a finite one is a sign and m ·
2^e with m < 2^53 and e ≥ -1074. Rounding to the nearest one and the shortest decimal that rounds
back are computed on natural numbers, so nothing depends on the arithmetic of a machine.
-/
namespace Chartwright

inductive Binary64 where
  | finite (negative : Bool) (mantissa : Nat) (exponent : Int)
  | infinity (negative : Bool)
  | nan
deriving DecidableEq, Repr

/-- A quotient rounded to the nearest integer; a half goes to the even neighbour. -/
def roundHalfEven (num den : Nat) : Nat :=
  let q := num / den
  let twice := 2 * (num % den)
  if twice < den then q else if den < twice then q + 1 else if q % 2 = 0 then q else q + 1

namespace Binary64

def minExponent : Int := -1074

def maxExponent : Int := 971

/-- 2^e as a quotient of natural numbers. -/
def powerOfTwo (e : Int) : Nat × Nat :=
  if 0 ≤ e then (Nat.pow 2 e.toNat, 1) else (1, Nat.pow 2 e.natAbs)

/-- 10^e as a quotient of natural numbers. -/
def powerOfTen (e : Int) : Nat × Nat :=
  if 0 ≤ e then (Nat.pow 10 e.toNat, 1) else (1, Nat.pow 10 e.natAbs)

/-- The number nearest to a quotient, a tie going to the even mantissa; infinity beyond the largest
finite number. -/
def ofQuotient (negative : Bool) (num den : Nat) : Binary64 :=
  if num = 0 then finite negative 0 minExponent
  else
    let estimate : Int := (Nat.log2 num : Int) - Nat.log2 den
    let (p, q) := powerOfTwo estimate
    let top := if num * q < den * p then estimate - 1 else estimate
    let e := max (top - 52) minExponent
    let (p, q) := powerOfTwo e
    let m := roundHalfEven (num * q) (den * p)
    let (m, e) := if m = Nat.pow 2 53 then (Nat.pow 2 52, e + 1) else (m, e)
    if maxExponent < e then infinity negative else finite negative m e

/-- The number nearest to digits · 10^scale. Scales that are out of all range are settled by the
count of digits. -/
def ofDecimal (negative : Bool) (digits : Nat) (scale : Int) : Binary64 :=
  let places : Int := (Nat.log2 digits : Int) / 3 + 1
  if digits = 0 then finite negative 0 minExponent
  else if 400 < scale then infinity negative
  else if places + scale < -400 then finite negative 0 minExponent
  else
    let (p, q) := powerOfTen scale
    ofQuotient negative (digits * p) q

/-- The value when it is an integer. -/
def toInt? : Binary64 → Option Int
  | finite negative m e =>
    let (p, q) := powerOfTwo e
    if m * p % q = 0 then
      let n : Int := (m * p / q : Nat)
      some (if negative then -n else n)
    else none
  | _ => none

/-! ## The shortest decimal -/

/-- The decimal digits and the exponent of a decimal. -/
structure Decimal where
  digits : Nat
  scale : Int
deriving DecidableEq, Repr

/-- The reals that round to m · 2^e, in units of 2^(e-2): bounds, and whether the bounds themselves
round there. -/
def interval (m : Nat) (e : Int) : Nat × Nat × Bool :=
  let low := if m = Nat.pow 2 52 ∧ minExponent < e then 4 * m - 1 else 4 * m - 2
  (low, 4 * m + 2, m % 2 = 0)

/-- A decimal n · 10^scale rounds to m · 2^e. -/
def roundsTo (m : Nat) (e : Int) (n : Nat) (scale : Int) : Bool :=
  let (low, high, closed) := interval m e
  let (p, q) := powerOfTwo (e - 2)
  let (s, t) := powerOfTen scale
  let value := n * s * q
  let unit := p * t
  if closed then low * unit ≤ value && value ≤ high * unit else low * unit < value &&
    value < high * unit

/-- The decimal with the given scale that rounds to m · 2^e and is nearest to it, a tie going to
even digits. -/
def onGrid? (m : Nat) (e : Int) (scale : Int) : Option Decimal :=
  let (p, q) := powerOfTwo e
  let (s, t) := powerOfTen scale
  let num := m * p * t
  let den := q * s
  let below := num / den
  let near := roundHalfEven num den
  let far := if near = below then below + 1 else below
  if roundsTo m e near scale then some ⟨near, scale⟩
  else if roundsTo m e far scale then some ⟨far, scale⟩
  else none

/-- How many decimal digits a number has. -/
def countDigits (n : Nat) : Nat := (Nat.toDigits 10 n).length

/-- The decimal order of magnitude of m · 2^e: the exponent of its leading digit. -/
def magnitude (m : Nat) (e : Int) : Int :=
  let (p, q) := powerOfTwo e
  if q ≤ m * p then (countDigits (m * p / q) : Int) - 1
  else
    let guess : Int := (countDigits (m * p) : Int) - countDigits q
    let (s, t) := powerOfTen guess
    if m * p * t < q * s then guess - 1 else guess

/-- The decimal with the fewest digits that rounds to m · 2^e; 17 digits always do. -/
def shortest (m : Nat) (e : Int) : Decimal :=
  let top := magnitude m e
  let found := (List.range 17).findSome? fun (d : Nat) => onGrid? m e (top - d)
  found.getD ⟨0, 0⟩

end Binary64
end Chartwright
