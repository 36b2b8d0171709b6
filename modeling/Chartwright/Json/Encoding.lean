import Chartwright.Json.Reader
/-!
The encoding of a JSON text that is sent as bytes. A JSON text starts with ASCII characters, so the
zero bytes among its first four tell the encoding; without any it is UTF-8, perhaps with a byte
order mark in front.

What is sent is given here as the text that its bytes are in UTF-8.
-/
namespace Chartwright.Json

inductive Encoding where
  | utf8
  | utf16 (bigEndian : Bool)
  | utf32 (bigEndian : Bool)
deriving DecidableEq, Repr

namespace Encoding

/-- The bytes of a text in UTF-8. -/
def bytes (t : Text) : List Nat := t.flatMap fun c => (String.utf8EncodeChar c).map UInt8.toNat

/-- The encoding that bytes are in, judged by the first four, or by both if there are only two. -/
def ofBytes : List Nat → Encoding
  | a :: b :: c :: d :: _ =>
    if a = 0 then (if b = 0 then utf32 true else utf16 true)
    else if b = 0 then (if c = 0 && d = 0 then utf32 false else utf16 false)
    else utf8
  | [a, b] => if a = 0 then utf16 true else if b = 0 then utf16 false else utf8
  | _ => utf8

/-- The number that bytes denote. -/
def number (bigEndian : Bool) (digits : List Nat) : Nat :=
  (if bigEndian then digits else digits.reverse).foldl (fun n d => 256 * n + d) 0

/-- The numbers that every two bytes denote, if none is left over. -/
def units16? (bigEndian : Bool) : List Nat → Option (List Nat)
  | [] => some []
  | [_] => none
  | a :: b :: rest => (units16? bigEndian rest).map (number bigEndian [a, b] :: ·)

/-- The numbers that every four bytes denote, if none are left over. -/
def units32? (bigEndian : Bool) : List Nat → Option (List Nat)
  | [] => some []
  | a :: b :: c :: d :: rest => (units32? bigEndian rest).map (number bigEndian [a, b, c, d] :: ·)
  | _ => none

/-- The character with a number; half a surrogate pair becomes the replacement character. -/
def character (n : Nat) : Char :=
  if isHighSurrogate n || isLowSurrogate n then Char.ofNat 0xFFFD else Char.ofNat n

/-- The text of units of UTF-16. -/
def ofUnits : List Nat → Text
  | [] => []
  | [u] => [character u]
  | u :: v :: rest =>
    if isHighSurrogate u && isLowSurrogate v then joinSurrogates u v :: ofUnits rest
    else character u :: ofUnits (v :: rest)

/-- A text without the byte order mark that may stand in front. -/
def unmarked : Text → Text
  | c :: cs => if c.toNat = 0xFEFF then cs else c :: cs
  | [] => []

/-- The text that was sent, if its bytes are well-formed. -/
def decode? (sent : Text) : Option Text :=
  match ofBytes (bytes (sent.take 4)) with
  | utf8 => some (unmarked sent)
  | utf16 bigEndian => (units16? bigEndian (bytes sent)).map ofUnits
  | utf32 bigEndian =>
    match units32? bigEndian (bytes sent) with
    | some units => if units.all (· < 0x110000) then some (units.map character) else none
    | none => none

end Encoding
end Chartwright.Json
