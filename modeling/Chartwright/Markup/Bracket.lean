import Chartwright.Text.Basic
/-!
Node shapes, and the brackets that draw them. Each shape has one canonical pair; four more pairs are
understood and taken for the nearest shape.

Main statements: a pair is read off the front without loss (`Bracket.eq_append_of_read?`), a shape
is found again by its name (`Shape.named?_name`), and the canonical pair of a shape draws that shape
(`Shape.shape_bracket`).
-/
namespace Chartwright

/-- The outlines a node can have. -/
inductive Shape where
  | rectangle | rounded | stadium | diamond | hexagon | parallelogram | circle
deriving DecidableEq, Repr

/-- The pairs of brackets a label can stand between. -/
inductive Bracket where
  | stadium | cylinder | subroutine | circle | hexagon | slant | backslant | square | round
    | brace | flag
deriving DecidableEq, Repr

namespace Bracket

/-- All pairs, those with longer openers first. -/
def all : List Bracket :=
  [stadium, cylinder, subroutine, circle, hexagon, slant, backslant, square, round, brace, flag]

def opener : Bracket → Text
  | stadium => ['(', '[']
  | cylinder => ['[', '(']
  | subroutine => ['[', '[']
  | circle => ['(', '(']
  | hexagon => ['{', '{']
  | slant => ['[', '/']
  | backslant => ['[', '\\']
  | square => ['[']
  | round => ['(']
  | brace => ['{']
  | flag => ['>']

def closer : Bracket → Text
  | stadium => [']', ')']
  | cylinder => [')', ']']
  | subroutine => [']', ']']
  | circle => [')', ')']
  | hexagon => ['}', '}']
  | slant => ['/', ']']
  | backslant => ['\\', ']']
  | square => [']']
  | round => [')']
  | brace => ['}']
  | flag => [']']

/-- The shape that a pair draws. -/
def shape : Bracket → Shape
  | stadium => .stadium
  | cylinder => .rounded
  | subroutine => .rectangle
  | circle => .circle
  | hexagon => .hexagon
  | slant => .parallelogram
  | backslant => .parallelogram
  | square => .rectangle
  | round => .rounded
  | brace => .diamond
  | flag => .rectangle

/-- The longest opener at the front of a text, as its pair, and the rest. -/
def read? (t : Text) : Option (Bracket × Text) :=
  all.findSome? fun b => (Text.after? b.opener t).map (b, ·)

/-- A character that a closing sequence can end with. -/
def isClosing (c : Char) : Bool := c == ']' || c == ')' || c == '}'

theorem eq_append_of_read? {t rest : Text} {b : Bracket} (h : read? t = some (b, rest)) :
    t = b.opener ++ rest := by
  obtain ⟨b', -, hb⟩ := List.exists_of_findSome?_eq_some h
  simp only [Option.map_eq_some_iff, Prod.mk.injEq] at hb
  obtain ⟨r, hr, rfl, rfl⟩ := hb
  exact Text.after?_eq_some_iff.1 hr

end Bracket

namespace Shape

/-- All shapes, in the order they are offered. -/
def all : List Shape := [rectangle, rounded, stadium, diamond, hexagon, parallelogram, circle]

def name : Shape → Text
  | rectangle => "rectangle".toList
  | rounded => "rounded".toList
  | stadium => "stadium".toList
  | diamond => "diamond".toList
  | hexagon => "hexagon".toList
  | parallelogram => "parallelogram".toList
  | circle => "circle".toList

/-- The pair of brackets that is written for a shape. -/
def bracket : Shape → Bracket
  | rectangle => .square
  | rounded => .round
  | stadium => .stadium
  | diamond => .brace
  | hexagon => .hexagon
  | parallelogram => .slant
  | circle => .circle

def named? (name : Text) : Option Shape := all.find? (·.name = name)

theorem shape_bracket (s : Shape) : s.bracket.shape = s := by cases s <;> rfl

theorem named?_name (s : Shape) : named? s.name = some s := by cases s <;> decide

end Shape
end Chartwright
