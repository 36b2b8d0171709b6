import Chartwright.Markup.Identifier
/-!
The words of the flowchart language itself. They are recognised in any case, and never name a node.
-/
namespace Chartwright.Keyword

/-- Every keyword, in lower case. -/
def all : List Text :=
  ["flowchart", "graph", "subgraph", "end", "style", "classdef", "class", "click", "linkstyle",
    "direction"].map
    String.toList

/-- Lower case of the characters whose lower case is an ASCII letter: the upper-case ASCII letters,
and the Kelvin sign. No other character can be part of a keyword, so none needs its lower case. -/
def lower (c : Char) : Char := if c.toNat = 0x212A then 'k' else c.toLower

/-- A word is a keyword, in whatever case it is written. -/
def isKeyword (word : Text) : Bool := all.contains (word.map lower)

/-- What follows a keyword that stands at the front of a text in whatever ASCII case. -/
def after? (word t : Text) : Option Text :=
  if (t.take word.length).map Char.toLower = word then some (t.drop word.length) else none

end Chartwright.Keyword
