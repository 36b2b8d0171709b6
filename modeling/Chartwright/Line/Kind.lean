import Chartwright.Markup.Arrow
import Chartwright.Markup.Keyword
import Chartwright.Text.Blank
import Chartwright.Text.Word
/-!
What kind of line a line is, told from its first word alone: a directive never declares or links
nodes, a header names the layout, `subgraph` opens a group and `end` closes one.
-/
namespace Chartwright

/-- One line of a buffer, without its line end. -/
abbrev Line := Text

namespace Line

/-- The first word of a line, which a blank or a square bracket ends. -/
def firstWord (line : Line) : Text :=
  (Text.trim line).takeWhile fun c => !(Text.isBlank c || c == '[')

/-- Blank lines, comments, and lines that begin with a keyword. -/
def isDirective (line : Line) : Bool :=
  (Text.trim line).isEmpty || Text.startsWith ['%', '%'] (Text.trim line) ||
    Keyword.isKeyword (firstWord line)

/-- The word that begins a header, as it is written, and the rest. -/
def headerWord? (t : Text) : Option (Text × Text) :=
  ["flowchart".toList, "graph".toList].findSome? fun word =>
    (Keyword.after? word t).map (t.take word.length, ·)

/-- A line that begins with a header word. -/
def isHeader (line : Line) : Bool :=
  match headerWord? (Text.trimLeft line) with
  | some (_, rest) => Text.endsWord rest
  | none => false

/-- A line holds an arrow, wherever it stands. -/
def hasArrow (line : Line) : Bool := Arrow.occursIn line

/-- A line that begins with the word `subgraph`. -/
def opensSubgraph (line : Line) : Bool :=
  match Text.after? "subgraph".toList (Text.trimLeft line) with
  | some rest => Text.endsWord rest
  | none => false

/-- A line that holds the word `end` alone. -/
def closesSubgraph (line : Line) : Bool := Text.trim line == "end".toList

/-- What a line puts before its first word. -/
def indent (line : Line) : Text := Text.blanks line

end Line
end Chartwright
