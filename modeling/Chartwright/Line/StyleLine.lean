import Chartwright.Line.Kind
import Chartwright.Number.Integer
/-!
Styles, and the lines that set them: the word `style`, an identifier, and pairs of a key and a
value.

Writing keeps a fixed order of keys and leaves out what is not set; it fails at an integer with too
many digits. Reading skips unknown keys and pairs without a key or a value; a later pair with the
same key wins. A width or radius is the integer that its value starts with; one that is missing or
zero falls back to the width or radius of a node without a style, and one with too many digits makes
the line unreadable.
-/
namespace Chartwright

/-- The looks of a node or subgraph, as far as they are set. -/
structure Style where
  fill : Option Text := none
  stroke : Option Text := none
  strokeWidth : Option Int := none
  color : Option Text := none
  rx : Option Int := none
deriving DecidableEq, Repr

namespace Style

/-- The style with nothing set. -/
def empty : Style := {}

def defaultWidth : Int := 2

def defaultRadius : Int := 5

/-- The looks of a node that sets none. -/
def default : Style where
  fill := some "#ECECFF".toList
  stroke := some "#9370DB".toList
  strokeWidth := some defaultWidth
  color := some "#333333".toList
  rx := some defaultRadius

/-- What `update` sets, over what `base` sets. -/
def merge (base update : Style) : Style where
  fill := update.fill <|> base.fill
  stroke := update.stroke <|> base.stroke
  strokeWidth := update.strokeWidth <|> base.strokeWidth
  color := update.color <|> base.color
  rx := update.rx <|> base.rx

theorem merge_empty (s : Style) : merge s empty = s := by
  cases s
  simp [merge, empty]

theorem empty_merge (s : Style) : merge empty s = s := by
  cases s
  simp [merge, empty]

/-- A key with a value that is a text; an empty value is not written. -/
def writeText (key : Text) : Option Text → List Text
  | some (c :: cs) => [key ++ [':'] ++ c :: cs]
  | _ => []

/-- A key with a value in pixels. -/
def writePixels (key : Text) : Option Int → Except Integer.TooLong (List Text)
  | some n => (Integer.write n).map fun digits => [key ++ [':'] ++ digits ++ "px".toList]
  | none => .ok []

/-- The pairs that are set, in their fixed order, with commas between them. -/
def write (s : Style) : Except Integer.TooLong Text := do
  let width ← writePixels "stroke-width".toList s.strokeWidth
  let radius ← writePixels "rx".toList s.rx
  return Text.join [','] (writeText "fill".toList s.fill ++ writeText "stroke".toList s.stroke ++
    width ++ writeText "color".toList s.color ++ radius)

/-- The integer that a value starts with, or `fallback` when there is none or it is zero. -/
def readPixels (fallback : Int) (value : Text) : Except Integer.TooLong Int :=
  (Integer.leading value).map fun
    | some n => if n = 0 then fallback else n
    | none => fallback

/-- A style with one more pair, if its key is known. -/
def set (s : Style) (key value : Text) : Except Integer.TooLong Style :=
  if key = "fill".toList then .ok { s with fill := some value }
  else if key = "stroke".toList then .ok { s with stroke := some value }
  else if key = "stroke-width".toList then
    (readPixels defaultWidth value).map fun n => { s with strokeWidth := some n }
  else if key = "color".toList then .ok { s with color := some value }
  else if key = "rx".toList then
    (readPixels defaultRadius value).map fun n => { s with rx := some n }
  else .ok s

/-- A pair, its key and value apart and without the blanks around them. -/
def readPair (pair : Text) : Text × Text :=
  match Text.cut? [':'] pair with
  | some (key, value) => (Text.trim key, Text.trim value)
  | none => (Text.trim pair, [])

/-- A style with the pair that a text holds, if it has both a key and a value. -/
def addPair (s : Style) (pair : Text) : Except Integer.TooLong Style :=
  let (key, value) := readPair pair
  if key.isEmpty || value.isEmpty then .ok s else s.set key value

/-- The style that pairs between commas describe. -/
def read (pairs : Text) : Except Integer.TooLong Style :=
  (Text.pieces ',' pairs).foldlM addPair empty

end Style

/-- A style for the node or subgraph with an identifier. -/
structure StyleLine where
  id : Text
  style : Style
deriving DecidableEq, Repr

namespace StyleLine

/-- A text runs to the end of its line: only one last line feed may follow. -/
def endsLine (t : Text) : Bool := t = [] || t = ['\n']

/-- What stands after the word `style` and the blanks at its end, with the indent of the line. -/
def afterWord? (line : Line) : Option (Text × Text) :=
  (Text.after? "style".toList (Text.trimLeft line)).map (Text.blanks line, ·)

/-- The pairs that follow an identifier after at least one blank. When only blanks are left the last
of them counts as the text of the pairs. -/
def pairs? (t : Text) : Option Text :=
  let rest := Text.trimLeft t
  if (Text.blanks t).isEmpty then none
  else if rest.isEmpty then
    let kept := t.withoutLineFeed
    if 2 ≤ kept.length && kept.getLast? != some '\n' then some [] else none
  else if endsLine (rest.dropWhile (· != '\n')) then some (rest.takeWhile (· != '\n'))
  else none

/-- The identifier and the pairs on a line that sets a style. -/
def parts? (line : Line) : Option (Text × Text) := do
  let (_, rest) ← afterWord? line
  if (Text.blanks rest).isEmpty then none
  let (id, rest) ← Identifier.read? (Text.trimLeft rest)
  return (id, ← pairs? rest)

/-- The style that a line sets, if it sets one. -/
def read (line : Line) : Except Integer.TooLong (Option StyleLine) :=
  match parts? line with
  | none => .ok none
  | some (id, pairs) => (Style.read pairs).map fun style => some ⟨id, style⟩

/-- The indent of a line that sets the style of `id`, which may be any text. -/
def indentFor? (id : Text) (line : Line) : Option Text := do
  let (indent, rest) ← afterWord? line
  let found := (List.range (Text.blanks rest).length).any fun k =>
    match Text.after? id (rest.drop (k + 1)) with
    | some (c :: _) => Text.isBlank c
    | _ => false
  if found then some indent else none

/-- A line that sets the style of `id`. -/
def isFor (id : Text) (line : Line) : Bool := (indentFor? id line).isSome

/-- The line that sets a style to written pairs. -/
def ofPairs (indent id pairs : Text) : Line := indent ++ "style ".toList ++ id ++ [' '] ++ pairs

/-- The line that sets a style. -/
def write (indent id : Text) (style : Style) : Except Integer.TooLong Line :=
  style.write.map (ofPairs indent id)

end StyleLine
end Chartwright
