import Chartwright.Line.Kind
import Chartwright.Markup.Bracket
/-!
Declarations: an identifier followed at once by a label between brackets, such as `B{Decision}`.

A line is read from left to right and reading goes on after each closing sequence, so a label is cut
at the first occurrence of its closing sequence and what stands inside a label declares nothing. An
opener without its closer ends the reading. Labels of arrows and class suffixes are blanked before,
so they declare nothing either.

Main statement: hiding the labels keeps the length of the line (`length_maskLabels`).
-/
namespace Chartwright

/-- A bracketed declaration on a line; `start` is the offset of its identifier. -/
structure Declaration where
  id : Text
  bracket : Bracket
  label : Text
  start : Nat
deriving DecidableEq, Repr

namespace Declaration

/-- The offset just after the identifier. -/
def openerStart (d : Declaration) : Nat := d.start + d.id.length

def labelStart (d : Declaration) : Nat := d.openerStart + d.bracket.opener.length

def labelStop (d : Declaration) : Nat := d.labelStart + d.label.length

/-- The offset just after the closing sequence. -/
def stop (d : Declaration) : Nat := d.labelStop + d.bracket.closer.length

def labelSpan (d : Declaration) : Span := ⟨d.labelStart, d.labelStop⟩

/-- The opener, the label and the closer. -/
def bracketSpan (d : Declaration) : Span := ⟨d.openerStart, d.stop⟩

/-- A declaration as it is written. -/
def written (d : Declaration) : Text := d.id ++ d.bracket.opener ++ d.label ++ d.bracket.closer

theorem length_written (d : Declaration) : d.written.length = d.stop - d.start := by
  simp [written, stop, labelStop, labelStart, openerStart]
  omega

/-- An identifier with an opener right after it, and the rest. -/
def opening? (before : Option Char) (t : Text) : Option (Text × Bracket × Text) := do
  let (id, rest) ← Identifier.token? before t
  let (bracket, rest) ← Bracket.read? rest
  return (id, bracket, rest)

/-- The declarations of a text, keywords included. `skip` counts the characters that the last one
still covers. -/
def readFrom (before : Option Char) (skip offset : Nat) : Text → List Declaration
  | [] => []
  | c :: cs =>
    match skip with
    | k + 1 => readFrom (some c) k (offset + 1) cs
    | 0 =>
      match opening? before (c :: cs) with
      | none => readFrom (some c) 0 (offset + 1) cs
      | some (id, bracket, rest) =>
        match Text.cut? bracket.closer rest with
        | none => []
        | some (label, _) =>
          let found : Declaration := ⟨id, bracket, label, offset⟩
          found :: readFrom (some c) (found.written.length - 1) (offset + 1) cs

/-- The same declaration with its label taken from another text of the same length. -/
def withLabelOf (line : Text) (d : Declaration) : Declaration :=
  { d with label := d.labelSpan.cut line }

end Declaration

namespace Line

/-- The label of an arrow, between two bars, as a span relative to the start of the arrow, with the
width of both. -/
def edgeLabelAt (t : Text) : Option (Span × Nat) := do
  let (arrow, rest) ← Arrow.read? t
  let inside ← Text.after? ['|'] (Text.trimLeft rest)
  let (label, _) ← Text.cut? ['|'] inside
  let start := arrow.length + (Text.blanks rest).length
  return (⟨start, start + label.length + 2⟩, start + label.length + 2)

/-- The spans of the labels of arrows, bars included. -/
def edgeLabels (line : Line) : List Span :=
  (Text.occurrences (fun _ t => edgeLabelAt t) line).map fun (offset, s) =>
    ⟨offset + s.start, offset + s.stop⟩

/-- A class suffix: three colons and a word. -/
def classSuffix? (t : Text) : Option (Text × Text) := do
  let rest ← Text.after? [':', ':', ':'] t
  if (rest.takeWhile Text.isWord).isEmpty then none
  else some ([':', ':', ':'] ++ rest.takeWhile Text.isWord, rest.dropWhile Text.isWord)

/-- The spans of the class suffixes. -/
def classSuffixes (line : Line) : List Span :=
  (Text.occurrences (fun _ t =>
    (classSuffix? t).map fun (suffix, _) => (suffix.length, suffix.length)) line).map
      fun (offset, width) => ⟨offset, offset + width⟩

/-- A line with the labels of its arrows and its class suffixes blanked. -/
def maskEdgeLabels (line : Line) : Line :=
  Text.hide ' ' (edgeLabels line ++ classSuffixes line) line

/-- The declarations on a line, from left to right. -/
def declarations (line : Line) : List Declaration :=
  if isDirective line then []
  else
    ((Declaration.readFrom none 0 0 (maskEdgeLabels line)).filter
      fun d => !Keyword.isKeyword d.id).map (Declaration.withLabelOf line)

/-- A line with every label of a declaration filled with NUL, so that an arrow or a name inside a
label is neither. -/
def maskLabels (line : Line) : Line := Text.hide '\x00' ((declarations line).map (·.labelSpan)) line

@[simp] theorem length_maskEdgeLabels (line : Line) : (maskEdgeLabels line).length = line.length :=
  Text.length_hide ..

@[simp] theorem length_maskLabels (line : Line) : (maskLabels line).length = line.length :=
  Text.length_hide ..

/-- The identifiers on a line outside of labels, declared or only referred to, without repeats and
keywords. -/
def identifiers (line : Line) : List Text :=
  if isDirective line then []
  else
    let bare := Text.hide ' ' ((declarations line).map (·.bracketSpan)) (maskEdgeLabels line)
    distinct (((Identifier.tokens bare).map (·.2)).filter fun name => !Keyword.isKeyword name)

/-- The column of the first mention of a name on a line, outside of labels; the name may be any
text. -/
def mention? (name : Text) (line : Line) : Option Nat := Identifier.mention? name (maskLabels line)

end Line
end Chartwright
