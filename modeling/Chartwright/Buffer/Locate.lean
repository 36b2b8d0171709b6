import Chartwright.Buffer.Entities
/-!
Where an entity is shown: a node at its first declaration or else its first mention, an edge at the
line it was found on or else the first line that links its ends. An element of a rendered drawing is
traced back to its node.
-/
namespace Chartwright

/-- A place in a buffer, both numbers counted from zero. -/
structure Location where
  line : Nat
  column : Nat
deriving DecidableEq, Repr

namespace Location

def ofPair (place : Nat × Nat) : Location := ⟨place.1, place.2⟩

end Location

namespace Buffer

/-- Where a node is declared first, or mentioned first on a line that is no header. -/
def locateNode (b : Buffer) (id : Text) : Option Location :=
  match b.declaration? id with
  | some (i, d) => some ⟨i, d.start⟩
  | none =>
    (b.first? fun line => if Line.isHeader line then none else Line.mention? id line).map
      Location.ofPair

/-- The line with a number that may lie outside the buffer. -/
def lineAt? (b : Buffer) (i : Int) : Option Line := if 0 ≤ i then b[i.toNat]? else none

/-- The column at which a line links the source of an edge to its target. -/
def linkColumn? (e : Edge) (line : Line) : Option Nat :=
  Link.column? e.source e.target (Line.maskLabels line)

/-- Where the ends of an edge are linked: on its own line if they are there, else on the first line
where they are. -/
def locateEdge (b : Buffer) (e : Edge) : Option Location :=
  match (b.lineAt? e.line).bind (linkColumn? e) with
  | some column => some ⟨e.line.toNat, column⟩
  | none => (b.first? (linkColumn? e)).map Location.ofPair

end Buffer

namespace RenderedElement

/-- The name between `flowchart-` and a hyphen with a number, at the front of a text. -/
def readName? (t : Text) : Option Text := do
  let rest ← Text.after? "flowchart-".toList t
  let name := rest.takeWhile Text.isWord
  let number ← Text.after? ['-'] (rest.dropWhile Text.isWord)
  if name.isEmpty || !number.head?.any Text.isDigit then none
  return name

/-- A text without a hyphen and a number at its end; one line feed may follow them. -/
def dropNumber (t : Text) : Text :=
  let body := t.withoutLineFeed
  let ending := t.drop body.length
  let front := body.reverse.dropWhile Text.isDigit
  if (body.reverse.takeWhile Text.isDigit).isEmpty then t
  else
    match front with
    | '-' :: rest => rest.reverse ++ ending
    | _ => t

/-- The node that an element of a rendered drawing stands for, told from the identifier of the
element. -/
def node? (element : Text) : Option Text :=
  match Text.first? (fun _ t => readName? t) element with
  | some (_, name) => some name
  | none => if (dropNumber element).isEmpty then none else some (dropNumber element)

end RenderedElement
end Chartwright
