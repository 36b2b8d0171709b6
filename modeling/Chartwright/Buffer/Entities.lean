import Chartwright.Buffer.Header
import Chartwright.Line.Chain
import Chartwright.Line.StyleLine
import Chartwright.Line.SubgraphLine
/-!
The entities of a buffer: nodes, edges, subgraphs and styles, recovered line by line. A line that
shows no entity contributes none. Only the styles can fail to be recovered, and with them the
identifiers in use: an integer in a style may have too many digits, and the first such line decides.

A node is declared with a bracketed label, or only referred to on a line with an arrow; then it is
called by its identifier. A line shows at most one edge. A subgraph spans from its opening line to
the `end` that closes it, and its members are the identifiers on the lines whose innermost open
subgraph it is. Of several styles for one identifier the first counts.
-/
namespace Chartwright

/-- A node, with the number of the line that introduces it. -/
structure Node where
  id : Text
  label : Text
  shape : Shape := .rectangle
  line : Nat
deriving DecidableEq, Repr

/-- An edge, with the number of the line that shows it. Two edges are the same only if all parts
agree. -/
structure Edge where
  source : Text
  target : Text
  label : Text := []
  arrow : Arrow := .plain
  line : Int
deriving DecidableEq, Repr

/-- A closed subgraph, with the numbers of its opening and its closing line. -/
structure Subgraph where
  id : Text
  title : Text
  members : List Text
  opening : Nat
  closing : Nat
deriving DecidableEq, Repr

namespace Subgraph

/-- A line lies strictly between the opening and the closing line. -/
def encloses (g : Subgraph) (i : Nat) : Bool := g.opening < i && i < g.closing

/-- A line lies between the opening and the closing line, or is one of them. -/
def spans (g : Subgraph) (i : Nat) : Bool := g.opening ≤ i && i ≤ g.closing

/-- A subgraph that has been opened and not yet closed. One whose opening names no identifier has no
head. -/
structure Frame where
  head : Option (Text × Text)
  opening : Nat
  members : List Text
deriving DecidableEq, Repr

/-- What the lines read so far amount to: the open subgraphs, innermost first, and the closed ones,
latest first. -/
structure Nesting where
  frames : List Frame := []
  closed : List Subgraph := []
deriving DecidableEq, Repr

/-- The frame that an opening line starts. -/
def Frame.ofLine (line : Line) (i : Nat) : Frame :=
  ⟨(Opening.read? line).map fun (o, _) => (o.id, o.caption), i, []⟩

/-- A frame closed by the line with number `i`. -/
def Frame.close? (f : Frame) (i : Nat) : Option Subgraph :=
  f.head.map fun (id, title) => ⟨id, title, distinct f.members, f.opening, i⟩

/-- What one more line changes. An `end` with nothing open is ignored. -/
def Nesting.step (s : Nesting) (entry : Line × Nat) : Nesting :=
  let (line, i) := entry
  if Line.opensSubgraph line then { s with frames := Frame.ofLine line i :: s.frames }
  else if Line.closesSubgraph line then
    match s.frames with
    | [] => s
    | f :: rest => ⟨rest, (f.close? i).toList ++ s.closed⟩
  else
    match s.frames with
    | [] => s
    | f :: rest =>
      { s with frames := { f with members := f.members ++ Line.identifiers line } :: rest }

end Subgraph

namespace Buffer

/-- The declared nodes line by line, repeats included. -/
def declaredNodes (b : Buffer) : List Node :=
  b.zipIdx.flatMap fun (line, i) =>
    (Line.declarations line).map fun d => ⟨d.id, d.label, d.bracket.shape, i⟩

/-- The identifiers on lines with an arrow, as nodes that carry their identifiers as labels. -/
def referredNodes (b : Buffer) : List Node :=
  b.zipIdx.flatMap fun (line, i) =>
    if Line.hasArrow line then (Line.identifiers line).map fun id => ⟨id, id, .rectangle, i⟩ else []

/-- The nodes: first those declared, then those only referred to. The first declaration of an
identifier counts. -/
def nodes (b : Buffer) : List Node := distinctBy (·.id) (declaredNodes b ++ referredNodes b)

/-- The edge on a line, if it shows one. A line that starts a link with a keyword shows none. -/
def edgeOn? (line : Line) (i : Nat) : Option Edge :=
  if Line.isDirective line then none
  else
    match Line.link? line with
    | none => none
    | some (_, l) =>
      if Keyword.isKeyword l.source then none
      else
        some {
          source := l.source
          target := l.target
          label := (l.connector.label.map (·.text)).getD []
          arrow := Arrow.ofSpelling l.connector.arrow
          line := i }

/-- The edges, from the first line. -/
def edges (b : Buffer) : List Edge := b.zipIdx.filterMap fun (line, i) => edgeOn? line i

/-- The closed subgraphs, in the order of their closing lines. -/
def subgraphs (b : Buffer) : List Subgraph :=
  (b.zipIdx.foldl Subgraph.Nesting.step {}).closed.reverse

/-- The styles, in the order of the lines that set them; the first line for an identifier counts. -/
def styles (b : Buffer) : Except Integer.TooLong (List StyleLine) :=
  (b.mapM StyleLine.read).map fun found => distinctBy (·.id) (found.filterMap id)

/-- The style that is set for an identifier, if one is. -/
def style? (b : Buffer) (id : Text) : Except Integer.TooLong (Option Style) :=
  (styles b).map fun found => (found.find? (·.id = id)).map (·.style)

/-- Every identifier in use: nodes, subgraphs with their members, and what styles are set for. -/
def ids (b : Buffer) : Except Integer.TooLong (List Text) :=
  (styles b).map fun found =>
    distinct ((nodes b).map (·.id) ++ (subgraphs b).flatMap (fun g => g.id :: g.members) ++
      found.map (·.id))

/-- The first declaration of an identifier, with the number of its line. -/
def declaration? (b : Buffer) (id : Text) : Option (Nat × Declaration) :=
  b.first? fun line => (Line.declarations line).find? (·.id = id)

/-- The closed subgraph with an identifier that opens first. -/
def subgraph? (b : Buffer) (id : Text) : Option Subgraph :=
  ((subgraphs b).filter (·.id = id)).foldl
    (fun best g =>
      match best with
      | none => some g
      | some f => if g.opening < f.opening then some g else some f)
    none

/-- The numbers of the lines that mention a name as a whole token outside of labels, header lines
left out. -/
def mentions (b : Buffer) (name : Text) : List Nat :=
  b.numbers fun line => !Line.isHeader line && (Line.mention? name line).isSome

end Buffer
end Chartwright
