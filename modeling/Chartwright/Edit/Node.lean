import Chartwright.Buffer.Entities
import Chartwright.Buffer.NextId
/-!
Edits of nodes: inserting one after an anchor, relabelling, reshaping, deleting and duplicating.
Lines that an edit does not target stay as they are, and an edit that does not find its target
changes nothing.
-/
namespace Chartwright.Buffer

/-- The last of the numbers that lie inside a subgraph. -/
def lastInside? (g : Subgraph) (numbers : List Nat) : Option Nat :=
  (numbers.filter g.encloses).getLast?

/-- Subgraphs with those that open last in front. -/
def innermostFirst (gs : List Subgraph) : List Subgraph :=
  gs.mergeSort fun g h => decide (h.opening ≤ g.opening)

/-- Of two subgraphs the one that holds the later of the numbers; the first if neither or both hold
it. -/
def laterInside (numbers : List Nat) (g h : Subgraph) : Subgraph :=
  match lastInside? g numbers, lastInside? h numbers with
  | some i, some j => if i < j then h else g
  | none, some _ => h
  | _, none => g

/-- The subgraph that a node mentioned on the given lines belongs to: the innermost one with this
member that holds the last mention, or else the one that holds the latest mention. -/
def enclosing? (b : Buffer) (id : Text) (mentioned : List Nat) : Option Subgraph :=
  match innermostFirst (b.subgraphs.filter (·.members.contains id)) with
  | [] => none
  | g :: gs =>
    match (g :: gs).find? fun g => mentioned.getLast?.any g.encloses with
    | some h => some h
    | none => some (gs.foldl (laterInside mentioned) g)

/-- The indent of a line, or one unit where there is none. -/
def indentOrUnit (line : Line) : Text :=
  if (Line.indent line).isEmpty then indentUnit else Line.indent line

/-- Where a line that links from an anchor goes, and its indent: after the last mention, inside the
subgraph of the anchor if it has one. -/
def placeAfter (b : Buffer) (anchor : Text) (mentioned : List Nat) (last : Nat) : Nat × Text :=
  match b.enclosing? anchor mentioned with
  | none => (last + 1, indentOrUnit (b.line last))
  | some g =>
    match lastInside? g mentioned with
    | some i => (i + 1, indentOrUnit (b.line i))
    | none => (g.closing, Line.indent (b.line g.opening) ++ indentUnit)

/-- The line that copies the style of `id` to `copy`, if there is one, with the number of the line
after which it goes. -/
def styleCopy? (b : Buffer) (id copy : Text) : Except Integer.TooLong (Option (Nat × Line)) :=
  b.style? id >>= fun
    | none => .ok none
    | some style =>
      match b.first? (StyleLine.indentFor? id) with
      | none => .ok none
      | some (i, indent) => (StyleLine.write indent copy style).map fun line => some (i, line)

/-- A buffer with a line and perhaps the copy of a style put in, both places being those before
either is. When both go to the same place the style comes first. -/
def insertLinked (b : Buffer) (place : Nat) (link : Line) : Option (Nat × Line) → Buffer
  | none => b.insertAt place [link]
  | some (i, copy) =>
    if i + 1 ≤ place then (b.insertAt place [link]).insertAt (i + 1) [copy]
    else (b.insertAt (i + 1) [copy]).insertAt place [link]

/-- A node of a given shape linked from an anchor on a line of its own, with a copy of the style of
the anchor; nothing if the anchor is not mentioned. -/
def insertNode? (b : Buffer) (anchor id label : Text) :
    Option (Shape → Except Integer.TooLong Buffer) := do
  let mentioned := b.mentions anchor
  let last ← mentioned.getLast?
  let (place, indent) := b.placeAfter anchor mentioned last
  return fun shape =>
    let link := indent ++ anchor ++ " --> ".toList ++ id ++ shape.bracket.opener ++ label ++
      shape.bracket.closer
    (b.styleCopy? anchor id).map (b.insertLinked place link)

/-- Another label for a node, in its first declaration. -/
def relabelNode (b : Buffer) (id label : Text) : Buffer :=
  match b.declaration? id with
  | none => b
  | some (i, d) => b.set i (d.labelSpan.splice label (b.line i))

/-- Another shape for a node, in its first declaration; nothing if it has none. -/
def reshapeNode? (b : Buffer) (id : Text) : Option (Shape → Buffer) := do
  let (i, d) ← b.declaration? id
  return fun shape =>
    b.set i (d.bracketSpan.splice (shape.bracket.opener ++ d.label ++ shape.bracket.closer)
      (b.line i))

/-! ## Deleting -/

/-- A token of a link line stands for the node `id`, bare or with a declaration. -/
def isTokenOf (id token : Text) : Bool :=
  match Text.after? id token with
  | some rest => Identifier.apart rest.head?
  | none => false

/-- The tokens of a segment that do not stand for `id`. -/
def tokensLeft (id : Text) (s : Segment) : List Text :=
  s.tokens.filter fun token => !isTokenOf id token

/-- A segment without a node: as it was if the node is not in it, and written anew otherwise. -/
def segmentWithout (id : Text) (s : Segment) : Text :=
  if (tokensLeft id s).length = s.tokens.length then s.text
  else Text.join " & ".toList (tokensLeft id s)

/-- A link line without a node; nothing when a group has no token left. -/
def chainWithout? (id : Text) (c : Chain) : Option Line :=
  if c.segments.all fun s => !(tokensLeft id s).isEmpty then
    some (c.indent ++ Chain.interleave (c.segments.map (segmentWithout id)) c.connectors)
  else none

/-- The numbers of the lines that declare an identifier, one for each declaration. -/
def declaredOn (b : Buffer) (id : Text) : List Nat :=
  b.zipIdx.flatMap fun (line, i) => ((Line.declarations line).filter (·.id = id)).map fun _ => i

/-- The declarations of other nodes that a dropped line held alone, each to be put on a line of its
own. -/
def orphanedBy (b : Buffer) (id : Text) (i : Nat) (c : Chain) : List Line :=
  (c.segments.flatMap (tokensLeft id)).flatMap fun token =>
    ((Line.declarations token).filter fun d => d.id ≠ id && b.declaredOn d.id == [i]).map fun d =>
      indentUnit ++ d.written

/-- What becomes of a line when a node is deleted: the lines kept in its place, and the declarations
to restore. -/
def lineWithout (b : Buffer) (id : Text) (line : Line) (i : Nat) : List Line × List Line :=
  if StyleLine.isFor id line then ([], [])
  else if Line.isDirective line || !Line.hasArrow line || (Identifier.mention? id line).isNone then
    ([line], [])
  else
    match Line.chain? line with
    | none => ([line], [])
    | some c =>
      match chainWithout? id c with
      | some rebuilt => ([rebuilt], [])
      | none => ([], b.orphanedBy id i c)

/-- Lines put in after the header line, or at the top when there is none. -/
def insertAfterHeader (new : List Line) (b : Buffer) : Buffer :=
  match b.findIdx? Line.isHeader with
  | some i => b.insertAt (i + 1) new
  | none => new ++ b

/-- A buffer without the style of a node and without the node on its link lines. -/
def deleteNode (b : Buffer) (id : Text) : Buffer :=
  let outcome := b.zipIdx.map fun (line, i) => b.lineWithout id line i
  insertAfterHeader (outcome.flatMap (·.2)) (outcome.flatMap (·.1))

/-! ## Duplicating -/

/-- The label of an edge as it is written: nothing when it is empty, else between bars. -/
def writeLabel (label : Text) : Text := if label.isEmpty then [] else ['|'] ++ label ++ ['|']

/-- A line that links two texts. -/
def linkLine (source : Text) (arrow : Arrow) (label target : Text) : Line :=
  indentUnit ++ source ++ [' '] ++ arrow.glyph ++ writeLabel label ++ [' '] ++ target

/-- The lines that repeat the edges into a node for its copy. The copy is declared on the first of
them, or on a line of its own when there is none. -/
def copiesIn (es : List Edge) (id copy declaration : Text) : List Line :=
  match es.filter (·.target = id) with
  | [] => [indentUnit ++ declaration]
  | e :: rest =>
    linkLine e.source e.arrow e.label declaration ::
      rest.map fun e => linkLine e.source e.arrow e.label copy

/-- The lines that repeat the edges out of a node for its copy. -/
def copiesOut (es : List Edge) (id copy : Text) : List Line :=
  (es.filter (·.source = id)).map fun e => linkLine copy e.arrow e.label e.target

/-- The line that repeats a style for a copy, if there is one. -/
def copiedStyle (copy : Text) : Option Style → Except Integer.TooLong (List Line)
  | some style => (StyleLine.write indentUnit copy style).map fun line => [line]
  | none => .ok []

/-- All lines that a copy of a declared node adds; the last of them repeat its style. -/
def copyLines (b : Buffer) (d : Declaration) (copy : Text) (styled : List Line) : List Line :=
  copiesIn b.edges d.id copy (copy ++ d.bracket.opener ++ d.label ++ d.bracket.closer) ++
    copiesOut b.edges d.id copy ++ styled

/-- A buffer with a copy of a node and of its edges under the next free identifier, and that
identifier; nothing if the node is not declared. The new lines go after the last mention of the
node. -/
def duplicateNode? (b : Buffer) (id : Text) (now : Nat) :
    Except Integer.TooLong (Option (Buffer × Text)) :=
  match b.declaration? id with
  | none => .ok none
  | some (_, d) => do
    let copy := NextId.next now (← b.ids)
    let styled ← copiedStyle copy (← b.style? d.id)
    let place := ((b.mentions id).getLast?.map (· + 1)).getD b.appendIndex
    return some (b.insertAt place (b.copyLines d copy styled), copy)

end Chartwright.Buffer
