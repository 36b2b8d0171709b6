import Chartwright.Buffer.Entities
/-!
Edits of subgraphs: adding one, retitling, dissolving, and moving nodes in and out.
-/
namespace Chartwright.Buffer

/-- A node as it is first declared, or its bare identifier. -/
def memberText (b : Buffer) (id : Text) : Text :=
  match b.declaration? id with
  | some (_, d) => d.written
  | none => id

/-- The lines of a new subgraph with some members. -/
def subgraphLines (b : Buffer) (id title : Text) (members : List Text) : List Line :=
  [indentUnit ++ "subgraph ".toList ++ id ++
      (if title.isEmpty then [] else ['['] ++ title ++ [']'])] ++
    (members.map fun m => indentUnit ++ indentUnit ++ b.memberText m) ++
    [indentUnit ++ "end".toList]

/-- A buffer with one more subgraph after its last line that is not blank. Declarations of its
members elsewhere stay. -/
def insertSubgraph (b : Buffer) (id title : Text) (members : List Text) : Buffer :=
  b.append (b.subgraphLines id title members)

/-- Another title for the first subgraph that is opened under an identifier. -/
def retitleSubgraph (b : Buffer) (id title : Text) : Buffer :=
  match b.first? fun line => ((Opening.read? line).map (·.1)).filter (·.id = id) with
  | none => b
  | some (i, o) => b.set i (o.retitle title (b.line i))

/-- A line one unit less indented: without its first tab, or without up to four spaces. -/
def dedent : Line → Line
  | '\t' :: rest => rest
  | line => line.drop (min 4 (line.takeWhile (· = ' ')).length)

/-- A buffer without the opening and closing lines of a subgraph, what they enclosed being
dedented. -/
def deleteSubgraph (b : Buffer) (id : Text) : Buffer :=
  match b.subgraph? id with
  | none => b
  | some g =>
    (b.zipIdx.filter fun (_, i) => i != g.opening && i != g.closing).map fun (line, i) =>
      if g.encloses i then dedent line else line

/-- A line that holds nothing but a declaration of `id`. -/
def isStandalone (id : Text) (line : Line) : Bool :=
  match Line.declarations line with
  | [d] => d.id = id && Text.trim line = d.written
  | _ => false

/-- The numbers of the lines that hold nothing but a declaration of `id`. -/
def standalone (b : Buffer) (id : Text) : List Nat := b.numbers (isStandalone id)

/-- A buffer in which a node is a member of a subgraph: its only standalone declaration outside the
subgraph is moved in before the closing line, or else a bare mention is put there. -/
def addMember (b : Buffer) (id node : Text) : Buffer :=
  match b.subgraph? id with
  | none => b
  | some g =>
    if g.members.contains node then b
    else
      let indent := Line.indent (b.line g.opening) ++ indentUnit
      match (b.standalone node).filter fun i => !g.spans i with
      | [i] =>
        let place := if i < g.closing then g.closing - 1 else g.closing
        insertAt place [indent ++ Text.trim (b.line i)] (b.eraseIdx i)
      | _ => b.insertAt g.closing [indent ++ node]

/-- A buffer in which a node is no longer mentioned on lines of its own in a subgraph: its only
standalone declaration inside is moved behind the closing line, and bare mentions inside are
removed. -/
def removeMember (b : Buffer) (id node : Text) : Buffer :=
  match b.subgraph? id with
  | none => b
  | some g =>
    if !g.members.contains node then b
    else
      let bare := (b.numbers fun line => Text.trim line = node).filter g.encloses
      match (b.standalone node).filter g.encloses with
      | [i] =>
        (b.insertAt (g.closing + 1)
          [Line.indent (b.line g.closing) ++ Text.trim (b.line i)]).without (i :: bare)
      | _ => b.without bare

end Chartwright.Buffer
