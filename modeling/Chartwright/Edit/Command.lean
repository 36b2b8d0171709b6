import Chartwright.Edit.Edge
import Chartwright.Edit.Style
import Chartwright.Edit.Subgraph
import Chartwright.Text.Quoted
/-!
Commands: the edits as a caller asks for them, with shapes, arrows and directions given by name. A
name is looked up only where the edit needs it, so a command that does not find its target succeeds
whatever it names. Likewise only the edits that look at styles fail when a style cannot be recovered
or written. A copy is called after the time when no short identifier is left.
-/
namespace Chartwright

/-- A name that stands for no shape, arrow or direction. -/
inductive UnknownName where
  | direction (name : Text)
  | shape (name : Text)
  | arrow (name : Text)
deriving DecidableEq, Repr

namespace UnknownName

def message : UnknownName → Text
  | direction name => Text.quoted name ++ " is not a valid FlowDirection".toList
  | shape name => Text.quoted name ++ " is not a valid NodeShape".toList
  | arrow name => Text.quoted name ++ " is not a valid ArrowType".toList

end UnknownName

/-- Why an edit fails. -/
inductive EditError where
  | unknownName (e : UnknownName)
  | tooLong (e : Integer.TooLong)
deriving DecidableEq, Repr

namespace EditError

def message : EditError → Text
  | unknownName e => e.message
  | tooLong e => e.message

end EditError

def Direction.ofName (name : Text) : Except UnknownName Direction :=
  match Direction.named? name with
  | some d => .ok d
  | none => .error (.direction name)

def Shape.ofName (name : Text) : Except UnknownName Shape :=
  match Shape.named? name with
  | some s => .ok s
  | none => .error (.shape name)

theorem Shape.ofName_name (s : Shape) : Shape.ofName s.name = .ok s := by
  rw [Shape.ofName, Shape.named?_name]

def Arrow.ofName (glyph : Text) : Except UnknownName Arrow :=
  match Arrow.named? glyph with
  | some a => .ok a
  | none => .error (.arrow glyph)

/-- An edit of a text. -/
inductive Command where
  | setDirection (direction : Text)
  | insertNode (anchor id label shape : Text)
  | relabelNode (id label : Text)
  | reshapeNode (id shape : Text)
  | deleteNode (id : Text)
  | duplicateNode (id : Text) (now : Nat)
  | connect (source target label arrow : Text)
  | deleteEdge (edge : Edge)
  | relabelEdge (edge : Edge) (label : Text)
  | rearrowEdge (edge : Edge) (arrow : Text)
  | insertSubgraph (id title : Text) (members : List Text)
  | retitleSubgraph (id title : Text)
  | deleteSubgraph (id : Text)
  | addMember (subgraph node : Text)
  | removeMember (subgraph node : Text)
  | restyle (id : Text) (style : Style)
deriving DecidableEq, Repr

namespace Command

/-- An edit of the lines of a text. -/
def onLines (edit : Buffer → Buffer) (t : Text) : Text := (edit (Buffer.ofText t)).toText

/-- An edit that looks at the styles. -/
def onStyledLines (edit : Buffer → Except Integer.TooLong Buffer) (t : Text) :
    Except EditError Text :=
  ((edit (Buffer.ofText t)).mapError .tooLong).map Buffer.toText

/-- An edit that needs a named value once it has found its target, and does nothing if it does not
find it. -/
def onLinesNamed {α : Type} (edit? : Buffer → Option (α → Except Integer.TooLong Buffer))
    (named : Except UnknownName α) (t : Text) : Except EditError Text :=
  match edit? (Buffer.ofText t) with
  | none => .ok t
  | some edit => do
    let value ← named.mapError .unknownName
    return (← (edit value).mapError .tooLong).toText

/-- The text that a command makes of a text; the same text when it does not find its target. -/
def run (t : Text) : Command → Except EditError Text
  | setDirection direction =>
    ((Direction.ofName direction).map fun d => Header.setDirection d t).mapError .unknownName
  | insertNode anchor id label shape =>
    onLinesNamed (·.insertNode? anchor id label) (Shape.ofName shape) t
  | relabelNode id label => .ok (onLines (·.relabelNode id label) t)
  | reshapeNode id shape =>
    onLinesNamed (fun b => (b.reshapeNode? id).map (.ok ∘ ·)) (Shape.ofName shape) t
  | deleteNode id => .ok (onLines (·.deleteNode id) t)
  | duplicateNode id now =>
    onStyledLines (fun b => (b.duplicateNode? id now).map fun found => (found.map (·.1)).getD b) t
  | connect source target label arrow =>
    ((Arrow.ofName arrow).map fun a => onLines (·.connect source target label a) t).mapError
      .unknownName
  | deleteEdge edge => .ok (onLines (·.deleteEdge edge) t)
  | relabelEdge edge label => .ok (onLines (·.relabelEdge edge label) t)
  | rearrowEdge edge arrow =>
    onLinesNamed (fun b => (b.rearrowEdge? edge).map (.ok ∘ ·)) (Arrow.ofName arrow) t
  | insertSubgraph id title members => .ok (onLines (·.insertSubgraph id title members) t)
  | retitleSubgraph id title => .ok (onLines (·.retitleSubgraph id title) t)
  | deleteSubgraph id => .ok (onLines (·.deleteSubgraph id) t)
  | addMember subgraph node => .ok (onLines (·.addMember subgraph node) t)
  | removeMember subgraph node => .ok (onLines (·.removeMember subgraph node) t)
  | restyle id style => onStyledLines (·.restyle id style) t

end Command
end Chartwright
