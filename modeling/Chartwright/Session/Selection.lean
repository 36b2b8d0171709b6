import Chartwright.Wire.Entity
/-!
Selection: the one entity that is being worked on, if any.

A selection keeps a kind and has a place for an entity of each kind. Selecting clears all places
before one is filled, so at most the place that the kind names is filled.

Main statement: what is left of a selection after a change of the text can be found in it
(`existsIn_of_revalidate`).
-/
namespace Chartwright

/-- What can be selected: a node, an edge, a subgraph, or nothing. An edge is selected as the value
it had then. -/
inductive Target where
  | none
  | node (id : Text)
  | edge (e : Edge)
  | group (id : Text)
deriving DecidableEq, Repr

namespace Target

/-- A node, or nothing. -/
def ofNode? : Option Text → Target
  | some id => node id
  | Option.none => none

/-- An edge, or nothing. -/
def ofEdge? : Option Edge → Target
  | some e => edge e
  | Option.none => none

/-- A subgraph, or nothing. -/
def ofGroup? : Option Text → Target
  | some id => group id
  | Option.none => none

end Target

/-- What kind of entity is selected. -/
inductive SelectionKind where
  | none | node | edge | group
deriving DecidableEq, Repr

def SelectionKind.name : SelectionKind → Text
  | none => "none".toList
  | node => "node".toList
  | edge => "edge".toList
  | group => "group".toList

structure Selection where
  kind : SelectionKind
  node? : Option Text
  edge? : Option Edge
  group? : Option Text
deriving DecidableEq, Repr

namespace Selection

/-- Nothing is selected. -/
def none : Selection := ⟨.none, Option.none, Option.none, Option.none⟩

/-- All places emptied. -/
def clear (s : Selection) : Selection :=
  { s with kind := .none, node? := Option.none, edge? := Option.none, group? := Option.none }

/-- A target selected, and nothing else any more. -/
def choose (s : Selection) : Target → Selection
  | .none => s.clear
  | .node id => { s.clear with kind := .node, node? := some id }
  | .edge e => { s.clear with kind := .edge, edge? := some e }
  | .group id => { s.clear with kind := .group, group? := some id }

def isNode (s : Selection) (id : Text) : Bool := s.kind = .node && s.node? = some id

def isEdge (s : Selection) (e : Edge) : Bool := s.kind = .edge && s.edge? = some e

def isGroup (s : Selection) (id : Text) : Bool := s.kind = .group && s.group? = some id

/-- What is selected can be found in a text. For a node this takes all identifiers in use. -/
def existsIn (t : Text) (s : Selection) : Except Integer.TooLong Bool :=
  match s.kind with
  | .none => .ok true
  | .node => (Buffer.ofText t).ids.map fun ids => s.node?.any ids.contains
  | .edge => .ok (s.edge?.any (Buffer.ofText t).edges.contains)
  | .group => .ok (s.group?.any fun id => ((Buffer.ofText t).subgraph? id).isSome)

/-- A selection as far as a text still has it. -/
def revalidate (t : Text) (s : Selection) : Except Integer.TooLong Selection :=
  (s.existsIn t).map fun found => if found then s else s.clear

theorem existsIn_clear (t : Text) (s : Selection) : s.clear.existsIn t = .ok true := rfl

theorem existsIn_of_revalidate {t : Text} {s left : Selection} (h : s.revalidate t = .ok left) :
    left.existsIn t = .ok true := by
  unfold revalidate at h
  cases found : s.existsIn t with
  | error e =>
    rw [found] at h
    cases h
  | ok b =>
    rw [found] at h
    cases b with
    | true =>
      cases h
      exact found
    | false =>
      cases h
      exact existsIn_clear t s

def toJson (s : Selection) : Json :=
  .ofMembers [("kind", .text s.kind.name), ("node_id", .ofText? s.node?),
    ("edge", (s.edge?.map Edge.toJson).getD .null), ("group_id", .ofText? s.group?)]

end Selection
end Chartwright
