import Chartwright.Assoc
import Chartwright.Buffer.Entities
/-!
Summary of a buffer: how many entities there are, of which kinds, and how the nodes are connected.
Edges are counted as they are found, one to a line, so a node that is linked only inside a group may
count as an orphan. An end of an edge that is no node is not counted anywhere.
-/
namespace Chartwright

/-- A node with the numbers of edges that lead to it and away from it. -/
structure Connections where
  id : Text
  label : Text
  incoming : Nat
  outgoing : Nat
deriving DecidableEq, Repr

namespace Connections

def total (c : Connections) : Nat := c.incoming + c.outgoing

/-- A node at which no edge has been counted. -/
def ofNode (n : Node) : Connections := ⟨n.id, n.label, 0, 0⟩

def addIncoming (c : Connections) : Connections := { c with incoming := c.incoming + 1 }

def addOutgoing (c : Connections) : Connections := { c with outgoing := c.outgoing + 1 }

/-- One more edge, counted where it leads from and where it leads to. -/
def count (table : List (Text × Connections)) (e : Edge) : List (Text × Connections) :=
  Assoc.adjust e.target addIncoming (Assoc.adjust e.source addOutgoing table)

/-- The connections of some nodes, by their identifiers. -/
def table (nodes : List Node) (edges : List Edge) : List (Text × Connections) :=
  edges.foldl count (nodes.foldl (fun table n => Assoc.put n.id (ofNode n) table) [])

end Connections

structure Summary where
  direction : Direction
  nodes : Nat
  edges : Nat
  subgraphs : Nat
  styled : List Text
  byShape : List (Shape × Nat)
  byArrow : List (Arrow × Nat)
  mostConnected : List Connections
  orphans : List Text
deriving DecidableEq, Repr

namespace Summary

/-- How often each key occurs among some keys, in the order of first occurrence. -/
def tally {α : Type} [DecidableEq α] (keys : List α) : List (α × Nat) :=
  keys.foldl (fun counts k => Assoc.put k ((Assoc.find? k counts).getD 0 + 1) counts) []

/-- The first `n` elements, or for a negative `n` all but the last `-n`. -/
def leading {α : Type} (n : Int) (xs : List α) : List α :=
  if 0 ≤ n then xs.take n.toNat else xs.take (xs.length - n.natAbs)

/-- The summary of a text that lists at most `top` of the most connected nodes. Equally connected
nodes keep their order, and nodes without a connection are dropped from the list after it is cut. -/
def ofText (top : Int) (t : Text) : Except Integer.TooLong Summary :=
  let b := Buffer.ofText t
  let connections := (Connections.table b.nodes b.edges).map (·.2)
  b.styles.map fun styles => {
    direction := Header.direction t
    nodes := b.nodes.length
    edges := b.edges.length
    subgraphs := b.subgraphs.length
    styled := (styles.map (·.id)).mergeSort fun x y => !decide (y < x)
    byShape := tally (b.nodes.map (·.shape))
    byArrow := tally (b.edges.map (·.arrow))
    mostConnected :=
      (leading top (connections.mergeSort fun x y => decide (y.total ≤ x.total))).filter fun c =>
        0 < c.total
    orphans := (connections.filter fun c => c.total = 0).map (·.id) }

/-- How many of the most connected nodes are listed when nothing else is asked for. -/
def defaultTop : Int := 5

end Summary
end Chartwright
