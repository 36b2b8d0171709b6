import Chartwright.Proofs.Buffer.Lines
import Chartwright.Proofs.Buffer.PutIn
/-!
What the scans read off the lines.

Every scan goes line by line, and reads of a line no more than its view (`Line.View`). So buffers
whose lines have the same views show the same nodes, edges, subgraphs and styles, on lines with the
same numbers (`alike_of_views`).
-/
namespace Chartwright

/-- One line of the scan for subgraphs, told by its view. -/
def Subgraph.Nesting.stepOn (s : Nesting) (entry : Line.View × Nat) : Nesting :=
  let (v, i) := entry
  if v.opens then { s with frames := ⟨v.heading, i, []⟩ :: s.frames }
  else if v.closes then
    match s.frames with
    | [] => s
    | f :: rest => ⟨rest, (f.close? i).toList ++ s.closed⟩
  else
    match s.frames with
    | [] => s
    | f :: rest => { s with frames := { f with members := f.members ++ v.identifiers } :: rest }

namespace Subgraph

def emptied (g : Subgraph) : Subgraph := { g with members := [] }

def Nesting.emptied (s : Nesting) : Nesting where
  frames := s.frames.map fun f => { f with members := [] }
  closed := s.closed.map Subgraph.emptied

/-- Without members the scan for subgraphs reads no more of a line than its outline. -/
theorem Nesting.emptied_stepOn (s : Nesting) (v : Line.View) (i : Nat) :
    (s.stepOn (v, i)).emptied = s.emptied.stepOn (v.outline, i) := by
  obtain ⟨frames, closed⟩ := s
  obtain ⟨declared, refers, identifiers, edge, style, opens, closes, heading⟩ := v
  cases opens with
  | true => rfl
  | false =>
    cases closes with
    | true =>
      cases frames with
      | nil => rfl
      | cons f rest =>
        obtain ⟨head, opening, members⟩ := f
        cases head <;> rfl
    | false => cases frames <;> rfl

end Subgraph

namespace Buffer

variable {b b' : Buffer}

/-- Two buffers show the same entities on the same lines. -/
structure Alike (b b' : Buffer) : Prop where
  nodes : b'.nodes = b.nodes
  edges : b'.edges = b.edges
  subgraphs : b'.subgraphs = b.subgraphs
  styles : b'.styles = b.styles

/-- The views of the lines, with their numbers. -/
def views (b : Buffer) : List (Line.View × Nat) := (b.map Line.view).zipIdx

theorem views_eq (b : Buffer) : b.views = b.zipIdx.map fun p => (p.1.view, p.2) := List.zipIdx_map

theorem declaredNodes_eq (b : Buffer) :
    b.declaredNodes = b.views.flatMap fun p => p.1.declared.map fun e =>
      ⟨e.1, e.2.2, e.2.1.shape, p.2⟩ := by
  rw [views_eq, List.flatMap_map]
  refine List.flatMap_congr fun p _ => ?_
  show _ = ((Line.declarations p.1).map Declaration.content).map _
  rw [List.map_map]
  rfl

theorem referredNodes_eq (b : Buffer) :
    b.referredNodes = b.views.flatMap fun p => p.1.refers.map fun e =>
      ⟨e.1, e.2.1, e.2.2, p.2⟩ := by
  rw [views_eq, List.flatMap_map]
  refine List.flatMap_congr fun p _ => ?_
  show (if Line.hasArrow p.1 then _ else _) = (Line.refers p.1).map _
  rw [Line.refers]
  split
  · rw [List.map_map]
    rfl
  · rfl

theorem edges_eq (b : Buffer) :
    b.edges = b.views.filterMap fun p => p.1.edge.map fun e => { e with line := p.2 } := by
  rw [views_eq, List.filterMap_map]
  exact List.filterMap_congr fun p _ => edgeOn?_eq_map p.1 p.2

theorem subgraphs_eq (b : Buffer) :
    b.subgraphs = (b.views.foldl Subgraph.Nesting.stepOn {}).closed.reverse := by
  rw [views_eq, List.foldl_map]
  rfl

theorem styles_eq_mapM (b : Buffer) :
    b.styles = ((b.map Line.view).mapM Line.View.style).map fun found =>
      distinctBy (·.id) (found.filterMap id) := by
  rw [List.mapM_map]
  rfl

/-- What the scans find is told by the views of the lines. -/
theorem alike_of_views (h : b'.map Line.view = b.map Line.view) : Alike b b' := by
  have hviews : b'.views = b.views := by rw [views, views, h]
  constructor
  case nodes => rw [nodes, nodes, declaredNodes_eq, declaredNodes_eq b, referredNodes_eq,
    referredNodes_eq b, hviews]
  case edges => rw [edges_eq, edges_eq b, hviews]
  case subgraphs => rw [subgraphs_eq, subgraphs_eq b, hviews]
  case styles => rw [styles_eq_mapM, styles_eq_mapM b, h]

theorem alike_ofText_toText (h : ∀ line ∈ b, '\n' ∉ line) : Alike b (ofText b.toText) := by
  by_cases hnil : b = []
  · subst hnil
    exact ⟨rfl, rfl, rfl, rfl⟩
  · rw [ofText_toText hnil h]
    exact ⟨rfl, rfl, rfl, rfl⟩

/-! ## Without members -/

theorem map_emptied_subgraphs (b : Buffer) : b.subgraphs.map Subgraph.emptied =
    (((b.map Line.view).map Line.View.outline).zipIdx.foldl Subgraph.Nesting.stepOn
      {}).closed.reverse := by
  have hfold : b.views.foldl (fun s p => s.stepOn (p.1.outline, p.2))
      (Subgraph.Nesting.emptied {}) = (b.views.foldl Subgraph.Nesting.stepOn {}).emptied :=
    List.foldl_hom _ fun s p => (s.emptied_stepOn p.1 p.2).symm
  rw [subgraphs_eq, List.map_reverse, List.zipIdx_map, List.foldl_map]
  exact congrArg (fun s : Subgraph.Nesting => s.closed.reverse) hfold.symm

theorem eq_of_outlines
    (h : (b'.map Line.view).map Line.View.outline = (b.map Line.view).map Line.View.outline) :
    b'.styles = b.styles ∧
      b'.subgraphs.map Subgraph.emptied = b.subgraphs.map Subgraph.emptied := by
  have hstyle : ∀ vs : List Line.View,
      vs.mapM Line.View.style = (vs.map Line.View.outline).mapM Line.View.style := by
    intro vs
    rw [List.mapM_map]
    rfl
  exact ⟨by rw [styles_eq_mapM, styles_eq_mapM b, hstyle, hstyle (b.map Line.view), h],
    by rw [map_emptied_subgraphs, map_emptied_subgraphs b, h]⟩

/-! ## Without line numbers -/

/-- The styles that the lines set, repeats included. -/
def settings (b : Buffer) : Except Integer.TooLong (List StyleLine) :=
  (b.mapM StyleLine.read).map (·.filterMap id)

theorem styles_eq_settings (b : Buffer) : b.styles = b.settings.map (distinctBy (·.id)) := by
  rw [styles, settings]
  cases b.mapM StyleLine.read <;> rfl

theorem settings_concat (b : Buffer) (line : Line) :
    settings (b ++ [line]) = do return (← b.settings) ++ (← StyleLine.read line).toList := by
  rw [settings, settings, List.mapM_append, List.mapM_cons, List.mapM_nil]
  cases b.mapM StyleLine.read with
  | error e => rfl
  | ok found =>
    cases StyleLine.read line with
    | error e => rfl
    | ok s => cases s <;> simp [Except.map, bind, Except.bind, pure, Except.pure]

theorem map_entry_nodes (b : Buffer) :
    b.nodes.map entry = distinctBy (·.1) (b.flatMap Line.declares ++ b.flatMap Line.refers) := by
  rw [← map_entry_declaredNodes, ← map_entry_referredNodes, ← List.map_append, ← map_distinctBy]
  rfl

end Buffer
end Chartwright
