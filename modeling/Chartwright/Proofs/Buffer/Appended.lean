import Chartwright.Proofs.Buffer.Without
import Chartwright.Proofs.Line.OuterBlanks
/-!
Lines put in behind the last line that is not blank.

What stands behind them is blank (`exists_eq_append_blanks`) and shows nothing
(`Line.view_of_blank`). So a scan that goes line by line finds what it found before, on lines with
the same numbers, and then what is on the new lines (`flatMap_append`). The scan for subgraphs reads
the new lines as if no others followed (`nesting_append_lines`): subgraphs that were never closed
are open still when it comes to them.
-/
namespace Chartwright

/-! ## Blank lines -/

namespace Line

variable {line : Line}

theorem view_of_blank (h : Text.trim line = []) : view line = view [] := by
  obtain ⟨x, y, hline, hx, hy⟩ := exists_eq_append_trim line
  rw [h, List.nil_append] at hline
  rw [hline, view_blanks_append hx]
  simpa using view_blanks_append hy []

end Line

theorem Subgraph.Nesting.step_of_view_nil (s : Nesting) {line : Line}
    (h : Line.view line = Line.view []) (i : Nat) : s.step (line, i) = s := by
  have hopens : Line.opensSubgraph line = false := congrArg Line.View.opens h
  have hcloses : Line.closesSubgraph line = false := congrArg Line.View.closes h
  have hnames : Line.identifiers line = [] := congrArg Line.View.identifiers h
  obtain ⟨frames, closed⟩ := s
  rw [step, hopens, hcloses, if_neg Bool.false_ne_true, if_neg Bool.false_ne_true]
  cases frames with
  | nil => rfl
  | cons f rest => simp [hnames]

namespace Buffer

variable {b : Buffer} {new : List Line}

/-! ## The place -/

/-- Only blank lines stand behind the last line that is not blank. -/
theorem exists_eq_append_blanks (b : Buffer) :
    ∃ front back, b = front ++ back ∧ front.length = b.appendIndex ∧
      ∀ line ∈ back, Text.trim line = [] := by
  rw [appendIndex]
  split
  · next line i hlast =>
    obtain ⟨entries, hentries⟩ := List.getLast?_eq_some_iff.1 hlast
    obtain ⟨x, y, hsplit, -, hy⟩ := List.filter_eq_append_iff.1 hentries
    obtain ⟨z, behind, rfl, -, -, hbehind⟩ := List.filter_eq_cons_iff.1 hy
    rw [← List.append_assoc] at hsplit
    obtain ⟨front, tail, rfl, -, htail⟩ := List.zipIdx_eq_append_iff.1 hsplit
    obtain ⟨_, back, rfl, hentry, rfl⟩ := List.zipIdx_eq_cons_iff.1 htail.symm
    obtain ⟨rfl, rfl⟩ := Prod.mk.inj hentry
    refine ⟨front ++ [line], back, List.append_cons .., by simp, fun l hl => ?_⟩
    obtain ⟨j, hj⟩ := List.mem_iff_getElem?.1 hl
    rw [Nat.zero_add] at hbehind
    have hentry : (l, front.length + 1 + j) ∈ back.zipIdx (front.length + 1) :=
      List.mem_zipIdx_iff_le_and_getElem?_sub.2 ⟨Nat.le_add_right _ j, by
        rwa [Nat.add_sub_cancel_left]⟩
    simpa using List.filter_eq_nil_iff.1 hbehind _ hentry
  · exact ⟨b, [], (List.append_nil b).symm, rfl, List.forall_mem_nil _⟩

theorem appendIndex_le_length (b : Buffer) : b.appendIndex ≤ b.length := by
  obtain ⟨front, back, rfl, hplace, -⟩ := exists_eq_append_blanks b
  rw [← hplace, List.length_append]
  exact Nat.le_add_right ..

theorem exists_append_eq (b : Buffer) (new : List Line) : ∃ front back, b = front ++ back ∧
    b.append new = front ++ (new ++ back) ∧ front.length = b.appendIndex ∧
      ∀ line ∈ back, Text.trim line = [] := by
  obtain ⟨front, back, hsplit, hplace, hback⟩ := exists_eq_append_blanks b
  refine ⟨front, back, hsplit, ?_, hplace, hback⟩
  rw [append, insertAt, ← hplace]
  conv => lhs; rw [hsplit]
  rw [List.take_left, List.drop_left, List.append_assoc]

/-! ## Scans of the new buffer -/

/-- What is read off the lines, with their numbers: nothing is read off blank lines, so that of the
new lines comes last. -/
theorem flatMap_append {α : Type} {read : Line × Nat → List α}
    (hblank : ∀ line i, Text.trim line = [] → read (line, i) = []) (b : Buffer) (new : List Line) :
    (b.append new).zipIdx.flatMap read =
      b.zipIdx.flatMap read ++ (new.zipIdx b.appendIndex).flatMap read := by
  obtain ⟨front, back, hsplit, happend, hplace, hback⟩ := exists_append_eq b new
  have hnone : ∀ i, (back.zipIdx i).flatMap read = [] := by
    intro i
    refine List.flatMap_eq_nil_iff.2 fun entry hentry => ?_
    exact hblank entry.1 entry.2 (hback entry.1 (List.fst_mem_of_mem_zipIdx hentry))
  rw [happend, ← hplace]
  conv => rhs; rw [hsplit]
  simp only [List.zipIdx_append, List.flatMap_append, hnone, List.append_nil, Nat.zero_add]

theorem foldl_step_blanks {back : List Line} (hback : ∀ line ∈ back, Text.trim line = []) (i : Nat)
    (s : Subgraph.Nesting) : (back.zipIdx i).foldl Subgraph.Nesting.step s = s := by
  induction back generalizing i with
  | nil => rfl
  | cons line rest ih =>
    obtain ⟨hfirst, hrest⟩ := List.forall_mem_cons.1 hback
    rw [List.zipIdx_cons, List.foldl_cons, s.step_of_view_nil (Line.view_of_blank hfirst), ih hrest]

/-- The scan for subgraphs reads the new lines last. -/
theorem nesting_append_lines (b : Buffer) (new : List Line) :
    nesting (b.append new) = (new.zipIdx b.appendIndex).foldl Subgraph.Nesting.step b.nesting := by
  obtain ⟨front, back, hsplit, happend, hplace, hback⟩ := exists_append_eq b new
  have hfront : nesting b = nesting front := by
    rw [hsplit, nesting_append, foldl_step_blanks hback]
  calc nesting (b.append new)
      = ((new ++ back).zipIdx front.length).foldl Subgraph.Nesting.step (nesting front) := by
        rw [happend, nesting_append]
    _ = (new.zipIdx front.length).foldl Subgraph.Nesting.step (nesting front) := by
      rw [List.zipIdx_append, List.foldl_append, foldl_step_blanks hback]
    _ = (new.zipIdx b.appendIndex).foldl Subgraph.Nesting.step b.nesting := by rw [hplace, hfront]

theorem exists_declaredNodes_append (b : Buffer) (new : List Line) : ∃ found,
    declaredNodes (b.append new) = b.declaredNodes ++ found ∧
      ∀ node ∈ found, ∃ line ∈ new, ∃ e ∈ Line.declares line, e.1 = node.id := by
  refine ⟨_, flatMap_append (fun line i h => ?_) b new, fun node hnode => ?_⟩
  · have hnone : (Line.declarations line).map Declaration.content = [] :=
      congrArg Line.View.declared (Line.view_of_blank h)
    dsimp only
    rw [List.map_eq_nil_iff.1 hnone, List.map_nil]
  · obtain ⟨entry, hentry, hnode⟩ := List.mem_flatMap.1 hnode
    obtain ⟨d, hd, rfl⟩ := List.mem_map.1 hnode
    exact ⟨entry.1, List.fst_mem_of_mem_zipIdx hentry, _, List.mem_map_of_mem hd, rfl⟩

theorem exists_referredNodes_append (b : Buffer) (new : List Line) : ∃ found,
    referredNodes (b.append new) = b.referredNodes ++ found ∧
      ∀ node ∈ found, ∃ line ∈ new, ∃ e ∈ Line.refers line, e.1 = node.id := by
  refine ⟨_, flatMap_append (fun line i h => ?_) b new, fun node hnode => ?_⟩
  · have hnone : Line.identifiers line = [] := congrArg Line.View.identifiers (Line.view_of_blank h)
    dsimp only
    rw [hnone, List.map_nil, ite_self]
  · obtain ⟨entry, hentry, hnode⟩ := List.mem_flatMap.1 hnode
    obtain ⟨harrow, hnode⟩ := List.mem_ite_nil_right.1 hnode
    obtain ⟨name, hname, rfl⟩ := List.mem_map.1 hnode
    refine ⟨entry.1, List.fst_mem_of_mem_zipIdx hentry, (name, name, .rectangle), ?_, rfl⟩
    rw [Line.refers, if_pos harrow]
    exact List.mem_map_of_mem hname

/-- Nothing new is shown by declarations and mentions of nodes that are declared before. -/
theorem nodes_append
    (hnew : ∀ line ∈ new, ∀ e ∈ Line.declares line ++ Line.refers line, ∃ node ∈ b.declaredNodes,
    node.id = e.1) :
    nodes (b.append new) = b.nodes := by
  obtain ⟨declared, hdeclared, hdeclares⟩ := exists_declaredNodes_append b new
  obtain ⟨referred, hreferred, hrefers⟩ := exists_referredNodes_append b new
  have hdeclaredKnown : ∀ node ∈ declared, ∃ known ∈ b.declaredNodes, known.id = node.id := by
    intro node hnode
    obtain ⟨line, hline, e, he, hid⟩ := hdeclares node hnode
    exact hid ▸ hnew line hline e (List.mem_append_left _ he)
  have hreferredKnown : ∀ node ∈ referred, ∃ known ∈ b.declaredNodes ++ b.referredNodes,
      known.id = node.id := by
    intro node hnode
    obtain ⟨line, hline, e, he, hid⟩ := hrefers node hnode
    obtain ⟨known, hknown, hsame⟩ := hnew line hline e (List.mem_append_right _ he)
    exact ⟨known, List.mem_append_left _ hknown, hsame.trans hid⟩
  calc nodes (b.append new)
      = distinctBy Node.id (b.declaredNodes ++ (declared ++ (b.referredNodes ++ referred))) := by
        rw [nodes, hdeclared, hreferred, List.append_assoc]
    _ = distinctBy Node.id (b.declaredNodes ++ (b.referredNodes ++ referred)) :=
      distinctBy_skip hdeclaredKnown _
    _ = distinctBy Node.id ((b.declaredNodes ++ b.referredNodes) ++ (referred ++ [])) := by
        rw [List.append_nil, List.append_assoc]
    _ = distinctBy Node.id ((b.declaredNodes ++ b.referredNodes) ++ []) :=
      distinctBy_skip hreferredKnown _
    _ = b.nodes := by rw [List.append_nil, nodes]

theorem edges_append_lines (b : Buffer) (new : List Line) :
    edges (b.append new) = b.edges ++ (new.zipIdx b.appendIndex).filterMap fun entry =>
      edgeOn? entry.1 entry.2 := by
  have hread : ∀ entries : List (Line × Nat),
      (entries.filterMap fun entry => edgeOn? entry.1 entry.2) =
      entries.flatMap fun entry => (edgeOn? entry.1 entry.2).toList :=
    fun _ => List.filterMap_eq_flatMap_toList ..
  have hblank : ∀ line i, Text.trim line = [] → (edgeOn? line i).toList = [] := by
    intro line i h
    have hedge : edgeOn? line 0 = none := congrArg Line.View.edge (Line.view_of_blank h)
    rw [edgeOn?_eq_map, hedge, Option.map_none, Option.toList_none]
  rw [edges, edges, hread, hread, hread, flatMap_append hblank]

theorem edges_append (hnew : ∀ line ∈ new, edgeOn? line 0 = none) :
    edges (b.append new) = b.edges := by
  have hfound : ((new.zipIdx b.appendIndex).filterMap fun entry => edgeOn? entry.1 entry.2) =
      [] := by
    refine List.filterMap_eq_nil_iff.2 fun entry hentry => ?_
    have hedge : edgeOn? entry.1 0 = none := hnew _ (List.fst_mem_of_mem_zipIdx hentry)
    rw [edgeOn?_eq_map, hedge, Option.map_none]
  rw [edges_append_lines, hfound, List.append_nil]

theorem without_append (b : Buffer) (new : List Line) :
    (b.append new).without (List.range' b.appendIndex new.length) = b :=
  without_insertAt (appendIndex_le_length b) new

theorem styles_append (hnew : ∀ line ∈ new, StyleLine.read line = .ok none) :
    styles (b.append new) = b.styles := by
  have hstyles : styles ((b.append new).without (List.range' b.appendIndex new.length)) =
      styles (b.append new) :=
    styles_without fun k hk _ => hnew _ (line_insertAt_mem (appendIndex_le_length b) hk)
  rw [without_append] at hstyles
  exact hstyles.symm

end Buffer
end Chartwright
