import Chartwright.Proofs.Buffer.EdgeEnds
import Chartwright.Proofs.Buffer.Lines
import Chartwright.Proofs.Line.Reshape
import Mathlib.Data.List.Forall2
import Mathlib.Data.List.Nodup
/-!
What another declaration in the place of one changes.

A declaration of the same node, with other brackets or another label that keep to their place,
changes one entry of the text: every other line, declared node, subgraph and style is as before
(`IsRedeclared`). So are the edges, except that the label of an arrow can hold the whole
declaration: the scan for edges reads such a label with the declared one filled, and then the
brackets and the length of the filler show. What is shown of one line is put together from what
stands before the declaration, the declaration, and what stands behind it
(`Slot.First.isRedeclared`).
-/
namespace Chartwright

/-- Two edges that differ at most in a box in the label. -/
structure Edge.Reboxed (b b' : Bracket) (m n : Nat) (e e' : Edge) : Prop where
  same : e' = { e with label := e'.label }
  label : Text.Reboxed b b' m n e.label e'.label

namespace Slot

variable {s : Slot} {label other : Text} {b : Bracket}

/-! ## One line -/

theorem Takes.declarations_fill (h : s.Takes label) (hname : Keyword.isKeyword s.id = false)
    (hline : Line.isDirective (s.fill label) = false) :
    Line.declarations (s.fill label) = s.before ++ s.declared label ::
      (Line.shown s.back).map
        (Declaration.shift (s.head ++ (label ++ s.bracket.closer)).length) := by
  rw [Line.declarations_eq_shown hline, h.shown_fill hname]

theorem Takes.map_declarations_fill {α : Type} (h : s.Takes label)
    (hname : Keyword.isKeyword s.id = false) (hline : Line.isDirective (s.fill label) = false)
    (f : Text × Bracket × Text → α) :
    (Line.declarations (s.fill label)).map (fun d => f d.content) =
      s.before.map (fun d => f d.content) ++ f (s.id, s.bracket, label) ::
        (Line.shown s.back).map fun d => f d.content := by
  rw [h.declarations_fill hname hline, List.map_append, List.map_cons, List.map_map]
  rfl

/-- What is found before the declaration ends before it. -/
theorem Takes.find?_before (h : s.Takes label) (hname : Keyword.isKeyword s.id = false)
    (hline : Line.isDirective (s.fill label) = false)
    (hfirst : (Line.declarations (s.fill label)).find? (·.id = s.id) = some (s.declared label)) :
    s.before.find? (·.id = s.id) = none := by
  rw [h.declarations_fill hname hline, List.find?_append] at hfirst
  cases hfound : s.before.find? (·.id = s.id) with
  | none => rfl
  | some d =>
    rw [hfound, Option.some_or] at hfirst
    have hstop := stop_le_of_mem_before (List.mem_of_find?_eq_some hfound)
    rw [Option.some.inj hfirst, Declaration.stop_eq] at hstop
    have hid := List.length_pos_iff.2 (Identifier.ne_nil_of_valid s.id_valid)
    simp only [declared, Declaration.written, List.length_append] at hstop
    omega

/-- A line shows an edge with the same ends and arrow whatever the brackets and the label. -/
theorem Takes.edgeOn?_rebracket (h : s.Takes label) (hother : (s.rebracket b).Takes other)
    (hname : Keyword.isKeyword s.id = false) (i : Nat) :
    Option.Rel (fun e e' =>
      e.line = (i : Int) ∧ Edge.Reboxed s.bracket b label.length other.length e e')
      (Buffer.edgeOn? (s.fill label) i) (Buffer.edgeOn? ((s.rebracket b).fill other) i) := by
  have hsame := h.isDirective_rebracket hname b other
  cases hline : Line.isDirective (s.fill label) with
  | true =>
    rw [Buffer.edgeOn?, Buffer.edgeOn?, hsame, hline, if_pos rfl, if_pos rfl]
    exact .none
  | false =>
    have hline' : Line.isDirective ((s.rebracket b).fill other) = false := hsame.trans hline
    have hends := s.filled.firstEnds?_rebracket b label.length other.length
    rw [Buffer.edgeOn?_eq hline, Buffer.edgeOn?_eq hline', Line.link?, Line.link?, Link.ends_first?,
      Link.ends_first?, Line.maskLabels_eq_filled hline, Line.maskLabels_eq_filled hline',
      h.filled_fill hname, hother.filled_fill hname, h.filled_rebracket b]
    rw [Text.filler, Text.filler] at hends
    generalize Link.firstEnds? none (s.filled.fill (List.replicate label.length '\x00')) =
      found at hends ⊢
    generalize Link.firstEnds? none
      ((s.filled.rebracket b).fill (List.replicate other.length '\x00')) = found'
      at hends ⊢
    cases hends with
    | none => exact .none
    | @some e e' hends =>
      obtain ⟨source, k, target⟩ := e
      obtain ⟨source', k', target'⟩ := e'
      obtain ⟨rfl, ⟨harrow, htext⟩, rfl⟩ := hends
      have harrow : k.arrow = k'.arrow := harrow
      simp only [Option.bind_some]
      split
      · exact .none
      · exact .some ⟨rfl, by rw [harrow], htext⟩

/-- A line that is no directive is one step of the scan for subgraphs, whatever the brackets and the
label. -/
theorem Takes.step_rebracket (h : s.Takes label) (hother : (s.rebracket b).Takes other)
    (hname : Keyword.isKeyword s.id = false) (hline : Line.isDirective (s.fill label) = false)
    (nesting : Subgraph.Nesting) (i : Nat) :
    nesting.step ((s.rebracket b).fill other, i) = nesting.step (s.fill label, i) := by
  have hline' : Line.isDirective ((s.rebracket b).fill other) = false :=
    (h.isDirective_rebracket hname b other).trans hline
  have hplain : ∀ {line}, Line.isDirective line = false →
      Line.closesSubgraph line = false ∧ Opening.read? line = none := by
    intro line hline
    refine ⟨Bool.eq_false_iff.2 fun hcloses => ?_,
      Option.eq_none_iff_forall_ne_some.2 fun found hfound => ?_⟩
    · rw [Line.isDirective_of_closesSubgraph hcloses] at hline
      cases hline
    · rw [Line.isDirective_of_opening hfound] at hline
      cases hline
  simp only [Subgraph.Nesting.step, Subgraph.Frame.ofLine, s.opensSubgraph_rebracket b label other,
    hplain hline, hplain hline', h.identifiers_fill hname hline,
    hother.identifiers_fill hname hline', h.names_rebracket b]

/-- A slot with the first declaration of its node behind the lines `front`: none of them declares
the node, and on its own line the declaration is the first one of it. -/
structure First (s : Slot) (front : List Line) (label : Text) : Prop where
  takes : s.Takes label
  name : Keyword.isKeyword s.id = false
  plain : Line.isDirective (s.fill label) = false
  front_free : ∀ line ∈ front, (Line.declarations line).find? (·.id = s.id) = none
  found : (Line.declarations (s.fill label)).find? (·.id = s.id) = some (s.declared label)

/-- Other brackets and another label that keep to their place declare the node first too. -/
theorem First.rebracket {front : List Line} (h : s.First front label)
    (hother : (s.rebracket b).Takes other) : (s.rebracket b).First front other where
  takes := hother
  name := h.name
  plain := (h.takes.isDirective_rebracket h.name b other).trans h.plain
  front_free := h.front_free
  found := by
    have hplain := (h.takes.isDirective_rebracket h.name b other).trans h.plain
    have hbefore : (s.rebracket b).before.find? (·.id = s.id) = none := by
      rw [h.takes.before_rebracket b]
      exact h.takes.find?_before h.name h.plain h.found
    rw [hother.declarations_fill h.name hplain, List.find?_append]
    show ((s.rebracket b).before.find? (·.id = s.id)).or _ = _
    rw [hbefore, Option.none_or, List.find?_cons_of_pos (by simp [declared])]

end Slot

/-! ## All lines -/

namespace Buffer

variable {b : Buffer} {front back : List Line} {id : Text} {i : Nat} {d : Declaration}

/-- What another declaration `d'` of the same node in the place of `d` on line `i` leaves as it
was. -/
structure IsRedeclared (b b' : Buffer) (i : Nat) (d d' : Declaration) : Prop where
  lines : ∀ j, j ≠ i → b'[j]? = b[j]?
  declared : b'.declaration? d.id = some (i, d')
  nodes : ∀ n : Node, n.id ≠ d.id → (b.declaration? n.id).isSome = true →
      (n ∈ b'.nodes ↔ n ∈ b.nodes)
  edges : List.Forall₂ (fun e e' => e' = e ∨
    (e.line = (i : Int) ∧ Edge.Reboxed d.bracket d'.bracket d.label.length d'.label.length e e'))
      b.edges b'.edges
  subgraphs : b'.subgraphs = b.subgraphs
  styles : b'.styles = b.styles

theorem find?_declaredNodes (b : Buffer) (id : Text) :
    b.declaredNodes.find? (fun m => decide (m.id = id)) =
    (b.declaration? id).map fun found =>
      ⟨found.2.id, found.2.label, found.2.bracket.shape, found.1⟩ := by
  rw [declaredNodes, List.find?_flatMap, declaration?, first?, List.map_findSome?]
  congr 1
  funext entry
  rw [List.find?_map, Function.comp_apply, Option.map_map]
  rfl

theorem exists_of_isSome_declaration? (h : (b.declaration? id).isSome = true) :
    ∃ n ∈ b.declaredNodes, n.id = id := by
  have hsome : (b.declaredNodes.find? fun m => decide (m.id = id)).isSome = true := by
    rw [find?_declaredNodes, Option.isSome_map, h]
  simpa using List.find?_isSome.1 hsome

/-- A node with a declared identifier is found among the declared nodes. -/
theorem mem_nodes_iff_find? {n : Node} (h : ∃ m ∈ b.declaredNodes, m.id = n.id) :
    n ∈ b.nodes ↔ b.declaredNodes.find? (fun m => decide (m.id = n.id)) = some n := by
  have hfind : b.nodes.find? (fun m => decide (m.id = n.id)) = b.declaredNodes.find? fun m =>
      decide (m.id = n.id) := by
    obtain ⟨m, hm, hid⟩ := h
    have hsome : (b.declaredNodes.find? fun m => decide (m.id = n.id)).isSome = true :=
      List.find?_isSome.2 ⟨m, hm, decide_eq_true hid⟩
    obtain ⟨k, hk⟩ := Option.isSome_iff_exists.1 hsome
    rw [nodes, find?_distinctBy, List.find?_append, hk, Option.some_or]
  rw [← hfind]
  constructor
  · intro hn
    refine find?_eq_some_of_unique (·.id) hn fun m hm hid => ?_
    have hnodup : (b.nodes.map (·.id)).Nodup :=
      nodup_map_distinctBy (·.id) (declaredNodes b ++ referredNodes b)
    exact List.inj_on_of_nodup_map hnodup hm hn hid
  · exact List.mem_of_find?_eq_some

/-- Declared nodes of other identifiers are the same if one declared node changes. -/
theorem mem_nodes_iff {P Q : List Node} {n m m' : Node} (hb : b.declaredNodes = P ++ m :: Q)
    {b' : Buffer} (hb' : b'.declaredNodes = P ++ m' :: Q) (hid : m'.id = m.id) (hne : n.id ≠ m.id)
    (hdeclared : (b.declaration? n.id).isSome = true) : n ∈ b'.nodes ↔ n ∈ b.nodes := by
  have hskip : ∀ m : Node, m.id ≠ n.id → (P ++ m :: Q).find? (fun m => decide (m.id = n.id)) =
      (P ++ Q).find? fun m => decide (m.id = n.id) := by
    intro m hm
    rw [List.find?_append, List.find?_append, List.find?_cons_of_neg (by simpa using hm)]
  obtain ⟨k, hk, hkid⟩ := exists_of_isSome_declaration? hdeclared
  have hk' : k ∈ b'.declaredNodes := by
    rw [hb] at hk
    rw [hb']
    rcases List.mem_append.1 hk with hk | hk
    · exact List.mem_append_left _ hk
    · rcases List.mem_cons.1 hk with rfl | hk
      · exact absurd hkid.symm hne
      · exact List.mem_append_right _ (List.mem_cons_of_mem _ hk)
  rw [mem_nodes_iff_find? ⟨k, hk, hkid⟩, mem_nodes_iff_find? ⟨k, hk', hkid⟩, hb, hb',
    hskip m (Ne.symm hne), hskip m' (hid ▸ Ne.symm hne)]

/-! ### Scans around one line -/

/-- The node that is declared on line `i`. -/
def nodeOf (i : Nat) (entry : Text × Bracket × Text) : Node :=
  ⟨entry.1, entry.2.2, entry.2.1.shape, i⟩

theorem declaredNodes_append_cons (front : List Line) (l : Line) (back : List Line) :
    declaredNodes (front ++ l :: back) = declaredNodes front ++
      ((Line.declarations l).map (fun d => nodeOf front.length d.content) ++
        (back.zipIdx (front.length + 1)).flatMap fun (line, i) =>
          (Line.declarations line).map fun d => nodeOf i d.content) := by
  simp only [declaredNodes, List.zipIdx_append, List.zipIdx_cons, List.flatMap_append,
    List.flatMap_cons, Nat.zero_add]
  rfl

theorem edges_append_cons (front : List Line) (l : Line) (back : List Line) :
    edges (front ++ l :: back) = edges front ++ ((edgeOn? l front.length).toList ++
      (back.zipIdx (front.length + 1)).filterMap fun (line, i) => edgeOn? line i) := by
  simp only [edges, List.zipIdx_append, List.zipIdx_cons, List.filterMap_append,
    List.filterMap_cons, Nat.zero_add]
  cases edgeOn? l front.length <;> rfl

theorem subgraphs_append_cons (front : List Line) (l : Line) (back : List Line) :
    subgraphs (front ++ l :: back) = ((back.zipIdx (front.length + 1)).foldl Subgraph.Nesting.step
      ((front.zipIdx.foldl Subgraph.Nesting.step {}).step (l, front.length))).closed.reverse := by
  simp only [subgraphs, List.zipIdx_append, List.zipIdx_cons, List.foldl_append, List.foldl_cons,
    Nat.zero_add]

theorem exists_first_of_declaration? (h : b.declaration? id = some (i, d)) :
    ∃ (front : List Line) (s : Slot) (back : List Line), b = front ++ s.fill d.label :: back ∧
      front.length = i ∧ s.id = id ∧ s.declared d.label = d ∧ s.First front d.label := by
  obtain ⟨front, l, back, rfl, rfl, hfront, hfirst⟩ := first?_eq_some_iff.1 h
  have hd := List.mem_of_find?_eq_some hfirst
  have hline : Line.isDirective l = false := (Line.mem_declarations.1 hd).1
  obtain ⟨s, rfl, hdeclared, htakes, hname⟩ := Slot.exists_fill_of_mem_declarations hd
  have hid : d.id = id := by simpa using List.find?_some hfirst
  rw [← hdeclared] at hid
  obtain rfl : s.id = id := hid
  exact ⟨front, s, back, rfl, rfl, rfl, hdeclared, htakes, hname, hline, hfront, hdeclared ▸ hfirst⟩

theorem mem_nodes_of_declaration? (h : b.declaration? id = some (i, d)) :
    ⟨d.id, d.label, d.bracket.shape, i⟩ ∈ b.nodes := by
  obtain ⟨front, l, back, -, -, -, hd⟩ := first?_eq_some_iff.1 h
  have hid : d.id = id := by simpa using List.find?_some hd
  subst hid
  apply (mem_nodes_iff_find? (exists_of_isSome_declaration? (by rw [h, Option.isSome_some]))).2
  rw [find?_declaredNodes, h]
  rfl

end Buffer

namespace Slot.First

open Buffer

variable {s : Slot} {front back : List Line} {label other : Text} {b : Bracket}

theorem declaration? (h : s.First front label) (back : List Line) :
    Buffer.declaration?
      (front ++ s.fill label :: back) s.id = some (front.length, s.declared label) :=
  first?_eq_some_iff.2 ⟨front, _, back, rfl, rfl, h.front_free, h.found⟩

/-- One line with other brackets and another label that keep to their place. -/
theorem isRedeclared (h : s.First front label) (hother : (s.rebracket b).Takes other)
    (back : List Line) :
    IsRedeclared (front ++ s.fill label :: back)
      (front ++ (s.rebracket b).fill other :: back) front.length
      (s.declared label) ((s.rebracket b).declared other) := by
  have hafter := h.rebracket hother
  constructor
  case lines =>
    intro j hj
    rcases Nat.lt_or_ge j front.length with hlt | hge
    · rw [List.getElem?_append_left hlt, List.getElem?_append_left hlt]
    · obtain ⟨k, hk⟩ := Nat.exists_eq_succ_of_ne_zero (show j - front.length ≠ 0 by omega)
      rw [List.getElem?_append_right hge, List.getElem?_append_right hge, hk,
        List.getElem?_cons_succ, List.getElem?_cons_succ]
  case declared => exact hafter.declaration? back
  case nodes =>
    intro n hne hdeclared
    have hold := declaredNodes_append_cons front (s.fill label) back
    have hnew := declaredNodes_append_cons front ((s.rebracket b).fill other) back
    rw [h.takes.map_declarations_fill h.name h.plain, List.append_assoc, List.cons_append,
      ← List.append_assoc] at hold
    rw [hother.map_declarations_fill hafter.name hafter.plain, h.takes.before_rebracket b,
      List.append_assoc, List.cons_append, ← List.append_assoc] at hnew
    exact mem_nodes_iff hold hnew rfl hne hdeclared
  case edges =>
    have hsame : ∀ es : List Edge,
        List.Forall₂ (fun e e' => e' = e ∨ (e.line = (front.length : Int) ∧
        Edge.Reboxed s.bracket b label.length other.length e e')) es es :=
      fun es => List.forall₂_same.2 fun e _ => .inl rfl
    have hedge := h.takes.edgeOn?_rebracket hother h.name front.length
    rw [edges_append_cons, edges_append_cons]
    refine List.rel_append (hsame _) (List.rel_append ?_ (hsame _))
    generalize edgeOn? (s.fill label) front.length = e at hedge ⊢
    generalize edgeOn? ((s.rebracket b).fill other) front.length = e' at hedge ⊢
    cases hedge with
    | none => exact .nil
    | some hedge => exact .cons (.inr hedge) .nil
  case subgraphs =>
    rw [subgraphs_append_cons, subgraphs_append_cons, h.takes.step_rebracket hother h.name h.plain]
  case styles =>
    simp only [styles, List.mapM_append, List.mapM_cons, StyleLine.read_of_not_isDirective h.plain,
      StyleLine.read_of_not_isDirective hafter.plain]

end Slot.First
end Chartwright
