import Chartwright.Edit.Command
import Chartwright.Proofs.Edit.Redeclare
/-!
What another shape for a node changes.

If its label holds no character of a bracket, another shape changes one entry of the text: the first
declaration of the node has the brackets of that shape, and every other line, declared node,
subgraph and style is as before (`IsReshaped`). So are the edges, except that the label of an arrow
can hold the whole declaration: the scan for edges reads such a label with the brackets in it. A
declaration with the canonical brackets of its shape is restored by that shape
(`reshapeNode_isReshaped`).
-/
namespace Chartwright.Buffer

variable {front back : List Line} {t id label : Text} {i : Nat} {d : Declaration} {s : Slot}

/-- What another shape for the declaration `d` on line `i` changes, and what it leaves as it was. -/
structure IsReshaped (b b' : Buffer) (i : Nat) (d : Declaration) (shape : Shape) : Prop extends
    IsRedeclared b b' i d { d with bracket := shape.bracket } where
  node : ⟨d.id, d.label, shape, i⟩ ∈ b'.nodes

/-! ## The edit -/

/-- The brackets are written around the label in its place. -/
theorem reshapeNode?_fill (h : s.First front label) (back : List Line) :
    reshapeNode? (front ++ s.fill label :: back) s.id =
      some fun shape => front ++ (s.rebracket shape.bracket).fill label :: back := by
  have hline : line (front ++ s.fill label :: back) front.length = s.fill label := by simp [line]
  have hspan : (s.declared label).bracketSpan = ⟨(s.front ++ s.id).length,
      (s.front ++ s.id).length + (s.bracket.opener ++ label ++ s.bracket.closer).length⟩ := by
    simp [Slot.declared, Declaration.bracketSpan, Declaration.stop, Declaration.labelStop,
      Declaration.labelStart, Declaration.openerStart, Nat.add_assoc]
  have hfill : ∀ b : Bracket, (s.rebracket b).fill label =
      s.front ++ s.id ++ (b.opener ++ label ++ b.closer ++ s.back) := by
    intro b
    simp [Slot.rebracket, Slot.fill, Slot.head, Slot.tail]
  have hsplice : ∀ b : Bracket,
      (s.declared label).bracketSpan.splice (b.opener ++ label ++ b.closer) (s.fill label) =
      (s.rebracket b).fill label := by
    intro b
    have hold : s.fill label =
        s.front ++ s.id ++ (s.bracket.opener ++ label ++ s.bracket.closer ++ s.back) :=
      hfill s.bracket
    rw [hspan, hold, hfill b, Span.splice_append]
  have hset : ∀ b : Bracket,
      (front ++ s.fill label :: back).set front.length ((s.rebracket b).fill label) =
      front ++ (s.rebracket b).fill label :: back := by
    intro b
    rw [List.set_append_right _ _ (Nat.le_refl _), Nat.sub_self, List.set_cons_zero]
  have hlabel : (s.declared label).label = label := rfl
  simp only [reshapeNode?, h.declaration? back, hline, hlabel, hsplice, hset, Option.bind_eq_bind,
    Option.bind_some, Option.pure_def]

theorem run_reshapeNode (hlines : ofText t = front ++ s.fill label :: back)
    (h : s.First front label) (shape : Shape) :
    Command.run t (.reshapeNode s.id shape.name) =
      .ok (toText (front ++ (s.rebracket shape.bracket).fill label :: back)) := by
  simp only [Command.run, Command.onLinesNamed, hlines, reshapeNode?_fill h back, Shape.ofName_name]
  rfl

theorem ofText_toText_rebracket (hlines : ofText t = front ++ s.fill label :: back) (b : Bracket) :
    ofText (toText (front ++ (s.rebracket b).fill label :: back)) =
      front ++ (s.rebracket b).fill label :: back := by
  have hold : ∀ line ∈ front ++ s.fill label :: back, '\n' ∉ line :=
    fun line hline => not_mem_of_mem_ofText (hlines ▸ hline)
  refine ofText_toText (by simp) fun line hmem => ?_
  rcases List.mem_append.1 hmem with hmem | hmem
  · exact hold line (List.mem_append_left _ hmem)
  rcases List.mem_cons.1 hmem with rfl | hmem
  · have hline := hold (s.fill label) (List.mem_append_right _ List.mem_cons_self)
    have hbracket : '\n' ∉ b.opener ∧ '\n' ∉ b.closer := by cases b <;> decide
    simp only [Slot.rebracket, Slot.fill, Slot.head, Slot.tail, List.mem_append, not_or] at hline ⊢
    exact ⟨⟨hline.1.1, hline.1.2.1, hbracket.1⟩, hline.2.1, hbracket.2, hline.2.2.2⟩
  · exact hold line (List.mem_append_right _ (List.mem_cons_of_mem _ hmem))

/-- Another shape changes the first declaration of a node and nothing else, except for the brackets
in the label of an arrow that holds the declaration, and the shape of a canonical declaration put
back restores the text. -/
theorem reshapeNode_isReshaped {t id : Text} {i : Nat} {d : Declaration}
    (h : (ofText t).declaration? id = some (i, d)) (hlabel : ∀ c ∈ d.label, c ∉ Bracket.marks)
    (shape : Shape) :
    ∃ t', Command.run t (.reshapeNode id shape.name) = .ok t' ∧
      IsReshaped (ofText t) (ofText t') i d shape ∧
        (d.bracket = d.bracket.shape.bracket →
        Command.run t' (.reshapeNode id d.bracket.shape.name) = .ok t) := by
  obtain ⟨front, s, back, hlines, rfl, rfl, hdeclared, hfirst⟩ := exists_first_of_declaration? h
  generalize d.label = label at *
  subst hdeclared
  have hother : (s.rebracket shape.bracket).Takes label :=
    hfirst.takes.rebracket (shape.bracket.holds_of_free hlabel)
  have hafter := hfirst.rebracket hother
  have hback := ofText_toText_rebracket hlines shape.bracket
  refine ⟨_, run_reshapeNode hlines hfirst shape, ?_, fun hcanonical => ?_⟩
  · have hnode : (⟨s.id, label, shape.bracket.shape, front.length⟩ : Node) ∈
        nodes (front ++ (s.rebracket shape.bracket).fill label :: back) :=
      mem_nodes_of_declaration? (hafter.declaration? back)
    rw [Shape.shape_bracket] at hnode
    rw [hback, hlines]
    exact { hfirst.isRedeclared hother back with node := hnode }
  · have hcanonical : s.bracket = s.bracket.shape.bracket := hcanonical
    have hself : (s.rebracket shape.bracket).rebracket s.bracket.shape.bracket = s := by
      rw [← hcanonical]
      rfl
    have hrun := run_reshapeNode hback hafter s.bracket.shape
    rw [hself, ← hlines, toText_ofText] at hrun
    exact hrun

/-- A declaration with a class behind it, between links, becomes a circle, and a later one stays. -/
theorem reshapeNode_isReshaped_of_class :
    let t := "A --> B[b]:::c & C>d]\nB(e) --> A".toList
    (ofText t).declaration? "B".toList = some (0, ⟨"B".toList, .square, "b".toList, 6⟩) ∧
      (∀ c ∈ "b".toList, c ∉ Bracket.marks) ∧
      ∃ t', Command.run t (.reshapeNode "B".toList Shape.circle.name) = .ok t' ∧
        IsReshaped (ofText t) (ofText t') 0 ⟨"B".toList, .square, "b".toList, 6⟩ .circle ∧
        (Bracket.square = Bracket.square.shape.bracket →
          Command.run t' (.reshapeNode "B".toList Bracket.square.shape.name) = .ok t) := by
  intro t
  have hdeclared : (ofText t).declaration? "B".toList =
      some (0, ⟨"B".toList, .square, "b".toList, 6⟩) := by
    decide +kernel
  have hlabel : ∀ c ∈ "b".toList, c ∉ Bracket.marks := List.forall_mem_singleton.2 (by decide)
  exact ⟨hdeclared, hlabel, reshapeNode_isReshaped hdeclared hlabel .circle⟩

/-- The label of an arrow that holds a whole declaration is scanned with the brackets in it. -/
theorem edges_reshapeNode_ne_of_arrow_label :
    let t := "--> |x --> |y B[b] z| C".toList
    (ofText t).declaration? "B".toList = some (0, ⟨"B".toList, .square, "b".toList, 14⟩) ∧
      (∀ c ∈ "b".toList, c ∉ Bracket.marks) ∧
      ∃ t', Command.run t (.reshapeNode "B".toList Shape.rounded.name) = .ok t' ∧
        (ofText t').edges ≠ (ofText t).edges := by
  intro t
  refine ⟨by decide +kernel, List.forall_mem_singleton.2 (by decide),
    "--> |x --> |y B(b) z| C".toList, by decide +kernel, by decide +kernel⟩

end Chartwright.Buffer
