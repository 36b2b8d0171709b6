import Chartwright.Edit.Command
import Chartwright.Proofs.Edit.Redeclare
/-!
What another label for a node changes.

A label that fits its brackets changes one entry of the text: the declaration has the new label, and
every other line, declared node, subgraph and style is as before (`IsRelabelled`). So are the edges,
except that the label of an arrow can hold the whole declaration: the scan for edges reads such a
label with the declared one filled, and then the length of the filler shows. The original label put
back restores the text (`relabelNode_isRelabelled`).
-/
namespace Chartwright

namespace Text

/-- The characters that a closer can start with. -/
def closers : Text := [']', ')', '}', '/', '\\']

/-- Two texts that differ at most in the length of a stretch of filler, which a closer ends. -/
inductive Resized (m n : Nat) : Text → Text → Prop
  | same (t : Text) : Resized m n t t
  | across (p : Text) (c : Char) (q : Text) (hc : c ∈ closers) :
    Resized m n (p ++ (filler m ++ c :: q)) (p ++ (filler n ++ c :: q))

theorem Resized.of_reboxed {b : Bracket} {m n : Nat} {t t' : Text} (h : Reboxed b b m n t t') :
    Resized m n t t' := by
  cases h with
  | same t => exact .same t
  | across p q =>
    obtain ⟨c, cs, hcloser, hmem⟩ := b.head_closer
    have hbox : ∀ k, p ++ (b.box k ++ q) = p ++ b.opener ++ (filler k ++ c :: (cs ++ q)) := by
      intro k
      simp [Bracket.box, hcloser]
    rw [hbox, hbox]
    exact .across _ c _ (by simpa [closers] using hmem)

end Text

/-- Two edges that differ at most in the length of a stretch of filler in the label. -/
structure Edge.Resized (m n : Nat) (e e' : Edge) : Prop where
  same : e' = { e with label := e'.label }
  label : Text.Resized m n e.label e'.label

theorem Slot.Takes.find?_declarations {s : Slot} {label other : Text} (h : s.Takes label)
    (hother : s.Takes other) (hname : Keyword.isKeyword s.id = false)
    (hline : Line.isDirective (s.fill label) = false)
    (hfirst : (Line.declarations (s.fill label)).find? (·.id = s.id) = some (s.declared label)) :
    (Line.declarations (s.fill other)).find? (·.id = s.id) = some (s.declared other) := by
  have hslot : s.First [] label := ⟨h, hname, hline, List.forall_mem_nil _, hfirst⟩
  exact (hslot.rebracket (b := s.bracket) hother).found

namespace Buffer

variable {front back : List Line} {label : Text}

/-- What another label `label` for the declaration `d` on line `i` leaves as it was. -/
structure IsRelabelled (b b' : Buffer) (i : Nat) (d : Declaration) (label : Text) : Prop where
  lines : ∀ j, j ≠ i → b'[j]? = b[j]?
  declared : b'.declaration? d.id = some (i, { d with label := label })
  nodes : ∀ n : Node, n.id ≠ d.id → (b.declaration? n.id).isSome = true →
      (n ∈ b'.nodes ↔ n ∈ b.nodes)
  edges : List.Forall₂ (fun e e' =>
      e' = e ∨ (e.line = (i : Int) ∧ Edge.Resized d.label.length label.length e e'))
    b.edges b'.edges
  subgraphs : b'.subgraphs = b.subgraphs
  styles : b'.styles = b.styles

theorem isRelabelled_fill {s : Slot} {original : Text} (h : s.Takes original)
    (hother : s.Takes label) (hname : Keyword.isKeyword s.id = false)
    (hline : Line.isDirective (s.fill original) = false)
    (hfront : ∀ line ∈ front, (Line.declarations line).find? (·.id = s.id) = none)
    (hfirst : (Line.declarations (s.fill original)).find? (·.id = s.id) =
    some (s.declared original)) :
    IsRelabelled (front ++ s.fill original :: back)
      (front ++ s.fill label :: back) front.length (s.declared original) label := by
  have hslot : s.First front original := ⟨h, hname, hline, hfront, hfirst⟩
  have hsame : IsRedeclared (front ++ s.fill original :: back)
      (front ++ s.fill label :: back) front.length
      (s.declared original) (s.declared label) := hslot.isRedeclared (b := s.bracket) hother back
  refine ⟨hsame.lines, hsame.declared, hsame.nodes,
    hsame.edges.imp fun e e' hedge => ?_, hsame.subgraphs, hsame.styles⟩
  exact hedge.imp_right fun hedge => ⟨hedge.1, hedge.2.same, .of_reboxed hedge.2.label⟩

/-! ### The edit -/

theorem relabelNode_fill {s : Slot} {original : Text}
    (hfront : ∀ line ∈ front, (Line.declarations line).find? (·.id = s.id) = none)
    (hfirst : (Line.declarations (s.fill original)).find? (·.id = s.id) =
    some (s.declared original)) (label : Text) :
    relabelNode (front ++ s.fill original :: back) s.id label = front ++ s.fill label :: back := by
  have hdeclared : declaration? (front ++ s.fill original :: back) s.id =
      some (front.length, s.declared original) :=
    first?_eq_some_iff.2 ⟨front, _, back, rfl, rfl, hfront, hfirst⟩
  have hline : line (front ++ s.fill original :: back) front.length = s.fill original := by
    simp [line]
  have hspan : (s.declared original).labelSpan = ⟨s.head.length, s.head.length + original.length⟩ :=
    Declaration.labelSpan_eq rfl
  have hsplice : (s.declared original).labelSpan.splice label (s.fill original) = s.fill label := by
    have hdrop : (s.fill original).drop (s.head.length + original.length) = s.tail := by
      rw [Slot.fill, ← List.append_assoc, ← List.length_append, List.drop_left]
    rw [hspan, Span.splice, hdrop, Slot.fill, List.take_left, Slot.fill, List.append_assoc]
  simp only [relabelNode, hdeclared, hline, hsplice]
  rw [List.set_append_right _ _ (Nat.le_refl _), Nat.sub_self, List.set_cons_zero]

/-- Another label that fits the brackets changes the first declaration of a node and nothing else,
except for the length of filler in the label of an arrow that holds the declaration, and the
original label put back restores the text. -/
theorem relabelNode_isRelabelled {t id label : Text} {i : Nat} {d : Declaration}
    (h : (ofText t).declaration? id = some (i, d)) (hfits : d.bracket.Admits label) :
    IsRelabelled (ofText t) (ofText (Command.onLines (·.relabelNode id label) t)) i d label ∧
      Command.onLines (·.relabelNode id d.label) (Command.onLines (·.relabelNode id label) t) =
        t := by
  obtain ⟨front, l, back, hlines, rfl, hfront, hfirst⟩ := first?_eq_some_iff.1 h
  have hd := List.mem_of_find?_eq_some hfirst
  have hline : Line.isDirective l = false := (Line.mem_declarations.1 hd).1
  obtain ⟨s, rfl, hdeclared, htakes, hname⟩ := Slot.exists_fill_of_mem_declarations hd
  generalize d.label = original at *
  subst hdeclared
  have hid := List.find?_some hfirst
  obtain rfl : s.id = id := of_decide_eq_true hid
  have hother : s.Takes label := htakes.of_admits hfits
  have hfirst' := htakes.find?_declarations hother hname hline hfirst
  have hback : ofText (Command.onLines (·.relabelNode s.id label) t) =
      front ++ s.fill label :: back := by
    rw [Command.onLines, hlines, relabelNode_fill hfront hfirst]
    refine ofText_toText (by simp) fun line hmem => ?_
    have hold : ∀ line ∈ front ++ s.fill original :: back, '\n' ∉ line :=
      fun line hline => not_mem_of_mem_ofText (hlines ▸ hline)
    rcases List.mem_append.1 hmem with hmem | hmem
    · exact hold line (List.mem_append_left _ hmem)
    · rcases List.mem_cons.1 hmem with rfl | hmem
      · have hline := hold (s.fill original) (List.mem_append_right _ List.mem_cons_self)
        simp only [Slot.fill, List.mem_append, not_or] at hline ⊢
        exact ⟨hline.1, hfits.lineFeed_not_mem, hline.2.2⟩
      · exact hold line (List.mem_append_right _ (List.mem_cons_of_mem _ hmem))
  refine ⟨?_, ?_⟩
  · rw [hback, hlines]
    exact isRelabelled_fill htakes hother hname hline hfront hfirst
  · rw [Command.onLines, hback, relabelNode_fill hfront hfirst', ← hlines, toText_ofText]

/-- A label with a link, a comment and a class suffix in it, between two nodes on one line. -/
theorem relabelNode_isRelabelled_of_link :
    (ofText "A --> B[b] & C[c]\nB[d] --> A".toList).declaration? "B".toList =
        some (0, ⟨"B".toList, .square, "b".toList, 6⟩) ∧
      Bracket.Admits .square "x --> y & %% :::z".toList ∧
      IsRelabelled (ofText "A --> B[b] & C[c]\nB[d] --> A".toList)
        (ofText (Command.onLines (·.relabelNode "B".toList "x --> y & %% :::z".toList)
          "A --> B[b] & C[c]\nB[d] --> A".toList)) 0
        ⟨"B".toList, .square, "b".toList, 6⟩ "x --> y & %% :::z".toList := by
  have hdeclared : (ofText "A --> B[b] & C[c]\nB[d] --> A".toList).declaration? "B".toList =
      some (0, ⟨"B".toList, .square, "b".toList, 6⟩) := by decide +kernel
  have hfits : Bracket.Admits .square "x --> y & %% :::z".toList :=
    ⟨by decide, by decide, by decide, by decide⟩
  exact ⟨hdeclared, hfits, (relabelNode_isRelabelled hdeclared hfits).1⟩

/-- The label of an arrow that holds a whole declaration is scanned with the declared label filled,
and a longer one makes it longer. -/
theorem edges_relabelNode_ne_of_arrow_label :
    (ofText "--> |x --> |y B[b] z| C".toList).declaration? "B".toList =
        some (0, ⟨"B".toList, .square, "b".toList, 14⟩) ∧
      Bracket.Admits .square "bb".toList ∧
      (ofText
        (Command.onLines (·.relabelNode "B".toList "bb".toList)
        "--> |x --> |y B[b] z| C".toList)).edges ≠
        (ofText "--> |x --> |y B[b] z| C".toList).edges :=
  ⟨by decide +kernel, ⟨by decide, by decide, by decide, by decide⟩, by decide +kernel⟩

end Buffer
end Chartwright
