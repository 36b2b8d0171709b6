import Chartwright.Buffer.Locate
import Chartwright.Proofs.Edit.InsertNode
import Chartwright.Proofs.Line.Mentions
/-!
Nodes as places to go to and to go on from.

A node is revealed at its first declaration or at its first mention, and a new node is linked behind
its mentions. Every node is mentioned on the line that introduces it
(`Buffer.exists_place_of_mem_nodes`), but both searches leave out lines that begin as a header does,
and such a line may be one that links nodes. A node that only such lines mention is overlooked
(`Buffer.Overlooks`): nothing is linked from it, and it is revealed only if it is declared. All
others are revealed where they stand, and can be linked from unless the styles cannot be read
(`Buffer.reached_of_mem_nodes`).
-/
namespace Chartwright

namespace Buffer

variable {b : Buffer} {name : Text} {n : Node} {i : Nat} {d : Declaration} {loc : Location}

/-- Some line declares a name. -/
def Declares (b : Buffer) (name : Text) : Prop :=
  ∃ line ∈ b, ∃ d ∈ Line.declarations line, d.id = name

/-- Every line on which a name stands outside of labels begins as a header does. -/
def Overlooks (b : Buffer) (name : Text) : Prop :=
  ∀ line ∈ b, (∃ k, Identifier.Place (Line.maskLabels line) k name) → Line.isHeader line = true

/-- A place where a name is declared, and before which it is not. -/
structure FirstDeclared (b : Buffer) (name : Text) (loc : Location) : Prop where
  declared : ∃ d ∈ Line.declarations (b.line loc.line), d.id = name ∧ d.start = loc.column
  first : ∀ i, ∀ d ∈ Line.declarations (b.line i), d.id = name → loc.line < i ∨
      (loc.line = i ∧ loc.column ≤ d.start)

/-! ## Nodes on their lines -/

/-- A node is introduced by a line that is no directive and on which its name stands outside of
labels. -/
theorem exists_place_of_mem_nodes (h : n ∈ b.nodes) :
    n.line < b.length ∧ Line.isDirective (b.line n.line) = false ∧
      ∃ k, Identifier.Place (Line.maskLabels (b.line n.line)) k n.id := by
  rcases List.mem_append.1 (mem_distinctBy h) with hdeclared | hreferred
  · obtain ⟨i, line, hline, d, hd, rfl⟩ := mem_declaredNodes.1 hdeclared
    obtain rfl := line_eq_of_getElem? hline
    exact ⟨(List.getElem?_eq_some_iff.1 hline).1, (Line.mem_declarations.1 hd).1, d.start,
      Line.place_of_mem_declarations hd⟩
  · obtain ⟨i, line, hline, -, name, hname, rfl⟩ := mem_referredNodes.1 hreferred
    obtain rfl := line_eq_of_getElem? hline
    exact ⟨(List.getElem?_eq_some_iff.1 hline).1, Line.exists_place_of_mem_identifiers hname⟩

theorem valid_of_mem_nodes (h : n ∈ b.nodes) : Identifier.valid n.id = true := by
  obtain ⟨-, -, k, hplace⟩ := exists_place_of_mem_nodes h
  exact hplace.valid

/-- An overlooked node is introduced by a line that is taken for a header, but not for a
directive. -/
theorem isHeader_of_overlooks (h : n ∈ b.nodes) (hover : b.Overlooks n.id) :
    Line.isHeader (b.line n.line) = true ∧ Line.isDirective (b.line n.line) = false := by
  obtain ⟨hlt, hline, hplace⟩ := exists_place_of_mem_nodes h
  exact ⟨hover _ (line_mem hlt) hplace, hline⟩

/-! ## Revealing a node -/

theorem declaration?_eq_none_iff : b.declaration? name = none ↔ ¬ b.Declares name := by
  rw [declaration?, first?_eq_none_iff]
  constructor
  · rintro h ⟨line, hline, d, hd, hid⟩
    exact List.find?_eq_none.1 (h line hline) d hd (decide_eq_true hid)
  · intro h line hline
    exact List.find?_eq_none.2 fun d hd hid => h ⟨line, hline, d, hd, of_decide_eq_true hid⟩

theorem firstDeclared_of_declaration? (h : b.declaration? name = some (i, d)) :
    b.FirstDeclared name ⟨i, d.start⟩ := by
  obtain ⟨hlt, hfirst, hnone⟩ := line_of_first? h
  constructor
  case declared =>
    have hid : d.id = name := by simpa using List.find?_some hfirst
    exact ⟨d, List.mem_of_find?_eq_some hfirst, hid, rfl⟩
  case first =>
    intro j e he hid
    rcases Nat.lt_trichotomy i j with hlater | rfl | hearlier
    · exact .inl hlater
    · exact .inr ⟨rfl, Line.start_le_of_find? hfirst he (decide_eq_true hid)⟩
    · exact absurd (decide_eq_true hid) (List.find?_eq_none.1 (hnone j hearlier) e he)

theorem exists_locateNode_of_declares (h : b.Declares name) :
    ∃ loc, b.locateNode name = some loc ∧ b.FirstDeclared name loc := by
  obtain ⟨⟨i, d⟩, hfirst⟩ :=
    Option.ne_none_iff_exists'.1 (mt declaration?_eq_none_iff.1 (not_not_intro h))
  refine ⟨⟨i, d.start⟩, ?_, firstDeclared_of_declaration? hfirst⟩
  rw [locateNode, hfirst]

theorem place_of_locateNode (hname : Identifier.valid name = true)
    (h : b.locateNode name = some loc) : Identifier.Place (b.line loc.line) loc.column name := by
  rw [locateNode] at h
  split at h
  · next i d hfirst =>
    cases h
    obtain ⟨d', hd, rfl, hstart⟩ := (firstDeclared_of_declaration? hfirst).declared
    exact Line.place_of_maskLabels (hstart ▸ Line.place_of_mem_declarations hd)
  · obtain ⟨⟨i, column⟩, hfirst, rfl⟩ := Option.map_eq_some_iff.1 h
    obtain ⟨-, hmention, -⟩ := line_of_first? hfirst
    split at hmention
    · cases hmention
    · exact Line.place_of_maskLabels (Identifier.place_of_mention? hname hmention)

theorem locateNode_eq_none_iff (hname : Identifier.valid name = true) :
    b.locateNode name = none ↔ ¬ b.Declares name ∧ b.Overlooks name := by
  have hmentions : (b.first? fun line =>
      if Line.isHeader line then none else Line.mention? name line) = none ↔ b.Overlooks name := by
    rw [first?_eq_none_iff]
    refine forall₂_congr fun line _ => ?_
    rw [← Identifier.isSome_mention?_iff hname]
    cases Line.isHeader line <;> simp [Line.mention?]
  rw [locateNode, ← declaration?_eq_none_iff, ← hmentions]
  split
  · next hfirst => simp [hfirst]
  · next hnone => simp [hnone]

/-! ## Linking from a node -/

theorem mentions_eq_nil_iff (hname : Identifier.valid name = true) :
    b.mentions name = [] ↔ b.Overlooks name := by
  rw [List.eq_nil_iff_forall_not_mem]
  constructor
  · intro h line hline hplace
    have hmention := (Identifier.isSome_mention?_iff hname).2 hplace
    obtain ⟨i, hi⟩ := List.mem_iff_getElem?.1 hline
    obtain rfl := line_eq_of_getElem? hi
    by_contra hheader
    exact h i (mem_mentions_iff.2 ⟨(List.getElem?_eq_some_iff.1 hi).1, Bool.eq_false_iff.2 hheader,
      hmention⟩)
  · intro h i hi
    obtain ⟨hlt, hheader, hmention⟩ := mem_mentions_iff.1 hi
    rw [h (b.line i) (line_mem hlt) ((Identifier.isSome_mention?_iff hname).1 hmention)] at hheader
    cases hheader

theorem exists_getLast?_mentions (hname : Identifier.valid name = true) (h : ¬ b.Overlooks name) :
    ∃ last, (b.mentions name).getLast? = some last :=
  Option.ne_none_iff_exists'.1 (mt List.getLast?_eq_none_iff.1 (mt (mentions_eq_nil_iff hname).1 h))

theorem exists_perm_insertLinked {place : Nat} (h : place ≤ b.length) (link : Line)
    (copy? : Option (Nat × Line)) :
    ∃ new, new ≠ [] ∧ (b.insertLinked place link copy?).Perm (b ++ new) := by
  cases copy? with
  | none => exact ⟨[link], List.cons_ne_nil _ _, perm_insertAt b place [link]⟩
  | some found =>
    obtain ⟨i, copy⟩ := found
    obtain ⟨j, heq⟩ := insertLinked_some h link i copy
    refine ⟨[link] ++ [copy], List.cons_ne_nil _ _, heq ▸ (perm_insertAt _ j [copy]).trans ?_⟩
    rw [← List.append_assoc]
    exact (perm_insertAt b place [link]).append_right [copy]

theorem run_insertNode_of_overlooks {t : Text} (hname : Identifier.valid name = true)
    (h : (ofText t).Overlooks name) (id label shape : Text) :
    Command.run t (.insertNode name id label shape) = .ok t := by
  have hedit : (ofText t).insertNode? name id label = none := by
    rw [insertNode?, (mentions_eq_nil_iff hname).2 h]
    rfl
  rw [Command.run, Command.onLinesNamed, hedit]

theorem exists_run_insertNode {t : Text} {found : List StyleLine}
    (hname : Identifier.valid name = true) (h : ¬ (ofText t).Overlooks name)
    (hstyles : (ofText t).styles = .ok found) (id label : Text) (shape : Shape) :
    ∃ t', Command.run t (.insertNode name id label shape.name) = .ok t' ∧ t' ≠ t := by
  obtain ⟨last, hlast⟩ := exists_getLast?_mentions hname h
  obtain ⟨copy?, hcopy⟩ : ∃ copy?, (ofText t).styleCopy? name id = .ok copy? := by
    have hlines : ∀ line ∈ ofText t, '\n' ∉ line := fun line hline => not_mem_of_mem_ofText hline
    refine (styleCopy?_cases hlines hstyles hname).elim (fun hcopied => ⟨_, hcopied.2⟩)
      fun hcopied => ?_
    obtain ⟨s, i, indent, -, -, hcopy⟩ := hcopied
    exact ⟨_, hcopy⟩
  refine ⟨_, run_insertNode hlast hcopy, ?_⟩
  obtain ⟨new, hnew, hperm⟩ := exists_perm_insertLinked (placeAfter_le_length hlast)
    (linkFrom ((ofText t).placeAfter name ((ofText t).mentions name) last).2 name id shape.bracket
      label) copy?
  exact toText_ne_of_perm hnew hperm

theorem run_insertNode_of_tooLong {t : Text} {e : Integer.TooLong}
    (hname : Identifier.valid name = true) (h : ¬ (ofText t).Overlooks name)
    (hstyles : (ofText t).styles = .error e) (id label : Text) (shape : Shape) :
    Command.run t (.insertNode name id label shape.name) = .error (.tooLong e) := by
  obtain ⟨last, hlast⟩ := exists_getLast?_mentions hname h
  rw [run_insertNode_of_mentions hlast, styleCopy?, style?, hstyles]
  rfl

/-! ## Nodes of a text -/

/-- What becomes of a node when it is revealed, and when a new node is linked from it. -/
structure Reached (t : Text) (n : Node) : Prop where
  stands : ∀ loc, (ofText t).locateNode n.id = some loc →
    Identifier.Place ((ofText t).line loc.line) loc.column n.id
  declared : (ofText t).Declares n.id →
    ∃ loc, (ofText t).locateNode n.id = some loc ∧ (ofText t).FirstDeclared n.id loc
  hidden : (ofText t).locateNode n.id = none ↔
      ¬ (ofText t).Declares n.id ∧ (ofText t).Overlooks n.id
  links : ¬ (ofText t).Overlooks n.id → ∀ found, (ofText t).styles = .ok found →
      ∀ id label (shape : Shape),
    ∃ t', Command.run t (.insertNode n.id id label shape.name) = .ok t' ∧ t' ≠ t
  fails : ¬ (ofText t).Overlooks n.id → ∀ e, (ofText t).styles = .error e →
      ∀ id label (shape : Shape),
    Command.run t (.insertNode n.id id label shape.name) = .error (.tooLong e)
  idle : (ofText t).Overlooks n.id →
      ∀ id label shape, Command.run t (.insertNode n.id id label shape) = .ok t
  header : (ofText t).Overlooks n.id →
    Line.isHeader ((ofText t).line n.line) = true ∧
      Line.isDirective ((ofText t).line n.line) = false

/-- Every node is revealed where its name stands, and linked from, unless it is overlooked. -/
theorem reached_of_mem_nodes {t : Text} (h : n ∈ (ofText t).nodes) : Reached t n where
  stands _ := place_of_locateNode (valid_of_mem_nodes h)
  declared := exists_locateNode_of_declares
  hidden := locateNode_eq_none_iff (valid_of_mem_nodes h)
  links hover _ := exists_run_insertNode (valid_of_mem_nodes h) hover
  fails hover _ := run_insertNode_of_tooLong (valid_of_mem_nodes h) hover
  idle := run_insertNode_of_overlooks (valid_of_mem_nodes h)
  header := isHeader_of_overlooks h

/-- The node is declared on a line that is taken for a header, and mentioned again in a group. -/
theorem reached_of_mem_nodes_of_group :
    let t := "flowchart TD\ngraph-->A[a b]\nsubgraph G\nB --> A\nend".toList
    (⟨"A".toList, "a b".toList, .rectangle, 1⟩ : Node) ∈ (ofText t).nodes ∧
      Reached t ⟨"A".toList, "a b".toList, .rectangle, 1⟩ := by
  intro t
  have hmem : (⟨"A".toList, "a b".toList, .rectangle, 1⟩ : Node) ∈ (ofText t).nodes := by
    decide +kernel
  exact ⟨hmem, reached_of_mem_nodes hmem⟩

/-- A node on a line that begins as a header does is reported, but neither revealed nor linked
from. -/
theorem overlooks_of_keyword :
    let t := "graph-->B".toList
    (ofText t).nodes = [⟨"B".toList, "B".toList, .rectangle, 0⟩] ∧
      (ofText t).locateNode "B".toList = none ∧
        Command.run t (.insertNode "B".toList "N".toList "n".toList Shape.rectangle.name) =
        .ok t := by
  decide +kernel

end Buffer
end Chartwright
