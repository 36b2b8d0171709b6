import Chartwright.Edit.Command
import Chartwright.Proofs.Buffer.EdgeEnds
import Chartwright.Proofs.Buffer.PutIn
import Chartwright.Proofs.Edit.DuplicateNode
import Chartwright.Proofs.Edit.InsertPlace
import Chartwright.Proofs.Edit.Restyle
import Chartwright.Proofs.Line.RowNames
/-!
Inserting a node after an anchor.

One line links the new node from the anchor and declares it, and a second one copies the style of
the anchor if it has one. Wherever the two lines go, the first shows the link and the new node with
the label that it was written with (`Buffer.Graft.edgeOn?`, `Buffer.Graft.declares`), and the second
shows the style. So the text shows what it showed before and the node, its edge and its style
(`Buffer.insertNode_isGrafted`).
-/
namespace Chartwright.Buffer

/-- The line that links a new node from an anchor. -/
def linkFrom (indent anchor id : Text) (bracket : Bracket) (label : Text) : Line :=
  indent ++ anchor ++ " --> ".toList ++ id ++ bracket.opener ++ label ++ bracket.closer

/-- A node that can be linked from an anchor: both are called by identifiers that are no keywords,
and the label suits the brackets. -/
structure Graft (anchor id label : Text) (bracket : Bracket) : Prop where
  anchor_valid : Identifier.valid anchor = true
  anchor_named : Keyword.isKeyword anchor = false
  id_valid : Identifier.valid id = true
  id_named : Keyword.isKeyword id = false
  suits : bracket.Suits label

variable {anchor id label indent : Text} {bracket : Bracket} {b : Buffer}

/-! ## The line of the link -/

namespace Graft

/-- The new node, as it is written. -/
def node (g : Graft anchor id label bracket) : Token :=
  .boxed id bracket label g.id_valid g.id_named g.suits.holds

/-- The anchor, as it is written. -/
def root (g : Graft anchor id label bracket) : Token := .bare anchor g.anchor_valid

/-- The line as a row. -/
def row (g : Graft anchor id label bracket) (h : ∀ c ∈ indent, Text.isBlank c = true) : Row :=
  .linkBehind indent h g.root (.ofEdge .plain [] List.not_mem_nil) g.node

variable (g : Graft anchor id label bracket) (h : ∀ c ∈ indent, Text.isBlank c = true)

theorem linkFrom_eq : linkFrom indent anchor id bracket label = (g.row h).written := by
  simp [linkFrom, row, root, node, Row.linkBehind, Row.written_behind, Lexeme.written, Lexeme.space,
    Token.written, Token.brackets, Token.bare, Token.boxed, Tip.written, Tip.ofEdge, Tip.labelled,
    Arrow.glyph]

/-- No label of an arrow runs over the closer, since nothing stands behind it. -/
theorem closed_node : g.node.Closed [] := by
  intro b text hlabel
  cases hlabel
  have hbar : '|' ∉ bracket.closer ++ ([] ++ []) := by cases bracket <;> decide
  exact Line.confined_of_bar_not_mem (bracket.firm_closer _) hbar

include g h

theorem not_isDirective : Line.isDirective (linkFrom indent anchor id bracket label) = false := by
  rw [g.linkFrom_eq h]
  exact Row.not_isDirective_linkBehind h g.anchor_named

theorem edgeOn? (i : Nat) :
    Buffer.edgeOn? (linkFrom indent anchor id bracket label) i =
      some ⟨anchor, id, [], .plain, i⟩ := by
  rw [g.linkFrom_eq h]
  exact Row.edgeOn?_linkBehind h rfl rfl g.closed_node g.anchor_named i

theorem declares :
    Line.declares (linkFrom indent anchor id bracket label) = [(id, label, bracket.shape)] := by
  rw [g.linkFrom_eq h, Line.declares, row,
    Row.declarations_linkBehind h rfl g.closed_node g.anchor_named]
  rfl

theorem hasArrow : Line.hasArrow (linkFrom indent anchor id bracket label) = true := by
  obtain ⟨-, column, l, hlink, -⟩ := edgeOn?_eq_some_iff.1 (g.edgeOn? h 0)
  exact (Line.places_of_link? hlink).2.2

theorem mem_identifiers {name : Text} :
    name ∈ Line.identifiers (linkFrom indent anchor id bracket label) ↔
      name = anchor ∨ name = id := by
  have hsound : Row.Sound (g.row h) := Row.sound_linkBehind h rfl g.closed_node
  have hnodes : (g.row h).nodes.map (·.id) = [anchor, id] := by
    rw [row, Row.linkBehind, Row.nodes_behind]
    rfl
  have hline := g.not_isDirective h
  rw [g.linkFrom_eq h] at hline ⊢
  have hkept : [anchor, id].filter (fun name => !Keyword.isKeyword name) = [anchor, id] := by
    simp [g.anchor_named, g.id_named]
  rw [hsound.identifiers_written hline, hnodes, hkept, mem_distinct_iff, List.mem_pair]

theorem read : StyleLine.read (linkFrom indent anchor id bracket label) = .ok none :=
  StyleLine.read_of_not_isDirective (g.not_isDirective h)

omit h

theorem lineFeed_not_mem (h : '\n' ∉ indent) : '\n' ∉ linkFrom indent anchor id bracket label := by
  have hanchor : '\n' ∉ anchor := Identifier.not_mem_of_valid g.anchor_valid (by decide)
  have hid : '\n' ∉ id := Identifier.not_mem_of_valid g.id_valid (by decide)
  have hbracket : '\n' ∉ bracket.opener ∧ '\n' ∉ bracket.closer := by cases bracket <;> decide
  simp only [linkFrom, List.mem_append, not_or]
  exact ⟨⟨⟨⟨⟨⟨h, hanchor⟩, by decide⟩, hid⟩, hbracket.1⟩, g.suits.lineFeed_not_mem⟩, hbracket.2⟩

end Graft

/-! ## The line of the style -/

variable {s : Style}

/-- A line for a style that sets nothing sets no style either. -/
theorem read_text_empty (hindent : ∀ c ∈ indent, Text.isBlank c = true)
    (hid : Identifier.valid id = true) :
    StyleLine.read (StyleLine.text indent id .empty) = .ok none := by
  have hempty : Style.empty.text = [] := rfl
  have hread : Identifier.read? (id ++ [' ']) = some (id, [' ']) :=
    Identifier.read?_append hid (Text.stops_cons.2 (by decide))
  have hpairs : StyleLine.pairs? [' '] = none := by decide
  have hstops := Identifier.stops_isBlank_append hid [' ']
  have hparts : StyleLine.parts? (StyleLine.text indent id .empty) = none := by
    rw [StyleLine.text_eq, hempty, List.append_nil]
    simp only [StyleLine.parts?, StyleLine.afterWord?_append hindent, Option.bind_eq_bind,
      Option.bind_some, Text.blanks_append Text.isBlank_of_mem_space hstops,
      Text.trimLeft_append Text.isBlank_of_mem_space hstops, hread, hpairs]
    rfl
  rw [StyleLine.read, hparts]

theorem shows_styleLine (hindent : ∀ c ∈ indent, Text.isBlank c = true) (id : Text) (s : Style) :
    Buffer.edgeOn? (StyleLine.text indent id s) 0 = none ∧
      Line.declares (StyleLine.text indent id s) = [] ∧
        Line.identifiers (StyleLine.text indent id s) = [] := by
  have hdirective := StyleLine.isDirective_text hindent id s
  refine ⟨?_, ?_, Line.identifiers_of_isDirective hdirective⟩
  · rw [Buffer.edgeOn?, if_pos hdirective]
  · rw [Line.declares, Line.declarations_of_isDirective hdirective, List.map_nil]

/-! ## What the two lines add -/

/-- What a text shows after a node has been linked from an anchor: one more edge, one more node with
its label and shape, the anchor as a node if it was none, and the style of the anchor for the new
node if that sets anything; and one more line, or two if the anchor has a style. -/
structure IsGrafted (anchor id label : Text) (shape : Shape) (b b' : Buffer) : Prop where
  edges : ∃ front back, b.edges.map Edge.unplaced = front ++ back ∧
    b'.edges.map Edge.unplaced = front ++ ⟨anchor, id, [], .plain, 0⟩ :: back
  node : b'.shownAs? id = some (label, shape)
  anchored : anchor ≠ id → b'.shownAs? anchor = some ((b.shownAs? anchor).getD (anchor, .rectangle))
  others : ∀ name, name ≠ id → name ≠ anchor → b'.shownAs? name = b.shownAs? name
  styled : b'.style? id = (b.style? anchor).map fun found => found.filter (· ≠ .empty)
  unstyled : ∀ name, name ≠ id → b'.style? name = b.style? name
  lines : (∃ link, PutIn link b b') ∨ ∃ link copy m, PutIn link b m ∧ PutIn copy m b'

variable {b' m : Buffer}

/-- A line for a style, put in for an identifier that had none, sets this style if it sets
anything. -/
theorem PutIn.style?_text {s : Style} (hput : PutIn (StyleLine.text indent id s) b b')
    (hindent : ∀ c ∈ indent, Text.isBlank c = true) (hid : Identifier.valid id = true)
    (hs : s.Writable) (hread : ∀ l ∈ b, ∃ r, StyleLine.read l = .ok r)
    (hbare : b.style? id = .ok none) :
    b'.style? id = .ok ((some s).filter (· ≠ .empty)) ∧ ∀ name, name ≠ id →
      b'.style? name = b.style? name := by
  by_cases hempty : s = .empty
  · subst hempty
    obtain ⟨-, hothers, -⟩ := hput.style? (read_text_empty hindent hid) hread
    have hkept : ∀ name, b'.style? name = b.style? name :=
      fun name => hothers name fun _ hs => nomatch hs
    exact ⟨(hkept id).trans hbare, fun name _ => hkept name⟩
  · obtain ⟨-, hothers, hself⟩ := hput.style? (StyleLine.read_text hindent hid hs hempty) hread
    rw [Option.filter_some, if_pos (by simpa using hempty)]
    refine ⟨hself _ rfl hbare, ?_⟩
    intro name hne
    apply hothers
    rintro found hfound rfl
    cases hfound
    exact hne rfl

theorem insertLinked_some {place : Nat} (h : place ≤ b.length) (link : Line) (i : Nat)
    (copy : Line) :
    ∃ j, b.insertLinked place link (some (i, copy)) =
      (b.insertAt place [link]).insertAt j [copy] := by
  rw [insertLinked]
  split
  · exact ⟨i + 1, rfl⟩
  · exact ⟨i + 1 + 1, insertAt_insertAt (by omega) h link copy⟩

theorem putIn_insertLinked {place : Nat} (h : place ≤ b.length) (link : Line)
    (copy? : Option (Nat × Line)) :
    (copy? = none ∧ PutIn link b (b.insertLinked place link copy?)) ∨
      ∃ i copy m, copy? = some (i, copy) ∧ PutIn link b m ∧
        PutIn copy m (b.insertLinked place link copy?) := by
  cases copy? with
  | none => exact .inl ⟨rfl, putIn_insertAt link b place⟩
  | some found =>
    obtain ⟨i, copy⟩ := found
    obtain ⟨j, heq⟩ := insertLinked_some h link i copy
    rw [heq]
    exact .inr ⟨i, copy, _, rfl, putIn_insertAt link b place, putIn_insertAt copy _ j⟩

section Link

variable (g : Graft anchor id label bracket) (h : ∀ c ∈ indent, Text.isBlank c = true)
  (hput : PutIn (linkFrom indent anchor id bracket label) b b')

include g h hput

theorem Graft.shownAs?_self
    (hnew : (b.flatMap Line.declares).find? (fun e => decide (e.1 = id)) = none) :
    b'.shownAs? id = some (label, bracket.shape) := by
  rw [shownAs?_eq, hput.find?_flatMap_self hnew, g.declares h, List.find?_cons_of_pos (by simp)]
  rfl

theorem Graft.shownAs?_of_ne {name : Text} (hid : name ≠ id) (hanchor : name ≠ anchor) :
    b'.shownAs? name = b.shownAs? name := by
  have hdeclares : ∀ e ∈ Line.declares (linkFrom indent anchor id bracket label),
      decide (e.1 = name) = false := by
    rw [g.declares h]
    exact List.forall_mem_singleton.2 (decide_eq_false hid.symm)
  have hrefers : ∀ e ∈ Line.refers (linkFrom indent anchor id bracket label),
      decide (e.1 = name) = false := by
    rintro ⟨other, shown⟩ he
    have hmem := (g.mem_identifiers h).1 (Line.mem_refers he).1
    apply decide_eq_false
    rintro rfl
    exact hmem.elim hanchor hid
  rw [shownAs?_eq, shownAs?_eq, hput.find?_flatMap hdeclares, hput.find?_flatMap hrefers]

/-- The anchor is a node now, if it was none before. -/
theorem Graft.shownAs?_anchor (hne : anchor ≠ id) :
    b'.shownAs? anchor = some ((b.shownAs? anchor).getD (anchor, .rectangle)) := by
  have hdeclares : ∀ e ∈ Line.declares (linkFrom indent anchor id bracket label),
      decide (e.1 = anchor) = false := by
    rw [g.declares h]
    exact List.forall_mem_singleton.2 (decide_eq_false hne.symm)
  -- whatever refers to the anchor shows it in the same way
  have hsame : ∀ {c : Buffer}, ∀ e ∈ c.flatMap Line.refers, e.1 = anchor →
      e = (anchor, anchor, .rectangle) := by
    rintro c ⟨other, shown⟩ he rfl
    obtain ⟨line, -, hline⟩ := List.mem_flatMap.1 he
    rw [(Line.mem_refers hline).2]
  have hfound : ∀ {c : Buffer}, (∃ shown, (anchor, shown) ∈ c.flatMap Line.refers) →
      (c.flatMap Line.refers).find? (fun e => decide (e.1 = anchor)) =
        some (anchor, anchor, .rectangle) := by
    rintro c ⟨shown, hmem⟩
    have heq := hsame _ hmem rfl
    exact find?_eq_some_of_unique (fun e : Text × Text × Shape => e.1) (heq ▸ hmem) hsame
  have hnew : (anchor, anchor, Shape.rectangle) ∈ b'.flatMap Line.refers := by
    apply List.mem_flatMap.2
    refine ⟨_, hput.mem_iff.2 (.inl rfl), ?_⟩
    rw [Line.refers, if_pos (g.hasArrow h)]
    exact List.mem_map.2 ⟨anchor, (g.mem_identifiers h).2 (.inl rfl), rfl⟩
  rw [shownAs?_eq, shownAs?_eq, hput.find?_flatMap hdeclares, hfound ⟨_, hnew⟩]
  cases (b.flatMap Line.declares).find? fun e => decide (e.1 = anchor) with
  | some e => rfl
  | none =>
    cases hold : (b.flatMap Line.refers).find? fun e => decide (e.1 = anchor) with
    | none => rfl
    | some e =>
      have hname : e.1 = anchor := by simpa using List.find?_some hold
      rw [hsame e (List.mem_of_find?_eq_some hold) hname]
      rfl

end Link

/-! ## The edit -/

/-- The style of the anchor is copied if it has one. -/
theorem styleCopy?_cases {found : List StyleLine} (hlines : ∀ line ∈ b, '\n' ∉ line)
    (hfound : b.styles = .ok found) (hanchor : Identifier.valid anchor = true) :
    (b.style? anchor = .ok none ∧ b.styleCopy? anchor id = .ok none) ∨
      ∃ s i indent, b.style? anchor = .ok (some s) ∧
        (∀ c ∈ indent, Text.isBlank c = true ∧ c ≠ '\n') ∧
          b.styleCopy? anchor id = .ok (some (i, StyleLine.text indent id s)) := by
  have hstyle := style?_eq (exists_read_of_styles hfound) anchor
  cases hfind : (b.filterMap styleOn?).find? fun s => decide (s.id = anchor) with
  | none =>
    rw [hfind] at hstyle
    refine .inl ⟨hstyle, ?_⟩
    rw [styleCopy?, hstyle]
    rfl
  | some read =>
    right
    rw [hfind] at hstyle
    -- a line on which the style is read is a line for the style
    obtain ⟨line, hline, hread⟩ := List.mem_filterMap.1 (List.mem_of_find?_eq_some hfind)
    have hname : read.id = anchor := by simpa using List.find?_some hfind
    have hfor := (isFor_iff_of_styleOn? hanchor hread).2 hname
    cases hfirst : b.first? (StyleLine.indentFor? anchor) with
    | none =>
      obtain ⟨i, hi⟩ := List.mem_iff_getElem?.1 hline
      have hnone :=
        List.findSome?_eq_none_iff.1 hfirst (line, i) (List.mem_zipIdx_iff_getElem?.2 hi)
      rw [StyleLine.isFor, Option.map_eq_none_iff.1 hnone] at hfor
      cases hfor
    | some place =>
      obtain ⟨i, indent⟩ := place
      obtain ⟨front, other, back, hsplit, -, -, hindent⟩ := first?_eq_some_iff.1 hfirst
      have hother : other ∈ b := by simp [hsplit]
      refine ⟨read.style, i, indent, hstyle, ?_, ?_⟩
      · intro c hc
        obtain ⟨hmem, hblank⟩ := StyleLine.mem_of_indentFor? hindent c hc
        refine ⟨hblank, ?_⟩
        rintro rfl
        exact hlines other hother hmem
      · have hbrief := (writable_of_style? hstyle).brief
        rw [styleCopy?, hstyle]
        simp only [bind, Except.bind, Option.map_some, hfirst, StyleLine.write_of_brief _ _ hbrief,
          Except.map]

/-- If the styles can be read, it is known whether one is copied, and the line for it is a line for
the new node. -/
theorem exists_styleCopy? {found : List StyleLine} (hlines : ∀ line ∈ b, '\n' ∉ line)
    (hfound : b.styles = .ok found) (hanchor : Identifier.valid anchor = true)
    (hid : Identifier.valid id = true) :
    ∃ copy?, b.styleCopy? anchor id = .ok copy? ∧
      (∀ i copy, copy? = some (i, copy) →
        ∃ indent s, (∀ c ∈ indent, Text.isBlank c = true) ∧ copy = StyleLine.text indent id s) ∧
      ∀ i copy, copy? = some (i, copy) → '\n' ∉ copy := by
  rcases styleCopy?_cases hlines hfound hanchor with ⟨-, hcopy⟩
    | ⟨s, i, indent, hstyle, hblank, hcopy⟩
  · exact ⟨none, hcopy, fun _ _ h => (nomatch h), fun _ _ h => (nomatch h)⟩
  · refine ⟨_, hcopy, ?_, ?_⟩
    · intro j copy heq
      cases heq
      exact ⟨indent, s, fun c hc => (hblank c hc).1, rfl⟩
    · intro j copy heq
      cases heq
      exact StyleLine.lineFeed_not_mem_text (fun hmem => (hblank _ hmem).2 rfl) hid
        (writable_of_style? hstyle).value

theorem blank_of_mem_indent (hlines : ∀ line ∈ b, '\n' ∉ line) (i : Nat) :
    ∀ c ∈ Line.indent (b.line i), Text.isBlank c = true ∧ c ≠ '\n' := by
  intro c hc
  refine ⟨Text.isBlank_of_mem_blanks hc, ?_⟩
  rintro rfl
  exact lineFeed_not_mem_line hlines i (List.takeWhile_subset _ hc)

theorem blank_of_mem_inside (hlines : ∀ line ∈ b, '\n' ∉ line) (i : Nat) :
    ∀ c ∈ Line.indent (b.line i) ++ indentUnit, Text.isBlank c = true ∧ c ≠ '\n' :=
  List.forall_mem_append.2 ⟨blank_of_mem_indent hlines i,
    List.forall_mem_replicate.2 (.inr ⟨by decide, by decide⟩)⟩

/-- The line of the link is indented by blanks. -/
theorem blank_of_mem_placeAfter (hlines : ∀ line ∈ b, '\n' ∉ line) (anchor : Text)
    (mentioned : List Nat) (last : Nat) :
    ∀ c ∈ (b.placeAfter anchor mentioned last).2, Text.isBlank c = true ∧ c ≠ '\n' := by
  have heither : ∀ i, ∀ c ∈ indentOrUnit (b.line i), Text.isBlank c = true ∧ c ≠ '\n' := by
    intro i
    rw [indentOrUnit]
    split
    · exact List.forall_mem_replicate.2 (.inr ⟨by decide, by decide⟩)
    · exact blank_of_mem_indent hlines i
  rw [placeAfter]
  split
  · exact heither last
  · next found _ =>
    split
    · exact heither _
    · exact blank_of_mem_inside hlines found.opening

/-- The edit, once the anchor is mentioned: all that can fail is reading the styles. -/
theorem run_insertNode_of_mentions {t : Text} {shape : Shape} {last : Nat}
    (hlast : ((ofText t).mentions anchor).getLast? = some last) :
    Command.run t (.insertNode anchor id label shape.name) =
      (((ofText t).styleCopy? anchor id).mapError .tooLong).map fun copy? =>
        ((ofText t).insertLinked ((ofText t).placeAfter anchor ((ofText t).mentions anchor) last).1
          (linkFrom ((ofText t).placeAfter anchor ((ofText t).mentions anchor) last).2 anchor id
            shape.bracket label)
          copy?).toText := by
  have hedit : (ofText t).insertNode? anchor id label = some fun shape =>
      ((ofText t).styleCopy? anchor id).map ((ofText t).insertLinked
        ((ofText t).placeAfter anchor ((ofText t).mentions anchor) last).1
        (linkFrom ((ofText t).placeAfter anchor ((ofText t).mentions anchor) last).2 anchor id
          shape.bracket label)) := by
    simp only [insertNode?, hlast]
    rfl
  simp only [Command.run, Command.onLinesNamed, hedit, Shape.ofName_name]
  cases (ofText t).styleCopy? anchor id with
  | error e => rfl
  | ok copy? => rfl

theorem run_insertNode {t : Text} {shape : Shape} {copy? : Option (Nat × Line)} {last : Nat}
    (hlast : ((ofText t).mentions anchor).getLast? = some last)
    (hcopy : (ofText t).styleCopy? anchor id = .ok copy?) :
    Command.run t (.insertNode anchor id label shape.name) =
      .ok ((ofText t).insertLinked
        ((ofText t).placeAfter anchor ((ofText t).mentions anchor) last).1
        (linkFrom ((ofText t).placeAfter anchor ((ofText t).mentions anchor) last).2 anchor id
          shape.bracket label)
        copy?).toText := by
  rw [run_insertNode_of_mentions hlast, hcopy]
  rfl

/-- The lines after the edit are those that were written. -/
theorem ofText_insertLinked {t : Text} {place : Nat} {link : Line} {copy? : Option (Nat × Line)}
    (hplace : place ≤ (ofText t).length) (hlink : '\n' ∉ link)
    (hcopy : ∀ i copy, copy? = some (i, copy) → '\n' ∉ copy) :
    ofText ((ofText t).insertLinked place link copy?).toText =
      (ofText t).insertLinked place link copy? := by
  have hlines : ∀ line ∈ ofText t, '\n' ∉ line := fun line hline => not_mem_of_mem_ofText hline
  rcases putIn_insertLinked hplace link copy? with ⟨-, hput⟩ | ⟨i, copy, m, hsome, hfirst, hsecond⟩
  · apply ofText_toText (List.ne_nil_of_mem (hput.mem_iff.2 (.inl rfl)))
    intro line hline
    rcases hput.mem_iff.1 hline with rfl | hline
    · exact hlink
    · exact hlines line hline
  · apply ofText_toText (List.ne_nil_of_mem (hsecond.mem_iff.2 (.inl rfl)))
    intro line hline
    rcases hsecond.mem_iff.1 hline with rfl | hline
    · exact hcopy i line hsome
    rcases hfirst.mem_iff.1 hline with rfl | hline
    · exact hlink
    · exact hlines line hline

theorem find?_declares_eq_none {used : List Text} (hused : b.ids = .ok used) (hnew : id ∉ used) :
    (b.flatMap Line.declares).find? (fun e => decide (e.1 = id)) = none := by
  apply List.find?_eq_none.2
  intro e he
  obtain ⟨line, hline, he⟩ := List.mem_flatMap.1 he
  obtain ⟨d, hd, rfl⟩ := List.mem_map.1 he
  have hdeclared : d.id ∈ used :=
    mem_ids_of_mem_declared hused (mem_declared.2 ⟨line, hline, d, hd, rfl⟩)
  have hne : d.id ≠ id := by
    intro heq
    exact hnew (heq ▸ hdeclared)
  simpa using hne

theorem style?_of_not_mem_ids {used : List Text} (hused : b.ids = .ok used) (hnew : id ∉ used) :
    b.style? id = .ok none := by
  obtain ⟨found, hfound, -⟩ := Except.exists_of_map_eq_ok hused
  have hnone : ((b.filterMap styleOn?).find? fun s => decide (s.id = id)) = none := by
    apply List.find?_eq_none.2
    intro s hs
    have hne : s.id ≠ id := by
      intro heq
      exact hnew (heq ▸ mem_ids_of_mem_styles hused hs)
    simpa using hne
  rw [style?_eq (exists_read_of_styles hfound), hnone]
  rfl

/-- The link shows the edge and the node, whatever is done to the styles then. -/
theorem Graft.isGrafted {shape : Shape} (g : Graft anchor id label shape.bracket)
    (h : ∀ c ∈ indent, Text.isBlank c = true)
    (hput : PutIn (linkFrom indent anchor id shape.bracket label) b m)
    (hnew : (b.flatMap Line.declares).find? (fun e => decide (e.1 = id)) = none)
    (hlinks : b'.links = m.links) (hshown : ∀ name, b'.shownAs? name = m.shownAs? name)
    (hstyled : b'.style? id = (b.style? anchor).map fun found => found.filter (· ≠ .empty))
    (hunstyled : ∀ name, name ≠ id → b'.style? name = b.style? name)
    (hlines : (∃ link, PutIn link b b') ∨ ∃ link copy m, PutIn link b m ∧ PutIn copy m b') :
    IsGrafted anchor id label shape b b' where
  edges := by
    obtain ⟨front, back, hb, hm⟩ := hput.links (g.edgeOn? h 0)
    exact ⟨front, back, by rw [map_unplaced_edges, hb], by rw [map_unplaced_edges, hlinks, hm]; rfl⟩
  node := by rw [hshown, g.shownAs?_self h hput hnew, Shape.shape_bracket]
  anchored := by
    intro hne
    rw [hshown, g.shownAs?_anchor h hput hne]
  others := by
    intro name hid hanchor
    rw [hshown, g.shownAs?_of_ne h hput hid hanchor]
  styled := hstyled
  unstyled := hunstyled
  lines := hlines

/-- Both lines put in show the new node, its edge and its style. -/
theorem Graft.isGrafted_insertLinked {shape : Shape} {used : List Text}
    {copy? : Option (Nat × Line)} (g : Graft anchor id label shape.bracket)
    (h : ∀ c ∈ indent, Text.isBlank c = true) (hlines : ∀ line ∈ b, '\n' ∉ line)
    (hused : b.ids = .ok used) (hnew : id ∉ used) (hcopy : b.styleCopy? anchor id = .ok copy?)
    {place : Nat} (hplace : place ≤ b.length) : IsGrafted anchor id label shape b
      (b.insertLinked place (linkFrom indent anchor id shape.bracket label) copy?) := by
  obtain ⟨found, hfound, -⟩ := Except.exists_of_map_eq_ok hused
  have hread := exists_read_of_styles hfound
  have hnone := find?_declares_eq_none hused hnew
  have hbare := style?_of_not_mem_ids hused hnew
  rcases putIn_insertLinked hplace (linkFrom indent anchor id shape.bracket label) copy? with
    ⟨rfl, hput⟩ | ⟨i, copy, m, rfl, hput, hcopied⟩
  · -- nothing is copied, since the anchor has no style
    have hstyle : b.style? anchor = .ok none := by
      rcases styleCopy?_cases hlines hfound g.anchor_valid with ⟨hstyle, -⟩
        | ⟨s, i, indent, -, -, hsome⟩
      · exact hstyle
      · cases hcopy.symm.trans hsome
    have hkept : ∀ name, style? (b.insertLinked place _ none) name = b.style? name := fun name =>
      (hput.style? (g.read h) hread).2.1 name fun _ hs => nomatch hs
    apply g.isGrafted h hput hnone rfl (fun _ => rfl) _ (fun name _ => hkept name) (.inl ⟨_, hput⟩)
    rw [hkept, hbare, hstyle]
    rfl
  · obtain ⟨s, indent', hstyle, hindent', rfl⟩ : ∃ s indent', b.style? anchor = .ok (some s) ∧
        (∀ c ∈ indent', Text.isBlank c = true) ∧ copy = StyleLine.text indent' id s := by
      rcases styleCopy?_cases hlines hfound g.anchor_valid with ⟨-, hnothing⟩
        | ⟨s, j, indent', hstyle, hblank, hsome⟩
      · cases hcopy.symm.trans hnothing
      · cases hcopy.symm.trans hsome
        exact ⟨s, indent', hstyle, fun c hc => (hblank c hc).1, rfl⟩
    obtain ⟨hedge, hdeclares, hnames⟩ := shows_styleLine hindent' id s
    have hrefers : Line.refers (StyleLine.text indent' id s) = [] := by
      rw [Line.refers, hnames, List.map_nil, ite_self]
    obtain ⟨hread', hfirst, -⟩ := hput.style? (g.read h) hread
    have hkept : ∀ name, m.style? name = b.style? name :=
      fun name => hfirst name fun _ hs => nomatch hs
    obtain ⟨hself, hothers⟩ :=
      hcopied.style?_text hindent' g.id_valid (writable_of_style? hstyle) hread'
      ((hkept id).trans hbare)
    apply g.isGrafted h hput hnone (hcopied.filterMap_eq hedge)
      (hcopied.shownAs?_eq hdeclares hrefers) _ _ (.inr ⟨_, _, m, hput, hcopied⟩)
    · rw [hself, hstyle]
      rfl
    · intro name hne
      rw [hothers name hne, hkept]

/-- The text after the edit shows what it showed before, and the new node with its edge and its
style. -/
theorem insertNode_isGrafted {t anchor id label : Text} {shape : Shape} {used : List Text}
    (g : Graft anchor id label shape.bracket) (hmention : (ofText t).mentions anchor ≠ [])
    (hused : (ofText t).ids = .ok used) (hnew : id ∉ used) :
    ∃ t', Command.run t (.insertNode anchor id label shape.name) = .ok t' ∧
      IsGrafted anchor id label shape (ofText t) (ofText t') := by
  have hlines : ∀ line ∈ ofText t, '\n' ∉ line := fun line hline => not_mem_of_mem_ofText hline
  obtain ⟨found, hfound, -⟩ := Except.exists_of_map_eq_ok hused
  obtain ⟨last, hlast⟩ := Option.ne_none_iff_exists'.1 (mt List.getLast?_eq_none_iff.1 hmention)
  obtain ⟨copy?, hcopy, -, hcopyLine⟩ := exists_styleCopy? hlines hfound g.anchor_valid g.id_valid
  have hblank := blank_of_mem_placeAfter hlines anchor ((ofText t).mentions anchor) last
  have hplace := placeAfter_le_length hlast
  refine ⟨_, run_insertNode hlast hcopy, ?_⟩
  rw [ofText_insertLinked hplace (g.lineFeed_not_mem fun hmem => (hblank _ hmem).2 rfl) hcopyLine]
  exact g.isGrafted_insertLinked (fun c hc => (hblank c hc).1) hlines hused hnew hcopy hplace

/-- The anchor stands in a group and has a style of which one part names no property; a later label
reads as its name. -/
theorem insertNode_isGrafted_of_styled :
    let t := "flowchart TD\nsubgraph G\nA[a] --> B\nend\nstyle A fill:red,x\nC[A]".toList
    Graft "A".toList "N".toList "b (c".toList Shape.stadium.bracket ∧
      (ofText t).mentions "A".toList ≠ [] ∧
      (ofText t).ids = .ok ["A".toList, "C".toList, "B".toList, "G".toList] ∧
      "N".toList ∉ ["A".toList, "C".toList, "B".toList, "G".toList] ∧
      ∃ t', Command.run t (.insertNode "A".toList "N".toList "b (c".toList Shape.stadium.name) =
        .ok t' ∧ IsGrafted "A".toList "N".toList "b (c".toList .stadium (ofText t) (ofText t') := by
  intro t
  have hgraft : Graft "A".toList "N".toList "b (c".toList Shape.stadium.bracket :=
    ⟨by decide, by decide, by decide, by decide, by decide, by decide, by decide⟩
  have hmention : (ofText t).mentions "A".toList ≠ [] := by decide +kernel
  have hids : (ofText t).ids = .ok ["A".toList, "C".toList, "B".toList, "G".toList] := by rfl
  exact ⟨hgraft, hmention, hids, by decide, insertNode_isGrafted hgraft hmention hids (by decide)⟩

end Chartwright.Buffer
