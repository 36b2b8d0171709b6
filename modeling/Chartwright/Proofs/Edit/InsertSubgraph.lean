import Chartwright.Edit.Command
import Chartwright.Proofs.Buffer.Appended
import Chartwright.Proofs.Edit.DissolveSubgraph
import Chartwright.Proofs.Line.LoneNode
import Chartwright.Proofs.Line.OpeningText
/-!
A new subgraph with its members.

Each member has a line of its own, with its first declaration or its bare name, so the line holds
the member alone (`Buffer.holdsAlone_memberLine`) and shows no node that was not declared before
(`Buffer.exists_of_memberLine`). The scan for subgraphs pushes a frame on the opening line, adds one
member on each line behind it, and closes the frame again, whatever else is open
(`Subgraph.Nesting.foldl_step_block`). So the subgraph comes last and all else is as before; without
members it can be deleted again, and nothing is left of it (`Buffer.insertSubgraph_isGrouped`).
-/
namespace Chartwright

namespace Subgraph.Nesting

variable {first last : Line} {line : Text → Line} {members : List Text} {o : Opening} {rest : Text}

theorem foldl_step_members (hline : ∀ m ∈ members, Line.HoldsAlone m (line m)) (f : Frame)
    (fs : List Frame) (closed : List Subgraph) (i : Nat) :
    ((members.map line).zipIdx i).foldl step ⟨f :: fs, closed⟩ =
      ⟨{ f with members := f.members ++ members } :: fs, closed⟩ := by
  induction members generalizing f i with
  | nil => simp
  | cons m ms ih =>
    obtain ⟨hfirst, hrest⟩ := List.forall_mem_cons.1 hline
    have hstep : step ⟨f :: fs, closed⟩ (line m, i) =
        ⟨{ f with members := f.members ++ [m] } :: fs, closed⟩ := by
      rw [step, hfirst.opens, hfirst.closes, hfirst.identifiers, if_neg Bool.false_ne_true,
        if_neg Bool.false_ne_true]
    rw [List.map_cons, List.zipIdx_cons, List.foldl_cons, hstep, ih hrest]
    simp

/-- An opening line, lines with one member each and a closing line make a subgraph, and leave open
what was open. -/
theorem foldl_step_block (hfirst : Opening.read? first = some (o, rest))
    (hline : ∀ m ∈ members, Line.HoldsAlone m (line m)) (hlast : Line.closesSubgraph last = true)
    (s : Nesting) (i : Nat) :
    (([first] ++ members.map line ++ [last]).zipIdx i).foldl step s =
      ⟨s.frames, ⟨o.id, o.caption, distinct members, i, i + members.length + 1⟩ :: s.closed⟩ := by
  have hopen : s.step (first, i) = ⟨⟨some (o.id, o.caption), i, []⟩ :: s.frames, s.closed⟩ := by
    rw [step, Line.opensSubgraph_of_opening hfirst, if_pos rfl, Frame.ofLine, hfirst]
    rfl
  rw [List.zipIdx_append, List.zipIdx_append, List.foldl_append, List.foldl_append,
    List.zipIdx_singleton, List.foldl_cons, List.foldl_nil, hopen, foldl_step_members hline,
    List.nil_append, List.zipIdx_singleton, List.foldl_cons, List.foldl_nil, step,
    Line.not_opensSubgraph_of_closesSubgraph hlast, hlast, if_neg Bool.false_ne_true, if_pos rfl]
  simp [Frame.close?, Nat.add_assoc]

end Subgraph.Nesting

theorem blank_of_mem_twoUnits : ∀ c ∈ indentUnit ++ indentUnit, Text.isBlank c = true :=
  List.all_eq_true.1 (by decide)

namespace Buffer

variable {b b' : Buffer} {id title node : Text} {members : List Text}

/-! ## The lines of the members -/

theorem memberText_cases (b : Buffer) (node : Text) : b.memberText node = node ∨
    ∃ e : Token, e.written = b.memberText node ∧ e.id = node ∧ e.Closed [] ∧
      ∃ known ∈ b.declaredNodes, known.id = node := by
  rw [memberText]
  split
  · next i d hfirst =>
    obtain ⟨front, line, back, rfl, -, -, hfind⟩ := first?_eq_some_iff.1 hfirst
    have hd := List.mem_of_find?_eq_some hfind
    have hid : d.id = node := by simpa using List.find?_some hfind
    have hline : (front ++ line :: back)[front.length]? = some line := by simp
    obtain ⟨e, hwritten, heid, -, hclosed, -⟩ := Token.exists_of_mem_declarations hd
    exact .inr ⟨e, hwritten, heid.trans hid, hclosed, _,
      mem_declaredNodes.2 ⟨_, line, hline, d, hd, rfl⟩, hid⟩
  · exact .inl rfl

/-- The line of a member. -/
def memberLine (b : Buffer) (node : Text) : Line := indentUnit ++ indentUnit ++ b.memberText node

theorem view_memberLine {e : Token} (h : e.written = b.memberText node) :
    Line.view (b.memberLine node) = Line.view (Row.ofNode e).written := by
  rw [memberLine, ← h, Row.written_ofNode, List.append_assoc,
    Line.view_blanks_append Row.blank_of_mem_indentUnit]

section Member

variable (hnode : Identifier.valid node = true) (hname : Keyword.isKeyword node = false)

include hnode hname

theorem holdsAlone_memberLine (b : Buffer) : Line.HoldsAlone node (b.memberLine node) := by
  rcases b.memberText_cases node with hbare | ⟨e, hwritten, rfl, hclosed, -⟩
  · rw [memberLine, hbare]
    exact Line.holdsAlone_of_trim_eq hnode hname (Line.trim_bare blank_of_mem_twoUnits hnode)
  · exact (Line.holdsAlone_ofNode hclosed hname).of_view (view_memberLine hwritten)

/-- What a line of a member declares and refers to was declared before. -/
theorem exists_of_memberLine (b : Buffer) :
    ∀ e ∈ Line.declares (b.memberLine node) ++ Line.refers (b.memberLine node),
      ∃ known ∈ b.declaredNodes, known.id = e.1 := by
  rcases b.memberText_cases node with hbare | ⟨e, hwritten, rfl, hclosed, hknown⟩
  · have htrim : Text.trim (b.memberLine node) = node := by
      rw [memberLine, hbare]
      exact Line.trim_bare blank_of_mem_twoUnits hnode
    rw [Line.declares_of_trim_eq hnode hname htrim, Line.refers_of_trim_eq hnode htrim]
    exact List.forall_mem_nil _
  · have hline := holdsAlone_memberLine hnode hname b
    have hdeclared : (Line.declarations (b.memberLine e.id)).map Declaration.content =
        e.declared.map Declaration.content := by
      calc (Line.declarations (b.memberLine e.id)).map Declaration.content
          = (Line.declarations (Row.ofNode e).written).map Declaration.content :=
            congrArg Line.View.declared (view_memberLine hwritten)
        _ = e.declared.map Declaration.content := by
          rw [Row.declarations_ofNode hclosed hname, List.map_map]
          rfl
    intro entry hentry
    suffices hid : entry.1 = e.id by rwa [hid]
    rcases List.mem_append.1 hentry with hentry | hentry
    · rw [Line.declares_eq_map, hdeclared, Token.declared] at hentry
      split at hentry
      · cases hentry
      · rw [List.mem_singleton.1 hentry]
        rfl
    · exact hline.eq_of_mem_refers hentry

end Member

/-! ## The edit -/

/-- The opening line of a new subgraph. -/
def openingLine (id title : Text) : Line :=
  indentUnit ++ "subgraph ".toList ++ id ++ (if title.isEmpty then [] else ['['] ++ title ++ [']'])

theorem subgraphLines_eq (b : Buffer) (id title : Text) (members : List Text) :
    b.subgraphLines id title members =
    [openingLine id title] ++ members.map b.memberLine ++ [indentUnit ++ "end".toList] := rfl

theorem read?_openingLine (hid : Identifier.valid id = true) (htitle : ']' ∉ title) :
    ∃ o rest, Opening.read? (openingLine id title) = some (o, rest) ∧ o.id = id ∧
      o.caption = if title = [] then id else title := by
  have hsound : Opening.Sound ⟨indentUnit, [' '], id, none⟩ :=
    ⟨Row.blank_of_mem_indentUnit, Text.isBlank_of_mem_space, List.cons_ne_nil _ _, hid⟩
  have hhead : indentUnit ++ "subgraph ".toList ++ id =
      Opening.head ⟨indentUnit, [' '], id, none⟩ := by
    simp [Opening.head]
  rw [openingLine, hhead]
  cases title with
  | nil => exact ⟨_, _, Opening.read?_head hsound (Text.stops_nil _), rfl, rfl⟩
  | cons c cs =>
    have hgap : ∀ d ∈ ([] : Text), Text.isBlank d = true := List.forall_mem_nil _
    have hafter : (if (c :: cs).isEmpty then [] else ['['] ++ (c :: cs) ++ [']']) =
        (⟨[], c :: cs⟩ : TitlePart).written ++ [] := by
      simp [TitlePart.written]
    rw [hafter]
    exact ⟨_, _, Opening.read?_titled hsound hgap htitle [], rfl, rfl⟩

theorem closesSubgraph_end : Line.closesSubgraph (indentUnit ++ "end".toList) = true := by decide

theorem subgraphLines_cases (hid : Identifier.valid id = true) (htitle : ']' ∉ title) {line : Line}
    (hline : line ∈ b.subgraphLines id title members) :
    (Line.isDirective line = true ∧ StyleLine.read line = .ok none) ∨
      ∃ m ∈ members, line = b.memberLine m := by
  rw [subgraphLines_eq, List.mem_append, List.mem_append, List.mem_singleton,
    List.mem_singleton] at hline
  rcases hline with (rfl | hline) | rfl
  · obtain ⟨o, rest, hread, -⟩ := read?_openingLine hid htitle
    exact .inl ⟨Line.isDirective_of_opening hread,
      StyleLine.read_of_opensSubgraph (Line.opensSubgraph_of_opening hread)⟩
  · obtain ⟨m, hm, rfl⟩ := List.mem_map.1 hline
    exact .inr ⟨m, hm, rfl⟩
  · exact .inl ⟨Line.isDirective_of_closesSubgraph closesSubgraph_end,
      StyleLine.read_of_closesSubgraph closesSubgraph_end⟩

/-- What a buffer is after a subgraph has been added behind its last line that is not blank: the
subgraph comes last and has the nodes as its members, and everything else is as before. -/
structure IsGrouped (id title : Text) (members : List Text) (b b' : Buffer) : Prop where
  subgraphs : b'.subgraphs = b.subgraphs ++
    [⟨id, if title = [] then id else title, distinct members, b.appendIndex,
      b.appendIndex + members.length + 1⟩]
  nodes : b'.nodes = b.nodes
  edges : b'.edges = b.edges
  styles : b'.styles = b.styles

section Members

variable (hid : Identifier.valid id = true) (htitle : ']' ∉ title)
  (hmembers : ∀ m ∈ members, Identifier.valid m = true ∧ Keyword.isKeyword m = false)

include hid htitle hmembers

theorem isGrouped_insertSubgraph (b : Buffer) :
    IsGrouped id title members b (b.insertSubgraph id title members) := by
  have halone : ∀ m ∈ members, Line.HoldsAlone m (b.memberLine m) := fun m hm =>
    holdsAlone_memberLine (hmembers m hm).1 (hmembers m hm).2 b
  rw [insertSubgraph]
  constructor
  case subgraphs =>
    obtain ⟨o, rest, hread, rfl, hcaption⟩ := read?_openingLine hid htitle
    show (nesting _).closed.reverse = (nesting b).closed.reverse ++ _
    rw [nesting_append_lines, subgraphLines_eq,
      Subgraph.Nesting.foldl_step_block hread halone closesSubgraph_end, List.reverse_cons,
      hcaption]
  case nodes =>
    refine nodes_append fun line hline => ?_
    rcases subgraphLines_cases hid htitle hline with ⟨hdirective, -⟩ | ⟨m, hm, rfl⟩
    · obtain ⟨hdeclares, hrefers, -⟩ := Line.shows_nothing_of_isDirective hdirective
      rw [hdeclares, hrefers]
      exact List.forall_mem_nil _
    · exact exists_of_memberLine (hmembers m hm).1 (hmembers m hm).2 b
  case edges =>
    refine edges_append fun line hline => ?_
    rcases subgraphLines_cases hid htitle hline with ⟨hdirective, -⟩ | ⟨m, hm, rfl⟩
    · exact (Line.shows_nothing_of_isDirective hdirective).2.2
    · exact (halone m hm).edge
  case styles =>
    refine styles_append fun line hline => ?_
    rcases subgraphLines_cases hid htitle hline with ⟨-, hstyle⟩ | ⟨m, hm, rfl⟩
    · exact hstyle
    · exact (halone m hm).style

end Members

theorem lineFeed_not_mem_memberLine (h : ∀ line ∈ b, '\n' ∉ line) (hnode : '\n' ∉ node) :
    '\n' ∉ b.memberLine node := by
  have htext : '\n' ∉ b.memberText node := by
    rw [memberText]
    split
    · next i d hfirst =>
      obtain ⟨front, line, back, rfl, -, -, hfind⟩ := first?_eq_some_iff.1 hfirst
      obtain ⟨before, behind, hline, -⟩ :=
        Line.exists_of_mem_declarations (List.mem_of_find?_eq_some hfind)
      have hfree := h line (List.mem_append_right _ List.mem_cons_self)
      rw [hline] at hfree
      exact fun hmem => hfree (List.mem_append_right _ (List.mem_append_left _ hmem))
    · exact hnode
  rw [memberLine, List.mem_append, not_or]
  exact ⟨by decide, htext⟩

theorem lineFeed_not_mem_insertSubgraph (h : ∀ line ∈ b, '\n' ∉ line)
    (hid : Identifier.valid id = true) (htitle : '\n' ∉ title)
    (hmembers : ∀ m ∈ members, Identifier.valid m = true) :
    ∀ line ∈ b.insertSubgraph id title members, '\n' ∉ line := by
  intro line hline
  rcases mem_insertAt.1 hline with hline | hline
  · exact h line hline
  · rw [subgraphLines_eq, List.mem_append, List.mem_append, List.mem_singleton,
      List.mem_singleton] at hline
    have hidFree : '\n' ∉ id := Identifier.not_mem_of_valid hid (by decide)
    rcases hline with (rfl | hline) | rfl
    · have hindent : '\n' ∉ indentUnit ++ "subgraph ".toList := by decide
      rw [openingLine]
      split <;> simp_all
    · obtain ⟨m, hm, rfl⟩ := List.mem_map.1 hline
      exact lineFeed_not_mem_memberLine h (Identifier.not_mem_of_valid (hmembers m hm) (by decide))
    · decide

/-- A subgraph without members that is the only one of its identifier is deleted with both its
lines. -/
theorem deleteSubgraph_insertSubgraph
    (hgrouped : IsGrouped id title [] b (b.insertSubgraph id title []))
    (hnone : ∀ g ∈ b.subgraphs, g.id ≠ id) :
    (b.insertSubgraph id title []).deleteSubgraph id = b := by
  have hfound : subgraph? (b.insertSubgraph id title []) id =
      some ⟨id, if title = [] then id else title, distinct [], b.appendIndex,
        b.appendIndex + 1⟩ := by
    rw [subgraph?_eq_some_iff, hgrouped.subgraphs]
    refine ⟨List.mem_append_right _ (List.mem_singleton_self _), rfl, fun h hh hid => ?_⟩
    rcases List.mem_append.1 hh with hh | hh
    · exact absurd hid (hnone h hh)
    · rw [List.mem_singleton.1 hh]
  have hkept : ∀ (entry : Line × Nat),
      (if b.appendIndex < entry.2 && entry.2 < b.appendIndex + 1 then dedent entry.1 else entry.1) =
        entry.1 := by
    intro entry
    refine if_neg ?_
    rw [Bool.and_eq_true, decide_eq_true_eq, decide_eq_true_eq]
    omega
  calc (b.insertSubgraph id title []).deleteSubgraph id
      = (b.insertSubgraph id title []).without [b.appendIndex, b.appendIndex + 1] := by
        rw [deleteSubgraph_eq hfound]
        exact List.map_congr_left fun entry _ => hkept entry
    _ = b := without_append b (b.subgraphLines id title [])

/-- A new subgraph comes last, with the given title, or its identifier if there is none, and with
the nodes as its members. Subgraphs, nodes, edges and styles of before are found as they were, on
the same lines. Without members the text is given back when the subgraph is deleted, if no other one
is called like it. -/
theorem insertSubgraph_isGrouped (t : Text) (hid : Identifier.valid id = true)
    (htitle : ']' ∉ title) (hline : '\n' ∉ title)
    (hmembers : ∀ m ∈ members, Identifier.valid m = true ∧ Keyword.isKeyword m = false) :
    ∃ t', Command.run t (.insertSubgraph id title members) = .ok t' ∧
      IsGrouped id title members (ofText t) (ofText t') ∧
      (members = [] → (∀ g ∈ (ofText t).subgraphs, g.id ≠ id) →
        Command.run t' (.deleteSubgraph id) = .ok t) := by
  have hgrouped := isGrouped_insertSubgraph hid htitle hmembers (ofText t)
  have hlines := lineFeed_not_mem_insertSubgraph (b := ofText t)
    (fun line hline => not_mem_of_mem_ofText hline) hid hline fun m hm => (hmembers m hm).1
  have hlast : indentUnit ++ "end".toList ∈ (ofText t).insertSubgraph id title members := by
    rw [insertSubgraph, append, mem_insertAt, subgraphLines_eq]
    exact .inr (List.mem_append_right _ (List.mem_singleton_self _))
  have hread := ofText_toText (List.ne_nil_of_mem hlast) hlines
  refine ⟨_, rfl, ?_, ?_⟩
  · rw [Command.onLines, hread]
    exact hgrouped
  · rintro rfl hnone
    rw [Command.run, Command.onLines, Command.onLines, hread,
      deleteSubgraph_insertSubgraph hgrouped hnone, toText_ofText]

/-- Two members are declared, one of them behind an arrow with a label that looks like a link; the
subgraph is put in before blank lines, while another one is open. And a subgraph without members,
beside another one, is deleted again. -/
theorem insertSubgraph_isGrouped_of_open :
    let t := "subgraph U\nA[\"x --> y | & z\"] -->|l| B(b)\n  \n".toList
    let members := ["B".toList, "C".toList, "A".toList, "B".toList]
    Identifier.valid "G".toList = true ∧ ']' ∉ "g & [h".toList ∧ '\n' ∉ "g & [h".toList ∧
      (∀ m ∈ members, Identifier.valid m = true ∧ Keyword.isKeyword m = false) ∧
      (∃ t', Command.run t (.insertSubgraph "G".toList "g & [h".toList members) = .ok t' ∧
        IsGrouped "G".toList "g & [h".toList members (ofText t) (ofText t') ∧
        (members = [] → (∀ g ∈ (ofText t).subgraphs, g.id ≠ "G".toList) →
          Command.run t' (.deleteSubgraph "G".toList) = .ok t)) ∧
      ∃ empty, Command.run "subgraph U\nA[a] --> B\nend\n".toList
        (.insertSubgraph "G".toList "g".toList []) = .ok empty ∧
          Command.run empty (.deleteSubgraph "G".toList) =
          .ok "subgraph U\nA[a] --> B\nend\n".toList := by
  intro t members
  have hmembers : ∀ m ∈ members, Identifier.valid m = true ∧ Keyword.isKeyword m = false := by
    decide
  have hid : Identifier.valid "G".toList = true := by decide
  have htitle : ']' ∉ "g".toList := by decide
  have hline : '\n' ∉ "g".toList := by decide
  have hnone : ∀ m ∈ ([] : List Text), Identifier.valid m = true ∧ Keyword.isKeyword m = false := by
    simp
  obtain ⟨empty, hempty, -, hdeleted⟩ :=
    insertSubgraph_isGrouped "subgraph U\nA[a] --> B\nend\n".toList hid htitle hline hnone
  refine ⟨hid, by decide, by decide, hmembers, ?_, empty, hempty, hdeleted rfl (by decide +kernel)⟩
  exact insertSubgraph_isGrouped t hid (by decide) (by decide) hmembers

end Buffer
end Chartwright
