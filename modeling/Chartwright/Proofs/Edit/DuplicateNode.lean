import Chartwright.Edit.Command
import Chartwright.Proofs.Buffer.LongInteger
import Chartwright.Proofs.Buffer.Shown
import Chartwright.Proofs.Buffer.Lines
import Chartwright.Proofs.Line.LinkRow
/-!
Duplicating a node.

The copy of a node comes with lines of its own: one for each edge into or out of the node, on the
first of which the copy is declared, and one for its style. Each of these lines shows what it was
written for and nothing else (`Buffer.Adds`), whatever the labels on it hold, and since edges and
declarations are found line by line, the buffer shows what it showed before and the copies
(`Buffer.duplicateNode?_eq`). Only identifiers that cannot be listed stand in the way.
-/
namespace Chartwright

namespace NextId

/-- What is offered is an identifier and no keyword: it is a letter, or holds a digit. -/
theorem valid_of_next? {used : List Text} {id : Text} (h : next? used = some id) :
    Identifier.valid id = true ∧ Keyword.isKeyword id = false := by
  have hletters : (letters.all fun c => Identifier.isStart c && !Keyword.isKeyword [c]) = true := by
    decide
  have hletter : ∀ c ∈ letters, Identifier.isStart c = true ∧ Keyword.isKeyword [c] = false := by
    intro c hc
    simpa using List.all_eq_true.1 hletters c hc
  unfold next? at h
  split at h
  · next letter found =>
    cases h
    obtain ⟨hstart, hname⟩ := hletter letter (List.mem_of_find?_eq_some found)
    exact ⟨Identifier.valid_cons.2 ⟨hstart, by simp⟩, hname⟩
  · obtain ⟨letter, hmem, hid⟩ := List.mem_flatMap.1 (List.mem_of_find?_eq_some h)
    obtain ⟨n, -, rfl⟩ := List.mem_map.1 hid
    have hdigits : ∀ c ∈ Nat.toDigits 10 (n + 1), c.isDigit = true := fun c hc =>
      Nat.isDigit_of_mem_toDigits (by decide) (by decide) hc
    refine ⟨Identifier.valid_cons.2 ⟨(hletter letter hmem).1, fun c hc => ?_⟩, ?_⟩
    · simp [Identifier.isChar, Char.isAlphanum, hdigits c hc]
    · obtain ⟨c, cs, hc⟩ := List.exists_cons_of_ne_nil (Nat.toDigits_ne_nil (b := 10) (n := n + 1))
      have hdigit := hdigits c (hc ▸ List.mem_cons_self)
      -- no keyword holds a digit, and a digit is its own lower case
      have hkeywords : (Keyword.all.all fun k => k.all fun c => !c.isDigit) = true := by decide
      rw [Bool.eq_false_iff]
      intro hkeyword
      have hin : (letter :: Nat.toDigits 10 (n + 1)).map Keyword.lower ∈ Keyword.all := by
        simpa [Keyword.isKeyword] using hkeyword
      have hlower : Keyword.lower c ∈ (letter :: Nat.toDigits 10 (n + 1)).map Keyword.lower :=
        List.mem_map_of_mem (List.mem_cons_of_mem _ (hc ▸ List.mem_cons_self))
      have hnot := List.all_eq_true.1 (List.all_eq_true.1 hkeywords _ hin) _ hlower
      have hcode : 48 ≤ c.toNat ∧ c.toNat ≤ 57 := by
        simp only [Char.isDigit, Bool.and_eq_true, decide_eq_true_eq] at hdigit
        exact hdigit
      have hself : Keyword.lower c = c := by
        rw [Keyword.lower, if_neg (by omega)]
        refine dif_neg fun hupper => ?_
        have : 65 ≤ c.toNat := hupper.1
        omega
      rw [hself, hdigit] at hnot
      cases hnot

end NextId

/-- The arrow of an edge with its label, as it is written. -/
def Tip.ofEdge (arrow : Arrow) (label : Text) (h : '|' ∉ label) : Tip where
  spelling := arrow.glyph
  label := if label.isEmpty then none else some ⟨[], label⟩
  spelled := Arrow.spelling_of_read? (Arrow.read?_glyph arrow)
  label_read := by
    intro l hl
    split at hl
    · cases hl
    · cases hl
      exact ⟨by simp, h⟩

theorem Tip.labelled_ofEdge (arrow : Arrow) (label : Text) (h : '|' ∉ label) :
    (Tip.ofEdge arrow label h).labelled (fun t => t) = Buffer.writeLabel label := by
  simp only [Buffer.writeLabel, Tip.labelled, Tip.ofEdge]
  by_cases hnil : label.isEmpty = true <;> simp [hnil]

theorem Tip.text_ofEdge (arrow : Arrow) (label : Text) (h : '|' ∉ label) :
    ((Tip.ofEdge arrow label h).label.map (·.text)).getD [] = label := by
  rw [Tip.ofEdge]
  by_cases hnil : label.isEmpty = true
  · simp [List.isEmpty_iff.1 hnil]
  · simp [hnil]

namespace Buffer

/-! ## Written lines -/

/-- What lines show that set no style. -/
structure Adds (lines : List Line) (es : List Edge) (entries : List (Text × Bracket × Text)) :
    Prop where
  links : Buffer.links lines = es
  declared : Buffer.declared lines = entries
  unstyled : ∀ line ∈ lines, StyleLine.read line = .ok none
  oneLine : ∀ line ∈ lines, '\n' ∉ line

section Adds

variable {lines others : List Line} {es fs : List Edge}
  {entries more : List (Text × Bracket × Text)}

theorem adds_nil : Adds [] [] [] := ⟨rfl, rfl, by simp, by simp⟩

theorem Adds.append (h : Adds lines es entries) (h' : Adds others fs more) :
    Adds (lines ++ others) (es ++ fs) (entries ++ more) where
  links := by rw [links_append, h.links, h'.links]
  declared := by rw [declared_append, h.declared, h'.declared]
  unstyled := List.forall_mem_append.2 ⟨h.unstyled, h'.unstyled⟩
  oneLine := List.forall_mem_append.2 ⟨h.oneLine, h'.oneLine⟩

theorem Adds.cons {line : Line} (h : Adds [line] es entries) (h' : Adds lines fs more) :
    Adds (line :: lines) (es ++ fs) (entries ++ more) := h.append h'

end Adds

variable {e : Edge} {target : Token}

theorem linkLine_eq (he : e.Readable) (target : Token) :
    linkLine e.source e.arrow e.label target.written =
    (Row.ofLink (.bare e.source he.source_valid)
      (.ofEdge e.arrow e.label he.bar_not_mem) target).written := by
  rw [linkLine, ← Tip.labelled_ofEdge e.arrow e.label he.bar_not_mem]
  simp [Row.ofLink, Row.written_indented, Lexeme.written, Lexeme.space, Tip.written, Tip.ofEdge,
    Token.bare, Token.written, Token.brackets]

/-- A line that is written for an edge shows this edge, and declares the target if it is written
with a label. -/
theorem adds_linkLine (he : e.Readable) (hid : target.id = e.target) (hclosed : target.Closed [])
    (hline : '\n' ∉ target.written) :
    Adds [linkLine e.source e.arrow e.label target.written] [e.unplaced]
      (target.declared.map Declaration.content) where
  links := by
    let source : Token := .bare e.source he.source_valid
    have hedge : edgeOn? (Row.ofLink source (.ofEdge e.arrow e.label he.bar_not_mem) target).written
        0 = _ :=
      Row.edgeOn?_ofLink rfl rfl hclosed he.source_named 0
    rw [links, List.filterMap_cons, linkLine_eq he, hedge, Tip.text_ofEdge, hid]
    simp [source, Tip.ofEdge, Arrow.ofSpelling_glyph, Token.bare, Edge.unplaced]
  declared := by
    rw [declared, List.flatMap_cons, List.flatMap_nil, List.append_nil, linkLine_eq he,
      Row.declarations_ofLink rfl hclosed he.source_named, List.map_map]
    rfl
  unstyled := by
    rw [List.forall_mem_singleton, linkLine_eq he]
    exact StyleLine.read_of_not_isDirective (Row.not_isDirective_ofLink he.source_named)
  oneLine := by
    have hglyph : '\n' ∉ e.arrow.glyph := by cases e.arrow <;> decide
    have hlabel : '\n' ∉ writeLabel e.label := by
      unfold writeLabel
      split
      · exact List.not_mem_nil
      · simp [he.lineFeed_not_mem]
    have hsource : '\n' ∉ e.source := Identifier.not_mem_of_valid he.source_valid (by decide)
    rw [List.forall_mem_singleton]
    simp only [linkLine, List.mem_append, not_or]
    exact ⟨⟨⟨⟨⟨⟨by decide, hsource⟩, by decide⟩, hglyph⟩, hlabel⟩, by decide⟩, hline⟩

theorem adds_declaration {b : Bracket} {label : Text} (hlabel : target.label = some (b, label))
    (hclosed : target.Closed []) (hline : '\n' ∉ target.written) :
    Adds [indentUnit ++ target.written] [] (target.declared.map Declaration.content) := by
  have hname := (target.label_held b label hlabel).2
  rw [← Row.written_ofNode]
  refine ⟨?_, ?_, ?_, ?_⟩
  · simp [links, Row.edgeOn?_ofNode hclosed hname]
  · rw [declared, List.flatMap_cons, List.flatMap_nil, List.append_nil,
      Row.declarations_ofNode hclosed hname, List.map_map]
    rfl
  · exact List.forall_mem_singleton.2
      (StyleLine.read_of_not_isDirective (Row.not_isDirective_ofNode hname))
  · rw [Row.written_ofNode, List.forall_mem_singleton, List.mem_append, not_or]
    exact ⟨by decide, hline⟩

/-! ## Copies -/

/-- The copies of the edges into a node. -/
def edgesInto (id copy : Text) (es : List Edge) : List Edge :=
  (es.filter (·.target = id)).map fun e => { e with target := copy }

/-- The copies of the edges out of a node. -/
def edgesOutOf (id copy : Text) (es : List Edge) : List Edge :=
  (es.filter (·.source = id)).map fun e => { e with source := copy }

section Copies

variable {es : List Edge} {id copy : Text}

/-- Lines that link to a bare node. -/
theorem adds_links (hes : ∀ e ∈ es, e.Readable) :
    Adds (es.map fun e => linkLine e.source e.arrow e.label e.target) (es.map Edge.unplaced)
      [] := by
  induction es with
  | nil => exact adds_nil
  | cons e rest ih =>
    have he := hes e List.mem_cons_self
    have hline : '\n' ∉ (Token.bare e.target he.target_valid).written := by
      simpa [Token.written, Token.brackets, Token.bare]
          using Identifier.not_mem_of_valid he.target_valid (by decide)
    have hclosed : (Token.bare e.target he.target_valid).Closed [] := by
      intro b text h
      cases h
    have hfirst := adds_linkLine he rfl hclosed hline
    have hwritten : (Token.bare e.target he.target_valid).written = e.target := by
      simp [Token.written, Token.brackets, Token.bare]
    rw [hwritten] at hfirst
    exact hfirst.cons (ih fun f hf => hes f (List.mem_cons_of_mem e hf))

theorem adds_copiesOut (hes : ∀ e ∈ es, e.Readable) (hcopy : Identifier.valid copy = true)
    (hname : Keyword.isKeyword copy = false) :
    Adds (copiesOut es id copy) ((edgesOutOf id copy es).map Edge.unplaced) [] := by
  have hreadable : ∀ e ∈ edgesOutOf id copy es, e.Readable := by
    intro e he
    obtain ⟨f, hf, rfl⟩ := List.mem_map.1 he
    obtain ⟨-, htarget, -, hbar, hline⟩ := hes f (List.mem_filter.1 hf).1
    exact ⟨hcopy, htarget, hname, hbar, hline⟩
  have hlinks := adds_links hreadable
  rwa [edgesOutOf, List.map_map] at hlinks

theorem adds_copiesIn (hes : ∀ e ∈ es, e.Readable) {b : Bracket} {label : Text}
    (hlabel : target.label = some (b, label)) (hclosed : target.Closed [])
    (hline : '\n' ∉ target.written) :
    Adds (copiesIn es id target.id target.written) ((edgesInto id target.id es).map Edge.unplaced)
      (target.declared.map Declaration.content) := by
  have hreadable : ∀ e ∈ edgesInto id target.id es, e.Readable := by
    intro e he
    obtain ⟨f, hf, rfl⟩ := List.mem_map.1 he
    obtain ⟨hsource, -, hname, hbar, hline⟩ := hes f (List.mem_filter.1 hf).1
    exact ⟨hsource, target.id_valid, hname, hbar, hline⟩
  unfold copiesIn edgesInto at *
  cases hinto : es.filter (·.target = id) with
  | nil => exact adds_declaration hlabel hclosed hline
  | cons e rest =>
    rw [hinto, List.map_cons] at hreadable
    have hfirst := adds_linkLine (hreadable _ List.mem_cons_self) rfl hclosed hline
    have hrest := adds_links fun f hf => hreadable f (List.mem_cons_of_mem _ hf)
    rw [List.map_map] at hrest
    have hall := hfirst.cons hrest
    rwa [List.append_nil] at hall

end Copies

/-! ## Duplication -/

variable {b : Buffer} {id copy : Text} {d : Declaration}

theorem readable_of_mem_edges (h : ∀ line ∈ b, '\n' ∉ line) : ∀ e ∈ b.edges, e.Readable := by
  intro e he
  obtain ⟨i, line, hline, hedge⟩ := mem_edges.1 he
  exact Edge.readable_of_edgeOn? (h line (List.mem_of_getElem? hline)) hedge

theorem exists_of_declaration? {i : Nat} (h : b.declaration? id = some (i, d)) :
    d.id = id ∧ ∃ line ∈ b, d ∈ Line.declarations line := by
  obtain ⟨⟨line, j⟩, hline, hfound⟩ := List.exists_of_findSome?_eq_some h
  obtain ⟨d', hd, heq⟩ := Option.map_eq_some_iff.1 hfound
  cases heq
  exact ⟨by simpa using List.find?_some hd, line, List.fst_mem_of_mem_zipIdx hline,
    List.mem_of_find?_eq_some hd⟩

/-- The lines of a copy show the copies of the edges, and declare the copy once. -/
theorem adds_copyLines (h : ∀ line ∈ b, '\n' ∉ line) {line : Line} (hline : line ∈ b)
    (hd : d ∈ Line.declarations line) (hcopy : Identifier.valid copy = true)
    (hname : Keyword.isKeyword copy = false) :
    Adds (copiesIn b.edges d.id copy (copy ++ d.bracket.opener ++ d.label ++ d.bracket.closer) ++
        copiesOut b.edges d.id copy)
      ((edgesInto d.id copy b.edges ++ edgesOutOf d.id copy b.edges).map Edge.unplaced)
        [(copy, d.bracket, d.label)] := by
  obtain ⟨front, back, heq, -, -, -, hholds, hconfined⟩ := Line.exists_of_mem_declarations hd
  have hreadable := readable_of_mem_edges h
  let target : Token := .boxed copy d.bracket d.label hcopy hname hholds
  have hwritten : target.written = copy ++ d.bracket.opener ++ d.label ++ d.bracket.closer := by
    simp [target, Token.written, Token.brackets, Token.boxed]
  -- behind the closer there is nothing any more that a label of an arrow could run to
  have hclosed : target.Closed [] := by
    intro b' text hlabel
    cases hlabel
    have hcut : Text.Confined Line.edgeLabelAt d.bracket.closer 0 d.label :=
      hconfined.cut Line.edgeLabelAt_isLocal
    simpa [target, Token.boxed] using hcut
  have hfeed : '\n' ∉ target.written := by
    have hlabel := Declaration.not_mem_written_of_declarations hd (h line hline)
    have hid : '\n' ∉ copy := Identifier.not_mem_of_valid hcopy (by decide)
    rw [hwritten]
    simp only [Declaration.written, List.mem_append, not_or] at hlabel ⊢
    exact ⟨⟨⟨hid, hlabel.1.1.2⟩, hlabel.1.2⟩, hlabel.2⟩
  have hin : Adds (copiesIn b.edges d.id copy target.written) _ _ :=
    adds_copiesIn hreadable rfl hclosed hfeed
  have hout : Adds (copiesOut b.edges d.id copy) _ _ := adds_copiesOut hreadable hcopy hname
  have hboth := hin.append hout
  rw [← List.map_append, List.append_nil] at hboth
  rw [← hwritten]
  exact hboth

theorem links_styleLine (copy : Text) (style : Style) :
    links [StyleLine.text indentUnit copy style] = [] ∧ declared
      [StyleLine.text indentUnit copy style] = [] := by
  have hdirective := StyleLine.isDirective_text Row.blank_of_mem_indentUnit copy style
  constructor
  · simp [links, edgeOn?, hdirective]
  · simp [declared, Line.declarations, hdirective]

/-- The line that repeats a style, if there is one, however many digits its integers have. -/
def styleLines (copy : Text) (style? : Option Style) : List Line :=
  (style?.map fun style => StyleLine.text indentUnit copy style).toList

theorem copiedStyle_of_style? {id : Text} {style? : Option Style}
    (hstyle : b.style? id = .ok style?) (copy : Text) :
    copiedStyle copy style? = .ok (styleLines copy style?) := by
  cases style? with
  | none => rfl
  | some style =>
    rw [copiedStyle, StyleLine.write_of_brief _ _ (writable_of_style? hstyle).brief]
    rfl

theorem perm_links_insertAt (b : Buffer) (i : Nat) (new : List Line) :
    (links (b.insertAt i new)).Perm (links b ++ links new) := by
  rw [← links_append]
  exact (perm_insertAt ..).filterMap _

/-- A style that is put in for an identifier not in use is found. -/
theorem style?_insertAt {used : List Text} (hused : b.ids = .ok used) (hcopy : copy ∉ used)
    (hvalid : Identifier.valid copy = true) {s : Style} (hs : s.Writable) (hne : s ≠ .empty)
    {lines : List Line} (hlines : ∀ line ∈ lines, StyleLine.read line = .ok none) (i : Nat) :
    style? (b.insertAt i (lines ++ [StyleLine.text indentUnit copy s])) copy = .ok (some s) := by
  have hwritten := StyleLine.read_text Row.blank_of_mem_indentUnit hvalid hs hne
  obtain ⟨styles, hstyles, -⟩ := Except.exists_of_map_eq_ok hused
  have hread : ∀ line ∈ b.insertAt i (lines ++ [StyleLine.text indentUnit copy s]),
      ∃ found, StyleLine.read line = .ok found := by
    intro line hline
    rw [mem_insertAt, List.mem_append, List.mem_singleton] at hline
    rcases hline with hline | hline | rfl
    · exact exists_read_of_styles hstyles line hline
    · exact ⟨none, hlines line hline⟩
    · exact ⟨_, hwritten⟩
  have hfind :
      ((b.insertAt i (lines ++ [StyleLine.text indentUnit copy s])).filterMap styleOn?).find?
      (fun found => decide (found.id = copy)) = some ⟨copy, s⟩ := by
    refine find?_eq_some_of_unique (x := ⟨copy, s⟩) StyleLine.id ?_ fun found hfound hid => ?_
    · refine List.mem_filterMap.2 ⟨StyleLine.text indentUnit copy s,
        mem_insertAt.2 (.inr (by simp)), ?_⟩
      rw [styleOn?, hwritten]
    · obtain ⟨line, hline, hstyle⟩ := List.mem_filterMap.1 hfound
      rw [mem_insertAt, List.mem_append, List.mem_singleton] at hline
      rcases hline with hline | hline | rfl
      · have hname : found.id = copy := hid
        exact absurd (hname ▸ mem_ids_of_mem_styles hused
          (List.mem_filterMap.2 ⟨line, hline, hstyle⟩)) hcopy
      · rw [styleOn?, hlines line hline] at hstyle
        cases hstyle
      · rw [styleOn?, hwritten] at hstyle
        exact (Option.some.inj hstyle).symm
  rw [style?_eq hread, hfind]
  rfl

/-- What a buffer shows after a node has been copied: the edges there were and the copies of those
into and out of the node, the copy with its label and shape, its style if any property of it is set,
and around lines put in, all lines there were. -/
structure IsCopy (b : Buffer) (d : Declaration) (copy : Text) (b' : Buffer) : Prop where
  edges : (b'.edges.map Edge.unplaced).Perm
    ((b.edges ++ (edgesInto d.id copy b.edges ++ edgesOutOf d.id copy b.edges)).map Edge.unplaced)
  node : ∃ node ∈ b'.nodes, node.id = copy ∧ node.label = d.label ∧ node.shape = d.bracket.shape
  style : ∀ s, b.style? d.id = .ok (some s) → s ≠ .empty → b'.style? copy = .ok (some s)
  lines : ∃ front new back, b' = front ++ new ++ back ∧ front ++ back = b

theorem isCopy_insertAt (h : ∀ line ∈ b, '\n' ∉ line) {line : Line} (hline : line ∈ b)
    (hd : d ∈ Line.declarations line) {used : List Text} (hused : b.ids = .ok used)
    (hnext : NextId.next? used = some copy) {style? : Option Style}
    (hstyle : b.style? d.id = .ok style?) (place : Nat) :
    IsCopy b d copy (b.insertAt place (b.copyLines d copy (styleLines copy style?))) := by
  obtain ⟨hcopy, hname⟩ := NextId.valid_of_next? hnext
  have hfresh := NextId.not_mem_of_next? hnext
  obtain ⟨hlinks, hdeclared, hunstyled, -⟩ := adds_copyLines h hline hd hcopy hname
  -- the line of the style shows no more than the style
  have hcopied : links (b.copyLines d copy (styleLines copy style?)) =
        (edgesInto d.id copy b.edges ++ edgesOutOf d.id copy b.edges).map Edge.unplaced ∧
      declared (b.copyLines d copy (styleLines copy style?)) = [(copy, d.bracket, d.label)] := by
    rw [copyLines, links_append, declared_append, hlinks, hdeclared]
    cases style? with
    | none => exact ⟨List.append_nil _, rfl⟩
    | some style =>
      obtain ⟨hnolinks, hnone⟩ := links_styleLine copy style
      rw [styleLines, Option.map_some, Option.toList_some, hnolinks, hnone]
      exact ⟨List.append_nil _, rfl⟩
  refine ⟨?_, ?_, ?_, ⟨b.take place, _, b.drop place, rfl, List.take_append_drop ..⟩⟩
  · rw [map_unplaced_edges, List.map_append, map_unplaced_edges, ← hcopied.1]
    exact perm_links_insertAt ..
  · refine exists_mem_nodes ?_ fun entry hentry hid => ?_
    · obtain ⟨l, hl, hshows⟩ := mem_declared.1 (hcopied.2 ▸ List.mem_cons_self)
      exact mem_declared.2 ⟨l, mem_insertAt.2 (.inr hl), hshows⟩
    · obtain ⟨l, hl, hshows⟩ := mem_declared.1 hentry
      rcases mem_insertAt.1 hl with hl | hl
      · exact absurd (hid ▸ mem_ids_of_mem_declared hused (mem_declared.2 ⟨l, hl, hshows⟩)) hfresh
      · have hnew := mem_declared.2 ⟨l, hl, hshows⟩
        rwa [hcopied.2, List.mem_singleton] at hnew
  · intro s hs hne
    rw [hs] at hstyle
    cases hstyle
    exact style?_insertAt hused hfresh hcopy (writable_of_style? hs) hne hunstyled place

theorem not_mem_copyLines (h : ∀ line ∈ b, '\n' ∉ line) {line : Line} (hline : line ∈ b)
    (hd : d ∈ Line.declarations line) (hcopy : Identifier.valid copy = true)
    (hname : Keyword.isKeyword copy = false) {style? : Option Style}
    (hstyle : b.style? d.id = .ok style?) :
    ∀ line ∈ b.copyLines d copy (styleLines copy style?), '\n' ∉ line := by
  rw [copyLines, List.forall_mem_append]
  refine ⟨(adds_copyLines h hline hd hcopy hname).oneLine, ?_⟩
  cases style? with
  | none => simp [styleLines]
  | some style =>
    have hid : '\n' ∉ copy := Identifier.not_mem_of_valid hcopy (by decide)
    rw [styleLines, Option.map_some, Option.toList_some, List.forall_mem_singleton, StyleLine.text,
      StyleLine.ofPairs]
    simp only [List.mem_append, not_or]
    exact ⟨⟨⟨⟨by decide, by decide⟩, hid⟩, by decide⟩,
      Style.lineFeed_not_mem_text (writable_of_style? hstyle).value⟩

/-- A declared node is copied if the identifiers in use can be listed, and else the reason is told
why they cannot. The text with the copy shows the copy under a new identifier and keeps what it
showed. -/
theorem duplicateNode?_eq {t id : Text} {i : Nat} {d : Declaration}
    (h : (ofText t).declaration? id = some (i, d)) (now : Nat) :
    (∀ e, (ofText t).ids = .error e → (ofText t).duplicateNode? id now = .error e) ∧
      ∀ used copy, (ofText t).ids = .ok used → NextId.next? used = some copy →
        copy ∉ used ∧ ∃ b', (ofText t).duplicateNode? id now = .ok (some (b', copy)) ∧
          IsCopy (ofText t) d copy (ofText b'.toText) := by
  have hlines : ∀ line ∈ ofText t, '\n' ∉ line := fun line hline => not_mem_of_mem_ofText hline
  obtain ⟨hid, line, hline, hd⟩ := exists_of_declaration? h
  constructor
  · intro e he
    simp only [duplicateNode?, h, he]
    rfl
  · intro used copy hused hnext
    obtain ⟨hcopy, hname⟩ := NextId.valid_of_next? hnext
    obtain ⟨styles, hstyles, -⟩ := Except.exists_of_map_eq_ok hused
    have hread := exists_read_of_styles hstyles
    obtain ⟨style?, hstyle⟩ : ∃ style?, (ofText t).style? d.id = .ok style? :=
      ⟨_, style?_eq hread d.id⟩
    obtain ⟨place, hplace⟩ : ∃ place, place =
        (((ofText t).mentions id).getLast?.map (· + 1)).getD (ofText t).appendIndex := ⟨_, rfl⟩
    have hoffer : NextId.next now used = copy := by
      rw [NextId.next, hnext]
      rfl
    have hdup : (ofText t).duplicateNode? id now =
        .ok (some ((ofText t).insertAt place ((ofText t).copyLines d copy (styleLines copy style?)),
          copy)) := by
      simp only [duplicateNode?, h, hused, hstyle, bind, Except.bind, hoffer, hplace,
        copiedStyle_of_style? hstyle]
      rfl
    have hback : ofText
        ((ofText t).insertAt place ((ofText t).copyLines d copy (styleLines copy style?))).toText =
        (ofText t).insertAt place ((ofText t).copyLines d copy (styleLines copy style?)) := by
      refine ofText_toText (List.ne_nil_of_mem (mem_insertAt.2 (.inl hline))) fun l hl => ?_
      exact (mem_insertAt.1 hl).elim (hlines l)
        (not_mem_copyLines hlines hline hd hcopy hname hstyle l)
    refine ⟨NextId.not_mem_of_next? hnext, _, hdup, ?_⟩
    rw [hback]
    exact isCopy_insertAt hlines hline hd hused hnext hstyle place

/-- A node with a label, an edge out of it, one into it and a loop is copied under the next free
letter. -/
theorem duplicateNode?_of_loop :
    (ofText "A[x] -->|y| B\nC --> A\nA --> A\nstyle A fill:red".toList).declaration? "A".toList =
      some (0, ⟨"A".toList, .square, "x".toList, 0⟩) ∧
    ∃ b', (ofText "A[x] -->|y| B\nC --> A\nA --> A\nstyle A fill:red".toList).duplicateNode?
      "A".toList 0 =
        .ok (some (b', "D".toList)) ∧
      IsCopy (ofText "A[x] -->|y| B\nC --> A\nA --> A\nstyle A fill:red".toList)
        ⟨"A".toList, .square, "x".toList, 0⟩
        "D".toList (ofText b'.toText) := by
  have hdeclared : (ofText "A[x] -->|y| B\nC --> A\nA --> A\nstyle A fill:red".toList).declaration?
      "A".toList = some (0, ⟨"A".toList, .square, "x".toList, 0⟩) := by decide +kernel
  have hids : (ofText "A[x] -->|y| B\nC --> A\nA --> A\nstyle A fill:red".toList).ids =
      .ok ["A".toList, "B".toList, "C".toList] := by rfl
  exact ⟨hdeclared, ((duplicateNode?_eq hdeclared 0).2 _ _ hids (by decide)).2⟩

/-- A declared node beside the style of another with too many digits. -/
def longStyled (n : Nat) : Buffer := ["A[a]".toList, StyleLine.radiusLine "B".toList n]

/-- A style that cannot be read keeps every node of the text from being copied. -/
theorem duplicateNode?_error_of_long_integer :
    (ofText (longStyled 4301).toText).declaration? "A".toList =
      some (0, ⟨"A".toList, .square, "a".toList, 0⟩) ∧
        (ofText (longStyled 4301).toText).duplicateNode? "A".toList 0 = .error (.reading 4301) := by
  have hlines : ∀ line ∈ longStyled 4301, '\n' ∉ line := by
    rw [longStyled, List.forall_mem_cons, List.forall_mem_singleton]
    exact ⟨by decide, StyleLine.lineFeed_not_mem_radiusLine (by decide)⟩
  have hdeclared : (longStyled 4301).declaration? "A".toList =
      some (0, ⟨"A".toList, .square, "a".toList, 0⟩) := rfl
  have hfirst : StyleLine.read "A[a]".toList = .ok none := rfl
  have hlong : StyleLine.read (StyleLine.radiusLine "B".toList 4301) = .error (.reading 4301) :=
    StyleLine.read_radiusLine (by decide) (by decide)
  have hids : (longStyled 4301).ids = .error (.reading 4301) := by
    simp only [longStyled, ids, styles, List.mapM_cons, hfirst, hlong]
    rfl
  rw [ofText_toText (by simp [longStyled]) hlines]
  refine ⟨hdeclared, ?_⟩
  simp only [duplicateNode?, hdeclared, hids]
  rfl

end Buffer
end Chartwright
