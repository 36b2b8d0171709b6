import Chartwright.Proofs.Buffer.Shown
import Chartwright.Proofs.Edit.WellFormed
/-!
What a deletion leaves of a node in a well-formed text.

No token of a line of links stands for the node any more, no line sets its style, and deleting it
again changes nothing. An edge can still have the name of the node at an end, but only if that end
is read in the label of an arrow: the scan for edges takes names from there too (`deleteNode_free`).
The proof goes line by line: whatever a deletion leaves of a line is `Freed`, and that is all that a
scan or another deletion can ask of it.
-/
namespace Chartwright

namespace Buffer

/-- A line without a node and without its style, which a deletion of the node keeps. -/
inductive Freed (id : Text) (line : Line) : Prop where
  | directive (directive : Line.isDirective line = true) (other : StyleLine.isFor id line = false)
  | unlinked (plain : Line.isDirective line = false) (unlinked : Line.chain? line = none)
  | row {r : Row} (plain : Line.isDirective line = false) (written : r.written = line)
    (sound : Row.Sound r) (freed : ∀ e ∈ r.nodes, e.id ≠ id ∧ e.Anchored)
    (settled : Identifier.mention? id line = none ∨ (Text.trimRight line = line ∧ [] ∉ r.groups))

variable {b : Buffer} {id : Text} {line : Line}

/-! ## What a deletion leaves of a line -/

/-- A restored line declares another node. -/
theorem freed_of_mem_orphanedBy {i : Nat} {k : Chain} (h : line ∈ b.orphanedBy id i k) :
    Freed id line := by
  have hplain := not_isDirective_of_mem_orphanedBy h
  obtain ⟨e, rfl, hne, hclosed, -, hanchored⟩ := exists_ofNode_of_mem_orphanedBy h
  have htight := e.tight_written
  have htrim : Text.trimRight (Row.ofNode e).written = (Row.ofNode e).written := by
    have hwritten : (Row.ofNode e).written = indentUnit ++ e.written := by
      simp [Row.ofNode, Row.written_indented, Lexeme.written]
    have hback : Text.Stops Text.isBlank (Row.ofNode e).written.reverse := by
      rw [hwritten, List.reverse_append]
      exact Text.stops_append_of_ne_nil (mt List.reverse_eq_nil_iff.1 htight.ne_nil) htight.back _
    have hself := Text.trimRight_append Text.isBlank_of_mem_nil hback
    rwa [List.append_nil] at hself
  refine .row hplain rfl (Row.sound_ofNode hclosed) ?_ (.inr ⟨htrim, ?_⟩)
  · intro f hf
    obtain rfl : f = e := by
      simpa [Row.ofNode, Row.indented, List.replicate, Lexeme.space, Row.nodes] using hf
    exact ⟨hne, hanchored⟩
  · simp [Row.ofNode, Row.indented, List.replicate, Lexeme.space, Row.groups]

/-- What a deletion makes of a well-formed line holds neither the node nor its style. -/
theorem freed_of_mem_lineWithout (hid : Identifier.valid id = true)
    (h : Line.isWellFormed line = true) {i : Nat} {left : Line}
    (hleft : left ∈ (b.lineWithout id line i).1 ∨ left ∈ (b.lineWithout id line i).2) :
    Freed id left := by
  cases b.outcome id h i with
  | style _ outcome =>
    rw [outcome] at hleft
    rcases hleft with hleft | hleft <;> cases hleft
  | kept other reason outcome =>
    rw [outcome] at hleft
    obtain rfl : left = line := by simpa using hleft
    cases hline : Line.isDirective left with
    | true => exact .directive hline other
    | false =>
      cases hk : Line.chain? left with
      | none => exact .unlinked hline hk
      | some k =>
        have hmention : Identifier.mention? id left = none := by
          simpa [hline, hk] using reason
        obtain ⟨r, rfl, hsound, hnodes⟩ := Line.exists_row hline hk h
        refine .row hline rfl hsound (fun e he => ⟨?_, (hnodes e he).2⟩) (.inl hmention)
        rintro rfl
        have hsome := hsound.isSome_mention? he
        rw [hmention] at hsome
        cases hsome
  | @rebuilt s plain _ sound _ named anchored hgroups outcome =>
    rw [outcome] at hleft
    obtain rfl : left = (s.without id).row.written := by simpa using hleft
    have hsound := Strand.sound_without id sound
    have hfull := Strand.full_of_groups hgroups
    have hnodes : ∀ e ∈ (s.without id).row.nodes, e ∈ s.row.nodes ∧ e.id ≠ id := by
      intro e he
      rw [Strand.nodes_without, List.mem_filter, Token.keeps, e.isTokenOf_written hid] at he
      simpa using he
    exact .row (Strand.not_isDirective_without id sound named hgroups) rfl hsound (fun e he =>
      ⟨(hnodes e he).2, anchored e (hnodes e he).1⟩)
      (.inr ⟨Strand.trimRight_written rfl hfull, hgroups⟩)
  | dropped _ _ _ _ _ _ outcome =>
    rw [outcome] at hleft
    rcases hleft with hleft | hleft
    · cases hleft
    · exact freed_of_mem_orphanedBy hleft

/-! ## What is read on such a line -/

namespace Freed

theorem tokens (h : Freed id line) (hid : Identifier.valid id = true)
    (hline : Line.isDirective line = false) :
    ∀ token ∈ Line.tokens line, isTokenOf id token = false := by
  intro token htoken
  cases h with
  | directive directive => cases directive.symm.trans hline
  | unlinked _ unlinked =>
    rw [Line.tokens, unlinked] at htoken
    cases htoken
  | row _ written sound freed =>
    subst written
    obtain ⟨e, he, rfl⟩ := sound.exists_of_mem_tokens hline htoken
    rw [e.isTokenOf_written hid]
    exact decide_eq_false (freed e he).1

/-- An edge has the name of the node at an end only if that end is read in the label of an arrow. -/
theorem edge (h : Freed id line) {i : Nat} {e : Edge} (he : edgeOn? line i = some e) :
    (e.source = id → Line.sourceInLabel line = true) ∧
      (e.target = id → Line.targetInLabel line = true) := by
  obtain ⟨hline, column, l, hl, -, rfl⟩ := edgeOn?_eq_some_iff.1 he
  cases h with
  | directive directive => cases directive.symm.trans hline
  | unlinked _ unlinked =>
    rw [Line.link?_of_chain? unlinked] at hl
    cases hl
  | @row r _ written sound freed =>
    subst written
    have hnot : ∀ name, name = id → ¬ ∃ f ∈ r.nodes, f.id = name := by
      rintro _ rfl ⟨f, hf, hname⟩
      exact (freed f hf).1 hname
    exact ⟨fun heq =>
      (sound.source_link (fun f hf => (freed f hf).2) hline hl).resolve_left (hnot _ heq),
      fun heq => (sound.target_link hline hl).resolve_left (hnot _ heq)⟩

/-- Another deletion keeps the line. -/
theorem lineWithout (h : Freed id line) (hid : Identifier.valid id = true) (b : Buffer) (i : Nat) :
    b.lineWithout id line i = ([line], []) := by
  have hother : Line.isDirective line = false → StyleLine.isFor id line = false := by
    intro hline
    rw [Bool.eq_false_iff]
    intro hstyle
    cases (StyleLine.isDirective_of_isFor hstyle).symm.trans hline
  cases h with
  | directive directive other => simp [Buffer.lineWithout, directive, other]
  | unlinked plain unlinked => simp [Buffer.lineWithout, plain, hother plain, unlinked]
  | @row r plain written sound freed settled =>
    subst written
    rcases settled with hmention | ⟨htrim, hgroups⟩
    · simp [Buffer.lineWithout, plain, hother plain, hmention]
    · cases hk : Line.chain? r.written with
      | none => simp [Buffer.lineWithout, plain, hother plain, hk]
      | some k =>
        have huntouched : Untouched id r.written := by
          intro k' hk' s hs
          have hmem := List.mem_map_of_mem (f := (·.tokens)) hs
          rw [sound.tokens_segments plain hk'] at hmem
          obtain ⟨g, hg, htokens⟩ := List.mem_map.1 hmem
          refine ⟨fun hnil => ?_, fun token htoken => ?_⟩
          · rw [hnil, List.map_eq_nil_iff] at htokens
            exact hgroups (htokens ▸ hg)
          · rw [← htokens] at htoken
            obtain ⟨e, he, rfl⟩ := List.mem_map.1 htoken
            rw [e.isTokenOf_written hid]
            refine decide_eq_false (freed e ?_).1
            rw [Row.nodes_eq_flatten]
            exact List.mem_flatten_of_mem hg he
        simp [Buffer.lineWithout, plain, hother plain, hk,
          chainWithout?_of_untouched huntouched hk, htrim]

end Freed

/-! ## Styles -/

theorem styleOn?_of_not_isDirective (h : Line.isDirective line = false) : styleOn? line = none := by
  rw [styleOn?, StyleLine.read_of_not_isDirective h]

/-- What is read as a style belongs to the node if the line is a line for its style. -/
theorem isFor_iff_of_styleOn? (hid : Identifier.valid id = true) {s : StyleLine}
    (h : styleOn? line = some s) : StyleLine.isFor id line = true ↔ s.id = id := by
  have hread := read_of_styleOn? h
  rw [StyleLine.read] at hread
  split at hread
  · cases hread
  · next name pairs hparts =>
    obtain ⟨style, -, heq⟩ := Except.exists_of_map_eq_ok hread
    cases heq
    exact StyleLine.isFor_iff_of_parts? hid hparts

/-- A deletion leaves of the styles on a line those of other nodes. -/
theorem styles_lineWithout (hid : Identifier.valid id = true) (h : Line.isWellFormed line = true)
    (i : Nat) :
    (b.lineWithout id line i).1.filterMap styleOn? =
        ((styleOn? line).filter fun s => decide (s.id ≠ id)).toList ∧
      (∀ left ∈ (b.lineWithout id line i).1, left = line ∨ Line.isDirective left = false) ∧
      ∀ left ∈ (b.lineWithout id line i).2, Line.isDirective left = false := by
  cases b.outcome id h i with
  | style styled outcome =>
    rw [outcome]
    refine ⟨?_, List.forall_mem_nil _, List.forall_mem_nil _⟩
    cases hs : styleOn? line with
    | none => rfl
    | some s => simp [(isFor_iff_of_styleOn? hid hs).1 styled]
  | kept other _ outcome =>
    rw [outcome]
    refine ⟨?_, fun left hleft => .inl (List.mem_singleton.1 hleft), List.forall_mem_nil _⟩
    cases hs : styleOn? line with
    | none => simp [hs]
    | some s =>
      have hne : s.id ≠ id := by
        intro heq
        rw [(isFor_iff_of_styleOn? hid hs).2 heq] at other
        cases other
      rw [List.filterMap_cons_some hs, Option.filter_some, if_pos (decide_eq_true hne)]
      rfl
  | rebuilt plain _ sound _ named _ hgroups outcome =>
    have hplain := Strand.not_isDirective_without id sound named hgroups
    rw [outcome, styleOn?_of_not_isDirective plain]
    refine ⟨by simp [styleOn?_of_not_isDirective hplain], ?_, List.forall_mem_nil _⟩
    exact List.forall_mem_singleton.2 (.inr hplain)
  | dropped plain _ _ _ _ _ outcome =>
    rw [outcome, styleOn?_of_not_isDirective plain]
    exact ⟨rfl, List.forall_mem_nil _, fun left hleft => not_isDirective_of_mem_orphanedBy hleft⟩

theorem filterMap_insertAfterHeader {α : Type} {f : Line → Option α} {new : List Line}
    (h : ∀ line ∈ new, f line = none) (b : Buffer) :
    (insertAfterHeader new b).filterMap f = b.filterMap f := by
  have hnew : new.filterMap f = [] := List.filterMap_eq_nil_iff.2 h
  unfold insertAfterHeader
  split
  · next n _ =>
    rw [insertAt, List.filterMap_append, List.filterMap_append, hnew, List.append_nil,
      ← List.filterMap_append, List.take_append_drop]
  · rw [List.filterMap_append, hnew, List.nil_append]

/-- What is read line by line is read as before up to what each line loses. -/
theorem filterMap_flatMap_zipIdx {α : Type} {f : Line → Option α} {p : α → Bool}
    {outcome : Line → Nat → List Line} {lines : List Line} (n : Nat)
    (h : ∀ line ∈ lines, ∀ i, (outcome line i).filterMap f = ((f line).filter p).toList) :
    ((lines.zipIdx n).flatMap fun q => outcome q.1 q.2).filterMap f =
      (lines.filterMap f).filter p := by
  induction lines generalizing n with
  | nil => rfl
  | cons line rest ih =>
    rw [List.zipIdx_cons, List.flatMap_cons, List.filterMap_append, h line List.mem_cons_self n,
      ih (n + 1) fun other hother => h other (List.mem_cons_of_mem _ hother)]
    cases hf : f line with
    | none => rw [List.filterMap_cons_none hf]; rfl
    | some x =>
      rw [List.filterMap_cons_some hf, List.filter_cons, Option.filter_some]
      cases p x <;> rfl

theorem styles_deleteNode (hid : Identifier.valid id = true)
    (h : ∀ line ∈ b, Line.isWellFormed line = true) :
    (b.deleteNode id).filterMap styleOn? = (b.filterMap styleOn?).filter fun s =>
      decide (s.id ≠ id) := by
  rw [deleteNode_eq, filterMap_insertAfterHeader]
  · exact filterMap_flatMap_zipIdx 0 fun line hline i => (styles_lineWithout hid (h line hline) i).1
  · intro line hmem
    obtain ⟨p, hp, hmem⟩ := List.mem_flatMap.1 hmem
    have hline := h p.1 (List.fst_mem_of_mem_zipIdx hp)
    exact styleOn?_of_not_isDirective ((styles_lineWithout hid hline p.2).2.2 line hmem)

/-! ## All lines -/

theorem exists_of_mem_deleteNode (h : line ∈ b.deleteNode id) :
    ∃ p ∈ b.zipIdx, line ∈ (b.lineWithout id p.1 p.2).1 ∨ line ∈ (b.lineWithout id p.1 p.2).2 := by
  rw [deleteNode_eq] at h
  rcases mem_insertAfterHeader.1 h with hmem | hmem
  · obtain ⟨p, hp, hmem⟩ := List.mem_flatMap.1 hmem
    exact ⟨p, hp, .inr hmem⟩
  · obtain ⟨p, hp, hmem⟩ := List.mem_flatMap.1 hmem
    exact ⟨p, hp, .inl hmem⟩

theorem freed_of_mem {t : Text} (hid : Identifier.valid id = true)
    (h : ∀ line ∈ ofText t, Line.isWellFormed line = true) :
    ∀ line ∈ ofText (Command.onLines (·.deleteNode id) t), Freed id line := by
  rcases ofText_deleteNode t id with heq | ⟨-, heq⟩
  · rw [heq]
    intro line hline
    obtain ⟨p, hp, hmem⟩ := exists_of_mem_deleteNode hline
    exact freed_of_mem_lineWithout hid (h p.1 (List.fst_mem_of_mem_zipIdx hp)) hmem
  · rw [heq]
    exact List.forall_mem_singleton.2 (.directive rfl rfl)

theorem Freed.style_ne (h : Freed id line) (hid : Identifier.valid id = true) {s : StyleLine}
    (hs : styleOn? line = some s) : s.id ≠ id := by
  intro heq
  have hstyle := (isFor_iff_of_styleOn? hid hs).2 heq
  have hdirective := StyleLine.isDirective_of_isFor hstyle
  cases h with
  | directive _ other => cases other.symm.trans hstyle
  | unlinked plain => cases plain.symm.trans hdirective
  | row plain => cases plain.symm.trans hdirective

theorem exists_read_of_mem_deleteNode (hid : Identifier.valid id = true)
    (h : ∀ line ∈ b, Line.isWellFormed line = true)
    (hread : ∀ line ∈ b, ∃ found, StyleLine.read line = .ok found) :
    ∀ line ∈ b.deleteNode id, ∃ found, StyleLine.read line = .ok found := by
  intro line hline
  obtain ⟨p, hp, hmem⟩ := exists_of_mem_deleteNode hline
  have hp := List.fst_mem_of_mem_zipIdx hp
  obtain ⟨-, hkept, hrestored⟩ := styles_lineWithout (b := b) hid (h p.1 hp) p.2
  rcases hmem with hmem | hmem
  · rcases hkept line hmem with rfl | hplain
    · exact hread p.1 hp
    · exact ⟨none, StyleLine.read_of_not_isDirective hplain⟩
  · exact ⟨none, StyleLine.read_of_not_isDirective (hrestored line hmem)⟩

theorem styles_deleteNode_eq {t : Text} (hid : Identifier.valid id = true)
    (h : ∀ line ∈ ofText t, Line.isWellFormed line = true) {found : List StyleLine}
    (hfound : (ofText t).styles = .ok found) :
    (ofText (Command.onLines (·.deleteNode id) t)).styles =
      .ok (found.filter fun s => decide (s.id ≠ id)) := by
  have hread := exists_read_of_styles hfound
  have hleft := styles_deleteNode hid h
  rw [styles_eq hread] at hfound
  obtain rfl := Except.ok.inj hfound
  rw [← distinctBy_filter, ← hleft]
  rcases ofText_deleteNode t id with heq | ⟨hnil, heq⟩
  · rw [heq, styles_eq (exists_read_of_mem_deleteNode hid h hread)]
  · rw [heq, hnil]
    rfl

/-- Deleting a node from a text on whose lines of links every token is a node leaves no token that
stands for it, no style of it and the styles of the others as they were, and deleting it again
changes nothing. An edge has the name of the node at an end only if that end is read in the label of
an arrow. -/
theorem deleteNode_free {t id : Text} (hid : Identifier.valid id = true)
    (h : ∀ line ∈ ofText t, Line.isWellFormed line = true) :
    let left := Command.onLines (·.deleteNode id) t
    (∀ line ∈ ofText left, Line.isDirective line = false →
      ∀ token ∈ Line.tokens line, isTokenOf id token = false) ∧
    (∀ e ∈ (ofText left).edges,
      (e.source = id → Line.sourceInLabel ((ofText left).line e.line.toNat) = true) ∧
      (e.target = id → Line.targetInLabel ((ofText left).line e.line.toNat) = true)) ∧
    (∀ found, (ofText left).styles = .ok found → ∀ s ∈ found, s.id ≠ id) ∧
    (∀ found, (ofText t).styles = .ok found →
      (ofText left).styles = .ok (found.filter fun s => decide (s.id ≠ id))) ∧
    Command.onLines (·.deleteNode id) left = left := by
  intro left
  have hfreed : ∀ line ∈ ofText left, Freed id line := freed_of_mem hid h
  refine ⟨fun line hline => (hfreed line hline).tokens hid,
    fun e he => ?_, fun found hfound s hs => ?_,
    fun found hfound => styles_deleteNode_eq hid h hfound, ?_⟩
  · obtain ⟨i, line, hline, hedge⟩ := mem_edges.1 he
    have hnumber : (ofText left).line e.line.toNat = line := by
      rw [(edgeOn?_move hedge i).2, Int.toNat_natCast, Buffer.line, hline]
      rfl
    rw [hnumber]
    exact (hfreed line (List.mem_of_getElem? hline)).edge hedge
  · rw [styles_eq (exists_read_of_styles hfound)] at hfound
    obtain rfl := Except.ok.inj hfound
    obtain ⟨line, hline, hread⟩ := List.mem_filterMap.1 (mem_distinctBy hs)
    exact (hfreed line hline).style_ne hid hread
  · rw [Command.onLines, deleteNode_eq_self, toText_ofText]
    intro p hp
    exact (hfreed p.1 (List.fst_mem_of_mem_zipIdx hp)).lineWithout hid _ p.2

/-- A node that goes with its style, and a group that stays without it. -/
theorem deleteNode_free_of_group :
    Command.onLines (·.deleteNode "N".toList) "style N fill:red\nA & N[n] --> B[b]:::hot".toList =
      "A --> B[b]:::hot".toList ∧
    Command.onLines (·.deleteNode "N".toList)
        (Command.onLines (·.deleteNode "N".toList)
          "style N fill:red\nA & N[n] --> B[b]:::hot".toList) =
      Command.onLines (·.deleteNode "N".toList)
        "style N fill:red\nA & N[n] --> B[b]:::hot".toList :=
  ⟨by decide +kernel, (deleteNode_free (by decide) (by decide +kernel)).2.2.2.2⟩

/-- An edge with the name of a deleted node at an end is left in a text on which every token is a
node. -/
def KeepsEdge (t id : Text) : Prop :=
  Identifier.valid id = true ∧ Keyword.isKeyword id = false ∧
    (∀ line ∈ ofText t, Line.isWellFormed line = true) ∧
      ∃ e ∈ (ofText (Command.onLines (·.deleteNode id) t)).edges, e.source = id ∨ e.target = id

instance (t id : Text) : Decidable (KeepsEdge t id) := inferInstanceAs (Decidable (_ ∧ _))

/-- The label of an arrow is scanned for an edge when a line starts none before it. -/
theorem keepsEdge_of_label :
    KeepsEdge "N --> A\nA -->|x --> N| & B".toList "N".toList ∧
      KeepsEdge "A -->|N --> x| & B".toList "N".toList := by
  decide +kernel

end Buffer
end Chartwright
