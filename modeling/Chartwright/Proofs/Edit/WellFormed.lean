import Chartwright.Proofs.Edit.Untargeted
import Chartwright.Proofs.Line.RowLink
import Chartwright.Proofs.Line.StrandWithout
/-!
What a deletion makes of a well-formed line.

A line is well-formed if every token on it is a node: a name that is no keyword, alone or with one
declaration, and a class suffix behind that (`Line.isNode`). Such a line is a sound row of its nodes
(`Line.exists_row`), and a deletion does one of four things to it (`Buffer.Outcome`): it drops a
line that sets the style of the node, it keeps a line that it has no reason to touch, it writes a
line without the node, or it drops a line on which a group would be left empty and restores the
nodes declared there alone.
-/
namespace Chartwright

namespace Line

/-- Nothing, or a class suffix. -/
def isSuffix (t : Text) : Bool := t.isEmpty || classSuffix? t == some (t, [])

/-- A token is a node: a name that is no keyword, alone or with one declaration and perhaps a class
suffix. -/
def isNode (token : Text) : Bool :=
  (Identifier.valid token && !Keyword.isKeyword token) ||
    match declarations token with
    | [d] => d.start == 0 && isSuffix (token.drop d.stop)
    | _ => false

/-- Every token on a line is a node, unless the line is a directive. -/
def isWellFormed (line : Line) : Bool := isDirective line || (tokens line).all isNode

theorem exists_token_of_isNode {token : Text} (h : isNode token = true) :
    ∃ e : Token, e.written = token ∧ Keyword.isKeyword e.id = false ∧ e.Anchored := by
  rw [isNode, Bool.or_eq_true] at h
  rcases h with h | h
  · simp only [Bool.and_eq_true, Bool.not_eq_true'] at h
    exact ⟨.bare token h.1, (Token.written_of_none _ rfl).trans (List.append_nil _), h.2,
      Token.anchored_bare _ _⟩
  · split at h
    · next d hd =>
      obtain ⟨front, back, htoken, hstart, hvalid, hname, hheld, -⟩ :=
        exists_of_mem_declarations (hd ▸ List.mem_singleton.2 rfl : d ∈ declarations token)
      simp only [isSuffix, Bool.and_eq_true, Bool.or_eq_true, beq_iff_eq, List.isEmpty_iff] at h
      obtain ⟨hzero, hsuffix⟩ := h
      obtain rfl : front = [] := List.length_eq_zero_iff.1 (hstart.symm.trans hzero)
      have hback : token.drop d.stop = back := by
        have hstop := d.length_written
        rw [hzero, Nat.sub_zero] at hstop
        rw [htoken, ← hstop, List.nil_append, List.drop_left]
      rw [hback] at hsuffix
      let e : Token := ⟨d.id, some (d.bracket, d.label), back,
        hvalid, by rintro b text ⟨⟩; exact ⟨hheld, hname⟩, hsuffix⟩
      refine ⟨e, ?_, hname, Token.anchored_of_label (Option.some_ne_none _)⟩
      rw [e.written_of_label rfl, htoken]
      simp [e, Declaration.written]
    · cases h

end Line

namespace Row

variable {r : Row} {k : Chain}

theorem Sound.tokens_segments (h : Sound r) (hline : Line.isDirective r.written = false)
    (hk : Line.chain? r.written = some k) :
    k.segments.map (·.tokens) = r.groups.map (·.map Token.written) := by
  rw [Line.eq_of_chain? hk, h.maskLabels_written hline]
  exact h.groups_written

theorem Sound.tokens_written (h : Sound r) (hline : Line.isDirective r.written = false)
    (hk : Line.chain? r.written = some k) : Line.tokens r.written = r.nodes.map Token.written := by
  rw [Line.tokens, hk, Option.elim_some, List.flatMap_def, h.tokens_segments hline hk,
    ← List.map_flatten, ← nodes_eq_flatten]

theorem Sound.exists_of_mem_tokens (h : Sound r) (hline : Line.isDirective r.written = false)
    {token : Text} (htoken : token ∈ Line.tokens r.written) : ∃ e ∈ r.nodes, e.written = token := by
  cases hk : Line.chain? r.written with
  | none =>
    rw [Line.tokens, hk] at htoken
    cases htoken
  | some k =>
    rw [h.tokens_written hline hk] at htoken
    exact List.mem_map.1 htoken

theorem Sound.isSome_mention? (h : Sound r) {e : Token} (he : e ∈ r.nodes) :
    (Identifier.mention? e.id r.written).isSome = true := by
  obtain ⟨r₁, r₂, rfl⟩ := List.append_of_mem (mem_nodes.1 he)
  have hapart := (sound_iff.1 h).1
  have hrest :=
    e.stops_isChar_brackets (fun text => text) (ends_written hapart.endsNode).stops_isChar
  rw [written_append, written_cons, Lexeme.written, Token.written, List.append_assoc,
    List.append_assoc]
  exact (Identifier.place_append e.id_valid hapart.apart_endOf.1 hrest).isSome_mention?

end Row

namespace Line

variable {line : Line} {k : Chain}

/-- A well-formed line with an arrow is a sound row, and no node on it is called like a keyword. -/
theorem exists_row (hline : isDirective line = false) (hk : chain? line = some k)
    (h : isWellFormed line = true) :
    ∃ r : Row, r.written = line ∧ Row.Sound r ∧ ∀ e ∈ r.nodes, Keyword.isKeyword e.id = false ∧
      e.Anchored := by
  refine Row.exists_row fun token htoken => exists_token_of_isNode ?_
  rw [isWellFormed, hline, Bool.false_or, tokens, hk, Option.elim_some] at h
  refine List.all_eq_true.1 h token ?_
  rw [List.flatMap_def, eq_of_chain? hk, maskLabels_eq_filled hline]
  exact htoken

theorem chain?_of_not_hasArrow (h : hasArrow line = false) : chain? line = none := by
  rw [chain?_eq_none_iff]
  rcases Chain.exists_first (maskLabels line) with hquiet | ⟨front, k, after, hmask, -, hread⟩
  · exact Chain.connectorSpans_of_quiet hquiet
  · rw [hasArrow_of_connector hmask (by rw [hread]; rfl)] at h
    cases h

end Line

theorem Strand.not_isDirective_without {s : Strand} (id : Text) (h : Row.Sound s.row)
    (hnames : ∀ e ∈ s.row.nodes, Keyword.isKeyword e.id = false)
    (hgroups : [] ∉ (s.without id).row.groups) :
    Line.isDirective (s.without id).row.written = false := by
  refine Strand.not_isDirective (full_of_groups hgroups) (sound_without id h) fun e he =>
    hnames e ?_
  have hmem : e ∈ (s.without id).row.nodes := by
    rw [Row.nodes_eq_flatten, groups_row, List.flatten_cons]
    exact List.mem_append_left _ he
  rw [nodes_without] at hmem
  exact (List.mem_filter.1 hmem).1

/-! ## The four outcomes -/

namespace Buffer

/-- What a deletion does to a line. -/
inductive Outcome (b : Buffer) (id : Text) (line : Line) (i : Nat) : Prop where
  | style (styled : StyleLine.isFor id line = true) (outcome : b.lineWithout id line i = ([], []))
  | kept (other : StyleLine.isFor id line = false)
    (reason : Line.isDirective line = true ∨ Line.chain? line = none ∨
      Identifier.mention? id line = none)
    (outcome : b.lineWithout id line i = ([line], []))
  | rebuilt {s : Strand} (plain : Line.isDirective line = false) (written : s.row.written = line)
    (sound : Row.Sound s.row) (tokens : Line.tokens line = s.row.nodes.map Token.written)
    (named : ∀ e ∈ s.row.nodes, Keyword.isKeyword e.id = false) (anchored : ∀ e ∈ s.row.nodes,
      e.Anchored) (left : [] ∉ (s.without id).row.groups)
    (outcome : b.lineWithout id line i = ([(s.without id).row.written], []))
  | dropped {s : Strand} {k : Chain} (plain : Line.isDirective line = false)
    (written : s.row.written = line)
    (sound : Row.Sound s.row) (tokens : Line.tokens line = s.row.nodes.map Token.written)
    (named : ∀ e ∈ s.row.nodes, Keyword.isKeyword e.id = false)
    (left : k.segments.flatMap (tokensLeft id) = (s.without id).row.nodes.map Token.written)
    (outcome : b.lineWithout id line i = ([], b.orphanedBy id i k))

variable {id : Text} {line : Line} {s : Strand} {k : Chain}

/-- The tokens that a deletion leaves of each group are the nodes that it keeps. -/
theorem tokensLeft_segments
    (hwritten : k.segments.map (·.tokens) = s.row.groups.map (·.map Token.written)) :
    k.segments.map (tokensLeft id) = (s.without id).row.groups.map (·.map Token.written) := by
  calc k.segments.map (tokensLeft id)
      = (k.segments.map (·.tokens)).map (·.filter fun token => !isTokenOf id token) := by
        rw [List.map_map]
        rfl
    _ = s.row.groups.map fun g => (g.map Token.written).filter fun token =>
      !isTokenOf id token := by
        rw [hwritten, List.map_map]
        rfl
    _ = (s.without id).row.groups.map (·.map Token.written) := by
        rw [Strand.groups_without, List.map_map]
        refine List.map_congr_left fun g _ => ?_
        rw [List.filter_map]
        rfl

theorem isSome_chainWithout? :
    (chainWithout? id k).isSome = true ↔ [] ∉ k.segments.map (tokensLeft id) := by
  simp [chainWithout?]

theorem outcome (b : Buffer) (id : Text) (h : Line.isWellFormed line = true) (i : Nat) :
    Outcome b id line i := by
  cases hstyle : StyleLine.isFor id line with
  | true => exact .style hstyle (by rw [lineWithout, hstyle, if_pos rfl])
  | false =>
    cases hline : Line.isDirective line with
    | true => exact .kept hstyle (.inl hline) (by simp [lineWithout, hstyle, hline])
    | false =>
      cases hk : Line.chain? line with
      | none => exact .kept hstyle (.inr (.inl hk)) (by simp [lineWithout, hstyle, hk])
      | some k =>
        have harrow : Line.hasArrow line = true := by
          rw [← Bool.not_eq_false]
          intro hnone
          rw [Line.chain?_of_not_hasArrow hnone] at hk
          cases hk
        cases hmention : Identifier.mention? id line with
        | none =>
          exact .kept hstyle (.inr (.inr hmention)) (by simp [lineWithout, hstyle, hmention])
        | some column =>
          obtain ⟨r, rfl, hsound, hnames⟩ := Line.exists_row hline hk h
          obtain ⟨s, rfl⟩ := r.exists_strand
          have htokens := hsound.tokens_written hline hk
          have hleft := @tokensLeft_segments id _ _ (hsound.tokens_segments hline hk)
          by_cases hnil : [] ∈ (s.without id).row.groups
          · refine .dropped hline rfl hsound htokens (fun e he => (hnames e he).1) (k := k) ?_ ?_
            · rw [List.flatMap_def, hleft, ← List.map_flatten, ← Row.nodes_eq_flatten]
            · have hnone : chainWithout? id k = none := by
                rw [← Option.not_isSome_iff_eq_none, isSome_chainWithout?, hleft]
                exact fun hnot => hnot (List.mem_map.2 ⟨[], hnil, rfl⟩)
              simp [lineWithout, hstyle, hline, harrow, hmention, hk, hnone]
          · have hsome : chainWithout? id k = some (s.without id).row.written := by
              have hgroups : [] ∉ s.row.groups := by
                intro hmem
                rw [Strand.groups_without] at hnil
                exact hnil (List.mem_map.2 ⟨[], hmem, rfl⟩)
              rw [Strand.eq_chain (Strand.full_of_groups hgroups) hsound hline hk,
                Strand.chainWithout?_chain, if_pos]
              refine List.all_eq_true.2 fun g hg => ?_
              cases g with
              | nil => exact absurd hg hnil
              | cons => rfl
            refine .rebuilt hline rfl hsound htokens (fun e he => (hnames e he).1)
              (fun e he => (hnames e he).2) hnil ?_
            simp [lineWithout, hstyle, hline, harrow, hmention, hk, hsome]

/-! ## Restored lines -/

theorem exists_of_mem_orphanedBy {b : Buffer} {i : Nat} (h : line ∈ b.orphanedBy id i k) :
    ∃ token ∈ k.segments.flatMap (tokensLeft id), ∃ d ∈ Line.declarations token,
      d.id ≠ id ∧ b.declaredOn d.id = [i] ∧ line = indentUnit ++ d.written := by
  obtain ⟨token, htoken, hline⟩ := List.mem_flatMap.1 h
  obtain ⟨d, hd, rfl⟩ := List.mem_map.1 hline
  obtain ⟨hmem, hd⟩ := List.mem_filter.1 hd
  simp only [Bool.and_eq_true, decide_eq_true_eq, beq_iff_eq] at hd
  exact ⟨token, htoken, d, hmem, hd.1, hd.2, rfl⟩

theorem exists_ofNode_of_mem_orphanedBy {b : Buffer} {i : Nat} (h : line ∈ b.orphanedBy id i k) :
    ∃ e : Token, line = (Row.ofNode e).written ∧ e.id ≠ id ∧ e.Closed [] ∧
      Keyword.isKeyword e.id = false ∧ e.Anchored := by
  obtain ⟨token, -, d, hd, hne, -, rfl⟩ := exists_of_mem_orphanedBy h
  obtain ⟨e, hwritten, hid, hlabel, hclosed, hname⟩ := Token.exists_of_mem_declarations hd
  refine ⟨e, ?_, hid ▸ hne, hclosed, hid ▸ hname, Token.anchored_of_label (by simp [hlabel])⟩
  rw [← hwritten]
  simp [Row.ofNode, Row.written_indented, Lexeme.written]

theorem not_isDirective_of_mem_orphanedBy {b : Buffer} {i : Nat} (h : line ∈ b.orphanedBy id i k) :
    Line.isDirective line = false := by
  obtain ⟨e, rfl, -, -, hname, -⟩ := exists_ofNode_of_mem_orphanedBy h
  exact Row.not_isDirective_ofNode hname

end Buffer
end Chartwright
