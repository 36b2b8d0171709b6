import Chartwright.Proofs.Line.Relabel
import Chartwright.Proofs.Line.RowOfTokens
/-!
The identifiers on a row.

The scan for identifiers sees a line with the labels of arrows, the class suffixes and the brackets
of declarations blanked. A part of a sound row is blanked by itself (`Lexeme.Stands.bared_append`),
and what is left of it is an identifier or none, so the identifiers on the row are those of its
nodes (`Row.Sound.identifiers_written`).
-/
namespace Chartwright

namespace Identifier

variable {name t x : Text}

/-- Characters that are in no identifier are passed over. -/
theorem tokens_append_of_not_isChar (hx : ∀ c ∈ x, isChar c = false) (t : Text) :
    (tokens (x ++ t)).map (·.2) = (tokens t).map (·.2) := by
  have hnone : ∀ s, s <:+ x → s ≠ [] → ∀ before, tokenAt before (s ++ t) = none := by
    intro s hs hne before
    obtain ⟨c, cs, rfl⟩ := List.exists_cons_of_ne_nil hne
    have hc : isChar c = false := hx c (hs.subset List.mem_cons_self)
    exact tokenAt_of_not_isStart (not_isStart_of_not_isChar hc) before _
  have hend : apart (Text.endOf none x) = true := by
    by_cases hnil : x = []
    · rw [hnil]
      rfl
    · obtain ⟨c, hc, hend⟩ := Text.endOf_of_ne_nil none hnil
      rw [hend, apart, Option.any_some, hx c hc]
      rfl
  rw [tokens_eq, Text.occurrencesFrom_of_none hnone, map_tokensFrom hend]

/-- An identifier that is not prolonged is the first token. -/
theorem tokens_append_name (hname : valid name = true) (ht : Text.Stops isChar t) :
    (tokens (name ++ t)).map (·.2) = name :: (tokens t).map (·.2) := by
  have hread : tokenAt none (name ++ t) = some (name, name.length) := by
    rw [tokenAt, token?, if_pos (show apart none = true from rfl), read?_append hname ht]
    rfl
  rw [tokens_eq, Text.occurrencesFrom_cons (ne_nil_of_valid hname) hread, List.map_cons]
  congr 1
  cases t with
  | nil => rfl
  | cons c cs =>
    have hc : isChar c = false := Text.stops_cons.1 ht
    have hapart : apart (some c) = true := by simp [apart, hc]
    rw [Text.occurrencesFrom, tokenAt_of_not_isStart (not_isStart_of_not_isChar hc),
      map_tokensFrom hapart]
    exact (tokens_append_of_not_isChar (List.forall_mem_singleton.2 hc) cs).symm

end Identifier

namespace Lexeme

variable {l : Lexeme} {t : Text}

/-- A part of a line with its brackets blanked too: of a node only the identifier is left. -/
def bare : Lexeme → Text
  | node e => e.id ++ List.replicate (e.brackets (fun text => text) ++ e.suffix).length ' '
  | l => l.blanked

theorem bare_of_ne (h : ∀ e, l ≠ node e) : l.bare = l.blanked := by
  cases l with
  | node e => exact absurd rfl (h e)
  | _ => rfl

theorem hide_blanked (l : Lexeme) :
    Text.hide ' ' (l.declared.map (·.bracketSpan)) l.blanked = l.bare := by
  cases l with
  | node e =>
    cases hlabel : e.label with
    | none =>
      simp [declared, blanked, bare, Token.declared, hlabel, Text.hide_nil,
        Token.blanked_of_none e hlabel, Token.brackets]
    | some label =>
      obtain ⟨b, text⟩ := label
      let box : Text := b.opener ++ (Line.maskEdgeLabels text ++ b.closer)
      let span : Span := ⟨e.id.length, e.id.length + box.length⟩
      have hblanked : e.blanked = e.id ++ box ++ List.replicate e.suffix.length ' ' := by
        simp [box, Token.blanked_of_label hlabel]
      have hspan : e.declared.map (·.bracketSpan) =
          [span] ++ ([] : List Span).map (Span.shift (e.id ++ box).length) := by
        simp [span, box, Token.declared, hlabel, Declaration.bracketSpan, Declaration.stop,
          Declaration.labelStop, Declaration.labelStart, Declaration.openerStart, Nat.add_assoc]
      have hbox : Text.hide ' ' ([span] ++ []) (e.id ++ box) =
          e.id ++ List.replicate box.length ' ' :=
        Text.hide_box rfl (List.forall_mem_nil _)
      have hwidth : (e.brackets (fun text => text) ++ e.suffix).length =
          box.length + e.suffix.length := by
        simp [box, Token.brackets, hlabel, Nat.add_assoc]
      have hstop : ∀ s ∈ [span], s.stop ≤ (e.id ++ box).length := by simp [span]
      rw [List.append_nil] at hbox
      rw [declared, blanked, hspan, hblanked, Text.hide_parts hstop, hbox, Text.hide_nil,
        bare, hwidth, List.append_assoc, List.replicate_append_replicate]
  | _ => exact Text.hide_nil ..

theorem stop_bracketSpan_le (l : Lexeme) :
    ∀ s ∈ l.declared.map (·.bracketSpan), s.stop ≤ l.blanked.length := by
  rw [l.length_blanked]
  cases l with
  | node e =>
    cases hlabel : e.label with
    | none => simp [declared, Token.declared, hlabel]
    | some label =>
      obtain ⟨b, text⟩ := label
      simp only [declared, Token.declared, hlabel, List.map_cons, List.map_nil,
        List.forall_mem_singleton, Declaration.bracketSpan, Declaration.stop, Declaration.labelStop,
        Declaration.labelStart, Declaration.openerStart, written, Token.written_of_label hlabel,
        List.length_append]
      omega
  | _ => exact List.forall_mem_nil _

/-- A text seen by the scan for identifiers is blanked part by part. -/
theorem Stands.bared_append (h : Stands l t) :
    Text.hide ' ' ((Line.shown (l.written ++ t)).map (·.bracketSpan))
      (Line.maskEdgeLabels (l.written ++ t)) =
      l.bare ++ Text.hide ' ' ((Line.shown t).map (·.bracketSpan)) (Line.maskEdgeLabels t) := by
  have hshift : (Line.shown t).map ((·.bracketSpan) ∘ Declaration.shift l.written.length) =
      ((Line.shown t).map (·.bracketSpan)).map (Span.shift l.blanked.length) := by
    rw [List.map_map, l.length_blanked]
    apply List.map_congr_left
    intro d _
    exact Slot.bracketSpan_shift l.written.length d
  rw [h.shown_append, h.masked, List.map_append, List.map_map, hshift,
    Text.hide_parts l.stop_bracketSpan_le, l.hide_blanked]

end Lexeme

namespace Row

variable {r : Row}

/-- A row as the scan for identifiers sees it. -/
def bare (r : Row) : Text := r.flatMap Lexeme.bare

theorem Sound.bared_written (h : Sound r) :
    Text.hide ' ' ((Line.shown r.written).map (·.bracketSpan)) (Line.maskEdgeLabels r.written) =
      r.bare := by
  induction r with
  | nil => rfl
  | cons l rest ih =>
    rw [written_cons, h.stands.bared_append, ih h.later, bare, bare, List.flatMap_cons]

theorem stops_bare (h : endsNode r = true) : Text.Stops Identifier.isChar r.bare := by
  cases r with
  | nil => exact Text.stops_nil _
  | cons l rest =>
    have hne := ne_node_of_endsNode h
    obtain ⟨c, cs, hc⟩ := List.exists_cons_of_ne_nil l.blanked_ne_nil
    have hchar := Lexeme.not_isChar_of_mem_blanked hne c (hc ▸ List.mem_cons_self)
    rw [bare, List.flatMap_cons, Lexeme.bare_of_ne hne, hc]
    exact Text.stops_cons.2 hchar

theorem nodes_behind {indent : Text} (h : ∀ c ∈ indent, Text.isBlank c = true) (r : Row) :
    (behind indent h r).nodes = r.nodes := by
  induction indent with
  | nil => rfl
  | cons c cs ih => rw [behind_cons, nodes, ih]

/-- The tokens that are left are the identifiers of the nodes. -/
theorem Sound.tokens_bare (h : Sound r) :
    (Identifier.tokens r.bare).map (·.2) = r.nodes.map (·.id) := by
  have hplain : ∀ {l : Lexeme} {rest : Row}, (∀ e, l ≠ .node e) →
      (Identifier.tokens (bare (l :: rest))).map (·.2) =
        (Identifier.tokens (bare rest)).map (·.2) := by
    intro l rest hne
    rw [bare, List.flatMap_cons, Lexeme.bare_of_ne hne]
    exact Identifier.tokens_append_of_not_isChar (Lexeme.not_isChar_of_mem_blanked hne) _
  induction h with
  | nil => rfl
  | blank _ ih => rw [hplain (by simp), ih, nodes]
  | ampersand _ ih => rw [hplain (by simp), ih, nodes]
  | arrow _ ih => rw [hplain (by simp), ih, nodes]
  | @node e rest _ apart _ ih =>
    let spaces : Text := List.replicate (e.brackets (fun text => text) ++ e.suffix).length ' '
    have hspaces : ∀ c ∈ spaces, Identifier.isChar c = false := by
      intro c hc
      rw [List.eq_of_mem_replicate hc]
      decide
    have hstops : Text.Stops Identifier.isChar (spaces ++ rest.bare) := by
      by_cases hnil : spaces = []
      · rw [hnil]
        exact stops_bare apart
      · obtain ⟨c, cs, hc⟩ := List.exists_cons_of_ne_nil hnil
        rw [hc]
        exact Text.stops_cons.2 (hspaces c (hc ▸ List.mem_cons_self))
    have hbare : bare (.node e :: rest) = e.id ++ (spaces ++ rest.bare) := by
      rw [bare, List.flatMap_cons, Lexeme.bare, List.append_assoc]
      rfl
    rw [hbare, Identifier.tokens_append_name e.id_valid hstops,
      Identifier.tokens_append_of_not_isChar hspaces, ih, nodes, List.map_cons]

/-- The identifiers on a sound row are those of its nodes. -/
theorem Sound.identifiers_written (h : Sound r) (hline : Line.isDirective r.written = false) :
    Line.identifiers r.written =
      distinct ((r.nodes.map (·.id)).filter fun name => !Keyword.isKeyword name) := by
  rw [Line.identifiers, hline, if_neg Bool.false_ne_true, Line.declarations_eq_shown hline]
  dsimp only
  rw [h.bared_written, h.tokens_bare]

end Row
end Chartwright
