import Chartwright.Edit.Subgraph
import Chartwright.Proofs.Line.LinkRow
import Chartwright.Proofs.Line.OuterBlanks
/-!
Lines with one node alone: its name, or nothing but a declaration of it.

Such a line neither opens nor closes anything, links nothing, and names the node
(`Line.HoldsAlone`). So does a declaration that stands alone on its line
(`Line.holdsAlone_of_isStandalone`) and the bare name with any blanks around it
(`Line.holdsAlone_of_trim_eq`), which declares and refers to nothing.
-/
namespace Chartwright

namespace Line

variable {name indent : Text} {line line' : Line}

/-- A line names one node, and shows nothing else but what it may declare of it. -/
structure HoldsAlone (name : Text) (line : Line) : Prop where
  opens : opensSubgraph line = false
  closes : closesSubgraph line = false
  identifiers : identifiers line = [name]
  edge : Buffer.edgeOn? line 0 = none

theorem HoldsAlone.of_view (h : HoldsAlone name line) (hview : view line' = view line) :
    HoldsAlone name line' where
  opens := (congrArg View.opens hview).trans h.opens
  closes := (congrArg View.closes hview).trans h.closes
  identifiers := (congrArg View.identifiers hview).trans h.identifiers
  edge := (congrArg View.edge hview).trans h.edge

theorem holdsAlone_ofNode {e : Token} (hclosed : e.Closed [])
    (hname : Keyword.isKeyword e.id = false) : HoldsAlone e.id (Row.ofNode e).written where
  opens := by
    rw [Row.written_ofNode]
    refine not_opensSubgraph Row.blank_of_mem_indentUnit e.id_valid hname ?_
    cases hlabel : e.label with
    | none =>
      rw [Token.brackets, hlabel]
      rcases Line.suffix_eq e.suffix_read with hnil | ⟨word, -, heq, -⟩
      · rw [hnil]
        exact Text.stops_nil _
      · rw [heq]
        exact Text.stops_cons.2 (by decide)
    | some label =>
      obtain ⟨b, text⟩ := label
      rw [Token.brackets, hlabel, List.append_assoc]
      exact b.stops_isChar_opener _
  closes := by
    refine Bool.eq_false_iff.2 fun hcloses => ?_
    have hplain := Row.not_isDirective_ofNode hname
    rw [isDirective_of_closesSubgraph hcloses] at hplain
    cases hplain
  identifiers := by
    have hnodes : (Row.ofNode e).nodes = [e] := by
      simp [Row.ofNode, Row.indented, List.replicate, Lexeme.space, Row.nodes]
    rw [(Row.sound_ofNode hclosed).identifiers_written (Row.not_isDirective_ofNode hname), hnodes,
      List.map_singleton, List.filter_cons_of_pos (by simp [hname])]
    rfl
  edge := Row.edgeOn?_ofNode hclosed hname 0

theorem HoldsAlone.eq_of_mem_refers (h : HoldsAlone name line) {e : Text × Text × Shape}
    (he : e ∈ refers line) : e.1 = name := by
  have hmem := (mem_refers he).1
  rw [h.identifiers] at hmem
  exact List.mem_singleton.1 hmem

theorem HoldsAlone.style (h : HoldsAlone name line) : StyleLine.read line = .ok none := by
  refine StyleLine.read_of_not_isDirective (Bool.eq_false_iff.2 fun hdirective => ?_)
  have hnames := h.identifiers
  rw [identifiers_of_isDirective hdirective] at hnames
  cases hnames

theorem hasArrow_of_noArrow (h : NoArrow line) : hasArrow line = false := by
  induction line with
  | nil => rfl
  | cons c cs ih =>
    obtain ⟨hdash, hequal⟩ := h c List.mem_cons_self
    rw [hasArrow, Arrow.occursIn, Arrow.read?_of_ne hdash hequal]
    exact ih fun d hd => h d (List.mem_cons_of_mem c hd)

/-! ## Bare names -/

section Bare

variable (hid : Identifier.valid name = true) (hname : Keyword.isKeyword name = false)

theorem trim_bare (hindent : ∀ c ∈ indent, Text.isBlank c = true)
    (hid : Identifier.valid name = true) : Text.trim (indent ++ name) = name := by
  have htight := Text.tight_of_forall (Identifier.ne_nil_of_valid hid) fun c hc =>
    Identifier.not_isBlank_of_isChar (Identifier.isChar_of_valid hid c hc)
  rw [Text.trim_append_left hindent, Text.trim_of_stops htight.front htight.back]

include hname

theorem view_of_trim_eq (h : Text.trim line = name) :
    view line = view (Row.ofNode (Token.bare name hid)).written := by
  have hwritten : (Token.bare name hid).written = name := by
    simp [Token.bare, Token.written, Token.brackets]
  have hplain : isDirective ([] ++ (name ++ [])) = false :=
    not_isDirective (List.forall_mem_nil _) hid hname (Text.stops_nil _)
  rw [List.nil_append, List.append_nil] at hplain
  obtain ⟨x, y, hline, hx, hy⟩ := exists_eq_append_trim line
  rw [h] at hline
  rw [Row.written_ofNode, hwritten, view_blanks_append Row.blank_of_mem_indentUnit, hline,
    view_blanks_append hx, view_append_blanks hy hplain]

include hid

theorem holdsAlone_of_trim_eq (h : Text.trim line = name) : HoldsAlone name line := by
  have halone := holdsAlone_ofNode (e := Token.bare name hid) (fun b text h => by cases h) hname
  exact halone.of_view (view_of_trim_eq hid hname h)

theorem declared_of_trim_eq (h : Text.trim line = name) :
    (declarations line).map Declaration.content = [] := by
  have hnone : declarations (Row.ofNode (Token.bare name hid)).written = [] := by
    rw [Row.declarations_ofNode (fun b text h => by cases h) hname]
    rfl
  exact (congrArg View.declared (view_of_trim_eq hid hname h)).trans
    (congrArg (List.map Declaration.content) hnone)

theorem declares_of_trim_eq (h : Text.trim line = name) : declares line = [] := by
  have hnone := List.map_eq_nil_iff.1 (declared_of_trim_eq hid hname h)
  rw [declares, hnone, List.map_nil]

omit hname in
theorem refers_of_trim_eq (h : Text.trim line = name) : refers line = [] := by
  have hbare : NoArrow name := fun c hc => by
    have hchar := Identifier.isChar_of_valid hid c hc
    exact ⟨Identifier.ne_of_isChar hchar (by decide), Identifier.ne_of_isChar hchar (by decide)⟩
  obtain ⟨x, y, hline, hx, hy⟩ := exists_eq_append_trim line
  rw [h] at hline
  rw [refers, hline, hasArrow_blanks_append hx, hasArrow_append_blanks hy,
    hasArrow_of_noArrow hbare, if_neg Bool.false_ne_true]

end Bare

/-! ## Declarations that stand alone -/

theorem isStandalone_iff : Buffer.isStandalone name line = true ↔
    ∃ d, declarations line = [d] ∧ d.id = name ∧ Text.trim line = d.written := by
  rw [Buffer.isStandalone]
  split
  · next d hd => simp [hd]
  · next hnone =>
    constructor
    · intro h
      cases h
    · rintro ⟨d, hd, -⟩
      exact absurd hd (hnone d)

theorem not_isDirective_of_isStandalone (h : Buffer.isStandalone name line = true) :
    isDirective line = false := by
  obtain ⟨d, hd, -⟩ := isStandalone_iff.1 h
  exact (mem_declarations.1 (hd ▸ List.mem_singleton_self d)).1

theorem holdsAlone_of_isStandalone (h : Buffer.isStandalone name line = true) :
    HoldsAlone name line := by
  have hview := view_reindent Row.blank_of_mem_indentUnit (not_isDirective_of_isStandalone h)
  obtain ⟨d, hd, rfl, htrim⟩ := isStandalone_iff.1 h
  obtain ⟨e, hwritten, hid, -, hclosed, hname⟩ :=
    Token.exists_of_mem_declarations (hd ▸ List.mem_singleton_self d : d ∈ declarations line)
  have halone := holdsAlone_ofNode hclosed (hid ▸ hname)
  rw [Row.written_ofNode, hwritten, hid, ← htrim] at halone
  exact halone.of_view hview.symm

theorem declares_eq_map (line : Line) : declares line =
    ((declarations line).map Declaration.content).map fun e => (e.1, e.2.2, e.2.1.shape) := by
  rw [declares, List.map_map]
  rfl

end Line

end Chartwright
