import Chartwright.Proofs.Line.TokenLink
/-!
A row that links two nodes, the first of them bare, and a row of one node: what an edit writes on a
line of its own.

Whatever the label of the second node holds, such a line shows exactly the link that was written and
declares exactly that node, whatever blanks stand before it (`Row.edgeOn?_linkBehind`,
`Row.declarations_linkBehind`).
-/
namespace Chartwright

namespace Token

/-- An identifier alone. -/
def bare (id : Text) (h : Identifier.valid id = true) : Token where
  id := id
  label := none
  suffix := []
  id_valid := h
  label_held := by simp
  suffix_read := .inl rfl

/-- An identifier with a label between brackets. -/
def boxed (id : Text) (b : Bracket) (label : Text) (h : Identifier.valid id = true)
    (hname : Keyword.isKeyword id = false) (hlabel : b.Holds label) : Token where
  id := id
  label := some (b, label)
  suffix := []
  id_valid := h
  label_held := by
    rintro b' text h
    cases h
    exact ⟨hlabel, hname⟩
  suffix_read := .inl rfl

theorem anchored_bare (id : Text) (h : Identifier.valid id = true) : (bare id h).Anchored :=
  fun _ => rfl

theorem anchored_of_label {e : Token} (h : e.label ≠ none) : e.Anchored :=
  fun hnone => absurd hnone h

/-- A declaration is a node of its own. -/
theorem exists_of_mem_declarations {l : Line} {d : Declaration} (hd : d ∈ Line.declarations l) :
    ∃ e : Token, e.written = d.written ∧ e.id = d.id ∧ e.label = some (d.bracket, d.label) ∧
      e.Closed [] ∧ Keyword.isKeyword d.id = false := by
  obtain ⟨front, back, -, -, hvalid, hname, hheld, hconfined⟩ := Line.exists_of_mem_declarations hd
  refine ⟨boxed d.id d.bracket d.label hvalid hname hheld, ?_, rfl, rfl, ?_, hname⟩
  · rw [written_of_label rfl]
    simp [boxed, Declaration.written]
  -- behind the closer there is nothing that a label of an arrow could run to
  · rintro b text ⟨⟩
    simpa [boxed] using hconfined.cut Line.edgeLabelAt_isLocal

end Token

namespace Lexeme

def space : Lexeme := .blank ' ' (by decide)

end Lexeme

namespace Row

/-- A row behind blanks. -/
def behind (indent : Text) (h : ∀ c ∈ indent, Text.isBlank c = true) (r : Row) : Row :=
  indent.pmap Lexeme.blank h ++ r

/-- A row behind four spaces. -/
def indented (r : Row) : Row := List.replicate 4 .space ++ r

/-- A link of two nodes on a line of its own, behind blanks. -/
def linkBehind (indent : Text) (h : ∀ c ∈ indent, Text.isBlank c = true) (source : Token) (p : Tip)
    (target : Token) : Row :=
  behind indent h [.node source, .space, .arrow p, .space, .node target]

/-- A link of two nodes on a line of its own. -/
def ofLink (source : Token) (p : Tip) (target : Token) : Row :=
  indented [.node source, .space, .arrow p, .space, .node target]

/-- A node on a line of its own. -/
def ofNode (e : Token) : Row := indented [.node e]

variable {source target e : Token} {p : Tip} {r : Row}

section Behind

variable {indent : Text} (h : ∀ c ∈ indent, Text.isBlank c = true)

theorem behind_cons {c : Char} {cs : Text} (h : ∀ d ∈ c :: cs, Text.isBlank d = true) (r : Row) :
    behind (c :: cs) h r =
      .blank c (h c List.mem_cons_self) ::
      behind cs (fun d hd => h d (List.mem_cons_of_mem c hd)) r :=
  rfl

theorem written_behind (r : Row) : (behind indent h r).written = indent ++ written r := by
  induction indent with
  | nil => rfl
  | cons c cs ih =>
    rw [behind_cons, written_cons, ih, Lexeme.written, List.singleton_append, List.cons_append]

theorem filled_behind (r : Row) : (behind indent h r).filled = indent ++ filled r := by
  induction indent with
  | nil => rfl
  | cons c cs ih =>
    rw [behind_cons, filled_cons, ih, Lexeme.filled, List.singleton_append, List.cons_append]

theorem declared_behind (r : Row) :
    (behind indent h r).declared = r.declared.map (Declaration.shift indent.length) := by
  induction indent with
  | nil =>
    have hzero : Declaration.shift 0 = id := rfl
    rw [List.length_nil, hzero, List.map_id]
    rfl
  | cons c cs ih =>
    have hnone : ∀ hc, (Lexeme.blank c hc).declared = [] := fun _ => rfl
    rw [behind_cons, declared, ih, hnone, List.nil_append, List.map_map]
    apply List.map_congr_left
    intro d _
    rw [Function.comp_apply, Declaration.shift_shift, Lexeme.written, List.length_singleton,
      List.length_cons]

theorem Sound.behind (hr : Sound r) : Sound (behind indent h r) := by
  induction indent with
  | nil => exact hr
  | cons c cs ih =>
    rw [behind_cons]
    exact .blank (ih _)

end Behind

theorem written_indented (r : Row) : (indented r).written = indentUnit ++ written r := rfl

theorem written_ofNode (e : Token) : (ofNode e).written = indentUnit ++ e.written := by
  rw [ofNode, written_indented, written_cons, Lexeme.written]
  exact congrArg _ (List.append_nil _)

theorem blank_of_mem_indentUnit : ∀ c ∈ indentUnit, Text.isBlank c = true :=
  List.all_eq_true.1 (by decide)

theorem Sound.indented (h : Sound r) : Sound (indented r) := h.behind blank_of_mem_indentUnit

theorem sound_ofNode (h : e.Closed []) : Sound (ofNode e) := Sound.indented (.node .nil rfl h)

/-- A line that begins with a node is no directive unless the node is called like a keyword. -/
theorem not_isDirective_node {indent t : Text} (hindent : ∀ c ∈ indent, Text.isBlank c = true)
    (hname : Keyword.isKeyword e.id = false) (ht : Line.Ends t) :
    Line.isDirective (indent ++ (e.written ++ t)) = false := by
  rw [Token.written, List.append_assoc]
  apply Line.not_isDirective hindent e.id_valid hname
  cases hlabel : e.label with
  | none =>
    rw [Token.brackets, hlabel]
    rcases Line.suffix_eq e.suffix_read with hnil | ⟨word, -, heq, -⟩
    · rw [hnil]
      exact ht.stops_isLetter
    · rw [heq]
      exact Text.stops_cons.2 (by decide)
  | some label =>
    obtain ⟨b, text⟩ := label
    rw [Token.brackets, hlabel]
    cases b <;> exact Text.stops_cons.2 (by decide)

theorem not_isDirective_behind {indent : Text} (h : ∀ c ∈ indent, Text.isBlank c = true)
    {rest : Row} (hname : Keyword.isKeyword e.id = false) (hrest : endsNode rest = true) :
    Line.isDirective (behind indent h (.node e :: rest)).written = false := by
  rw [written_behind, written_cons]
  exact not_isDirective_node h hname (ends_written hrest)

theorem not_isDirective_ofNode (hname : Keyword.isKeyword e.id = false) :
    Line.isDirective (ofNode e).written = false :=
  not_isDirective_behind blank_of_mem_indentUnit hname rfl

/-! ## Links -/

section Link

variable {indent : Text} (h : ∀ c ∈ indent, Text.isBlank c = true)

theorem sound_linkBehind (hsource : source.label = none) (htarget : target.Closed []) :
    Sound (linkBehind indent h source p target) := by
  exact Sound.behind h
    (.node (.blank (.arrow (.blank (.node .nil rfl htarget)))) rfl (Token.closed_of_none hsource _))

theorem not_isDirective_linkBehind (hname : Keyword.isKeyword source.id = false) :
    Line.isDirective (linkBehind indent h source p target).written = false :=
  not_isDirective_behind h hname rfl

theorem filled_linkBehind : (linkBehind indent h source p target).filled =
    indent ++ (source.filled ++ ([' '] ++ (p.written ++ ([' '] ++ (target.filled ++ []))))) := by
  simp [linkBehind, filled_behind, Lexeme.filled, Lexeme.space]

theorem ends_link?_linkBehind (hsource : source.label = none) (hsuffix : source.suffix = [])
    (htarget : target.Closed []) (hname : Keyword.isKeyword source.id = false) :
    (Line.link? (linkBehind indent h source p target).written).map (fun (_, l) => l.ends) =
      some (source.id, p.connector [' '] [' '], target.id) := by
  have hindent : ∀ c ∈ indent, Identifier.isChar c = false :=
    fun c hc => Identifier.not_isChar_of_isBlank (h c hc)
  have hstart : ∀ c ∈ indent, Identifier.isStart c = false :=
    fun c hc => Identifier.not_isStart_of_not_isChar (hindent c hc)
  have hends : Line.Ends ([' '] ++ (p.written ++ ([' '] ++ (target.filled ++ [])))) :=
    Text.stops_cons.2 (by decide)
  have htail :=
    target.tail?_between p Text.isBlank_of_mem_space Text.isBlank_of_mem_space (Text.stops_nil _)
  rw [Line.link?, (sound_linkBehind h hsource htarget).maskLabels_written
      (not_isDirective_linkBehind h hname),
    Link.ends_first?, filled_linkBehind, Link.firstEnds?_append_of_not_isStart hstart]
  exact Token.firstEnds?_of_tail? (Identifier.apart_endOf_of_isBlank h)
    (fun _ => hsuffix) hends htail

/-- A line that links two nodes shows the edge between them. -/
theorem edgeOn?_linkBehind (hsource : source.label = none) (hsuffix : source.suffix = [])
    (htarget : target.Closed []) (hname : Keyword.isKeyword source.id = false) (i : Nat) :
    Buffer.edgeOn? (linkBehind indent h source p target).written i = some ⟨source.id, target.id,
      (p.label.map (·.text)).getD [], Arrow.ofSpelling p.spelling, i⟩ := by
  rw [Buffer.edgeOn?_eq (not_isDirective_linkBehind h hname),
    ends_link?_linkBehind h hsource hsuffix htarget hname, Option.bind_some]
  exact if_neg (by simp [hname])

/-- It declares the second node, if that has a label. -/
theorem declarations_linkBehind (hsource : source.label = none) (htarget : target.Closed [])
    (hname : Keyword.isKeyword source.id = false) :
    Line.declarations (linkBehind indent h source p target).written =
      target.declared.map
        (Declaration.shift
          (indent ++ (source.written ++ ([' '] ++ (p.written ++ [' '])))).length) := by
  have hnone : source.declared = [] := by simp [Token.declared, hsource]
  rw [(sound_linkBehind h hsource htarget).declarations_written
      (not_isDirective_linkBehind h hname), linkBehind,
    declared_behind]
  simp only [declared, Lexeme.declared, Lexeme.space, hnone, List.nil_append, List.map_nil,
    List.append_nil, List.map_map]
  apply List.map_congr_left
  intro d _
  simp only [Function.comp_apply, Declaration.shift_shift]
  congr 1
  simp [Lexeme.written]
  omega

end Link

theorem not_isDirective_ofLink (hname : Keyword.isKeyword source.id = false) :
    Line.isDirective (ofLink source p target).written = false :=
  not_isDirective_linkBehind blank_of_mem_indentUnit hname

theorem edgeOn?_ofLink (hsource : source.label = none) (hsuffix : source.suffix = [])
    (htarget : target.Closed []) (hname : Keyword.isKeyword source.id = false) (i : Nat) :
    Buffer.edgeOn? (ofLink source p target).written i = some ⟨source.id, target.id,
      (p.label.map (·.text)).getD [], Arrow.ofSpelling p.spelling, i⟩ :=
  edgeOn?_linkBehind blank_of_mem_indentUnit hsource hsuffix htarget hname i

theorem declarations_ofLink (hsource : source.label = none) (htarget : target.Closed [])
    (hname : Keyword.isKeyword source.id = false) :
    Line.declarations (ofLink source p target).written =
      target.declared.map
        (Declaration.shift
          (indentUnit ++ (source.written ++ ([' '] ++ (p.written ++ [' '])))).length) :=
  declarations_linkBehind blank_of_mem_indentUnit hsource htarget hname

/-- A line with one node alone shows no edge. -/
theorem edgeOn?_ofNode (hclosed : e.Closed []) (hname : Keyword.isKeyword e.id = false) (i : Nat) :
    Buffer.edgeOn? (ofNode e).written i = none := by
  have hindent : ∀ c ∈ indentUnit, Identifier.isStart c = false :=
    Text.forall_mem_of_all (by decide)
  have hfilled : (ofNode e).filled = indentUnit ++ (e.filled ++ []) := rfl
  have hends : Link.ends? (e.filled ++ []) = none := by
    by_cases hlabel : e.label = none
    · exact Token.ends?_filled_of_none hlabel (Text.stops_nil _) rfl
    · rw [Token.ends?_filled (Token.anchored_of_label hlabel) (Text.stops_nil _)]
      cases e.label <;> rfl
  have hfirst : Link.firstEnds? (Text.endOf none indentUnit) (e.filled ++ []) = none := by
    rw [Token.firstEnds?_filled (by decide) (Text.stops_nil _) rfl, hends, Link.firstEnds?_nil]
    rfl
  have hlink : (Line.link? (ofNode e).written).map (fun (_, l) => l.ends) = none := by
    rw [Line.link?, (sound_ofNode hclosed).maskLabels_written (not_isDirective_ofNode hname),
      Link.ends_first?, hfilled, Link.firstEnds?_append_of_not_isStart hindent, hfirst]
  rw [Buffer.edgeOn?_eq (not_isDirective_ofNode hname), hlink, Option.bind_none]

theorem declarations_ofNode (hclosed : e.Closed []) (hname : Keyword.isKeyword e.id = false) :
    Line.declarations (ofNode e).written =
      e.declared.map (Declaration.shift indentUnit.length) := by
  rw [(sound_ofNode hclosed).declarations_written (not_isDirective_ofNode hname)]
  simp only [ofNode, indented, List.replicate, List.cons_append, List.nil_append, declared,
    Lexeme.declared, Lexeme.space, List.map_nil, List.append_nil, List.map_map]
  apply List.map_congr_left
  intro d _
  simp only [Function.comp_apply, Declaration.shift_shift]
  rfl

end Row
end Chartwright
