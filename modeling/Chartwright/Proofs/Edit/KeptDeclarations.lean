import Chartwright.Proofs.Buffer.Shown
import Chartwright.Proofs.Edit.WellFormed
import Mathlib.Data.List.Perm.Basic
/-!
What a deletion leaves of the declarations of other nodes.

A declaration that is the only one of its node survives: on its line if that is kept or written
anew, and on a line of its own behind the header if its line is dropped (`deleteNode_declared`). So
it goes for every node that no token declares which is taken for the deleted one; if the deleted
name is an identifier, no such token declares another node.
-/
namespace Chartwright

namespace Token

/-- What a node declares, wherever it stands. -/
def content (e : Token) : List (Text × Bracket × Text) :=
  match e.label with
  | none => []
  | some (b, text) => [(e.id, b, text)]

theorem map_content_declared (e : Token) : e.declared.map Declaration.content = e.content := by
  rw [declared, content]
  cases e.label <;> rfl

theorem fst_of_mem_content {e : Token} {entry : Text × Bracket × Text} (h : entry ∈ e.content) :
    entry.1 = e.id := by
  rw [content] at h
  split at h
  · cases h
  · rw [List.mem_singleton.1 h]

end Token

namespace Row

variable {r : Row} {e : Token}

theorem map_content_declared (r : Row) :
    r.declared.map Declaration.content = r.nodes.flatMap Token.content := by
  induction r with
  | nil => rfl
  | cons l rest ih =>
    have hshift : ∀ n, ((declared rest).map (Declaration.shift n)).map Declaration.content =
        (nodes rest).flatMap Token.content := by
      intro n
      rw [← ih, List.map_map]
      rfl
    rw [declared, List.map_append, hshift]
    cases l with
    | node e => rw [Lexeme.declared, e.map_content_declared, nodes, List.flatMap_cons]
    | _ => rfl

theorem Sound.content_written (h : Sound r) (hline : Line.isDirective r.written = false) :
    (Line.declarations r.written).map Declaration.content = r.nodes.flatMap Token.content := by
  rw [h.declarations_written hline, map_content_declared]

theorem content_node (hclosed : e.Closed []) (hname : Keyword.isKeyword e.id = false) :
    (Line.declarations e.written).map Declaration.content = e.content := by
  have hrow : written [.node e] = e.written := List.append_nil _
  have hsound : Sound [.node e] := .node .nil rfl hclosed
  have hline := not_isDirective_node (List.forall_mem_nil _) hname (Text.stops_nil _)
  rw [List.nil_append, List.append_nil] at hline
  have hcontent := hsound.content_written (hrow ▸ hline)
  rwa [hrow, nodes, nodes, List.flatMap_cons, List.flatMap_nil, List.append_nil] at hcontent

end Row

namespace Buffer

variable {b : Buffer} {id x : Text} {line : Line} {i : Nat}

/-- What is declared of one node. -/
def declaredOf (x : Text) (b : Buffer) : List (Text × Bracket × Text) :=
  b.declared.filter fun entry => entry.1 = x

theorem declaredOf_append (x : Text) (b c : Buffer) :
    declaredOf x (b ++ c) = declaredOf x b ++ declaredOf x c := by
  rw [declaredOf, declared_append, List.filter_append]
  rfl

theorem declaredOf_singleton (x : Text) (line : Line) :
    declaredOf x [line] = ((Line.declarations line).map Declaration.content).filter fun entry =>
      entry.1 = x := by
  rw [declaredOf, declared, List.flatMap_singleton]

/-- No token on the line that is taken for the deleted node declares `x`. -/
def Clear (id x : Text) (line : Line) : Prop :=
  ∀ token ∈ Line.tokens line, isTokenOf id token = true → ∀ d ∈ Line.declarations token, d.id ≠ x

/-! ## What becomes of a line -/

/-- A node that declares `x` is kept. -/
theorem keeps_of_clear {e : Token} (hne : x ≠ id)
    (hclear : Identifier.valid id = true ∨ Clear id x line) (htoken : e.written ∈ Line.tokens line)
    (hclosed : e.Closed []) (hname : Keyword.isKeyword e.id = false) {entry : Text × Bracket × Text}
    (hentry : entry ∈ e.content) (hx : entry.1 = x) : e.keeps id = true := by
  have hid : e.id = x := (Token.fst_of_mem_content hentry).symm.trans hx
  rw [Token.keeps, Bool.not_eq_true']
  rcases hclear with hvalid | hclear
  · rw [e.isTokenOf_written hvalid, hid]
    exact decide_eq_false hne
  · rw [Bool.eq_false_iff]
    intro htaken
    rw [← Row.content_node hclosed hname] at hentry
    obtain ⟨d, hd, rfl⟩ := List.mem_map.1 hentry
    exact hclear e.written htoken htaken d hd hx

/-- So what the nodes of a row declare of `x` is declared by those that are kept. -/
theorem filter_content_keeps {r : Row} (hne : x ≠ id)
    (hclear : Identifier.valid id = true ∨ Clear id x line) (hsound : Row.Sound r)
    (htokens : Line.tokens line = r.nodes.map Token.written)
    (hnames : ∀ e ∈ r.nodes, Keyword.isKeyword e.id = false) :
    ((r.nodes.filter (·.keeps id)).flatMap Token.content).filter (fun entry => entry.1 = x) =
      (r.nodes.flatMap Token.content).filter fun entry => entry.1 = x := by
  rw [List.filter_flatMap, List.filter_flatMap]
  have hkeeps : ∀ e ∈ r.nodes, e.keeps id = false →
      e.content.filter (fun entry => entry.1 = x) = [] := by
    intro e he hgone
    rw [List.filter_eq_nil_iff]
    intro entry hentry hx
    have hkept := keeps_of_clear hne hclear (htokens ▸ List.mem_map_of_mem he)
      ((Row.sound_iff.1 hsound).2.1 e he) (hnames e he) hentry (of_decide_eq_true hx)
    rw [hgone] at hkept
    cases hkept
  generalize r.nodes = nodes at hkeeps
  induction nodes with
  | nil => rfl
  | cons e rest ih =>
    have ih := ih fun f hf => hkeeps f (List.mem_cons_of_mem _ hf)
    rw [List.filter_cons, List.flatMap_cons]
    split
    · rw [List.flatMap_cons, ih]
    · next hgone => rw [hkeeps e List.mem_cons_self (by simpa using hgone), ih, List.nil_append]

theorem content_restored {token : Text} {d : Declaration} (hd : d ∈ Line.declarations token) :
    (Line.declarations (indentUnit ++ d.written)).map Declaration.content = [d.content] := by
  obtain ⟨e, hwritten, hid, hlabel, hclosed, hname⟩ := Token.exists_of_mem_declarations hd
  have hnodes : (Row.ofNode e).nodes = [e] := by
    simp [Row.ofNode, Row.indented, List.replicate, Lexeme.space, Row.nodes]
  have hcontent :=
    (Row.sound_ofNode hclosed).content_written (Row.not_isDirective_ofNode (hid ▸ hname))
  rw [Row.written_ofNode, hwritten, hnodes, List.flatMap_singleton, Token.content,
    hlabel] at hcontent
  rw [hcontent, Declaration.content, hid]

/-- The lines that are restored declare of `x` what the tokens left of the line declare of it, if it
is declared on that line alone. -/
theorem declaredOf_orphanedBy {k : Chain} (hne : x ≠ id)
    (hsole : ∀ d ∈ (k.segments.flatMap (tokensLeft id)).flatMap Line.declarations, d.id = x →
    b.declaredOn x = [i]) : declaredOf x (b.orphanedBy id i k) =
      (((k.segments.flatMap (tokensLeft id)).flatMap Line.declarations).map
        Declaration.content).filter fun entry => entry.1 = x := by
  have horphans : b.orphanedBy id i k =
      (((k.segments.flatMap (tokensLeft id)).flatMap Line.declarations).filter fun d =>
        d.id ≠ id && b.declaredOn d.id == [i]).map fun d => indentUnit ++ d.written := by
    rw [orphanedBy, List.filter_flatMap, List.map_flatMap]
  have hdeclared : declared (b.orphanedBy id i k) =
      (((k.segments.flatMap (tokensLeft id)).flatMap Line.declarations).filter fun d =>
        d.id ≠ id && b.declaredOn d.id == [i]).map Declaration.content := by
    rw [horphans, declared, List.flatMap_map, List.map_eq_flatMap]
    refine List.flatMap_congr fun d hd => ?_
    obtain ⟨token, -, hd⟩ := List.mem_flatMap.1 (List.mem_filter.1 hd).1
    exact content_restored hd
  rw [declaredOf, hdeclared, List.filter_map, List.filter_map, List.filter_filter]
  congr 1
  refine List.filter_congr fun d hd => ?_
  simp only [Function.comp_apply, Declaration.content, Bool.and_eq_left_iff_imp]
  intro hx
  obtain rfl := of_decide_eq_true hx
  rw [hsole d hd rfl]
  simp [hne]

/-- What becomes of a line declares of `x` what the line declares of it. -/
theorem declaredOf_lineWithout (hne : x ≠ id) (hwell : Line.isWellFormed line = true)
    (hclear : Identifier.valid id = true ∨ (Line.isDirective line = false → Clear id x line))
    (hsole : ∀ d ∈ Line.declarations line, d.id = x → b.declaredOn x = [i]) :
    declaredOf x ((b.lineWithout id line i).1 ++ (b.lineWithout id line i).2) =
      declaredOf x [line] := by
  cases b.outcome id hwell i with
  | style styled outcome =>
    rw [outcome, declaredOf_singleton,
      Line.declarations_of_isDirective (StyleLine.isDirective_of_isFor styled)]
    rfl
  | kept _ _ outcome => rw [outcome, List.append_nil]
  | @rebuilt s plain written sound tokens named _ left outcome =>
    subst written
    rw [outcome, List.append_nil, declaredOf_singleton, declaredOf_singleton,
      (Strand.sound_without id sound).content_written
        (Strand.not_isDirective_without id sound named left),
      Strand.nodes_without, sound.content_written plain]
    exact filter_content_keeps hne (hclear.imp_right fun h => h plain) sound tokens named
  | @dropped s k plain written sound tokens named left outcome =>
    subst written
    have hcontent : ((k.segments.flatMap (tokensLeft id)).flatMap Line.declarations).map
        Declaration.content = (s.without id).row.nodes.flatMap Token.content := by
      rw [left, List.flatMap_map, List.map_flatMap]
      refine List.flatMap_congr fun e he => ?_
      rw [Strand.nodes_without] at he
      have he := (List.mem_filter.1 he).1
      exact Row.content_node ((Row.sound_iff.1 sound).2.1 e he) (named e he)
    have hline : (Line.declarations s.row.written).map Declaration.content =
        s.row.nodes.flatMap Token.content :=
      sound.content_written plain
    rw [outcome, List.nil_append, declaredOf_orphanedBy hne, hcontent, Strand.nodes_without,
      declaredOf_singleton, hline]
    · exact filter_content_keeps hne (hclear.imp_right fun h => h plain) sound tokens named
    · intro d hd hx
      have hmem := List.mem_map_of_mem (f := Declaration.content) hd
      rw [hcontent, Strand.nodes_without] at hmem
      obtain ⟨e, he, hentry⟩ := List.mem_flatMap.1 hmem
      have hmem := List.mem_flatMap_of_mem (List.mem_filter.1 he).1 hentry
      rw [← hline] at hmem
      obtain ⟨d', hd', heq⟩ := List.mem_map.1 hmem
      exact hsole d' hd' ((congrArg Prod.fst heq).trans hx)

/-! ## All lines -/

theorem length_declaredOn (b : Buffer) (x : Text) :
    (b.declaredOn x).length = (declaredOf x b).length := by
  have hfrom : ∀ n, ((b.zipIdx n).flatMap fun p =>
      ((Line.declarations p.1).filter (·.id = x)).map fun _ =>
        p.2).length = (declaredOf x b).length := by
    induction b with
    | nil => exact fun _ => rfl
    | cons line rest ih =>
      intro n
      rw [List.zipIdx_cons, List.flatMap_cons, List.length_append, ih,
        ← List.singleton_append (l := rest), declaredOf_append, List.length_append,
        declaredOf_singleton, List.filter_map, List.length_map, List.length_map]
      rfl
  exact hfrom 0

theorem declaredOn_eq {entry : Text × Bracket × Text} (h : declaredOf x b = [entry])
    (hline : b[i]? = some line) {d : Declaration} (hd : d ∈ Line.declarations line)
    (hx : d.id = x) : b.declaredOn x = [i] := by
  have hmem : i ∈ b.declaredOn x := by
    refine List.mem_flatMap.2 ⟨(line, i), List.mem_zipIdx_iff_getElem?.2 hline, ?_⟩
    exact List.mem_map.2 ⟨d, List.mem_filter.2 ⟨hd, decide_eq_true hx⟩, rfl⟩
  have hlength := length_declaredOn b x
  rw [h] at hlength
  obtain ⟨j, hj⟩ := List.length_eq_one_iff.1 hlength
  rw [hj] at hmem ⊢
  rw [List.mem_singleton.1 hmem]

theorem perm_declared {b c : Buffer} (h : b.Perm c) : b.declared.Perm c.declared :=
  h.flatMap_right _

/-- What a deletion declares of `x`, line by line. -/
theorem perm_declaredOf_deleteNode (b : Buffer) (id x : Text) :
    (declaredOf x (b.deleteNode id)).Perm
      (b.zipIdx.flatMap fun p =>
        declaredOf x ((b.lineWithout id p.1 p.2).1 ++ (b.lineWithout id p.1 p.2).2)) := by
  have hlines : (b.deleteNode id).Perm
      (b.zipIdx.flatMap fun p => (b.lineWithout id p.1 p.2).1 ++ (b.lineWithout id p.1 p.2).2) := by
    rw [deleteNode_eq]
    exact ((perm_insertAfterHeader _ _).trans List.perm_append_comm).trans
      (List.flatMap_append_perm ..)
  have hparts : ∀ outcome : Line × Nat → List Line,
      declaredOf x (b.zipIdx.flatMap outcome) = b.zipIdx.flatMap fun p =>
        declaredOf x (outcome p) := by
    intro outcome
    simp only [declaredOf, declared, List.flatMap_assoc, List.filter_flatMap]
  exact hparts _ ▸ (perm_declared hlines).filter _

theorem declaredOf_ofText_deleteNode (t id x : Text) :
    declaredOf x (ofText (Command.onLines (·.deleteNode id) t)) =
      declaredOf x ((ofText t).deleteNode id) := by
  rcases ofText_deleteNode t id with heq | ⟨hnil, heq⟩
  · rw [heq]
  · rw [heq, hnil]
    rfl

theorem declaredOf_eq_flatMap (b : Buffer) (x : Text) :
    declaredOf x b = b.zipIdx.flatMap fun p => declaredOf x [p.1] := by
  have hfst : b.zipIdx.flatMap (fun p => declaredOf x [p.1]) =
      (b.zipIdx.map (·.1)).flatMap fun line => declaredOf x [line] :=
    (List.flatMap_map Prod.fst (fun line => declaredOf x [line]) _).symm
  rw [hfst, List.zipIdx_map_fst, declaredOf, declared, List.filter_flatMap]
  simp only [declaredOf_singleton]

/-- A line that declares a node with one declaration declares it as the buffer does. -/
theorem declaredOf_line {entry : Text × Bracket × Text} (h : declaredOf x b = [entry])
    (hline : line ∈ b) {d : Declaration} (hd : d ∈ Line.declarations line) (hx : d.id = x) :
    d.content = entry ∧ declaredOf x [line] = [entry] := by
  have hmem : d.content ∈ declaredOf x [line] := by
    rw [declaredOf_singleton]
    exact List.mem_filter.2 ⟨List.mem_map_of_mem hd, decide_eq_true hx⟩
  have hsub : (declaredOf x [line]).Sublist [entry] := by
    obtain ⟨b₁, b₂, rfl⟩ := List.append_of_mem hline
    rw [← List.singleton_append, declaredOf_append, declaredOf_append] at h
    rw [← h]
    exact (List.sublist_append_left _ _).trans (List.sublist_append_right _ _)
  rcases List.sublist_singleton.1 hsub with hnil | hall
  · rw [hnil] at hmem
    cases hmem
  · rw [hall] at hmem
    exact ⟨List.mem_singleton.1 hmem, hall⟩

/-- What is declared once of another node is declared once after a deletion, with the same brackets
and the same label: on what is left of its line, or if nothing is left of it on a line of its own
behind the header. No token that declares the node may be taken for the deleted one, which none is
if that has an identifier for a name. -/
theorem deleteNode_declared {t id x : Text} {entry : Text × Bracket × Text}
    (hwell : ∀ line ∈ ofText t, Line.isWellFormed line = true) (hne : x ≠ id)
    (hclear : Identifier.valid id = true ∨ ∀ line ∈ ofText t, Line.isDirective line = false →
    Clear id x line) (hsole : declaredOf x (ofText t) = [entry]) :
    declaredOf x (ofText (Command.onLines (·.deleteNode id) t)) = [entry] ∧
    (ofText t).deleteNode id = insertAfterHeader ((ofText t).restored id) ((ofText t).kept id) ∧
    ∀ i line, (ofText t)[i]? = some line → ∀ d ∈ Line.declarations line, d.id = x →
      (∃ left, (ofText t).lineWithout id line i = ([left], []) ∧ declaredOf x [left] = [entry]) ∨
      (((ofText t).lineWithout id line i).1 = [] ∧
        indentUnit ++ d.written ∈ ((ofText t).lineWithout id line i).2) := by
  have hpart : ∀ p ∈ (ofText t).zipIdx,
      declaredOf x (((ofText t).lineWithout id p.1 p.2).1 ++
        ((ofText t).lineWithout id p.1 p.2).2) = declaredOf x [p.1] := by
    intro p hp
    have hmem := List.fst_mem_of_mem_zipIdx hp
    exact declaredOf_lineWithout hne (hwell p.1 hmem) (hclear.imp_right fun h => h p.1 hmem)
      fun d hd hx => declaredOn_eq hsole (List.mem_zipIdx_iff_getElem?.1 hp) hd hx
  refine ⟨?_, deleteNode_eq .., fun i line hline d hd hx => ?_⟩
  · have hperm := perm_declaredOf_deleteNode (ofText t) id x
    rw [List.flatMap_congr hpart, ← declaredOf_eq_flatMap, hsole] at hperm
    rw [declaredOf_ofText_deleteNode]
    exact List.perm_singleton.1 hperm
  · have hmem := List.mem_of_getElem? hline
    obtain ⟨hcontent, hall⟩ := declaredOf_line hsole hmem hd hx
    have hleft := (hpart (line, i) (List.mem_zipIdx_iff_getElem?.2 hline)).trans hall
    cases (ofText t).outcome id (hwell line hmem) i with
    | style styled _ =>
      rw [Line.declarations_of_isDirective (StyleLine.isDirective_of_isFor styled)] at hd
      cases hd
    | kept _ _ outcome => exact .inl ⟨line, outcome, hall⟩
    | rebuilt _ _ _ _ _ _ _ outcome =>
      rw [outcome, List.append_nil] at hleft
      exact .inl ⟨_, outcome, hleft⟩
    | dropped _ _ _ _ _ _ outcome =>
      rw [outcome, List.nil_append] at hleft
      rw [outcome]
      refine .inr ⟨rfl, ?_⟩
      obtain ⟨restored, hrestored, d', hd', hentry⟩ := mem_declared.1
        (List.mem_filter.1 (hleft ▸ List.mem_singleton_self entry : entry ∈ declaredOf x _)).1
      obtain ⟨token, -, other, hother, -, -, rfl⟩ := exists_of_mem_orphanedBy hrestored
      have hsame := List.mem_map_of_mem (f := Declaration.content) hd'
      rw [content_restored hother, List.mem_singleton, hentry, ← hcontent] at hsame
      obtain ⟨hid, hbracket, hlabel⟩ : d.id = other.id ∧ d.bracket = other.bracket ∧
        d.label = other.label := by
        simpa [Declaration.content] using hsame
      rwa [Declaration.written, hid, hbracket, hlabel]

/-- A declaration in the middle of a chain is restored behind the header, and one in a group stays
on its line. -/
theorem deleteNode_declared_of_chain :
    declaredOf "B".toList (ofText (Command.onLines (·.deleteNode "A".toList)
        "flowchart LR\nA --> B(b --> A) --> C\nA & D{d} --> E".toList)) =
      [("B".toList, .round, "b --> A".toList)] ∧
    declaredOf "D".toList (ofText (Command.onLines (·.deleteNode "A".toList)
        "flowchart LR\nA --> B(b --> A) --> C\nA & D{d} --> E".toList)) =
      [("D".toList, .brace, "d".toList)] :=
  ⟨(deleteNode_declared (by decide +kernel) (by decide) (.inl (by decide)) (by decide +kernel)).1,
    (deleteNode_declared (by decide +kernel) (by decide) (.inl (by decide)) (by decide +kernel)).1⟩

/-- A declaration of another node that a deletion loses, in a well-formed text. -/
def LosesDeclaration (t id x : Text) : Prop :=
  (∀ line ∈ ofText t, Line.isWellFormed line = true) ∧ x ≠ id ∧
    (declaredOf x (ofText t)).length = 1 ∧
      declaredOf x (ofText (Command.onLines (·.deleteNode id) t)) = []

instance (t id x : Text) : Decidable (LosesDeclaration t id x) :=
  inferInstanceAs (Decidable (_ ∧ _))

/-- A name that is no identifier can be a whole declaration, or end inside of one. -/
theorem losesDeclaration_of_name :
    LosesDeclaration "A[a] --> B".toList "A[a]".toList "A".toList ∧
    LosesDeclaration "A[a b] & C --> B".toList "A[a".toList "A".toList := by
  decide +kernel

end Buffer
end Chartwright
