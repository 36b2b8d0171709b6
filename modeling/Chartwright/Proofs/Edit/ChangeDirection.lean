import Chartwright.Proofs.Buffer.EdgeEnds
import Chartwright.Proofs.Buffer.HeaderToken
import Chartwright.Proofs.Buffer.View
import Chartwright.Proofs.Line.OuterBlanks
/-!
What the scans show once the direction is changed.

Another direction changes one line, the one with the token of the header (`ofText_around`). The
header is read across the lines, and its token can stand on a later line than its word. If both
stand on one line, that line is a directive, and shows nothing whatever the token is. Else the line
begins with the token, and this is the name of a node there: so it is another node that is named
after the change (`Header.setDirection_isTurned`). Neither line sets a style or opens or closes a
subgraph.
-/
namespace Chartwright

/-! ## The line with the token -/

namespace Text

/-- What stands behind the last line feed of a text. -/
def lastLine (t : Text) : Text := (t.reverse.takeWhile (· != '\n')).reverse

variable {x z : Text}

theorem lastLine_append_of_mem (h : '\n' ∈ z) : lastLine (x ++ z) = lastLine z := by
  have hstops : z.reverse.all (· != '\n') = false := by simpa using h
  rw [lastLine, List.reverse_append, takeWhile_append_of_all_eq_false hstops, lastLine]

theorem lastLine_append_of_not_mem (h : '\n' ∉ z) : lastLine (x ++ z) = lastLine x ++ z := by
  have hall : ∀ c ∈ z.reverse, (c != '\n') = true := by
    intro c hc
    rw [bne_iff_ne]
    rintro rfl
    exact h (List.mem_reverse.1 hc)
  rw [lastLine, List.reverse_append, List.takeWhile_append_of_pos hall, List.reverse_append,
    List.reverse_reverse, lastLine]

theorem lastLine_eq_nil (h : ∀ c ∈ x.getLast?, c = '\n') : lastLine x = [] := by
  rw [← List.head?_reverse] at h
  have hstops : Stops (· != '\n') x.reverse := fun c hc => by rw [h c hc]; rfl
  rw [lastLine, takeWhile_eq_nil_of_stops hstops, List.reverse_nil]

theorem mem_of_mem_lastLine {c : Char} (h : c ∈ lastLine x) : c ∈ x :=
  List.mem_reverse.1 ((List.takeWhile_sublist _).subset (List.mem_reverse.1 h))

theorem lineFeed_not_mem_lastLine (t : Text) : '\n' ∉ lastLine t := by
  intro h
  have hall := List.all_eq_true.1 (List.all_takeWhile (p := (· != '\n')) (l := t.reverse))
    _ (List.mem_reverse.1 h)
  simp at hall

theorem exists_lastLine (t : Text) : lastLine t = t ∨ ∃ y, t = y ++ '\n' :: lastLine t := by
  have hsplit :=
    congrArg List.reverse (List.takeWhile_append_dropWhile (p := (· != '\n')) (l := t.reverse))
  rw [List.reverse_append, List.reverse_reverse] at hsplit
  cases hrest : t.reverse.dropWhile (· != '\n') with
  | nil =>
    rw [hrest] at hsplit
    exact .inl hsplit
  | cons c cs =>
    obtain rfl : c = '\n' := by
      have hc := List.head?_dropWhile_not (· != '\n') t.reverse
      rw [hrest] at hc
      simpa using hc
    refine .inr ⟨cs.reverse, ?_⟩
    rw [hrest, List.reverse_cons, List.append_assoc, List.singleton_append] at hsplit
    exact hsplit.symm

theorem piecesBy_append_sep {α : Type} {stops : α → Bool} {sep : α} (hsep : stops sep = true)
    (y z : List α) : piecesBy stops (y ++ sep :: z) = piecesBy stops y ++ piecesBy stops z := by
  induction y with
  | nil => simp [piecesBy, hsep]
  | cons c cs ih =>
    rw [List.cons_append, piecesBy, piecesBy, ih]
    split
    · rfl
    · cases hcs : piecesBy stops cs with
      | nil => exact absurd hcs (piecesBy_ne_nil stops cs)
      | cons p ps => rfl

theorem exists_piecesBy {α : Type} (stops : α → Bool) (t : List α) :
    ∃ ps, piecesBy stops t = t.takeWhile (fun c => !stops c) :: ps := by
  induction t with
  | nil => exact ⟨[], rfl⟩
  | cons c cs ih =>
    rw [piecesBy, List.takeWhile_cons]
    cases hc : stops c with
    | true => exact ⟨_, rfl⟩
    | false =>
      obtain ⟨ps, hps⟩ := ih
      rw [hps]
      exact ⟨ps, rfl⟩

end Text

namespace Buffer

/-- The text between two others is on the line on which the first one ends and the second one
begins. -/
theorem ofText_around (before after : Text) :
    ∃ front back, ∀ mid, '\n' ∉ mid → ofText (before ++ mid ++ after) =
    front ++ (Text.lastLine before ++ (mid ++ after.takeWhile (· != '\n'))) :: back := by
  obtain ⟨back, hback⟩ := Text.exists_piecesBy (· == '\n') after
  have hline : ∀ mid, '\n' ∉ mid → ofText (Text.lastLine before ++ mid ++ after) =
      (Text.lastLine before ++ (mid ++ after.takeWhile (· != '\n'))) :: back := by
    intro mid hmid
    have hfree : ∀ c ∈ Text.lastLine before ++ mid, (c == '\n') = false := by
      intro c hc
      rw [beq_eq_false_iff_ne]
      rintro rfl
      exact (List.mem_append.1 hc).elim (Text.lineFeed_not_mem_lastLine before) hmid
    obtain ⟨p, ps, hafter, hpieces⟩ := Text.piecesBy_append _ after hfree
    rw [hafter] at hback
    obtain ⟨rfl, rfl⟩ := List.cons.inj hback
    rw [ofText, Text.pieces, hpieces, List.append_assoc]
    rfl
  rcases Text.exists_lastLine before with hlast | ⟨y, hy⟩
  · exact ⟨[], back, fun mid hmid => by rw [List.nil_append, ← hline mid hmid, hlast]⟩
  · refine ⟨ofText y, back, fun mid hmid => ?_⟩
    rw [← hline mid hmid]
    conv => lhs; rw [hy]
    rw [List.append_assoc, List.append_assoc, List.cons_append, ofText, Text.pieces,
      Text.piecesBy_append_sep rfl, ← List.append_assoc]
    rfl

end Buffer

/-! ## What the line shows -/

namespace Text

theorem isWord_of_isLetter {c : Char} (h : Keyword.isLetter c = true) : isWord c = true := by
  rw [Keyword.isLetter, Bool.or_eq_true, beq_iff_eq] at h
  rcases h with h | h
  · exact isWord_of_isChar h
  · obtain rfl : c = Char.ofNat 0x212A := Char.toNat_inj.1 h
    decide +kernel

theorem stops_of_endsWord {p : Char → Bool} {t : Text} (h : endsWord t = true)
    (hp : ∀ c, p c = true → isWord c = true) : Stops p t := by
  intro c hc
  refine Bool.eq_false_iff.2 fun hpc => ?_
  rw [endsWord, hc, Option.any_some, hp c hpc] at h
  cases h

theorem endsWord_takeWhile {t : Text} (h : endsWord t = true) (p : Char → Bool) :
    endsWord (t.takeWhile p) = true := by
  cases t with
  | nil => rfl
  | cons c cs =>
    rw [List.takeWhile_cons]
    split
    · exact h
    · rfl

end Text

namespace Line

variable {line : Line} {name t : Text}

/-- The identifier at the front of a line that is no directive is the first one of the line. -/
theorem head?_identifiers (hline : isDirective (name ++ t) = false)
    (hvalid : Identifier.valid name = true) (hname : Keyword.isKeyword name = false)
    (ht : Text.Stops Identifier.isChar t) : (identifiers (name ++ t)).head? = some name := by
  have hplace : Identifier.Place (name ++ t) 0 name :=
    Identifier.place_append (x := []) hvalid rfl ht
  obtain ⟨c, hc, hchar⟩ := hplace.exists_getElem?
  have hshown : hidesAt (name ++ t) 0 = false := by
    -- what is hidden begins in a bar or a colon
    refine Bool.eq_false_iff.2 fun hhidden => ?_
    obtain ⟨s, hs, hin⟩ := List.any_eq_true.1 hhidden
    have hzero : s.start = 0 := by
      rw [Span.contains, Bool.and_eq_true, decide_eq_true_eq] at hin
      omega
    rw [not_isChar_of_start hs (hzero ▸ hc)] at hchar
    cases hchar
  have hout : ∀ d ∈ declarations (name ++ t), d.bracketSpan.contains 0 = false := by
    intro d hd
    obtain ⟨-, -, -, -, hid, -⟩ := exists_of_mem_declarations hd
    have hpos : 0 < d.bracketSpan.start :=
      Nat.lt_of_lt_of_le (List.length_pos_iff.2 (Identifier.ne_nil_of_valid hid))
        (Nat.le_add_left ..)
    rw [Bool.eq_false_iff, ne_eq, Span.contains, Bool.and_eq_true, decide_eq_true_eq]
    omega
  obtain ⟨x, z, hbare, hx, -, hz⟩ := (place_bared hplace hshown hout).exists_eq_append
  obtain rfl : x = [] := List.length_eq_zero_iff.1 hx
  rw [identifiers, if_neg (by simp [hline])]
  dsimp only
  rw [hbare, List.nil_append, Identifier.tokens_append_name hvalid hz,
    List.filter_cons_of_pos (by simp [hname])]
  rfl

/-- The view of a line that shows nothing. -/
def View.empty : View := ⟨[], [], [], none, .ok none, false, false, none⟩

/-- The words that set a style, and open and close subgraphs, begin with two letters. -/
theorem outline_eq_empty {c : Char} {cs : Text} (h : Text.trimLeft line = c :: cs) (hs : c ≠ 's')
    (he : c ≠ 'e') : (view line).outline = .empty := by
  have hword : ∀ w : Text, Text.after? ('s' :: w) (Text.trimLeft line) = none := by
    intro w
    rw [h, Text.after?, if_neg (Ne.symm hs)]
  have hopens : opensSubgraph line = false := by
    rw [opensSubgraph, show "subgraph".toList = 's' :: "ubgraph".toList from rfl, hword]
  have hheading : Opening.read? line = none := by
    rw [Opening.read?, show "subgraph".toList = 's' :: "ubgraph".toList from rfl, hword]
    rfl
  have hcloses : closesSubgraph line = false := by
    refine Bool.eq_false_iff.2 fun hcloses => he ?_
    obtain ⟨run, hrun, -⟩ := exists_of_closesSubgraph hcloses
    rw [h] at hrun
    exact (List.cons.inj hrun).1
  have hstyle : StyleLine.read line = .ok none :=
    StyleLine.read_of_after?_eq_none (hword "tyle".toList)
  rw [view, View.outline, hopens, hheading, hcloses, hstyle]
  rfl

theorem view_eq_empty (hline : isDirective line = true) (h : (view line).outline = .empty) :
    view line = .empty := by
  obtain ⟨-, hrefers, hedge⟩ := shows_nothing_of_isDirective hline
  obtain ⟨-, -, -, -, hrest⟩ := View.mk.inj h
  have hdeclared : (declarations line).map Declaration.content = [] := by
    rw [declarations_of_isDirective hline, List.map_nil]
  rw [view, View.empty, View.mk.injEq]
  exact ⟨hdeclared, hrefers, identifiers_of_isDirective hline, hedge, hrest⟩

end Line

namespace Direction

variable {token : Text}

theorem not_isKeyword_of_ofToken? (h : (ofToken? token).isSome = true) :
    Keyword.isKeyword token = false := by
  have hall : ∀ word ∈ Keyword.all, word.length ≠ 2 := by decide
  refine Bool.eq_false_iff.2 fun hkeyword => ?_
  have hmem : token.map Keyword.lower ∈ Keyword.all := by simpa [Keyword.isKeyword] using hkeyword
  exact hall _ hmem (by rw [List.length_map, length_of_ofToken? h])

theorem not_mem_of_ofToken? (h : (ofToken? token).isSome = true) {c : Char}
    (hc : c.toUpper ∉ "LRTBD".toList) : c ∉ token := by
  have hall : (spellings.all fun spelling => spelling.all "LRTBD".toList.contains) = true := by
    decide
  have hletters := List.all_eq_true.1 (List.all_eq_true.1 hall _ (map_toUpper_mem_spellings h))
  exact fun hmem => hc (List.contains_iff_mem.1 (hletters _ (List.mem_map_of_mem hmem)))

end Direction

namespace Header

variable {t token after indent word gap : Text} {h : Header} {d : Direction}

/-- The token of a header begins its line: its word is on an earlier line. -/
def strays (h : Header) : Bool := (Text.lastLine h.before).all Text.isBlank

theorem Leads.isKeyword_word (h : Leads indent word gap) : Keyword.isKeyword word = true := by
  have hlower : word.map Keyword.lower = word.map Char.toLower := by
    refine List.map_congr_left fun c hc => if_neg fun hkelvin => ?_
    have hnumber := Identifier.isChar_iff.1 (Identifier.isChar_of_valid h.valid_word c hc)
    omega
  rw [Keyword.isKeyword, hlower]
  rcases h.word with hword | hword <;> rw [hword] <;> decide

/-- The line with a header word and the token of the header shows nothing. -/
theorem Leads.view_eq_empty (h : Leads indent word gap) (t : Text) :
    Line.view (indent ++ (word ++ gap) ++ t) = .empty := by
  have hvalid := h.valid_word
  have htrim : Text.trimLeft (indent ++ (word ++ gap) ++ t) = word ++ (gap ++ t) := by
    rw [List.append_assoc, List.append_assoc]
    exact Text.trimLeft_append h.indent (Identifier.stops_isBlank_append hvalid _)
  have hletters : word.all (fun c => !(Text.isBlank c || c == '[')) = true := by
    refine List.all_eq_true.2 fun c hc => ?_
    have hchar := Identifier.isChar_of_valid hvalid c hc
    have hsquare : c ≠ '[' := Identifier.ne_of_isChar hchar (by decide)
    simp [Identifier.not_isBlank_of_isChar hchar, hsquare]
  have hblanks : Text.blanks (gap ++ t) ≠ [] := by
    obtain ⟨c, cs, rfl⟩ := List.exists_cons_of_ne_nil h.gap_ne_nil
    rw [Text.blanks, List.cons_append, List.takeWhile_cons, if_pos (h.gap c List.mem_cons_self)]
    exact List.cons_ne_nil _ _
  refine Line.view_eq_empty (Line.isDirective_of_keyword h.isKeyword_word hletters htrim hblanks) ?_
  obtain ⟨c, cs, rfl⟩ := List.exists_cons_of_ne_nil (Identifier.ne_nil_of_valid hvalid)
  have hfirst : c.toLower = 'f' ∨ c.toLower = 'g' :=
    h.word.imp (fun hword => (List.cons.inj hword).1) fun hword =>
    (List.cons.inj hword).1
  refine Line.outline_eq_empty htrim ?_ ?_
  · rintro rfl
    revert hfirst
    decide
  · rintro rfl
    revert hfirst
    decide

/-- A header on one line has its word before the token. -/
theorem exists_leads_of_not_strays (hf : find? t = some (h, after)) (hstrays : h.strays = false) :
    ∃ indent word gap, Leads indent word gap ∧
      Text.lastLine h.before = indent ++ (word ++ gap) := by
  obtain ⟨x, indent, word, gap, hleads, hbefore, -, -, hstart, -⟩ := exists_of_findFrom hf
  by_cases hgap : '\n' ∈ gap
  · rw [strays, hbefore, ← List.append_assoc, ← List.append_assoc,
      Text.lastLine_append_of_mem hgap] at hstrays
    rw [List.all_eq_true.2 fun c hc => hleads.gap c (Text.mem_of_mem_lastLine hc)] at hstrays
    cases hstrays
  · have hword : '\n' ∉ word := Identifier.not_mem_of_valid hleads.valid_word (by decide)
    have htail : '\n' ∉ word ++ gap := by
      rw [List.mem_append, not_or]
      exact ⟨hword, hgap⟩
    refine ⟨Text.lastLine (x ++ indent), word, gap, { hleads with indent := ?_ }, ?_⟩
    · by_cases hindent : '\n' ∈ indent
      · rw [Text.lastLine_append_of_mem hindent]
        exact fun c hc => hleads.indent c (Text.mem_of_mem_lastLine hc)
      · rw [Text.lastLine_append_of_not_mem hindent, Text.lastLine_eq_nil hstart]
        exact hleads.indent
    · rw [hbefore, ← List.append_assoc, Text.lastLine_append_of_not_mem htail]

theorem head?_identifiers_token {m q : Text} (hm : ∀ c ∈ m, Text.isBlank c = true)
    (htoken : (Direction.ofToken? token).isSome = true) (hq : Text.endsWord q = true) :
    (Line.identifiers (m ++ (token ++ q))).head? = some token := by
  have hvalid := Direction.valid_of_ofToken? htoken
  have hname := Direction.not_isKeyword_of_ofToken? htoken
  have hstops : Text.Stops Keyword.isLetter q :=
    Text.stops_of_endsWord hq fun c => Text.isWord_of_isLetter
  have hchar : Text.Stops Identifier.isChar q :=
    Text.stops_of_endsWord hq fun c => Text.isWord_of_isChar
  have hline : Line.isDirective ([] ++ (token ++ q)) = false :=
    Line.not_isDirective (by simp) hvalid hname hstops
  rw [Line.identifiers_blanks_append hm]
  exact Line.head?_identifiers hline hvalid hname hchar

theorem outline_token {m q : Text} (hm : ∀ c ∈ m, Text.isBlank c = true)
    (htoken : (Direction.ofToken? token).isSome = true) :
    (Line.view (m ++ (token ++ q))).outline = .empty := by
  obtain ⟨c, cs, rfl⟩ :=
    List.exists_cons_of_ne_nil (Identifier.ne_nil_of_valid (Direction.valid_of_ofToken? htoken))
  have htrim :=
    Text.trimLeft_append hm (Identifier.stops_isBlank_append (Direction.valid_of_ofToken? htoken) q)
  refine Line.outline_eq_empty htrim ?_ ?_
  · rintro rfl
    exact Direction.not_mem_of_ofToken? htoken (by decide) List.mem_cons_self
  · rintro rfl
    exact Direction.not_mem_of_ofToken? htoken (by decide) List.mem_cons_self

/-! ## The edit -/

/-- The token of the header stands on a later line than its word, and is another one than that of
the direction. -/
def Misplaces (d : Direction) (t : Text) : Prop :=
  ∃ h after, find? t = some (h, after) ∧ h.strays = true ∧ h.token ≠ d.token

/-- What a text is after the direction has been changed: at most one line is another one, styles are
the same, and subgraphs are up to members. Nothing shows on that line unless the token was
misplaced. -/
structure IsTurned (d : Direction) (t t' : Text) : Prop where
  lines : ∃ i line, Buffer.ofText t' = (Buffer.ofText t).set i line
  styles : (Buffer.ofText t').styles = (Buffer.ofText t).styles
  outlines : (Buffer.ofText t').subgraphs.map Subgraph.emptied =
      (Buffer.ofText t).subgraphs.map Subgraph.emptied
  views : (Buffer.ofText t').map Line.view = (Buffer.ofText t).map Line.view ↔ ¬ Misplaces d t
  alike : ¬ Misplaces d t → Buffer.Alike (Buffer.ofText t) (Buffer.ofText t')

theorem outline_eq_empty (hf : find? t = some (h, after))
    (htoken : (Direction.ofToken? token).isSome = true) (q : Text) :
    (Line.view (Text.lastLine h.before ++ (token ++ q))).outline = .empty := by
  cases hstrays : h.strays with
  | true => exact outline_token (List.all_eq_true.1 hstrays) htoken
  | false =>
    obtain ⟨indent, word, gap, hleads, hlast⟩ := exists_leads_of_not_strays hf hstrays
    rw [hlast, hleads.view_eq_empty]
    rfl

/-- The line with the token shows the same with the other token unless the token is misplaced. -/
theorem view_eq_iff (hf : find? t = some (h, after)) {q : Text} (hq : Text.endsWord q = true) :
    Line.view (Text.lastLine h.before ++ (d.token ++ q)) =
      Line.view (Text.lastLine h.before ++ (h.token ++ q)) ↔ ¬ Misplaces d t := by
  obtain ⟨-, -, -, -, -, -, htoken, -⟩ := exists_of_findFrom hf
  constructor
  · rintro hview ⟨h', after', hf', hstrays, hne⟩
    obtain ⟨rfl, rfl⟩ : h = h' ∧ after = after' := by simpa [hf] using hf'
    have hblank := List.all_eq_true.1 hstrays
    have hnames := congrArg (fun v : Line.View => v.identifiers.head?) hview
    have hnew := head?_identifiers_token hblank d.isSome_ofToken?_token hq
    have hold := head?_identifiers_token hblank htoken hq
    exact hne (Option.some.inj (hold.symm.trans (hnames.symm.trans hnew)))
  · intro hplaced
    cases hstrays : h.strays with
    | true =>
      have hsame : h.token = d.token :=
        Classical.not_not.1 fun hne => hplaced ⟨h, after, hf, hstrays, hne⟩
      rw [hsame]
    | false =>
      obtain ⟨indent, word, gap, hleads, hlast⟩ := exists_leads_of_not_strays hf hstrays
      rw [hlast, hleads.view_eq_empty, hleads.view_eq_empty]

/-- Another direction changes the line with the token of the first header, and that shows nothing to
any scan if the header stands on one line. Else the line begins with the token, which names a node
there: the scans show the same only if the token is kept. -/
theorem setDirection_isTurned (d : Direction) (t : Text) : IsTurned d t (setDirection d t) := by
  cases hf : find? t with
  | none =>
    have hsame : setDirection d t = t := by rw [setDirection, hf]
    have hplaced : ¬ Misplaces d t := by
      rintro ⟨h, after, hf', -⟩
      rw [hf] at hf'
      cases hf'
    rw [hsame]
    exact ⟨⟨_, [], (List.set_eq_of_length_le (Nat.le_refl _)).symm⟩, rfl, rfl,
      iff_of_true rfl hplaced,
      fun _ => ⟨rfl, rfl, rfl, rfl⟩⟩
  | some found =>
    obtain ⟨h, after⟩ := found
    obtain ⟨-, -, -, -, -, -, htoken, hends, -⟩ := exists_of_findFrom hf
    obtain ⟨front, back, hlines⟩ := Buffer.ofText_around h.before after
    have hnew : Buffer.ofText (setDirection d t) =
        front ++ (Text.lastLine h.before ++ (d.token ++ after.takeWhile (· != '\n'))) :: back := by
      rw [setDirection, hf]
      exact hlines d.token
        (Identifier.not_mem_of_valid (Direction.valid_of_ofToken? d.isSome_ofToken?_token) (by
        decide))
    have hold : Buffer.ofText t =
        front ++ (Text.lastLine h.before ++ (h.token ++ after.takeWhile (· != '\n'))) :: back := by
      conv => lhs; rw [eq_of_find? hf]
      exact hlines h.token
        (Identifier.not_mem_of_valid (Direction.valid_of_ofToken? htoken) (by decide))
    have hviews : (Buffer.ofText (setDirection d t)).map Line.view =
        (Buffer.ofText t).map Line.view ↔ ¬ Misplaces d t := by
      rw [hnew, hold, ← view_eq_iff hf (Text.endsWord_takeWhile hends (· != '\n'))]
      simp
    have houtlines : ((Buffer.ofText (setDirection d t)).map Line.view).map Line.View.outline =
        ((Buffer.ofText t).map Line.view).map Line.View.outline := by
      rw [hnew, hold]
      simp [outline_eq_empty hf htoken, outline_eq_empty hf d.isSome_ofToken?_token]
    obtain ⟨hstyles, hsubgraphs⟩ := Buffer.eq_of_outlines houtlines
    refine ⟨⟨front.length, Text.lastLine h.before ++ (d.token ++ after.takeWhile (· != '\n')), ?_⟩,
      hstyles, hsubgraphs, hviews,
      fun hplaced => Buffer.alike_of_views (hviews.2 hplaced)⟩
    rw [hnew, hold, List.set_append_right _ _ (Nat.le_refl _), Nat.sub_self, List.set_cons_zero]

/-- The source of a link below a header without a direction is taken for the direction. -/
theorem edges_setDirection_ne_of_misplaced :
    setDirection .topToBottom "graph\nLR --> B".toList = "graph\nTB --> B".toList ∧
      (Buffer.ofText "graph\nLR --> B".toList).edges.map (·.source) = ["LR".toList] ∧
      (Buffer.ofText (setDirection .topToBottom "graph\nLR --> B".toList)).edges.map (·.source) =
        ["TB".toList] := by
  decide +kernel

end Header
end Chartwright
