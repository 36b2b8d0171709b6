import Chartwright.Proofs.Line.Held
import Chartwright.Proofs.Line.Tip
/-!
Rows: lines told part by part.

A row is made of blanks, ampersands, arrows and nodes. A node is an identifier, perhaps with a label
between brackets that hold it, and then perhaps with a class suffix; the label may hold anything
else. A row is sound if between two nodes there is always an ampersand or an arrow, and if no label
of an arrow that begins inside a node's label runs on over the brackets. A sound row is read as it
is written, part by part (`Lexeme.Stands`): it declares its nodes with labels
(`Row.Sound.declarations_written`), and filling changes the labels only
(`Row.Sound.maskLabels_written`).
-/
namespace Chartwright

/-- A node on a line, with its label if it is declared there. -/
structure Token where
  id : Text
  label : Option (Bracket × Text)
  suffix : Text
  id_valid : Identifier.valid id = true
  label_held : ∀ b text, label = some (b, text) → b.Holds text ∧ Keyword.isKeyword id = false
  suffix_read : suffix = [] ∨ Line.classSuffix? suffix = some (suffix, [])

/-- A part of a line. -/
inductive Lexeme where
  | blank (c : Char) (h : Text.isBlank c = true)
  | ampersand
  | arrow (p : Tip)
  | node (e : Token)

/-- A line as a list of its parts. -/
abbrev Row := List Lexeme

namespace Token

/-- The brackets of a node around what `f` makes of its label. -/
def brackets (f : Text → Text) (e : Token) : Text :=
  match e.label with
  | none => []
  | some (b, text) => b.opener ++ (f text ++ b.closer)

def written (e : Token) : Text := e.id ++ (e.brackets (fun text => text) ++ e.suffix)

/-- A node with its suffix blanked, and what its label holds of suffixes and labels of arrows
too. -/
def blanked (e : Token) : Text :=
  e.id ++ (e.brackets Line.maskEdgeLabels ++ List.replicate e.suffix.length ' ')

/-- A node with its label filled. -/
def filled (e : Token) : Text :=
  e.id ++ (e.brackets (fun text => List.replicate text.length '\x00') ++ e.suffix)

/-- The declaration that a node is, if it stands at the start of a line. -/
def declared (e : Token) : List Declaration :=
  match e.label with
  | none => []
  | some (b, text) => [⟨e.id, b, text, 0⟩]

/-- No label of an arrow runs from the label of a node over its brackets when `rest` follows the
node. -/
def Closed (e : Token) (rest : Text) : Prop :=
  ∀ b text, e.label = some (b, text) →
    Text.Confined Line.edgeLabelAt (b.closer ++ (e.suffix ++ rest)) 0 text

theorem closed_of_none {e : Token} (h : e.label = none) (rest : Text) : e.Closed rest := by
  intro b text hlabel
  rw [h] at hlabel
  cases hlabel

end Token

namespace Lexeme

def written : Lexeme → Text
  | blank c _ => [c]
  | ampersand => ['&']
  | arrow p => p.written
  | node e => e.written

def blanked : Lexeme → Text
  | blank c _ => [c]
  | ampersand => ['&']
  | arrow p => p.blanked
  | node e => e.blanked

def filled : Lexeme → Text
  | blank c _ => [c]
  | ampersand => ['&']
  | arrow p => p.written
  | node e => e.filled

def declared : Lexeme → List Declaration
  | node e => e.declared
  | _ => []

end Lexeme

namespace Row

def written (r : Row) : Text := r.flatMap Lexeme.written

def filled (r : Row) : Text := r.flatMap Lexeme.filled

/-- The declarations that the nodes of a row are. -/
def declared : Row → List Declaration
  | [] => []
  | l :: rest => l.declared ++ (declared rest).map (Declaration.shift l.written.length)

/-- A node may stand before the row: an ampersand or an arrow comes first, blanks aside, or
nothing. -/
def endsNode : Row → Bool
  | [] => true
  | .blank _ _ :: rest => endsNode rest
  | .ampersand :: _ => true
  | .arrow _ :: _ => true
  | .node _ :: _ => false

/-- Nodes are kept apart, and labels are closed. -/
inductive Sound : Row → Prop where
  | nil : Sound []
  | blank {c : Char} {h : Text.isBlank c = true} {rest : Row} (later : Sound rest) :
    Sound (.blank c h :: rest)
  | ampersand {rest : Row} (later : Sound rest) : Sound (.ampersand :: rest)
  | arrow {p : Tip} {rest : Row} (later : Sound rest) : Sound (.arrow p :: rest)
  | node {e : Token} {rest : Row} (later : Sound rest) (apart : endsNode rest = true)
    (closed : e.Closed rest.written) : Sound (.node e :: rest)

section Written

variable {l : Lexeme} {rest : Row}

@[simp] theorem written_nil : written [] = [] := rfl

@[simp] theorem written_cons : written (l :: rest) = l.written ++ written rest :=
  List.flatMap_cons ..

@[simp] theorem filled_nil : filled [] = [] := rfl

@[simp] theorem filled_cons : filled (l :: rest) = l.filled ++ filled rest := List.flatMap_cons ..

end Written

end Row

/-! ## Masking -/

namespace Token

variable (e : Token)

theorem written_of_none (h : e.label = none) : e.written = e.id ++ e.suffix := by
  simp [written, brackets, h]

theorem blanked_of_none (h : e.label = none) :
    e.blanked = e.id ++ List.replicate e.suffix.length ' ' := by
  simp [blanked, brackets, h]

theorem filled_of_none (h : e.label = none) : e.filled = e.id ++ e.suffix := by
  simp [filled, brackets, h]

variable {e} {b : Bracket} {label : Text}

theorem written_of_label (h : e.label = some (b, label)) :
    e.written = (e.id ++ b.opener) ++ (label ++ (b.closer ++ e.suffix)) := by
  simp [written, brackets, h]

theorem blanked_of_label (h : e.label = some (b, label)) :
    e.blanked = (e.id ++ b.opener) ++
      (Line.maskEdgeLabels label ++ (b.closer ++ List.replicate e.suffix.length ' ')) := by
  simp [blanked, brackets, h]

theorem filled_of_label (h : e.label = some (b, label)) :
    e.filled = (e.id ++ b.opener) ++
      (List.replicate label.length '\x00' ++ (b.closer ++ e.suffix)) := by
  simp [filled, brackets, h]

variable (e)

theorem length_blanked : e.blanked.length = e.written.length := by
  simp only [blanked, written, brackets, List.length_append, List.length_replicate]
  split <;> simp

theorem length_filled : e.filled.length = e.written.length := by
  simp only [filled, written, brackets, List.length_append]
  split <;> simp

/-- A node is masked by itself, and so is what follows. -/
theorem maskEdgeLabels_written {t : Text} (ht : Line.Ends t) (hclosed : e.Closed t) :
    Line.maskEdgeLabels (e.written ++ t) = e.blanked ++ Line.maskEdgeLabels t := by
  have hcolon : ':' ∉ e.id := Identifier.not_mem_of_valid e.id_valid (by decide)
  have hid : ∀ y : Text, Line.maskEdgeLabels (e.id ++ y) = e.id ++ Line.maskEdgeLabels y :=
    Line.maskEdgeLabels_append_of_free (Identifier.noArrow_of_valid e.id_valid) hcolon
  have hsuffix : Line.maskEdgeLabels (e.suffix ++ t) =
      List.replicate e.suffix.length ' ' ++ Line.maskEdgeLabels t :=
    Line.maskEdgeLabels_suffix e.suffix_read ht
  cases hlabel : e.label with
  | none =>
    rw [e.written_of_none hlabel, e.blanked_of_none hlabel, List.append_assoc, hid, hsuffix,
      List.append_assoc]
  | some label =>
    obtain ⟨b, text⟩ := label
    rw [written_of_label hlabel, blanked_of_label hlabel]
    simp only [List.append_assoc]
    rw [hid, Line.maskEdgeLabels_append_of_free b.noArrow_opener b.colon_not_mem_opener,
      Bracket.maskEdgeLabels_label (hclosed b text hlabel), hsuffix]

end Token

theorem Lexeme.length_blanked (l : Lexeme) : l.blanked.length = l.written.length := by
  cases l with
  | blank c h => rfl
  | ampersand => rfl
  | arrow p => exact p.length_blanked
  | node e => exact e.length_blanked

theorem Lexeme.filled_of_ne {l : Lexeme} (h : ∀ e, l ≠ .node e) : l.filled = l.written := by
  cases l with
  | node e => exact absurd rfl (h e)
  | _ => rfl

namespace Row

theorem ends_written_append {l : Lexeme} (h : ∀ e, l ≠ .node e) (t : Text) :
    Line.Ends (l.written ++ t) := by
  cases l with
  | blank c hc => exact Text.stops_cons.2 (by simp [hc])
  | ampersand => exact Text.stops_cons.2 (by decide)
  | arrow p =>
    obtain ⟨c, cs, heq, hc⟩ := p.head t
    rw [Lexeme.written, heq, Line.Ends, Text.stops_cons]
    rcases hc with rfl | rfl <;> decide
  | node e => exact absurd rfl (h e)

theorem ne_node_of_endsNode {l : Lexeme} {rest : Row} (h : endsNode (l :: rest) = true)
    (e : Token) : l ≠ .node e := by
  rintro rfl
  cases h

theorem ends_written {r : Row} (h : endsNode r = true) : Line.Ends r.written := by
  cases r with
  | nil => exact Text.stops_nil _
  | cons l rest => exact ends_written_append (ne_node_of_endsNode h) _

theorem ends_filled {r : Row} (h : endsNode r = true) : Line.Ends r.filled := by
  cases r with
  | nil => exact Text.stops_nil _
  | cons l rest =>
    rw [filled_cons, Lexeme.filled_of_ne (ne_node_of_endsNode h)]
    exact ends_written_append (ne_node_of_endsNode h) _

/-- Blanks aside, no row begins with a bar. -/
theorem stops_bar (r : Row) : Text.Stops (· == '|') (Text.trimLeft r.written) := by
  induction r with
  | nil => exact Text.stops_nil _
  | cons l rest ih =>
    have hstart : ∀ {c : Char} {cs : Text}, Text.isBlank c = false → c ≠ '|' →
        Text.Stops (· == '|') (Text.trimLeft (c :: cs)) := by
      intro c cs hblank hbar
      rw [Text.trimLeft_of_stops (Text.stops_cons.2 hblank), Text.stops_cons]
      simpa using hbar
    cases l with
    | blank c hc =>
      have htrim : Text.trimLeft (written (.blank c hc :: rest)) =
          Text.trimLeft (written rest) := by
        simp [Lexeme.written, Text.trimLeft, hc]
      rwa [htrim]
    | ampersand => exact hstart (by decide) (by decide)
    | arrow p =>
      obtain ⟨c, cs, heq, hc⟩ := p.head (written rest)
      rw [written_cons, Lexeme.written, heq]
      rcases hc with rfl | rfl <;> exact hstart (by decide) (by decide)
    | node e =>
      obtain ⟨c, cs, hid⟩ := List.exists_cons_of_ne_nil (Identifier.ne_nil_of_valid e.id_valid)
      have hc : Identifier.isChar c = true :=
        Identifier.isChar_of_valid e.id_valid c (hid ▸ List.mem_cons_self)
      rw [written_cons, Lexeme.written, Token.written, hid]
      exact hstart (Identifier.not_isBlank_of_isChar hc) (Identifier.ne_of_isChar hc (by decide))

end Row

/-! ## Declarations -/

namespace Token

variable (e : Token) {t : Text}

/-- A node declares itself if it has a label. -/
theorem readFrom_blanked (ht : Line.Ends t) :
    Declaration.readFrom none 0 0 (e.blanked ++ t) =
      e.declared.map Declaration.masked ++
        Declaration.readFrom (Text.endOf none e.blanked) 0 e.blanked.length t := by
  cases hlabel : e.label with
  | none =>
    have hdeclared : e.declared = [] := by simp [declared, hlabel]
    rw [e.blanked_of_none hlabel, hdeclared, List.append_assoc,
      Declaration.readFrom_id e.id_valid (ht.spaces _), Declaration.readFrom_spaces,
      ← Text.endOf_append]
    simp
  | some label =>
    obtain ⟨b, text⟩ := label
    have hheld := (e.label_held b text hlabel).1
    have hblanked : e.blanked = (⟨e.id, b, Line.maskEdgeLabels text, 0⟩ : Declaration).written ++
        List.replicate e.suffix.length ' ' := by
      simp [blanked_of_label hlabel, Declaration.written]
    have hdeclared : e.declared.map Declaration.masked =
        [⟨e.id, b, Line.maskEdgeLabels text, 0⟩] := by
      simp [declared, hlabel, Declaration.masked]
    -- the opener is found behind the name, and the first closer behind it is the one that is
    -- written
    have hopen : Declaration.opening? none
        ((⟨e.id, b, Line.maskEdgeLabels text, 0⟩ : Declaration).written ++
        (List.replicate e.suffix.length ' ' ++ t)) =
        some (e.id, b, Line.maskEdgeLabels text ++
          (b.closer ++ (List.replicate e.suffix.length ' ' ++ t))) := by
      simp only [Declaration.written, List.append_assoc]
      simp [Declaration.opening?, Identifier.token?, Identifier.apart,
        Identifier.read?_append e.id_valid (b.stops_isChar_opener _), hheld.read?]
    have hne : (⟨e.id, b, Line.maskEdgeLabels text, 0⟩ : Declaration).written ≠ [] := by
      simp [Declaration.written, Identifier.ne_nil_of_valid e.id_valid]
    rw [hblanked, hdeclared, List.append_assoc,
      Declaration.readFrom_cons hopen (hheld.cut? _) rfl hne, Declaration.readFrom_spaces,
      ← Text.endOf_append]
    simp

theorem cut_declared {d : Declaration} (h : d ∈ e.declared) (t : Text) :
    d.labelSpan.cut (e.written ++ t) = d.label := by
  unfold declared at h
  split at h
  · cases h
  · next b text hlabel =>
    have hspan : (⟨e.id, b, text, 0⟩ : Declaration).labelSpan =
        ⟨(e.id ++ b.opener).length, (e.id ++ b.opener).length + text.length⟩ := by
      simp [Declaration.labelSpan, Declaration.labelStart, Declaration.labelStop,
        Declaration.openerStart]
    rw [List.mem_singleton.1 h, hspan, written_of_label hlabel,
      List.append_assoc (e.id ++ b.opener), List.append_assoc text]
    exact Span.cut_append ..

theorem stop_le_length_written {d : Declaration} (h : d ∈ e.declared) :
    d.labelSpan.stop ≤ e.written.length := by
  unfold declared at h
  split at h
  · cases h
  · next b text hlabel =>
    rw [List.mem_singleton.1 h, written_of_label hlabel]
    simp only [Declaration.labelSpan, Declaration.labelStop, Declaration.labelStart,
      Declaration.openerStart, List.length_append]
    omega

theorem hide_written : Text.hide '\x00' (e.declared.map (·.labelSpan)) e.written = e.filled := by
  cases hlabel : e.label with
  | none => simp [declared, hlabel, e.written_of_none hlabel, e.filled_of_none hlabel]
  | some label =>
    obtain ⟨b, text⟩ := label
    have hspans : e.declared.map (·.labelSpan) =
        [⟨(e.id ++ b.opener).length, (e.id ++ b.opener).length + text.length⟩] ++
          ([] : List Span).map (Span.shift (e.id ++ b.opener ++ text).length) := by
      simp [declared, hlabel, Declaration.labelSpan, Declaration.labelStart, Declaration.labelStop,
        Declaration.openerStart]
    have hbox : Text.hide '\x00'
        ([⟨(e.id ++ b.opener).length, (e.id ++ b.opener).length + text.length⟩] ++ [])
        (e.id ++ b.opener ++ text) = e.id ++ b.opener ++ List.replicate text.length '\x00' :=
      Text.hide_box rfl (by simp)
    rw [List.append_nil] at hbox
    rw [written_of_label hlabel, filled_of_label hlabel,
      ← List.append_assoc (e.id ++ b.opener), hspans, Text.hide_parts, hbox, Text.hide_nil,
      List.append_assoc]
    intro s hs
    rw [List.mem_singleton.1 hs]
    simp [Nat.add_assoc]

theorem not_isKeyword_of_mem_declared {d : Declaration} (h : d ∈ e.declared) :
    Keyword.isKeyword d.id = false := by
  unfold declared at h
  split at h
  · cases h
  · next b text hlabel =>
    rw [List.mem_singleton.1 h]
    exact (e.label_held b text hlabel).2

end Token

namespace Lexeme

/-- A part of a line is masked by itself when `t` follows it, and if it is a node, `t` does not
prolong it. -/
structure Stands (l : Lexeme) (t : Text) : Prop where
  masked : Line.maskEdgeLabels (l.written ++ t) = l.blanked ++ Line.maskEdgeLabels t
  ends : ∀ e, l = node e → Line.Ends t

variable {l : Lexeme} {t : Text}

theorem stands_blank {c : Char} (h : Text.isBlank c = true) (t : Text) : Stands (blank c h) t where
  masked := by
    have hblank : ∀ d ∈ [c], Text.isBlank d = true := List.forall_mem_singleton.2 h
    exact Line.maskEdgeLabels_append_of_free (Text.noArrow_of_isBlank hblank)
      (Text.not_mem_of_isBlank hblank (by decide)) t
  ends := by simp

theorem stands_ampersand (t : Text) : Stands ampersand t where
  masked :=
    Line.maskEdgeLabels_append_of_free (List.forall_mem_singleton.2 (by decide)) (by decide) t
  ends := by simp

theorem stands_arrow {p : Tip} (h : p.label = none → EdgeLabel.read? t = none) :
    Stands (arrow p) t where
  masked := p.maskEdgeLabels_written h
  ends := by simp

theorem stands_node {e : Token} (h : Line.Ends t) (hclosed : e.Closed t) : Stands (node e) t where
  masked := e.maskEdgeLabels_written h hclosed
  ends := fun _ _ => h

theorem not_isChar_of_mem_blanked (h : ∀ e, l ≠ node e) :
    ∀ c ∈ l.blanked, Identifier.isChar c = false := by
  cases l with
  | blank c hc => exact List.forall_mem_singleton.2 (Identifier.not_isChar_of_isBlank hc)
  | ampersand => exact List.forall_mem_singleton.2 (by decide)
  | arrow p => exact p.not_isChar_of_mem_blanked
  | node e => exact absurd rfl (h e)

theorem blanked_ne_nil (l : Lexeme) : l.blanked ≠ [] := by
  cases l with
  | blank c h => exact List.cons_ne_nil _ _
  | ampersand => exact List.cons_ne_nil _ _
  | arrow p =>
    intro hnil
    exact p.ne_nil (List.length_eq_zero_iff.1
      (by rw [← p.length_blanked]; exact congrArg List.length hnil))
  | node e => simp [blanked, Token.blanked, Identifier.ne_nil_of_valid e.id_valid]

/-- The declarations of a masked text are those of its first part and those of the rest. -/
theorem readFrom_blanked (l : Lexeme) (ht : ∀ e, l = node e → Line.Ends t) :
    Declaration.readFrom none 0 0 (l.blanked ++ t) =
      l.declared.map Declaration.masked ++
        (Declaration.readFrom none 0 0 t).map (Declaration.shift l.written.length) := by
  rw [← Declaration.readFrom_offset, ← l.length_blanked]
  by_cases hnode : ∃ e, l = node e
  · obtain ⟨e, rfl⟩ := hnode
    have hends := ht e rfl
    simp only [blanked, declared]
    rw [e.readFrom_blanked hends, Declaration.readFrom_of_stops hends.stops_isStart _ none]
  · have hquiet : ∀ e, l ≠ node e := fun e heq => hnode ⟨e, heq⟩
    have hnone : l.declared = [] := by
      cases l with
      | node e => exact absurd rfl (hquiet e)
      | _ => rfl
    obtain ⟨c, hc, hend⟩ := Text.endOf_of_ne_nil none l.blanked_ne_nil
    have hchar := l.not_isChar_of_mem_blanked hquiet
    rw [Declaration.readFrom_append_of_not_isStart fun c hc =>
        Identifier.not_isStart_of_not_isChar (hchar c hc), hnone,
      List.map_nil, List.nil_append, Nat.zero_add]
    refine Declaration.readFrom_before ?_ _ _
    simp [hend, Identifier.apart, hchar c hc]

theorem cut_declared {d : Declaration} (h : d ∈ l.declared) (t : Text) :
    d.labelSpan.cut (l.written ++ t) = d.label := by
  cases l with
  | node e => exact e.cut_declared h t
  | _ => cases h

theorem stop_le_length_written {d : Declaration} (h : d ∈ l.declared) :
    d.labelSpan.stop ≤ l.written.length := by
  cases l with
  | node e => exact e.stop_le_length_written h
  | _ => cases h

theorem hide_written (l : Lexeme) :
    Text.hide '\x00' (l.declared.map (·.labelSpan)) l.written = l.filled := by
  cases l with
  | node e => exact e.hide_written
  | _ => exact Text.hide_nil ..

theorem not_isKeyword_of_mem_declared {d : Declaration} (h : d ∈ l.declared) :
    Keyword.isKeyword d.id = false := by
  cases l with
  | node e => exact e.not_isKeyword_of_mem_declared h
  | _ => cases h

end Lexeme

namespace Line

/-- The declarations that a text shows, whatever kind of line it is. -/
def shown (line : Line) : List Declaration :=
  ((Declaration.readFrom none 0 0 (maskEdgeLabels line)).filter fun d =>
    !Keyword.isKeyword d.id).map
    (Declaration.withLabelOf line)

/-- A text with its labels filled, whatever kind of line it is. -/
def filled (line : Line) : Line := Text.hide '\x00' ((shown line).map (·.labelSpan)) line

theorem declarations_eq_shown {line : Line} (h : isDirective line = false) :
    declarations line = shown line := by
  rw [declarations, h, if_neg (by simp)]
  rfl

theorem maskLabels_eq_filled {line : Line} (h : isDirective line = false) :
    maskLabels line = filled line := by
  rw [maskLabels, declarations_eq_shown h]
  rfl

@[simp] theorem length_filled (line : Line) : (filled line).length = line.length :=
  Text.length_hide ..

end Line

namespace Lexeme

variable {l : Lexeme} {t : Text}

/-- A text shows what its first part declares, and what the rest shows. -/
theorem Stands.shown_append (h : Stands l t) :
    Line.shown (l.written ++ t) =
      l.declared ++ (Line.shown t).map (Declaration.shift l.written.length) := by
  have hown : (l.declared.map Declaration.masked).filter (fun d => !Keyword.isKeyword d.id) =
      l.declared.map Declaration.masked := by
    refine List.filter_eq_self.2 fun d hd => ?_
    obtain ⟨own, hmem, rfl⟩ := List.mem_map.1 hd
    simp [Declaration.masked, not_isKeyword_of_mem_declared hmem]
  rw [Line.shown, h.masked, l.readFrom_blanked fun e he => (h.ends e he).maskEdgeLabels,
    List.filter_append, hown, List.map_append, List.filter_map, List.map_map, List.map_map,
    Line.shown, List.map_map]
  congr 1
  -- the label is not read off the masked line but off the line itself
  · refine (List.map_congr_left fun d hd => ?_).trans (List.map_id _)
    have hspan : (Declaration.masked d).labelSpan = d.labelSpan := by
      simp [Declaration.labelSpan, Declaration.labelStop, Declaration.labelStart,
        Declaration.openerStart, Declaration.masked]
    rw [Function.comp_apply, Declaration.withLabelOf, hspan, cut_declared hd]
    rfl
  · apply List.map_congr_left
    intro d _
    simp only [Function.comp_apply, Declaration.withLabelOf, Declaration.labelSpan_shift,
      Span.cut_shift]
    rfl

theorem Stands.filled_append (h : Stands l t) :
    Line.filled (l.written ++ t) = l.filled ++ Line.filled t := by
  have hspans : (Line.shown (l.written ++ t)).map (·.labelSpan) = l.declared.map (·.labelSpan) ++
      ((Line.shown t).map (·.labelSpan)).map (Span.shift l.written.length) := by
    rw [h.shown_append]
    simp [Declaration.labelSpan_shift, Function.comp_def]
  rw [Line.filled, hspans, Text.hide_parts, l.hide_written]
  · rfl
  · intro s hs
    obtain ⟨d, hd, rfl⟩ := List.mem_map.1 hs
    exact stop_le_length_written hd

end Lexeme

namespace Row

variable {r : Row} {l : Lexeme}

theorem Sound.stands (h : Sound (l :: r)) : l.Stands r.written := by
  cases h with
  | blank => exact Lexeme.stands_blank ..
  | ampersand => exact Lexeme.stands_ampersand _
  | arrow => exact Lexeme.stands_arrow fun _ => EdgeLabel.read?_of_stops r.stops_bar
  | node _ apart closed => exact Lexeme.stands_node (ends_written apart) closed

theorem Sound.later (h : Sound (l :: r)) : Sound r := by
  cases h with
  | blank later => exact later
  | ampersand later => exact later
  | arrow later => exact later
  | node later => exact later

theorem Sound.shown_written (h : Sound r) : Line.shown r.written = r.declared := by
  induction r with
  | nil => rfl
  | cons l rest ih => rw [written_cons, h.stands.shown_append, ih h.later, declared]

theorem Sound.filled_written (h : Sound r) : Line.filled r.written = r.filled := by
  induction r with
  | nil => rfl
  | cons l rest ih => rw [written_cons, h.stands.filled_append, ih h.later, filled_cons]

theorem Sound.declarations_written (h : Sound r) (hline : Line.isDirective r.written = false) :
    Line.declarations r.written = r.declared := by
  rw [Line.declarations_eq_shown hline, h.shown_written]

theorem Sound.maskLabels_written (h : Sound r) (hline : Line.isDirective r.written = false) :
    Line.maskLabels r.written = r.filled := by
  rw [Line.maskLabels_eq_filled hline, h.filled_written]

end Row
end Chartwright
