import Chartwright.Line.Declaration
import Chartwright.Proofs.Markup.Token
import Chartwright.Proofs.Text.Scan
/-!
Reading the declarations of a text.

Where a text lies moves its declarations (`Declaration.readFrom_offset`), and of what stands before
it only matters whether an identifier ends there (`Declaration.readFrom_before`). A declaration that
is read is written in the text where it starts, its opening is read there, and its closer is the
first one behind the opener (`Declaration.exists_readAt`). The declarations of a line are those that
are read on the masked line, with their labels taken from the line (`Line.mem_declarations`).
-/
namespace Chartwright

namespace Declaration

/-! ## The parts of a declaration -/

/-- A declaration that stands further to the right. -/
def shift (k : Nat) (d : Declaration) : Declaration := { d with start := d.start + k }

theorem shift_shift (j k : Nat) (d : Declaration) : (d.shift j).shift k = d.shift (j + k) := by
  simp [shift, Nat.add_assoc]

theorem labelSpan_shift (k : Nat) (d : Declaration) :
    (d.shift k).labelSpan = d.labelSpan.shift k := by
  simp only [labelSpan, labelStart, labelStop, openerStart, shift, Span.shift, Span.mk.injEq]
  omega

theorem stop_eq (d : Declaration) : d.stop = d.start + d.written.length := by
  simp [stop, labelStop, labelStart, openerStart, written, Nat.add_assoc]

theorem labelStop_le_stop (d : Declaration) : d.labelStop ≤ d.stop := Nat.le_add_right _ _

theorem parts_le (d : Declaration) :
    d.start + d.id.length ≤ d.labelStart ∧ d.labelStart ≤ d.labelStop ∧ d.labelStop ≤ d.stop :=
  ⟨Nat.le_add_right .., Nat.le_add_right .., d.labelStop_le_stop⟩

/-- The place of the label of a declaration that stands behind `front`. -/
theorem labelSpan_eq {d : Declaration} {front : Text} (h : d.start = front.length) : d.labelSpan =
    ⟨(front ++ (d.id ++ d.bracket.opener)).length,
      (front ++ (d.id ++ d.bracket.opener)).length + d.label.length⟩ := by
  simp [labelSpan, labelStop, labelStart, openerStart, h, Nat.add_assoc]

theorem withLabelOf_append {line : Line} {d : Declaration} (h : d.labelStop ≤ line.length)
    (y : Text) : d.withLabelOf (line ++ y) = d.withLabelOf line := by
  rw [withLabelOf, withLabelOf, Span.cut, Span.cut, labelSpan, List.take_append_of_le_length h]

theorem labelSpan_withLabelOf {line : Line} {d : Declaration} (h : d.labelStop ≤ line.length) :
    (d.withLabelOf line).labelSpan = d.labelSpan := by
  have hlength : (d.labelSpan.cut line).length = d.label.length := by
    have hstop : d.labelSpan.stop ≤ line.length := h
    rw [Span.cut, List.length_drop, List.length_take, Nat.min_eq_left hstop]
    exact Nat.add_sub_cancel_left ..
  simp [labelSpan, labelStop, labelStart, openerStart, withLabelOf] at hlength ⊢
  exact hlength

variable {before : Option Char} {skip offset : Nat} {t x y : Text} {d : Declaration}

/-! ## Openings -/

theorem opening?_eq_some_iff {id rest : Text} {b : Bracket} :
    opening? before t = some (id, b, rest) ↔
      Identifier.apart before = true ∧ ∃ r, Identifier.read? t = some (id, r) ∧
      Bracket.read? r = some (b, rest) := by
  simp only [opening?, Identifier.token?, Option.bind_eq_bind, Option.bind_eq_some_iff, Prod.exists,
    Option.ite_none_right_eq_some, Option.pure_def, Option.some.injEq, Prod.mk.injEq]
  constructor
  · rintro ⟨_, r, ⟨happart, hid⟩, _, _, hbracket, rfl, rfl, rfl⟩
    exact ⟨happart, r, hid, hbracket⟩
  · rintro ⟨happart, r, hid, hbracket⟩
    exact ⟨id, r, ⟨happart, hid⟩, b, rest, hbracket, rfl, rfl, rfl⟩

theorem opening?_eq_some {id rest : Text} {b : Bracket}
    (h : opening? before t = some (id, b, rest)) : t = id ++ (b.opener ++ rest) := by
  obtain ⟨-, r, hid, hbracket⟩ := opening?_eq_some_iff.1 h
  rw [Identifier.eq_append_of_read? hid, Bracket.eq_append_of_read? hbracket]

theorem opening?_of_not_isStart {c : Char} (h : Identifier.isStart c = false) :
    opening? before (c :: t) = none := by
  simp [opening?, Identifier.token?, Identifier.read?, h]

theorem opening?_append
    (hread : Identifier.read? (x ++ y) = (Identifier.read? x).map fun found =>
    (found.1, found.2 ++ y))
    (hopener : Text.Stops Bracket.inOpener y) (before : Option Char) :
    opening? before (x ++ y) = (opening? before x).map fun (id, b, rest) => (id, b, rest ++ y) := by
  simp only [opening?, Identifier.token?, Option.bind_eq_bind]
  split
  · rw [hread]
    cases Identifier.read? x with
    | none => rfl
    | some found =>
      simp only [Option.map_some, Option.bind_some, Bracket.read?_append_of_stops hopener]
      cases Bracket.read? found.2 <;> rfl
  · rfl

/-! ## Reading on -/

/-- Where a text lies only moves its declarations. -/
theorem readFrom_offset (before : Option Char) (skip offset : Nat) (t : Text) :
    readFrom before skip offset t = (readFrom before skip 0 t).map (shift offset) := by
  induction t generalizing before skip offset with
  | nil => rfl
  | cons c cs ih =>
    have hmove : ∀ skip, readFrom (some c) skip (offset + 1) cs =
        (readFrom (some c) skip (0 + 1) cs).map (shift offset) := by
      intro skip
      rw [ih (some c) skip (offset + 1), ih (some c) skip (0 + 1), List.map_map]
      apply List.map_congr_left
      intro d _
      rw [Function.comp_apply, shift_shift, Nat.zero_add, Nat.add_comm]
    cases skip with
    | succ k => simpa only [readFrom] using hmove k
    | zero =>
      cases ho : opening? before (c :: cs) with
      | none => simpa only [readFrom, ho] using hmove 0
      | some opened =>
        obtain ⟨id, bracket, rest⟩ := opened
        cases hcut : Text.cut? bracket.closer rest with
        | none => simp [readFrom, ho, hcut]
        | some found =>
          simp only [readFrom, ho, hcut, List.map_cons, hmove]
          simp [shift, written]

/-- What matters of the character before a text is whether it is part of an identifier. -/
theorem readFrom_before {other : Option Char} (h : Identifier.apart before = Identifier.apart other)
    (offset : Nat) (t : Text) : readFrom before 0 offset t = readFrom other 0 offset t := by
  cases t with
  | nil => rfl
  | cons c cs =>
    have ho : opening? before (c :: cs) = opening? other (c :: cs) := by
      simp only [opening?, Identifier.token?, h]
    rw [readFrom, readFrom, ho]

theorem readFrom_skip (before : Option Char) (k offset : Nat) (x y : Text) :
    readFrom before (x.length + k) offset (x ++ y) =
      readFrom (Text.endOf before x) k (offset + x.length) y := by
  induction x generalizing before offset with
  | nil => simp [Text.endOf]
  | cons c cs ih =>
    have hlength : (c :: cs).length + k = cs.length + k + 1 := by
      rw [List.length_cons]
      omega
    rw [hlength, List.cons_append, readFrom, ih, Text.endOf, List.length_cons, Nat.add_assoc,
      Nat.add_comm 1]

/-- Nothing is declared at any place in `x`. -/
theorem readFrom_of_none
    (h : ∀ front s, x = front ++ s → s ≠ [] → opening? (Text.endOf before front) (s ++ y) = none)
    (offset : Nat) :
    readFrom before 0 offset (x ++ y) = readFrom (Text.endOf before x) 0 (offset + x.length) y := by
  induction x generalizing before offset with
  | nil => rfl
  | cons c cs ih =>
    have hnone := h [] (c :: cs) rfl (by simp)
    rw [Text.endOf, List.cons_append] at hnone
    have hrest : ∀ front s, cs = front ++ s → s ≠ [] →
        opening? (Text.endOf (some c) front) (s ++ y) = none :=
      fun front s hs => h (c :: front) s (by rw [hs]; rfl)
    rw [List.cons_append, readFrom, hnone]
    apply (ih hrest (offset + 1)).trans
    rw [List.length_cons, Nat.add_assoc, Nat.add_comm 1]
    rfl

/-- A declaration that takes up all of `x`. -/
theorem readFrom_cons {id label rest after : Text} {b : Bracket}
    (ho : opening? before (x ++ y) = some (id, b, rest))
    (hcut : Text.cut? b.closer rest = some (label, after))
    (hx : x = (⟨id, b, label, 0⟩ : Declaration).written) (hne : x ≠ []) (offset : Nat) :
    readFrom before 0 offset (x ++ y) =
      ⟨id, b, label, offset⟩ :: readFrom (Text.endOf before x) 0 (offset + x.length) y := by
  cases x with
  | nil => exact absurd rfl hne
  | cons c cs =>
    have hlength : (⟨id, b, label, offset⟩ : Declaration).written.length - 1 = cs.length := by
      have hsame : (⟨id, b, label, offset⟩ : Declaration).written = c :: cs := hx.symm
      simp [hsame]
    have hskip := readFrom_skip (some c) 0 (offset + 1) cs y
    rw [Nat.add_zero] at hskip
    rw [List.cons_append] at ho
    rw [List.cons_append, readFrom, ho]
    simp only [hcut, hlength, hskip]
    congr 2
    simp
    omega

theorem readFrom_append_of_not_isStart (h : ∀ c ∈ x, Identifier.isStart c = false) (offset : Nat) :
    readFrom before 0 offset (x ++ y) = readFrom (Text.endOf before x) 0 (offset + x.length) y := by
  refine readFrom_of_none (fun front s hs hne => ?_) offset
  cases s with
  | nil => exact absurd rfl hne
  | cons c cs =>
    exact opening?_of_not_isStart (h c (hs ▸ List.mem_append_right front List.mem_cons_self))

/-! ## Where a declaration is read -/

/-- A declaration is read between `front` and `back`: its opening is read behind `front`, and the
first closer of its bracket stands in front of `back`. -/
structure ReadAt (before : Option Char) (t : Text) (d : Declaration) (front back : Text) :
    Prop where
  split : t = front ++ (d.written ++ back)
  opening : opening? (Text.endOf before front) (d.written ++ back) =
    some (d.id, d.bracket, d.label ++ (d.bracket.closer ++ back))
  closing : Text.cut? d.bracket.closer (d.label ++ (d.bracket.closer ++ back)) =
      some (d.label, back)

namespace ReadAt

variable {front back : Text}

theorem here {id label rest after : Text} {b : Bracket}
    (hopening : opening? before t = some (id, b, rest))
    (hcut : Text.cut? b.closer rest = some (label, after)) (offset : Nat) :
    ReadAt before t ⟨id, b, label, offset⟩ [] after := by
  have hrest : rest = label ++ (b.closer ++ after) := by
    rw [Text.eq_append_of_cut? hcut, List.append_assoc]
  subst hrest
  have hself := opening?_eq_some hopening
  have hwritten : t = (⟨id, b, label, offset⟩ : Declaration).written ++ after := by
    rw [hself]
    simp [written]
  exact ⟨hwritten, hwritten ▸ hopening, hcut⟩

theorem cons {c : Char} (h : ReadAt (some c) t d front back) :
    ReadAt before (c :: t) d (c :: front) back :=
  ⟨congrArg (c :: ·) h.split, h.opening, h.closing⟩

theorem apart (h : ReadAt before t d front back) :
    Identifier.apart (Text.endOf before front) = true :=
  (opening?_eq_some_iff.1 h.opening).1

theorem valid (h : ReadAt before t d front back) : Identifier.valid d.id = true := by
  obtain ⟨-, r, hid, -⟩ := opening?_eq_some_iff.1 h.opening
  exact Identifier.valid_of_read? hid

theorem bracket (h : ReadAt before t d front back) :
    Bracket.read? (d.bracket.opener ++ (d.label ++ (d.bracket.closer ++ back))) =
      some (d.bracket, d.label ++ (d.bracket.closer ++ back)) := by
  obtain ⟨-, r, -, hbracket⟩ := opening?_eq_some_iff.1 h.opening
  rwa [← Bracket.eq_append_of_read? hbracket]

end ReadAt

/-- What is read is read somewhere, behind what is skipped. -/
theorem exists_readAt (h : d ∈ readFrom before skip offset t) :
    ∃ front back, ReadAt before t d front back ∧ d.start = offset + front.length ∧
      skip ≤ front.length := by
  induction t generalizing before skip offset with
  | nil => cases h
  | cons c cs ih =>
    have hlater : ∀ {k}, d ∈ readFrom (some c) k (offset + 1) cs → skip ≤ k + 1 → ∃ front back,
        ReadAt before (c :: cs) d front back ∧ d.start = offset + front.length ∧
          skip ≤ front.length := by
      intro k hmem hle
      obtain ⟨front, back, hat, hstart, hskip⟩ := ih hmem
      refine ⟨c :: front, back, hat.cons, ?_, Nat.le_trans hle (Nat.succ_le_succ hskip)⟩
      rw [hstart, List.length_cons]
      omega
    cases skip with
    | succ k => exact hlater h (Nat.le_refl _)
    | zero =>
      rw [readFrom] at h
      split at h
      · exact hlater h (Nat.zero_le _)
      · next id b rest hopening =>
        split at h
        · cases h
        · next label after hcut =>
          rcases List.mem_cons.1 h with rfl | h
          · exact ⟨[], after, .here hopening hcut offset, rfl, Nat.le_refl 0⟩
          · exact hlater h (Nat.zero_le _)

theorem le_start_of_mem_readFrom (h : d ∈ readFrom before skip offset t) :
    offset + skip ≤ d.start := by
  obtain ⟨front, back, -, hstart, hskip⟩ := exists_readAt h
  omega

theorem stop_le_of_mem_readFrom (h : d ∈ readFrom before 0 0 t) : d.stop ≤ t.length := by
  obtain ⟨front, back, hat, hstart, -⟩ := exists_readAt h
  rw [hat.split, stop_eq, hstart, List.length_append, List.length_append]
  omega

theorem exists_readAt_of_start (h : d ∈ readFrom before skip offset (x ++ y))
    (hstart : d.start = offset + x.length) :
    ∃ back, ReadAt before (x ++ y) d x back := by
  obtain ⟨front, back, hat, hfront, -⟩ := exists_readAt h
  obtain rfl : x = front := List.append_inj_left hat.split (by omega)
  exact ⟨back, hat⟩

/-- Declarations follow one another. -/
theorem pairwise_readFrom (before : Option Char) (skip offset : Nat) (t : Text) :
    (readFrom before skip offset t).Pairwise fun d e => d.stop ≤ e.start := by
  induction t generalizing before skip offset with
  | nil => exact .nil
  | cons c cs ih =>
    cases skip with
    | succ k => exact ih ..
    | zero =>
      rw [readFrom]
      split
      · exact ih ..
      · split
        · exact .nil
        · next label after _ =>
          refine List.pairwise_cons.2 ⟨fun e he => ?_, ih ..⟩
          have hle := le_start_of_mem_readFrom he
          rw [stop_eq]
          dsimp only at hle ⊢
          omega

end Declaration

namespace Line

variable {line : Line} {d : Declaration}

theorem labelStop_le_of_mem_readFrom (h : d ∈ Declaration.readFrom none 0 0 (maskEdgeLabels line)) :
    d.labelStop ≤ line.length := by
  have hstop := Declaration.stop_le_of_mem_readFrom h
  rw [length_maskEdgeLabels] at hstop
  exact Nat.le_trans d.labelStop_le_stop hstop

/-- The declarations of a line are read on the masked line. -/
theorem mem_declarations : d ∈ declarations line ↔
    isDirective line = false ∧ ∃ masked ∈ Declaration.readFrom none 0 0 (maskEdgeLabels line),
      Keyword.isKeyword masked.id = false ∧ masked.withLabelOf line = d := by
  rw [declarations, List.mem_ite_nil_left, List.mem_map]
  simp only [List.mem_filter, Bool.not_eq_true, Bool.not_eq_true', and_assoc]

theorem stop_le_length_of_mem_declarations (h : d ∈ declarations line) : d.stop ≤ line.length := by
  obtain ⟨-, masked, hread, -, rfl⟩ := mem_declarations.1 h
  have hstop := Declaration.stop_le_of_mem_readFrom hread
  have hspan :=
    congrArg Span.stop (Declaration.labelSpan_withLabelOf (labelStop_le_of_mem_readFrom hread))
  rw [length_maskEdgeLabels] at hstop
  exact Nat.le_trans (Nat.le_of_eq (congrArg (· + masked.bracket.closer.length) hspan)) hstop

theorem stop_le_of_mem_declarations (h : d ∈ declarations line) : d.labelSpan.stop ≤ line.length :=
  Nat.le_trans d.labelStop_le_stop (stop_le_length_of_mem_declarations h)

end Line
end Chartwright
