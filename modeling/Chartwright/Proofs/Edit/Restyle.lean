import Chartwright.Edit.Command
import Chartwright.Proofs.Buffer.LongInteger
import Chartwright.Proofs.Buffer.Shown
import Chartwright.Proofs.Edit.WithoutNode
/-!
Setting a style.

The line for the style of an identifier is found by one reader and read by another; both find the
same name (`Buffer.isFor_iff_of_styleOn?`). The first such line is replaced and the later ones go,
or a line is put in where there was none: either way one line for the identifier stands between the
lines that are none (`exists_putStyle`), and it is read back as it is written. So of all styles only
that of the identifier changes, and setting it again changes nothing (`restyle_isRestyled`). A style
somewhere in the text that cannot be read stands in the way, and so does an integer that cannot be
written.
-/
namespace Chartwright

namespace Style

variable {base update : Style}

theorem Writable.merge (hbase : base.Writable) (hupdate : update.Writable) :
    (base.merge update).Writable := by
  constructor
  · intro t ht
    simp only [texts, Style.merge, List.mem_append] at ht
    have hmem : t ∈ update.texts ∨ t ∈ base.texts := by
      simp only [texts, List.mem_append]
      rcases ht with (ht | ht) | ht
      · exact (mem_orElse ht).imp (fun h => .inl (.inl h)) (fun h => .inl (.inl h))
      · exact (mem_orElse ht).imp (fun h => .inl (.inr h)) (fun h => .inl (.inr h))
      · exact (mem_orElse ht).imp .inr .inr
    exact hmem.elim (hupdate.value t) (hbase.value t)
  · exact fun n hn => (mem_numbers_merge hn).elim (hupdate.short n) (hbase.short n)

theorem merge_ne_empty (h : update ≠ empty) : base.merge update ≠ empty := by
  intro hmerge
  apply h
  have hnone : ∀ {α : Type} {first second : Option α}, (first <|> second) = none →
      first = none := by
    intro α first second hor
    cases first with
    | none => rfl
    | some x => cases hor
  obtain ⟨fill, stroke, width, color, rx⟩ := update
  simp only [merge, empty, mk.injEq] at hmerge ⊢
  obtain ⟨hfill, hstroke, hwidth, hcolor, hrx⟩ := hmerge
  exact ⟨hnone hfill, hnone hstroke, hnone hwidth, hnone hcolor, hnone hrx⟩

theorem merge_merge_self (base update : Style) :
    (base.merge update).merge update = base.merge update := by
  have hself : ∀ {α : Type} (first second : Option α),
      (first <|> (first <|> second)) = (first <|> second) := by
    intro α first second
    cases first <;> rfl
  simp only [merge, hself]

end Style

namespace StyleLine

variable {indent id : Text} {s : Style}

theorem indentFor?_text (hindent : ∀ c ∈ indent, Text.isBlank c = true)
    (hid : Identifier.valid id = true) (h : s.Writable) (hne : s ≠ .empty) :
    indentFor? id (text indent id s) = some indent := by
  obtain ⟨hfull, hstops⟩ := Style.stops_text h.value hne
  have hparts := parts?_append hindent hid (Style.lineFeed_not_mem_text h.value) hfull hstops
  rw [← text_eq] at hparts
  have hfor : isFor id (text indent id s) = true := (isFor_iff_of_parts? hid hparts).2 rfl
  obtain ⟨found, hfound⟩ := Option.isSome_iff_exists.1 hfor
  rw [hfound]
  rw [text_eq, indentFor?, afterWord?_append hindent, Option.bind_eq_bind,
    Option.bind_some] at hfound
  dsimp only at hfound
  split at hfound
  · rw [← hfound]
  · cases hfound

theorem mem_of_indentFor? {line found : Text} (h : indentFor? id line = some found) :
    ∀ c ∈ found, c ∈ line ∧ Text.isBlank c = true := by
  simp only [indentFor?, Option.bind_eq_bind, Option.bind_eq_some_iff, Prod.exists,
    Option.ite_none_right_eq_some]
    at h
  obtain ⟨before, rest, hword, -, heq⟩ := h
  obtain ⟨after, -, hsplit⟩ := Option.map_eq_some_iff.1 hword
  cases heq
  cases hsplit
  intro c hc
  exact ⟨List.takeWhile_subset _ hc, Text.isBlank_of_mem_blanks hc⟩

theorem lineFeed_not_mem_text (hindent : '\n' ∉ indent) (hid : Identifier.valid id = true)
    (h : ∀ t ∈ s.texts, Style.Value t) : '\n' ∉ text indent id s := by
  have hname : '\n' ∉ id := Identifier.not_mem_of_valid hid (by decide)
  simp only [text, ofPairs, List.mem_append, not_or]
  exact ⟨⟨⟨⟨hindent, by decide⟩, hname⟩, by decide⟩, Style.lineFeed_not_mem_text h⟩

end StyleLine

namespace Buffer

variable {b front back : Buffer} {p : Line → Bool} {line new : Line}

/-! ## One line of a kind -/

theorem filter_zipIdx_of_forall (h : ∀ line ∈ b, p line = false) (n : Nat) :
    (b.zipIdx n).filter (fun q => p q.1) = [] := by
  apply List.filter_eq_nil_iff.2
  intro q hq
  rw [h q.1 (List.fst_mem_of_mem_zipIdx hq)]
  exact Bool.false_ne_true

theorem numbers_of_forall (h : ∀ line ∈ b, p line = false) : b.numbers p = [] := by
  rw [numbers, filter_zipIdx_of_forall h]
  rfl

theorem filter_not_of_forall (h : ∀ line ∈ b, p line = false) :
    (b.filter fun line => !p line) = b := by
  apply List.filter_eq_self.2
  intro line hline
  rw [h line hline]
  rfl

/-- The numbers of the lines of a kind behind a front without one. -/
def laterNumbers (p : Line → Bool) (front back : Buffer) : List Nat :=
  ((back.zipIdx (front.length + 1)).filter fun q => p q.1).map (·.2)

theorem numbers_append_cons (hfront : ∀ line ∈ front, p line = false) (hline : p line = true) :
    (front ++ line :: back).numbers p = front.length :: laterNumbers p front back := by
  rw [numbers, List.zipIdx_append, List.filter_append, filter_zipIdx_of_forall hfront,
    List.nil_append, List.zipIdx_cons, List.filter_cons_of_pos (by exact hline), List.map_cons,
    Nat.zero_add]
  rfl

/-- Lines go if and only if they are of the kind, when the numbers of those to go say so. -/
theorem map_filter_zipIdx {doomed : List Nat} {n : Nat}
    (h : ∀ q ∈ b.zipIdx n, doomed.contains q.2 = p q.1) :
    ((b.zipIdx n).filter fun q => !doomed.contains q.2).map (·.1) = b.filter fun line =>
      !p line := by
  have hsame : ((b.zipIdx n).filter fun q => !doomed.contains q.2) =
      (b.zipIdx n).filter ((fun line => !p line) ∘ Prod.fst) :=
    List.filter_congr fun q hq => congrArg not (h q hq)
  calc ((b.zipIdx n).filter fun q => !doomed.contains q.2).map (·.1)
      = ((b.zipIdx n).filter ((fun line => !p line) ∘ Prod.fst)).map Prod.fst := by rw [hsame]
    _ = ((b.zipIdx n).map Prod.fst).filter fun line => !p line := List.filter_map.symm
    _ = b.filter fun line => !p line := by rw [List.zipIdx_map_fst]

theorem contains_laterNumbers {q : Line × Nat} (hq : q ∈ back.zipIdx (front.length + 1)) :
    (laterNumbers p front back).contains q.2 = p q.1 := by
  rw [Bool.eq_iff_iff, List.contains_iff_mem]
  constructor
  · intro hmem
    obtain ⟨r, hr, hnumber⟩ := List.mem_map.1 hmem
    obtain ⟨hr, hp⟩ := List.mem_filter.1 hr
    -- two lines with one number are one line
    have hline := (List.mk_mem_zipIdx_iff_le_and_getElem?_sub.1 hr).2
    have hother := (List.mk_mem_zipIdx_iff_le_and_getElem?_sub.1 hq).2
    rw [hnumber, hother] at hline
    rw [Option.some.inj hline]
    exact hp
  · intro hp
    exact List.mem_map.2 ⟨q, List.mem_filter.2 ⟨hq, hp⟩, rfl⟩

theorem lt_of_mem_laterNumbers {i : Nat} (h : i ∈ laterNumbers p front back) :
    front.length < i := by
  obtain ⟨q, hq, rfl⟩ := List.mem_map.1 h
  have hbounds := List.mem_zipIdx (List.mem_filter.1 hq).1
  omega

/-- What is left when the later lines of a kind go. -/
theorem without_laterNumbers (hfront : ∀ line ∈ front, p line = false) :
    without (laterNumbers p front back)
      (front ++ new :: back) = front ++ new :: back.filter fun line => !p line := by
  have hkept : ∀ i ≤ front.length, (laterNumbers p front back).contains i = false := by
    intro i hi
    rw [Bool.eq_false_iff, ne_eq, List.contains_iff_mem]
    intro hmem
    have := lt_of_mem_laterNumbers hmem
    omega
  have hbefore : ∀ q ∈ front.zipIdx 0, (laterNumbers p front back).contains q.2 = p q.1 := by
    intro q hq
    have hbounds := List.mem_zipIdx hq
    rw [hkept q.2 (by omega), hfront q.1 (List.fst_mem_of_mem_zipIdx hq)]
  rw [without, List.zipIdx_append, List.zipIdx_cons, List.filter_append, List.map_append,
    Nat.zero_add, map_filter_zipIdx hbefore, filter_not_of_forall hfront,
    List.filter_cons_of_pos (by simpa using hkept front.length (Nat.le_refl _)), List.map_cons,
    map_filter_zipIdx fun q => contains_laterNumbers]

/-! ## The line of a style -/

variable {id : Text} {s : Style}

/-- A buffer whose only line for the style of an identifier sets it to `s`. -/
structure SetsOnce (id : Text) (s : Style) (front back b : Buffer) : Prop where
  split : ∃ indent, (∀ c ∈ indent, Text.isBlank c = true ∧ c ≠ '\n') ∧
      b = front ++ StyleLine.text indent id s :: back
  unstyled : ∀ line ∈ front ++ back, StyleLine.isFor id line = false

/-- A style is put in between the lines that do not set it. -/
theorem exists_putStyle (h : ∀ line ∈ b, '\n' ∉ line) (id : Text) (s : Style) :
    ∃ front back, SetsOnce id s front back (b.putStyle id s.text) ∧
      front ++ back = b.filter fun line => !StyleLine.isFor id line := by
  cases hfind : b.find? (StyleLine.isFor id) with
  | none =>
    have hnone : ∀ line ∈ b, StyleLine.isFor id line = false := by
      simpa using List.find?_eq_none.1 hfind
    have hput : b.putStyle id s.text =
        b.take b.appendIndex ++ StyleLine.text indentUnit id s :: b.drop b.appendIndex := by
      rw [putStyle, numbers_of_forall hnone]
      simp only [append, insertAt, List.append_assoc, List.singleton_append, StyleLine.text]
    refine ⟨_, _, ⟨⟨indentUnit, ?_, hput⟩, ?_⟩, ?_⟩
    · exact List.forall_mem_replicate.2 (.inr ⟨by decide, by decide⟩)
    · rwa [List.take_append_drop]
    · rw [List.take_append_drop, filter_not_of_forall hnone]
  | some line =>
    obtain ⟨hline, front, back, rfl, hfront⟩ := List.find?_eq_some_iff_append.1 hfind
    have hfront : ∀ l ∈ front, StyleLine.isFor id l = false := by simpa using hfront
    obtain ⟨indent, hindent⟩ := Option.isSome_iff_exists.1 hline
    have hnumber : Buffer.line (front ++ line :: back) front.length = line := by simp [Buffer.line]
    have hput : putStyle (front ++ line :: back) id s.text =
        front ++ StyleLine.text indent id s :: back.filter fun l => !StyleLine.isFor id l := by
      rw [putStyle, numbers_append_cons hfront hline]
      simp only [hnumber, hindent, Option.getD_some]
      rw [List.set_append_right _ _ (Nat.le_refl _), Nat.sub_self, List.set_cons_zero,
        without_laterNumbers hfront, StyleLine.text]
    refine ⟨_, _, ⟨⟨indent, ?_, hput⟩, ?_⟩, ?_⟩
    · intro c hc
      obtain ⟨hmem, hblank⟩ := StyleLine.mem_of_indentFor? hindent c hc
      refine ⟨hblank, ?_⟩
      rintro rfl
      exact h line (by simp) hmem
    · intro l hl
      rcases List.mem_append.1 hl with hl | hl
      · exact hfront l hl
      · simpa using (List.mem_filter.1 hl).2
    · rw [List.filter_append, List.filter_cons_of_neg (by simp [hline]),
        filter_not_of_forall hfront]

/-! ## What is set -/

/-- Lines for one identifier do not matter to the style of another. -/
theorem find?_styles_filter {name : Text} (hid : Identifier.valid id = true) (hne : name ≠ id)
    (b : Buffer) :
    ((b.filter fun line => !StyleLine.isFor id line).filterMap styleOn?).find?
      (fun s => decide (s.id = name)) =
      (b.filterMap styleOn?).find? fun s => decide (s.id = name) := by
  induction b with
  | nil => rfl
  | cons line rest ih =>
    cases hfor : StyleLine.isFor id line with
    | false =>
      rw [List.filter_cons_of_pos (by simp [hfor])]
      cases hs : styleOn? line with
      | none => rw [List.filterMap_cons_none hs, List.filterMap_cons_none hs, ih]
      | some s =>
        rw [List.filterMap_cons_some hs, List.filterMap_cons_some hs, List.find?_cons,
          List.find?_cons, ih]
    | true =>
      rw [List.filter_cons_of_neg (by simp [hfor]), ih]
      cases hs : styleOn? line with
      | none => rw [List.filterMap_cons_none hs]
      | some s =>
        have hname : s.id = id := (isFor_iff_of_styleOn? hid hs).1 hfor
        rw [List.filterMap_cons_some hs, List.find?_cons_of_neg (by simpa [hname] using hne.symm)]

namespace SetsOnce

variable {b' : Buffer}

theorem isFor_text {indent : Text} (hindent : ∀ c ∈ indent, Text.isBlank c = true ∧ c ≠ '\n')
    (hid : Identifier.valid id = true) (hs : s.Writable) (hne : s ≠ .empty) :
    StyleLine.isFor id (StyleLine.text indent id s) = true := by
  rw [StyleLine.isFor, StyleLine.indentFor?_text (fun c hc => (hindent c hc).1) hid hs hne]
  rfl

theorem filter_isFor (h : SetsOnce id s front back b) (hid : Identifier.valid id = true)
    (hs : s.Writable) (hne : s ≠ .empty) : ∃ line, b.filter (StyleLine.isFor id) = [line] := by
  obtain ⟨indent, hindent, rfl⟩ := h.split
  have hnone : ∀ {part : Buffer}, (∀ line ∈ part, line ∈ front ++ back) →
      part.filter (StyleLine.isFor id) = [] := by
    intro part hpart
    apply List.filter_eq_nil_iff.2
    intro line hline
    rw [h.unstyled line (hpart line hline)]
    exact Bool.false_ne_true
  refine ⟨StyleLine.text indent id s, ?_⟩
  rw [List.filter_append, hnone (fun line hline => List.mem_append_left _ hline),
    List.filter_cons_of_pos (isFor_text hindent hid hs hne),
    hnone (fun line hline => List.mem_append_right _ hline)]
  rfl

theorem filter_not_isFor (h : SetsOnce id s front back b) (hid : Identifier.valid id = true)
    (hs : s.Writable) (hne : s ≠ .empty) :
    (b.filter fun line => !StyleLine.isFor id line) = front ++ back := by
  obtain ⟨indent, hindent, rfl⟩ := h.split
  have hfor := isFor_text hindent hid hs hne
  rw [List.filter_append, List.filter_cons_of_neg (by simp [hfor]), ← List.filter_append,
    filter_not_of_forall h.unstyled]

/-- If the styles on the other lines can be read, all can, and the identifier has the one that is
set. -/
theorem style?_self (h : SetsOnce id s front back b) (hid : Identifier.valid id = true)
    (hs : s.Writable) (hne : s ≠ .empty)
    (hread : ∀ line ∈ front ++ back, ∃ found, StyleLine.read line = .ok found) :
    (∀ line ∈ b, ∃ found, StyleLine.read line = .ok found) ∧ b.style? id = .ok (some s) := by
  obtain ⟨indent, hindent, rfl⟩ := h.split
  have hwritten : StyleLine.read (StyleLine.text indent id s) = .ok (some ⟨id, s⟩) :=
    StyleLine.read_text (fun c hc => (hindent c hc).1) hid hs hne
  have hall : ∀ line ∈ front ++ StyleLine.text indent id s :: back, ∃ found,
      StyleLine.read line = .ok found := by
    rw [List.forall_mem_append] at hread ⊢
    exact ⟨hread.1, List.forall_mem_cons.2 ⟨⟨_, hwritten⟩, hread.2⟩⟩
  have hon : styleOn? (StyleLine.text indent id s) = some ⟨id, s⟩ := by rw [styleOn?, hwritten]
  -- no line before it sets the style of the identifier
  have hbefore : (front.filterMap styleOn?).find? (fun s => decide (s.id = id)) = none := by
    apply List.find?_eq_none.2
    intro found hfound
    obtain ⟨line, hline, hfound⟩ := List.mem_filterMap.1 hfound
    have hnot := h.unstyled line (List.mem_append_left _ hline)
    rw [decide_eq_true_eq, ← isFor_iff_of_styleOn? hid hfound, hnot]
    exact Bool.false_ne_true
  refine ⟨hall, ?_⟩
  rw [style?_eq hall, List.filterMap_append, List.filterMap_cons_some hon, List.find?_append,
    hbefore, Option.none_or, List.find?_cons_of_pos (by simp)]
  rfl

theorem putStyle_self (h : SetsOnce id s front back b) (hid : Identifier.valid id = true)
    (hs : s.Writable) (hne : s ≠ .empty) : b.putStyle id s.text = b := by
  obtain ⟨indent, hindent, rfl⟩ := h.split
  have hunstyled := List.forall_mem_append.1 h.unstyled
  have hnumber : Buffer.line (front ++ StyleLine.text indent id s :: back) front.length =
      StyleLine.text indent id s := by simp [Buffer.line]
  rw [putStyle, numbers_append_cons hunstyled.1 (isFor_text hindent hid hs hne)]
  simp only [hnumber, StyleLine.indentFor?_text (fun c hc => (hindent c hc).1) hid hs hne,
    Option.getD_some]
  rw [List.set_append_right _ _ (Nat.le_refl _), Nat.sub_self, List.set_cons_zero,
    without_laterNumbers hunstyled.1, filter_not_of_forall hunstyled.2, StyleLine.text]

end SetsOnce

/-- What a buffer shows after a style has been set: the identifier has what was set over what it
had, every other has what it had, one line sets the style of the identifier, and the lines that do
not are those there were. -/
structure IsRestyled (id : Text) (style : Style) (b b' : Buffer) : Prop where
  styled : ∃ present, b.style? id = .ok present ∧
      b'.style? id = .ok (some ((present.getD .empty).merge style))
  others : ∀ name, name ≠ id → b'.style? name = b.style? name
  once : ∃ line, b'.filter (StyleLine.isFor id) = [line]
  kept : (b'.filter fun line => !StyleLine.isFor id line) = b.filter fun line =>
      !StyleLine.isFor id line

variable {style : Style}

/-- A style that is set over the present one. -/
theorem restyle_eq {present : Option Style} (hpresent : b.style? id = .ok present)
    (hstyle : style.Writable) (hne : style ≠ .empty) :
    b.restyle id style = .ok (b.putStyle id ((present.getD .empty).merge style).text) ∧
      ((present.getD .empty).merge style).Writable := by
  have hbase : (present.getD .empty).Writable := by
    cases present with
    | none => exact Style.writable_empty
    | some s => exact writable_of_style? hpresent
  have hmerged := hbase.merge hstyle
  have hfull := (Style.stops_text hmerged.value (Style.merge_ne_empty hne)).1
  refine ⟨?_, hmerged⟩
  rw [restyle, hpresent]
  simp only [bind, Except.bind, Style.write_of_brief hmerged.brief]
  rw [if_neg (by simpa using hfull)]
  rfl

theorem isRestyled_putStyle {present : Option Style} {found : List StyleLine}
    (h : ∀ line ∈ b, '\n' ∉ line) (hfound : b.styles = .ok found)
    (hpresent : b.style? id = .ok present) (hid : Identifier.valid id = true)
    (hstyle : style.Writable) (hne : style ≠ .empty) :
    IsRestyled id style b (b.putStyle id ((present.getD .empty).merge style).text) ∧
      (b.putStyle id ((present.getD .empty).merge style).text).restyle id style =
        .ok (b.putStyle id ((present.getD .empty).merge style).text) := by
  obtain ⟨-, hmerged⟩ := restyle_eq hpresent hstyle hne
  have hmergedne : (present.getD .empty).merge style ≠ .empty := Style.merge_ne_empty hne
  obtain ⟨front, back, hput, hkept⟩ := exists_putStyle h id ((present.getD .empty).merge style)
  have hread : ∀ line ∈ front ++ back, ∃ r, StyleLine.read line = .ok r := by
    intro line hline
    rw [hkept] at hline
    exact exists_read_of_styles hfound line (List.mem_filter.1 hline).1
  obtain ⟨hall, hself⟩ := hput.style?_self hid hmerged hmergedne hread
  have hothers := hput.filter_not_isFor hid hmerged hmergedne
  refine ⟨⟨⟨present, hpresent, hself⟩, ?_, hput.filter_isFor hid hmerged hmergedne,
    hothers.trans hkept⟩, ?_⟩
  · intro name hname
    rw [style?_eq hall, style?_eq (exists_read_of_styles hfound), ← find?_styles_filter hid hname,
      hothers.trans hkept, find?_styles_filter hid hname]
  · rw [(restyle_eq hself hstyle hne).1, Option.getD_some, Style.merge_merge_self,
      hput.putStyle_self hid hmerged hmergedne]

/-- The lines with a style are read back. -/
theorem ofText_putStyle (t : Text) (hid : Identifier.valid id = true) (hs : s.Writable) :
    ofText ((ofText t).putStyle id s.text).toText = (ofText t).putStyle id s.text := by
  have hlines : ∀ line ∈ ofText t, '\n' ∉ line := fun line hline => not_mem_of_mem_ofText hline
  obtain ⟨front, back, hput, hkept⟩ := exists_putStyle hlines id s
  have haround : ∀ line ∈ front ++ back, '\n' ∉ line := by
    rw [hkept]
    intro line hline
    exact hlines line (List.mem_filter.1 hline).1
  obtain ⟨indent, hindent, hsplit⟩ := hput.split
  have hwritten : '\n' ∉ StyleLine.text indent id s :=
    StyleLine.lineFeed_not_mem_text (fun hmem => (hindent _ hmem).2 rfl) hid hs.value
  rw [hsplit]
  apply ofText_toText (by simp)
  rw [List.forall_mem_append] at haround ⊢
  exact ⟨haround.1, List.forall_mem_cons.2 ⟨hwritten, haround.2⟩⟩

theorem run_restyle {t : Text} (h : (ofText t).restyle id style = .ok b) :
    Command.run t (.restyle id style) = .ok b.toText := by
  simp only [Command.run, Command.onStyledLines, h]
  rfl

/-- A style is set if the styles of the text can be read and its own integers are not too long, and
else the reason is told why they are not read or it is not written. The text with the style has it
over what was set for the identifier, on one line, and keeps all other styles and lines; setting the
style again changes nothing. -/
theorem restyle_isRestyled {t id : Text} {style : Style} (hid : Identifier.valid id = true)
    (hvalue : ∀ t ∈ style.texts, Style.Value t) (hzero : ∀ n ∈ style.numbers, n ≠ 0)
    (hne : style ≠ .empty) :
    (∀ e, (ofText t).styles = .error e → Command.run t (.restyle id style) = .error (.tooLong e)) ∧
      ∀ found, (ofText t).styles = .ok found →
        (¬ style.Brief → Command.run t (.restyle id style) = .error (.tooLong .writing)) ∧
        (style.Brief →
          ∃ t', Command.run t (.restyle id style) = .ok t' ∧
            IsRestyled id style (ofText t) (ofText t') ∧
            Command.run t' (.restyle id style) = .ok t') := by
  have hlines : ∀ line ∈ ofText t, '\n' ∉ line := fun line hline => not_mem_of_mem_ofText hline
  constructor
  · intro e he
    simp only [Command.run, Command.onStyledLines, restyle, style?, he]
    rfl
  · intro found hfound
    obtain ⟨present, hpresent⟩ : ∃ present, (ofText t).style? id = .ok present :=
      ⟨_, style?_eq (exists_read_of_styles hfound) id⟩
    constructor
    · intro hlong
      have hwrite : ((present.getD .empty).merge style).write = .error .writing :=
        Style.write_of_not_brief fun hmerged => hlong hmerged.of_merge
      simp only [Command.run, Command.onStyledLines, restyle, hpresent, bind, Except.bind, hwrite]
      rfl
    · intro hbrief
      have hstyle : style.Writable := ⟨hvalue, fun n hn => ⟨hzero n hn, hbrief n hn⟩⟩
      obtain ⟨hrestyle, hmerged⟩ := restyle_eq hpresent hstyle hne
      obtain ⟨hresult, hagain⟩ := isRestyled_putStyle hlines hfound hpresent hid hstyle hne
      refine ⟨_, run_restyle hrestyle, ?_, ?_⟩
      · rw [ofText_putStyle t hid hmerged]
        exact hresult
      · apply run_restyle
        rw [ofText_putStyle t hid hmerged, hagain]

/-- Of two lines for a node the first is replaced, with its indent, and the second goes. -/
theorem restyle_isRestyled_of_repeated :
    let t := "\tstyle A rx:3,fill:red\nA[a]\nstyle A stroke:blue\nstyle B rx:4".toList
    let style : Style := { fill := some "green".toList, strokeWidth := some (-1) }
    Identifier.valid "A".toList = true ∧ style.Writable ∧ style ≠ .empty ∧
      ∃ t', Command.run t (.restyle "A".toList style) = .ok t' ∧
        IsRestyled "A".toList style (ofText t) (ofText t') ∧
          Command.run t' (.restyle "A".toList style) = .ok t' := by
  intro t style
  have hfound : (ofText t).styles = .ok [⟨"A".toList, { fill := some "red".toList, rx := some 3 }⟩,
      ⟨"B".toList, { rx := some 4 }⟩] := by rfl
  have hvalue : ∀ t ∈ style.texts, Style.Value t := List.forall_mem_singleton.2
    ⟨Text.tight_of_all (by decide) (by decide), by decide, by decide⟩
  have hzero : ∀ n ∈ style.numbers, n ≠ 0 := List.forall_mem_singleton.2 (by decide)
  have hbrief : style.Brief := List.forall_mem_singleton.2 (Style.short_of_small (by decide))
  have hne : style ≠ .empty := by decide
  exact ⟨by decide, ⟨hvalue, fun n hn => ⟨hzero n hn, hbrief n hn⟩⟩, hne,
    ((restyle_isRestyled (by decide) hvalue hzero hne).2 _ hfound).2 hbrief⟩

/-- A radius with too many digits keeps the style of every other node from being set. -/
theorem restyle_error_of_long_integer :
    Command.run (StyleLine.radiusLine "B".toList 4301)
      (.restyle "A".toList { fill := some "red".toList }) = .error (.tooLong (.reading 4301)) := by
  have hstyles : (ofText (StyleLine.radiusLine "B".toList 4301)).styles = .error (.reading 4301) :=
    styles_of_long_radius (by decide) (by decide)
  simp only [Command.run, Command.onStyledLines, restyle, style?, hstyles]
  rfl

end Buffer
end Chartwright
