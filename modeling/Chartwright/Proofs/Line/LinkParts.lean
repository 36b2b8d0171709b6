import Chartwright.Proofs.Line.Exchange
/-!
The parts of the leftmost link of a text.

A link ends its source and the declaration behind it in a word or a bracket
(`Link.endsWord_of_read?`), and its connector is an arrow with its label between blanks
(`Tip.exists_of_connector`). So another arrow can be written in its place, and the text then shows
the same link with that arrow (`Link.Parts.firstEnds?_write`).
-/
namespace Chartwright

namespace Tip

/-- A connector is an arrow with its label between blanks. -/
theorem exists_of_connector {t rest : Text} {k : Connector}
    (h : Connector.read? t = some (k, rest)) :
    ∃ p : Tip, k = p.connector k.gap k.space ∧ (∀ c ∈ k.gap, Text.isBlank c = true) ∧
      (∀ c ∈ k.space, Text.isBlank c = true) ∧ t = k.gap ++ (p.written ++ (k.space ++ rest)) := by
  have ht := Connector.eq_of_read? h
  simp only [Connector.read?, Option.bind_eq_bind, Option.bind_eq_some_iff, Prod.exists,
    Option.pure_def, Option.some.injEq, Prod.mk.injEq] at h
  obtain ⟨arrow, r, harrow, rfl, -⟩ := h
  have hlabel : ∀ l, (Connector.readLabel r).1 = some l → (∀ c ∈ l.gap, Text.isBlank c = true) ∧
      '|' ∉ l.text := by
    intro l hl
    rw [Connector.readLabel] at hl
    split at hl
    · next found behind hread =>
      obtain rfl := Option.some.inj hl
      exact EdgeLabel.of_read? hread
    · cases hl
  let p : Tip := ⟨arrow, (Connector.readLabel r).1, Arrow.spelling_of_read? harrow, hlabel⟩
  refine ⟨p, rfl, fun _ => Text.isBlank_of_mem_blanks, fun _ => Text.isBlank_of_mem_blanks, ?_⟩
  have hwritten :
      Connector.written ⟨Text.blanks t, arrow, (Connector.readLabel r).1,
        Text.blanks (Connector.readLabel r).2⟩ =
      Text.blanks t ++ (p.written ++ Text.blanks (Connector.readLabel r).2) :=
    p.written_connector ..
  calc t = _ := ht
    _ = _ := by rw [hwritten, List.append_assoc, List.append_assoc]

end Tip

namespace Link

/-- A character that can stand before a connector: a part of a word, or a closing bracket. -/
def isLast (c : Char) : Bool := Text.isWord c || Bracket.isClosing c

theorem isFirm_of_isLast {c : Char} (h : isLast c = true) : Line.isFirm c = true ∧ c ≠ '\x00' := by
  rw [isLast, Bool.or_eq_true] at h
  rcases h with h | h
  · have hne : ∀ d, Text.isWord d = false → c ≠ d := fun d => Text.ne_of_isWord h
    refine ⟨?_, hne _ (by decide)⟩
    simp [Line.isFirm, Text.not_isBlank_of_isWord h, hne '|' (by decide), hne '-' (by decide),
      hne '=' (by decide), hne '.' (by decide), hne '>' (by decide)]
  · simp only [Bracket.isClosing, Bool.or_eq_true, beq_iff_eq] at h
    rcases h with (rfl | rfl) | rfl <;> decide

/-- A text that ends in such a character. -/
def EndsWord (t : Text) : Prop := ∃ front c, t = front ++ [c] ∧ isLast c = true

theorem EndsWord.append {t : Text} (h : EndsWord t) (x : Text) : EndsWord (x ++ t) := by
  obtain ⟨front, c, rfl, hc⟩ := h
  exact ⟨x ++ front, c, (List.append_assoc ..).symm, hc⟩

theorem endsWord_of_forall {t : Text} (hne : t ≠ []) (h : ∀ c ∈ t, Text.isWord c = true) :
    EndsWord t :=
  ⟨t.dropLast, t.getLast hne, (List.dropLast_concat_getLast hne).symm, by
    rw [isLast, h _ (List.getLast_mem hne), Bool.true_or]⟩

theorem endsWord_of_readInline? {α : Type} {next : Text → Option α} {t inside : Text} {a : α}
    (h : readInline? next t = some (inside, a)) : EndsWord inside := by
  induction t generalizing inside with
  | nil => cases h
  | cons c cs ih =>
    have hline : c ≠ '\n' := by
      rintro rfl
      cases h
    rw [readInline?_cons next hline, Option.or_eq_some_iff, Option.map_eq_some_iff,
      Option.map_eq_some_iff] at h
    rcases h with ⟨f, hhere, heq⟩ | ⟨-, ⟨i, f⟩, hlater, heq⟩
    · obtain rfl : c :: (readClass cs).1 = inside := congrArg Prod.fst heq
      obtain ⟨hclosing, -⟩ := Option.ite_none_right_eq_some.1 hhere
      unfold readClass
      split
      · next suffix rest hsuffix =>
        simp only [Line.classSuffix?, Option.bind_eq_bind, Option.bind_eq_some_iff,
          Option.ite_none_left_eq_some, Option.some.injEq, Prod.mk.injEq] at hsuffix
        obtain ⟨r, -, hne, rfl, -⟩ := hsuffix
        have hword :=
          endsWord_of_forall (t := r.takeWhile Text.isWord) (by simpa using hne) fun d hd =>
          List.all_eq_true.1 List.all_takeWhile d hd
        exact hword.append (c :: [':', ':', ':'])
      · exact ⟨[], c, rfl, by rw [isLast, hclosing, Bool.or_true]⟩
    · cases heq
      exact (ih hlater).append [c]

theorem isSome_inline?_append {x t : Text} (hline : '\n' ∉ x) (h : (inline? t).isSome = true) :
    (inline? (x ++ t)).isSome = true := by
  induction x with
  | nil => exact h
  | cons c cs ih =>
    rw [List.mem_cons, not_or] at hline
    rw [List.cons_append, inline?_cons (Ne.symm hline.1), Option.isSome_or, ih hline.2,
      Bool.or_true]

/-- What stands before the connector of a link ends in a word or in a closing bracket. -/
theorem endsWord_of_read? {t rest : Text} {l : Link} (h : read? t = some (l, rest)) :
    EndsWord (l.source ++ l.inline) := by
  have hvalid := (valid_of_read? h).1
  simp only [read?, Option.bind_eq_bind, Option.bind_eq_some_iff, Prod.exists, Option.pure_def,
    Option.some.injEq, Prod.mk.injEq] at h
  obtain ⟨source, r, -, inline, k, target, r', hafter, rfl, -⟩ := h
  unfold afterSource? at hafter
  split at hafter
  · obtain ⟨⟨inside, found⟩, hinside, heq⟩ := Option.map_eq_some_iff.1 hafter
    cases heq
    exact ((endsWord_of_readInline? hinside).append _).append source
  · obtain ⟨found, -, heq⟩ := Option.map_eq_some_iff.1 hafter
    cases heq
    rw [List.append_nil]
    exact endsWord_of_forall (Identifier.ne_nil_of_valid hvalid) fun c hc =>
      Text.isWord_of_isChar (Identifier.isChar_of_valid hvalid c hc)

/-- The leftmost link of a text, taken apart: what stands before it, its arrow with the label, and
what stands behind its target. -/
structure Parts (t : Text) (column : Nat) (l : Link) where
  front : Text
  tip : Tip
  rest : Text
  length_front : front.length = column
  connector_eq : l.connector = tip.connector l.connector.gap l.connector.space
  gap_blank : ∀ c ∈ l.connector.gap, Text.isBlank c = true
  space_blank : ∀ c ∈ l.connector.space, Text.isBlank c = true
  target_read : Identifier.read? (l.target ++ rest) = some (l.target, rest)
  apart : Identifier.apart (Text.endOf none front) = true
  reads : read? (l.source ++ l.inline ++
    (l.connector.gap ++ (tip.written ++ (l.connector.space ++ (l.target ++ rest))))) =
      some (l, rest)
  leftmost : ∀ x y, t = x ++ y → x.length < front.length →
      Identifier.apart (Text.endOf none x) = true → read? y = none
  eq_written : t = front ++ (l.source ++ l.inline) ++
    (l.connector.gap ++ (tip.written ++ (l.connector.space ++ (l.target ++ rest))))

theorem nonempty_parts {t : Text} {column : Nat} {l : Link} (h : first? t = some (column, l)) :
    Nonempty (Parts t column l) := by
  obtain ⟨front, rest, ht, hcolumn, hbefore, hread, hleft⟩ := exists_of_first? h
  obtain ⟨-, s, s', hs, hconnector, htarget⟩ := parts_of_read? hread
  obtain ⟨p, hk, hgap, hspace, rfl⟩ := Tip.exists_of_connector hconnector
  obtain rfl := Identifier.eq_append_of_read? htarget
  exact ⟨{
    front := front, tip := p, rest := rest, length_front := hcolumn.symm, connector_eq :=
      hk, gap_blank := hgap
    space_blank := hspace, target_read := htarget, apart := hbefore, reads := hs ▸ hread
    leftmost := hcolumn ▸ hleft, eq_written := by simp [ht, hs] }⟩

namespace Parts

variable {t : Text} {column : Nat} {l : Link} (q : Parts t column l)

/-- The text up to the connector. -/
def word : Text := q.front ++ (l.source ++ l.inline)

/-- The text from the connector on, with another arrow. -/
def behind (p : Tip) : Text :=
  l.connector.gap ++ (p.written ++ (l.connector.space ++ (l.target ++ q.rest)))

/-- The text with another arrow in the place of the one that joins the link. -/
def write (p : Tip) : Text := q.word ++ q.behind p

theorem write_tip : q.write q.tip = t := q.eq_written.symm

theorem ends_behind (p : Tip) : Line.Ends (q.behind p) := by
  rw [behind]
  cases hgap : l.connector.gap with
  | nil => exact p.ends_written _
  | cons c cs => exact Text.stops_cons.2 (by simp [q.gap_blank c (hgap ▸ List.mem_cons_self)])

theorem tail?_behind (p : Tip) :
    tail? (q.behind p) = some (p.connector l.connector.gap l.connector.space, l.target) := by
  have hvalid := Identifier.valid_of_read? q.target_read
  have hbar : Text.Stops (· == '|') (l.target ++ q.rest) :=
    Identifier.stops_append hvalid (fun c hc => by
    rw [beq_eq_false_iff_ne]
    exact Identifier.ne_of_isChar hc (by decide)) _
  have hread :=
    p.read?_between q.gap_blank q.space_blank (Identifier.stops_isBlank_append hvalid q.rest) hbar
  rw [behind, tail?, readTail?, hread]
  simp only [Option.bind_eq_bind, Option.bind_some, q.target_read]
  rfl

theorem exists_word_eq : ∃ front c, q.word = front ++ [c] ∧ isLast c = true :=
  (endsWord_of_read? q.reads).append q.front

/-- The text with another arrow shows the link with that arrow, if what is found behind the arrow
was found before, and what stands behind a label that is open at the arrow. -/
theorem firstEnds?_write (p : Tip)
    (hbars : Line.leavesOpen q.word = true →
      (Text.cut? ['|'] (q.behind p)).map (·.2) = (Text.cut? ['|'] (q.behind q.tip)).map (·.2))
    (hinline : (inline? (q.behind p)).isSome = true → (inline? (q.behind q.tip)).isSome = true) :
    firstEnds? none (q.write p) =
      some (l.source, p.connector l.connector.gap l.connector.space, l.target) := by
  have hexchange : Exchange q.word (q.behind q.tip) (q.behind p) := {
    firm := by
      obtain ⟨front, c, hword, hc⟩ := q.exists_word_eq
      exact ⟨front, c, hword, (isFirm_of_isLast hc).1⟩
    ends := q.ends_behind q.tip
    ends' := q.ends_behind p
    bars := hbars
    tail := by rw [q.tail?_behind]; rfl
    inline := hinline }
  exact hexchange.firstEnds?_append rfl q.apart q.reads (fun x y h =>
    q.leftmost x y (q.write_tip.symm.trans h))
    (q.tail?_behind p)

theorem not_mem_behind {c : Char} (h : c ∉ t) : c ∉ q.behind q.tip := by
  rw [← q.write_tip, write, List.mem_append, not_or] at h
  exact h.2

/-- With its arrow spelled anew the link stays as it is. -/
theorem firstEnds?_spell {spelling : Text} (h : Arrow.Spelling spelling) (hline : '\n' ∉ t) :
    firstEnds? none (q.write { q.tip with spelling := spelling, spelled := h }) =
      some (l.source, { l.connector with arrow := spelling }, l.target) := by
  have hgap : '\n' ∉ l.connector.gap :=
    fun hmem => q.not_mem_behind hline (List.mem_append_left _ hmem)
  let labelled : Text := q.tip.labelled (fun t => t) ++ (l.connector.space ++ (l.target ++ q.rest))
  have hbehind : ∀ {spelling : Text} (h : Arrow.Spelling spelling),
      q.behind { q.tip with spelling := spelling, spelled := h } =
        l.connector.gap ++ (spelling ++ labelled) := by
    intro spelling h
    show _ ++ ((spelling ++ q.tip.labelled fun t => t) ++ _) = _
    rw [List.append_assoc]
  -- neither bars nor brackets are in the blanks and in an arrow
  have hcut : ∀ {spelling : Text} (_ : Arrow.Spelling spelling),
      (Text.cut? ['|'] (l.connector.gap ++ (spelling ++ labelled))).map (·.2) =
        (Text.cut? ['|'] labelled).map (·.2) := by
    intro spelling h
    have hbar : '|' ∉ l.connector.gap ++ spelling := by
      rw [List.mem_append, not_or]
      exact ⟨Text.not_mem_of_isBlank q.gap_blank (by decide), h.not_mem (by decide)⟩
    rw [← List.append_assoc, Text.cut?_append_of_not_mem hbar, Option.map_map]
    rfl
  have hinline : ∀ {spelling : Text} (_ : Arrow.Spelling spelling),
      inline? (l.connector.gap ++ (spelling ++ labelled)) = inline? labelled := by
    intro spelling h
    rw [inline?_blanks q.gap_blank hgap, inline?_append]
    intro c hc
    rcases h.mem hc with rfl | rfl | rfl | rfl <;> decide
  have hconnector : { l.connector with arrow := spelling } =
      Tip.connector { q.tip with spelling := spelling, spelled := h } l.connector.gap
        l.connector.space :=
    congrArg (fun k : Connector => { k with arrow := spelling }) q.connector_eq
  rw [hconnector]
  refine q.firstEnds?_write _ (fun _ => ?_) fun hfound => ?_
  · exact (hbehind h ▸ hcut h).trans (hbehind q.tip.spelled ▸ hcut q.tip.spelled).symm
  · rw [hbehind h, hinline h] at hfound
    rwa [hbehind q.tip.spelled, hinline q.tip.spelled]

/-- Another arrow with another label joins the link too, if no label is open before it and its own
holds no arrow. -/
theorem firstEnds?_relabel (p : Tip) (hclosed : Line.leavesOpen q.word = false)
    (hline : '\n' ∉ q.write p) (hline' : '\n' ∉ t)
    (hplain : ∀ label, p.label = some label → Arrow.occursIn label.text = false) :
    firstEnds? none (q.write p) =
      some (l.source, p.connector l.connector.gap l.connector.space, l.target) := by
  refine q.firstEnds?_write p (fun hopen => ?_) fun hfound => ?_
  · rw [hclosed] at hopen
    cases hopen
  · -- a bracket of the new label ends no declaration, so the one found stands behind the connector
    have hwritten : ∀ {p : Tip}, '\n' ∉ q.write p → '\n' ∉ q.behind p := fun h hmem =>
      h (List.mem_append_right _ hmem)
    have hshape : ∀ {p : Tip},
        q.behind p = (l.connector.gap ++ (p.written ++ l.connector.space)) ++
        (l.target ++ q.rest) := by
      intro p
      simp [behind]
    have hold : '\n' ∉ q.write q.tip := by rwa [q.write_tip]
    have hnew := hwritten hline
    have hkept := hwritten hold
    rw [hshape] at hnew hkept
    simp only [List.mem_append, not_or] at hnew
    rw [behind, inline?_blanks q.gap_blank hnew.1.1, Tip.inline?_append hplain hnew.1.2.1,
      inline?_blanks q.space_blank hnew.1.2.2] at hfound
    rw [hshape]
    exact isSome_inline?_append (fun hmem => hkept (List.mem_append_left _ hmem)) hfound

end Parts

end Link
end Chartwright
