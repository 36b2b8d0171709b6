import Chartwright.Proofs.Line.Junction
import Chartwright.Proofs.Line.RowLink
/-!
Links over an exchanged connector.

A line is searched for its link from the left. If what stands behind a firm character is exchanged
for something with another connector in front, every place further left that starts a link then has
started one before (`Link.Exchange.isSome_ends?`), and the link over the connector is read up to it
as before. So the line shows the same link with the other connector
(`Link.Exchange.firstEnds?_append`). The one thing in the way is the label of an arrow that is open
where the exchange takes place: its text goes on behind, and what follows it may be a target or not.
-/
namespace Chartwright

theorem Identifier.isSome_read?_append (t : Text) (c : Char) (y z : Text) :
    (read? (t ++ c :: y)).isSome = (read? (t ++ c :: z)).isSome := by
  cases t with
  | nil =>
    simp only [List.nil_append, read?]
    split <;> rfl
  | cons d ds =>
    simp only [List.cons_append, read?]
    split <;> rfl

namespace Link

theorem isSome_tail? (t : Text) :
    (tail? t).isSome = (Arrow.read? (Text.trimLeft t)).any fun found =>
    (Identifier.read? (Text.trimLeft (Connector.readLabel found.2).2)).isSome := by
  unfold tail? readTail? Connector.read?
  cases Arrow.read? (Text.trimLeft t) with
  | none => rfl
  | some found =>
    simp only [Option.bind_eq_bind, Option.bind_some, Option.pure_def, Option.any_some]
    cases Identifier.read? (Text.trimLeft (Connector.readLabel found.2).2) <;> rfl

end Link

theorem Link.readInline?_cons {α : Type} (next : Text → Option α) {c : Char} (h : c ≠ '\n')
    (t : Text) :
    readInline? next (c :: t) =
      ((if Bracket.isClosing c then next (readClass t).2 else none).map fun found =>
        (c :: (readClass t).1, found)).or
        ((readInline? next t).map fun (inside, found) => (c :: inside, found)) := by
  rw [readInline?, if_neg h]
  dsimp only
  cases (if Bracket.isClosing c then next (readClass t).2 else none) <;> rfl

/-- What is left behind an arrow: all of it, or what stands behind the second bar. -/
theorem Connector.readLabel_snd (t : Text) : (readLabel t).2 =
    (((Text.after? ['|'] (Text.trimLeft t)).bind (Text.cut? ['|'])).map (·.2)).getD t := by
  unfold readLabel EdgeLabel.read?
  cases Text.after? ['|'] (Text.trimLeft t) with
  | none => rfl
  | some inside =>
    simp only [Option.bind_eq_bind, Option.bind_some]
    cases Text.cut? ['|'] inside <;> rfl

section Firm

variable {c : Char} {y z : Text}

theorem Line.trimLeft_append_of_isFirm (hc : isFirm c = true) (t y : Text) :
    Text.trimLeft (t ++ c :: y) = Text.trimLeft t ++ c :: y := by
  refine Text.dropWhile_append_of_stops t (Text.stops_cons.2 ?_)
  rw [Bool.eq_false_iff]
  intro hblank
  rw [isFirm_eq_false_of_isBlank hblank] at hc
  cases hc

theorem Line.ne_of_isFirm (hc : isFirm c = true) {d : Char} (hd : isFirm d = false) : c ≠ d := by
  rintro rfl
  rw [hc] at hd
  cases hd

/-- Whether a target follows an arrow with its label is told from what stands up to a firm
character, unless the label is still open there. -/
theorem Connector.isSome_read?_readLabel (hc : Line.isFirm c = true) (rest : Text)
    (hbars : (∃ gap text, (∀ d ∈ gap, Text.isBlank d = true) ∧ '|' ∉ text ∧
    rest ++ [c] = gap ++ (['|'] ++ text)) →
      (Text.cut? ['|'] y).map (·.2) = (Text.cut? ['|'] z).map (·.2)) :
    (Identifier.read? (Text.trimLeft (readLabel (rest ++ c :: y)).2)).isSome =
      (Identifier.read? (Text.trimLeft (readLabel (rest ++ c :: z)).2)).isSome := by
  have hhere : ∀ t y z, (Identifier.read? (Text.trimLeft (t ++ c :: y))).isSome =
      (Identifier.read? (Text.trimLeft (t ++ c :: z))).isSome := by
    intro t y z
    rw [Line.trimLeft_append_of_isFirm hc, Line.trimLeft_append_of_isFirm hc,
      Identifier.isSome_read?_append]
  have hbar : ∀ y, Text.after? ['|'] (Text.trimLeft (rest ++ c :: y)) =
      (Text.after? ['|'] (Text.trimLeft rest)).map (· ++ c :: y) := by
    intro y
    rw [Line.trimLeft_append_of_isFirm hc, Text.after?_append_of_stops]
    refine List.forall_mem_singleton.2 (Text.stops_cons.2 ?_)
    rw [beq_eq_false_iff_ne]
    exact Line.ne_of_isFirm hc (by decide)
  rw [readLabel_snd, readLabel_snd, hbar, hbar]
  cases hinside : Text.after? ['|'] (Text.trimLeft rest) with
  | none => exact hhere rest y z
  | some inside =>
    simp only [Option.map_some, Option.bind_some]
    by_cases hmem : '|' ∈ inside
    · obtain ⟨label, behind, rfl, hlabel⟩ := List.eq_append_cons_of_mem hmem
      have hcut : ∀ y, Text.cut? ['|'] (label ++ '|' :: behind ++ c :: y) =
          some (label, behind ++ c :: y) := by
        intro y
        simpa using Text.cut?_of_not_mem (behind ++ c :: y) hlabel
      rw [hcut, hcut]
      exact hhere behind y z
    · -- the label is still open at the firm character
      have hself : rest ++ [c] = Text.blanks rest ++ (['|'] ++ (inside ++ [c])) := by
        conv => lhs; rw [← Text.blanks_append_trimLeft rest, Text.after?_eq_some_iff.1 hinside]
        simp
      have hopen : '|' ∉ inside ++ [c] := by
        rw [List.mem_append, List.mem_singleton, not_or]
        exact ⟨hmem, fun heq => Line.ne_of_isFirm hc (by decide) heq.symm⟩
      have hcut : ∀ y, (Text.cut? ['|'] (inside ++ c :: y)).map (·.2) =
          (Text.cut? ['|'] y).map (·.2) := by
        intro y
        have hlong := Text.cut?_append_of_not_mem hopen y
        rw [List.append_assoc, List.singleton_append] at hlong
        rw [hlong, Option.map_map]
        rfl
      rw [hcut, hcut, hbars ⟨_, _, fun _ => Text.isBlank_of_mem_blanks, hopen, hself⟩]
      cases (Text.cut? ['|'] z).map (·.2) with
      | none => exact hhere rest y z
      | some behind => rfl

/-- Whether a connector with its target stands at the front of a text is told from what stands up to
a firm character, unless the label of an arrow is still open there. -/
theorem Link.isSome_tail?_append (hc : Line.isFirm c = true) (t : Text)
    (hbars : Line.leavesOpen (t ++ [c]) = true →
    (Text.cut? ['|'] y).map (·.2) = (Text.cut? ['|'] z).map (·.2)) :
    (tail? (t ++ c :: y)).isSome = (tail? (t ++ c :: z)).isSome := by
  have hstops : ∀ y,
      Text.Stops (fun c => c == '-' || c == '=' || c == '.' || c == '>') (c :: y) := by
    intro y
    refine Text.stops_cons.2 ?_
    simp [Line.ne_of_isFirm hc (show Line.isFirm '-' = false by decide),
      Line.ne_of_isFirm hc (show Line.isFirm '=' = false by decide),
      Line.ne_of_isFirm hc (show Line.isFirm '.' = false by decide),
      Line.ne_of_isFirm hc (show Line.isFirm '>' = false by decide)]
  rw [isSome_tail?, isSome_tail?, Line.trimLeft_append_of_isFirm hc,
    Line.trimLeft_append_of_isFirm hc, Arrow.read?_append_of_stops (hstops y),
    Arrow.read?_append_of_stops (hstops z)]
  cases harrow : Arrow.read? (Text.trimLeft t) with
  | none => rfl
  | some found =>
    obtain ⟨arrow, rest⟩ := found
    obtain ⟨hspelling, hself⟩ := Arrow.read?_eq_some_iff.1 harrow
    refine Connector.isSome_read?_readLabel hc rest fun hopen => hbars ?_
    obtain ⟨gap, text, hgap, htext, hrest⟩ := hopen
    have hsuffix : Text.trimLeft t ++ [c] <:+ t ++ [c] := by
      refine ⟨Text.blanks t, ?_⟩
      rw [← List.append_assoc, Text.blanks_append_trimLeft]
    refine Line.leavesOpen_iff.2
      ⟨_, hsuffix, Line.opensLabel_iff.2 ⟨arrow, gap, text, hspelling, hgap, htext, ?_⟩⟩
    rw [hself, List.append_assoc, hrest]

end Firm

namespace Link

/-- What stands behind `w` may be exchanged, as far as links are concerned that start in `w`: `w`
ends in a firm character, a connector can follow it either way, and what is found behind the
exchange has been found before. -/
structure Exchange (w z z' : Text) : Prop where
  firm : ∃ front c, w = front ++ [c] ∧ Line.isFirm c = true
  ends : Line.Ends z
  ends' : Line.Ends z'
  bars : Line.leavesOpen w = true → (Text.cut? ['|'] z').map (·.2) = (Text.cut? ['|'] z).map (·.2)
  tail : (tail? z).isSome = true
  inline : (inline? z').isSome = true → (inline? z).isSome = true

namespace Exchange

variable {w z z' s : Text}

theorem isSome_tail? (h : Exchange w z z') (hs : s <:+ w)
    (hfound : (tail? (s ++ z')).isSome = true) : (tail? (s ++ z)).isSome = true := by
  obtain ⟨front, c, rfl, hc⟩ := h.firm
  rcases List.eq_nil_or_concat s with rfl | ⟨t, d, rfl⟩
  · exact h.tail
  · rw [List.concat_eq_append] at hs hfound ⊢
    obtain ⟨pre, hpre⟩ := hs
    obtain rfl : d = c := by
      rw [← List.append_assoc] at hpre
      simpa using (List.append_inj' hpre rfl).2
    rw [List.append_assoc, List.singleton_append] at hfound ⊢
    rwa [isSome_tail?_append hc t fun hopen => ?_]
    refine (h.bars ?_).symm
    obtain ⟨u, hu, hlabel⟩ := Line.leavesOpen_iff.1 hopen
    exact Line.leavesOpen_iff.2 ⟨u, hu.trans ⟨pre, hpre⟩, hlabel⟩

theorem readClass_append (hz : Line.Ends z) (s : Text) :
    (readClass (s ++ z)).2 = (readClass s).2 ++ z :=
  Link.readClass_append hz.stops_isSuffixChar

theorem readClass_suffix (s : Text) : (readClass s).2 <:+ s :=
  ⟨(readClass s).1, (eq_of_readClass s).symm⟩

theorem isSome_inline? (h : Exchange w z z') (hs : s <:+ w)
    (hfound : (inline? (s ++ z')).isSome = true) : (inline? (s ++ z)).isSome = true := by
  induction s with
  | nil => exact h.inline hfound
  | cons c cs ih =>
    have hcs : cs <:+ w := (List.suffix_cons c cs).trans hs
    by_cases hline : c = '\n'
    · subst hline
      cases hfound
    · rw [List.cons_append, inline?_cons hline, readClass_append h.ends'] at hfound
      rw [List.cons_append, inline?_cons hline, readClass_append h.ends]
      rw [Option.isSome_or, Bool.or_eq_true] at hfound ⊢
      refine hfound.imp (fun hhere => ?_) (ih hcs)
      split at hhere
      · next hclosing =>
        rw [if_pos hclosing]
        exact h.isSome_tail? ((readClass_suffix cs).trans hcs) hhere
      · cases hhere

theorem stops_inOpener (hz : Line.Ends z) : Text.Stops Bracket.inOpener z :=
  hz.stops (fun _ hc => Line.not_inOpener_of_loose (Line.isFirm_eq_false_of_isBlank hc) (by
    rintro rfl
    exact absurd hc (by decide))) (by decide) (by decide) (by decide)

theorem ends?_append (hz : Line.Ends z) (s : Text) :
    ends? (s ++ z) = (Identifier.read? s).bind fun (source, rest) =>
      (match Bracket.read? rest with
        | some (_, inside) => inline? (inside ++ z)
        | none => tail? (rest ++ z)).map fun (k, target) => (source, k, target) := by
  rw [ends?_eq, Identifier.read?_append_of_stops hz.stops_isChar]
  cases Identifier.read? s with
  | none => rfl
  | some found =>
    simp only [Option.map_some, Option.bind_some, Bracket.read?_append_of_stops (stops_inOpener hz)]
    cases Bracket.read? found.2 <;> rfl

/-- Where a link starts after the exchange, one has started before. -/
theorem isSome_ends? (h : Exchange w z z') (hs : s <:+ w)
    (hfound : (ends? (s ++ z')).isSome = true) : (ends? (s ++ z)).isSome = true := by
  rw [ends?_append h.ends'] at hfound
  rw [ends?_append h.ends]
  cases hname : Identifier.read? s with
  | none =>
    rw [hname] at hfound
    cases hfound
  | some found =>
    obtain ⟨source, rest⟩ := found
    have hrest : rest <:+ w :=
      List.IsSuffix.trans ⟨source, (Identifier.eq_append_of_read? hname).symm⟩ hs
    simp only [hname, Option.bind_some, Option.isSome_map] at hfound ⊢
    cases hopener : Bracket.read? rest with
    | none =>
      rw [hopener] at hfound
      exact h.isSome_tail? hrest hfound
    | some opened =>
      obtain ⟨b, inside⟩ := opened
      rw [hopener] at hfound
      exact h.isSome_inline?
        (List.IsSuffix.trans ⟨b.opener, (Bracket.eq_append_of_read? hopener).symm⟩ hrest) hfound

/-- An inline declaration that ends at the exchange ends there after it too. -/
theorem inline?_append (h : Exchange w z z') {e : Connector × Text} (he : tail? z' = some e)
    (hs : s <:+ w) {found : Connector × Text × Text}
    (hread : readInline? readTail? (s ++ z) = some (s, found)) : inline? (s ++ z') = some e := by
  induction s generalizing found with
  | nil =>
    cases z with
    | nil => cases hread
    | cons d ds =>
      by_cases hline : d = '\n'
      · subst hline
        cases hread
      · rw [List.nil_append, readInline?_cons readTail? hline, Option.or_eq_some_iff,
          Option.map_eq_some_iff, Option.map_eq_some_iff] at hread
        rcases hread with ⟨f, -, heq⟩ | ⟨-, f, -, heq⟩ <;> cases heq
  | cons c cs ih =>
    have hcs : cs <:+ w := (List.suffix_cons c cs).trans hs
    have hline : c ≠ '\n' := by
      rintro rfl
      cases hread
    rw [List.cons_append, readInline?_cons readTail? hline, Option.or_eq_some_iff,
      Option.map_eq_some_iff, Option.map_eq_some_iff] at hread
    rw [List.cons_append, inline?_cons hline, readClass_append h.ends']
    rcases hread with ⟨f, hhere, heq⟩ | ⟨hnone, ⟨inside, f⟩, hlater, heq⟩
    · -- the class suffix reaches up to the exchange
      obtain ⟨hclosing, -⟩ := Option.ite_none_right_eq_some.1 hhere
      have hsuffix : (readClass (cs ++ z)).1 = cs := by simpa using congrArg Prod.fst heq
      have hself := eq_of_readClass (cs ++ z)
      rw [hsuffix, readClass_append h.ends, List.append_cancel_left_eq] at hself
      have hnil : (readClass cs).2 = [] := by simpa using hself
      rw [if_pos hclosing, hnil, List.nil_append, he]
      rfl
    · cases heq
      rw [ih hcs hlater]
      rw [Option.map_eq_none_iff] at hnone
      split
      · next hclosing =>
        -- no connector followed the bracket before, so none does now
        rw [if_pos hclosing, readClass_append h.ends] at hnone
        cases hfound : tail? ((readClass cs).2 ++ z') with
        | none => rfl
        | some e' =>
          have hsome := h.isSome_tail? ((readClass_suffix cs).trans hcs)
            (Option.isSome_iff_exists.2 ⟨e', hfound⟩)
          rw [tail?, hnone] at hsome
          cases hsome
      · rfl

/-- A link whose connector is exchanged is read with the other connector. -/
theorem ends?_eq (h : Exchange w z z') {l : Link} {rest : Text} (hs : l.source ++ l.inline <:+ w)
    (hread : read? (l.source ++ l.inline ++ z) = some (l, rest)) {k : Connector} {target : Text}
    (he : tail? z' = some (k, target)) :
    ends? (l.source ++ l.inline ++ z') = some (l.source, k, target) := by
  obtain ⟨source, inline, connector, oldTarget⟩ := l
  dsimp only at hs hread ⊢
  simp only [read?, Identifier.read?_append_of_stops h.ends.stops_isChar, Option.bind_eq_bind,
    Option.bind_eq_some_iff, Option.map_eq_some_iff, Prod.exists, Option.pure_def,
    Option.some.injEq, Prod.mk.injEq, Link.mk.injEq] at hread
  obtain ⟨name, _, ⟨_, behind, hname, rfl, rfl⟩, i, connector', target', rest', hafter,
    ⟨rfl, rfl, rfl, rfl⟩, rfl⟩ :=
    hread
  obtain rfl : i = behind := List.append_cancel_left (Identifier.eq_append_of_read? hname)
  rw [ends?_append h.ends', hname, Option.bind_some]
  dsimp only
  have hinline : i <:+ w := (List.suffix_append _ i).trans hs
  unfold afterSource? at hafter
  rw [Bracket.read?_append_of_stops (stops_inOpener h.ends)] at hafter
  cases hopener : Bracket.read? i with
  | none =>
    rw [hopener, Option.map_none] at hafter
    obtain ⟨found, -, heq⟩ := Option.map_eq_some_iff.1 hafter
    obtain rfl : [] = i := congrArg Prod.fst heq
    rw [List.nil_append, he]
    rfl
  | some opened =>
    obtain ⟨b, inside⟩ := opened
    have hself := Bracket.eq_append_of_read? hopener
    rw [hopener, Option.map_some] at hafter
    obtain ⟨⟨inside', found⟩, hinside, heq⟩ := Option.map_eq_some_iff.1 hafter
    obtain rfl : inside' = inside := by
      have hsame : b.opener ++ inside' = i := congrArg Prod.fst heq
      exact List.append_cancel_left (hsame.trans hself)
    have hsuffix : inside' <:+ w := List.IsSuffix.trans ⟨b.opener, hself.symm⟩ hinline
    dsimp only
    rw [h.inline?_append he hsuffix hinside]
    rfl

/-- The leftmost link of a text, over a connector that is exchanged, is the leftmost link with the
other connector. -/
theorem firstEnds?_append (h : Exchange w z z') {l : Link} {front rest : Text}
    (hw : w = front ++ (l.source ++ l.inline))
    (hbefore : Identifier.apart (Text.endOf none front) = true)
    (hread : read? (l.source ++ l.inline ++ z) = some (l, rest))
    (hleft : ∀ x y, w ++ z = x ++ y → x.length < front.length →
    Identifier.apart (Text.endOf none x) = true →
      read? y = none) {k : Connector} {target : Text} (he : tail? z' = some (k, target)) :
    firstEnds? none (w ++ z') = some (l.source, k, target) := by
  have hsuffix : l.source ++ l.inline <:+ w := hw ▸ List.suffix_append front _
  have hends := h.ends?_eq hsuffix hread he
  rw [hw, List.append_assoc, Link.firstEnds?_append]
  · obtain ⟨c, cs, hc⟩ : ∃ c cs, l.source ++ l.inline ++ z' = c :: cs := by
      refine List.exists_cons_of_ne_nil fun hnil => ?_
      rw [hnil] at hends
      cases hends
    rw [hc] at hends ⊢
    rw [firstEnds?_cons, if_pos hbefore, hends]
    rfl
  · -- a link that started further left would have done so before
    intro x s hfront hne happart
    cases hfound : ends? (s ++ (l.source ++ l.inline ++ z')) with
    | none => rfl
    | some e =>
      have hs : s ++ (l.source ++ l.inline) <:+ w := ⟨x, by rw [hw, hfront, List.append_assoc]⟩
      rw [← List.append_assoc] at hfound
      have hsome := h.isSome_ends? hs (Option.isSome_iff_exists.2 ⟨e, hfound⟩)
      have hnone := hleft x (s ++ (l.source ++ l.inline) ++ z) (by rw [hw, hfront]; simp) (by
        have hpos := List.length_pos_iff.2 hne
        rw [hfront, List.length_append]
        omega) happart
      rw [ends?, hnone] at hsome
      cases hsome

end Exchange
end Link
end Chartwright
