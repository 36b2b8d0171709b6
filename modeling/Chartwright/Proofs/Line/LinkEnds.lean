import Chartwright.Proofs.Line.EdgeOn
import Chartwright.Proofs.Line.Tip
/-!
The link at the front of a text.

A link starts at a name. Behind a bare name an arrow has to follow at once; behind a label every
closing bracket is tried, so a link can pass over nodes and arrows up to the first arrow that stands
behind a bracket. For each part of a line it is told what a link that comes from the left finds in
it (`Link.inline?`), and what one that starts there finds (`Link.ends?`).
-/
namespace Chartwright

theorem Bracket.closer_eq (b : Bracket) :
    ∃ mark last, b.closer = mark ++ [last] ∧ isClosing last = true ∧
      (mark = [] ∨ ∃ c, mark = [c] ∧ c ≠ '\n') := by
  cases b
  all_goals
    first
    | exact ⟨[], _, rfl, by decide, .inl rfl⟩
    | exact ⟨[_], _, rfl, by decide, .inr ⟨_, rfl, by decide⟩⟩

theorem Connector.isQuiet_of_isClosing {c : Char} (h : Bracket.isClosing c = true) :
    isQuiet c = true := by
  simp only [Bracket.isClosing, Bool.or_eq_true, beq_iff_eq] at h
  rcases h with (rfl | rfl) | rfl <;> decide

namespace Link

/-- The source, the connector and the target of a link. -/
def ends (l : Link) : Text × Connector × Text := (l.source, l.connector, l.target)

/-- A connector with its target at the front of a text. -/
def tail? (t : Text) : Option (Connector × Text) :=
  (readTail? t).map fun (k, target, _) => (k, target)

/-- The connector with its target that an inline declaration ends at. -/
def inline? (t : Text) : Option (Connector × Text) :=
  (readInline? readTail? t).map fun (_, k, target, _) => (k, target)

/-- The link at the front of a text. -/
def ends? (t : Text) : Option (Text × Connector × Text) := (read? t).map fun (l, _) => l.ends

/-- The leftmost link of a text behind a given character. -/
def firstEnds? (before : Option Char) (t : Text) : Option (Text × Connector × Text) :=
  (Text.firstFrom (fun before t => if Identifier.apart before then (read? t).map (·.1) else none)
    before t).map fun (_, l) => l.ends

theorem ends_first? (t : Text) : (first? t).map (fun (_, l) => l.ends) = firstEnds? none t := rfl

variable {before : Option Char} {c : Char} {t : Text}

theorem tail?_of_none (h : Connector.read? t = none) : tail? t = none := by
  simp [tail?, readTail?, h]

theorem tail?_of_isQuiet (h : Connector.isQuiet c = true) : tail? (c :: t) = none :=
  tail?_of_none (Connector.read?_of_isQuiet h)

theorem inline?_cons (h : c ≠ '\n') :
    inline? (c :: t) =
      (if Bracket.isClosing c then tail? (readClass t).2 else none).or (inline? t) := by
  rw [inline?, readInline?, if_neg h]
  by_cases hclosing : Bracket.isClosing c = true
  · rw [if_pos hclosing, if_pos hclosing, tail?]
    cases readTail? (readClass t).2 with
    | some found => rfl
    | none =>
      rw [Option.map_none, Option.none_or, Option.map_map]
      rfl
  · rw [if_neg hclosing, if_neg hclosing, Option.none_or, Option.map_map]
    rfl

theorem inline?_append {x : Text} (h : ∀ c ∈ x, c ≠ '\n' ∧ Bracket.isClosing c = false) (t : Text) :
    inline? (x ++ t) = inline? t := by
  induction x with
  | nil => rfl
  | cons c cs ih =>
    obtain ⟨hline, hclosing⟩ := h c List.mem_cons_self
    rw [List.cons_append, inline?_cons hline, hclosing, if_neg (by simp), Option.none_or]
    exact ih fun d hd => h d (List.mem_cons_of_mem _ hd)

theorem inline?_blanks {x : Text} (hx : ∀ c ∈ x, Text.isBlank c = true) (hline : '\n' ∉ x)
    (t : Text) : inline? (x ++ t) = inline? t := by
  refine inline?_append (fun c hc => ⟨fun h => hline (h ▸ hc), ?_⟩) t
  exact Bracket.not_isClosing_of_isBlank (hx c hc)

theorem ends?_of_not_isStart (h : Identifier.isStart c = false) : ends? (c :: t) = none := by
  simp [ends?, read?, Identifier.read?, h]

theorem ends?_of_none
    (h : ∀ name rest, Identifier.read? t = some (name, rest) → Bracket.read? rest = none ∧
    tail? rest = none) : ends? t = none := by
  cases hread : Identifier.read? t with
  | none => simp [ends?, read?, hread]
  | some found =>
    obtain ⟨name, rest⟩ := found
    obtain ⟨hbracket, htail⟩ := h name rest hread
    have hnone : readTail? rest = none := by simpa [tail?] using htail
    simp [ends?, read?, hread, afterSource?, hbracket, hnone]

theorem firstEnds?_nil (before : Option Char) : firstEnds? before [] = none := by
  rw [firstEnds?, Text.firstFrom]
  split <;> rfl

theorem firstEnds?_cons (before : Option Char) (c : Char) (t : Text) :
    firstEnds? before (c :: t) =
      (if Identifier.apart before then ends? (c :: t) else none).or (firstEnds? (some c) t) := by
  rw [firstEnds?, Text.firstFrom]
  by_cases happart : Identifier.apart before = true
  · rw [if_pos happart, if_pos happart, ends?]
    cases read? (c :: t) with
    | some found => rfl
    | none =>
      rw [Option.map_none, Option.map_none, Option.none_or, Option.map_map]
      rfl
  · rw [if_neg happart, if_neg happart, Option.none_or, Option.map_map]
    rfl

/-- No link starts at any place in `x`. -/
theorem firstEnds?_append {x : Text}
    (h : ∀ front s, x = front ++ s → s ≠ [] → Identifier.apart (Text.endOf before front) = true →
      ends? (s ++ t) = none) :
    firstEnds? before (x ++ t) = firstEnds? (Text.endOf before x) t := by
  induction x generalizing before with
  | nil => rfl
  | cons c cs ih =>
    have hhere : (if Identifier.apart before then ends? (c :: (cs ++ t)) else none) = none := by
      split
      · next happart => exact h [] (c :: cs) rfl (by simp) happart
      · rfl
    rw [List.cons_append, firstEnds?_cons, hhere, Option.none_or]
    exact ih fun front s hs hne => h (c :: front) s (by rw [hs]; rfl) hne

theorem firstEnds?_append_of_not_isStart {x : Text} (h : ∀ c ∈ x, Identifier.isStart c = false) :
    firstEnds? before (x ++ t) = firstEnds? (Text.endOf before x) t := by
  apply firstEnds?_append
  intro front s hs hne _
  cases s with
  | nil => exact absurd rfl hne
  | cons c cs =>
    exact ends?_of_not_isStart (h c (hs ▸ List.mem_append_right front List.mem_cons_self))

theorem firstEnds?_before {other : Option Char}
    (h : Identifier.apart before = Identifier.apart other) (t : Text) :
    firstEnds? before t = firstEnds? other t := by
  cases t with
  | nil => simp only [firstEnds?, Text.firstFrom, h]
  | cons c cs => rw [firstEnds?_cons, firstEnds?_cons, h]

theorem readClass_of_ne (h : c ≠ ':') : readClass (c :: t) = ([], c :: t) := by
  simp [readClass, Line.classSuffix?, Text.after?, Ne.symm h]

theorem readClass_append {x y : Text} (h : Text.Stops Line.isSuffixChar y) :
    (readClass (x ++ y)).2 = (readClass x).2 ++ y := by
  rw [readClass, readClass, Line.classSuffix?_append x h]
  cases Line.classSuffix? x <;> rfl

/-- A closing sequence ends an inline declaration if a connector follows, perhaps after a class
suffix. -/
theorem inline?_closer (b : Bracket) (t : Text) :
    inline? (b.closer ++ t) = (tail? (readClass t).2).or (inline? t) := by
  obtain ⟨mark, last, heq, hclosing, hmark⟩ := b.closer_eq
  have hline : last ≠ '\n' := fun h => by rw [h] at hclosing; cases hclosing
  have hcolon : last ≠ ':' := fun h => by rw [h] at hclosing; cases hclosing
  have hlast : inline? (last :: t) = (tail? (readClass t).2).or (inline? t) := by
    rw [inline?_cons hline, if_pos hclosing]
  rw [heq, List.append_assoc]
  rcases hmark with rfl | ⟨c, rfl, hc⟩
  · exact hlast
  · -- what stands before the last bracket sees only that
    have hquiet := Connector.isQuiet_of_isClosing hclosing
    rw [List.singleton_append, List.singleton_append, inline?_cons hc, readClass_of_ne hcolon,
      tail?_of_isQuiet hquiet, ite_self, Option.none_or]
    exact hlast

theorem tail?_readClass_of_not_occursIn {x : Text} (h : Arrow.occursIn x = false) (t : Text) :
    tail? (readClass (x ++ (['|'] ++ t))).2 = none := by
  have hsuffix : Text.trimLeft (readClass x).2 <:+ x :=
    (List.dropWhile_suffix _).trans ⟨(readClass x).1, (eq_of_readClass x).symm⟩
  have hbar : ∀ {p : Char → Bool}, p '|' = false → Text.Stops p (['|'] ++ t) :=
    fun hp => Text.stops_cons.2 hp
  have hnone : Arrow.read? (Text.trimLeft ((readClass x).2 ++ (['|'] ++ t))) = none := by
    rw [Text.trimLeft, Text.dropWhile_append_of_stops _ (hbar (by decide)),
      Arrow.read?_append_of_stops (hbar (by decide))]
    rw [Text.trimLeft] at hsuffix
    rw [Arrow.read?_of_suffix h hsuffix, Option.map_none]
  rw [readClass_append (hbar (by decide))]
  exact tail?_of_none (Connector.read?_of_none hnone)

theorem inline?_text {x : Text} (hline : '\n' ∉ x) (h : Arrow.occursIn x = false) (t : Text) :
    inline? (x ++ (['|'] ++ t)) = inline? (['|'] ++ t) := by
  induction x with
  | nil => rfl
  | cons c cs ih =>
    have hc : c ≠ '\n' := fun heq => hline (heq ▸ List.mem_cons_self)
    have hcs : Arrow.occursIn cs = false := by
      rw [Arrow.occursIn, Bool.or_eq_false_iff] at h
      exact h.2
    rw [List.cons_append, inline?_cons hc, tail?_readClass_of_not_occursIn hcs, ite_self,
      Option.none_or]
    exact ih (fun hmem => hline (List.mem_cons_of_mem c hmem)) hcs

theorem firstEnds?_inside {c : Char} {cs : Text} (h : ∀ d ∈ c :: cs, Identifier.isChar d = true)
    (t : Text) : firstEnds? (some c) (cs ++ t) = firstEnds? (Text.endOf (some c) cs) t := by
  apply firstEnds?_append
  intro front s hs _ happart
  obtain ⟨d, hd, hend⟩ := Text.endOf_of_ne_nil none (List.cons_ne_nil c front)
  have hmem : d ∈ c :: cs := by
    rw [hs]
    exact List.mem_append_left s hd
  have hend' : Text.endOf (some c) front = some d := hend
  rw [hend'] at happart
  simp [Identifier.apart, h d hmem] at happart

theorem inline?_word {x : Text} (h : ∀ c ∈ x, Text.isWord c = true) (t : Text) :
    inline? (x ++ t) = inline? t := by
  refine inline?_append (fun c hc => ?_) t
  refine ⟨Text.ne_of_isWord (h c hc) (by decide), ?_⟩
  rw [Bool.eq_false_iff]
  intro hclosing
  simp only [Bracket.isClosing, Bool.or_eq_true, beq_iff_eq] at hclosing
  rcases hclosing with (rfl | rfl) | rfl <;> exact absurd (h _ hc) (by decide)

/-! ## Class suffixes -/

section Suffix

variable {suffix : Text} (h : suffix = [] ∨ Line.classSuffix? suffix = some (suffix, []))

include h

theorem readClass_suffix_append (ht : Line.Ends t) : (readClass (suffix ++ t)).2 = t := by
  rcases h with hnil | hread
  · rw [hnil, List.nil_append]
    cases t with
    | nil => rfl
    | cons c cs =>
      have hcolon : c ≠ ':' := by
        rintro rfl
        exact absurd (Text.stops_cons.1 ht) (by decide)
      rw [readClass_of_ne hcolon]
  · rw [readClass, Line.classSuffix?_append _ ht.stops_isSuffixChar, hread]
    rfl

theorem inline?_suffix (t : Text) : inline? (suffix ++ t) = inline? t := by
  rcases Line.suffix_eq h with hnil | ⟨word, -, heq, hword⟩
  · rw [hnil, List.nil_append]
  · have hcolons : ∀ c ∈ [':', ':', ':'], c ≠ '\n' ∧ Bracket.isClosing c = false := by
      intro c hc
      obtain rfl : c = ':' := by simpa using hc
      decide
    rw [heq, List.append_assoc, inline?_append hcolons, inline?_word hword]

/-- No link starts in a suffix when nothing that follows it can be reached. -/
theorem ends?_of_suffix (ht : Line.Ends t) (htail : tail? t = none) {s : Text} (hs : s <:+ suffix)
    (hne : s ≠ []) : ends? (s ++ t) = none := by
  refine ends?_of_none fun name rest hread => ?_
  cases s with
  | nil => exact absurd rfl hne
  | cons c cs =>
    have hrest : rest = cs.dropWhile Identifier.isChar ++ t := by
      simp only [List.cons_append, Identifier.read?, Option.ite_none_right_eq_some,
        Option.some.injEq, Prod.mk.injEq] at hread
      rw [← hread.2.2, Text.dropWhile_append_of_stops cs ht.stops_isChar]
    cases hdrop : cs.dropWhile Identifier.isChar with
    | nil =>
      rw [hrest, hdrop, List.nil_append]
      exact ⟨ht.bracketRead?, htail⟩
    | cons d ds =>
      -- the name ends at another character of the suffix
      have hmem : d ∈ suffix :=
        hs.subset
          (List.mem_cons_of_mem c ((List.dropWhile_sublist _).subset (hdrop ▸ List.mem_cons_self)))
      have hquiet : Bracket.isOpening d = false ∧ Connector.isQuiet d = true := by
        rcases Line.mem_suffix h hmem with rfl | hword
        · decide
        · exact ⟨Bracket.not_isOpening_of_isWord hword, Connector.isQuiet_of_isWord hword⟩
      rw [hrest, hdrop, List.cons_append]
      exact ⟨Bracket.read?_of_stops (Text.stops_cons.2 hquiet.1), tail?_of_isQuiet hquiet.2⟩

theorem firstEnds?_suffix (before : Option Char) (ht : Line.Ends t) (htail : tail? t = none) :
    firstEnds? before (suffix ++ t) = firstEnds? (Text.endOf before suffix) t :=
  firstEnds?_append fun front _ hs hne _ => ends?_of_suffix h ht htail ⟨front, hs.symm⟩ hne

end Suffix

end Link

/-! ## Arrows -/

namespace Tip

/-- No arrow can be read in the label of an arrow. -/
def Plain (p : Tip) : Prop := ∀ l, p.label = some l → Arrow.occursIn l.text = false

variable {p : Tip}

theorem inline?_labelled (hplain : p.Plain) (hline : '\n' ∉ p.labelled fun t => t) (t : Text) :
    Link.inline? (p.labelled (fun t => t) ++ t) = Link.inline? t := by
  cases hl : p.label with
  | none => simp [labelled, hl]
  | some l =>
    have hshape : ∀ y,
        p.labelled (fun t => t) ++ y = l.gap ++ (['|'] ++ (l.text ++ (['|'] ++ y))) := by
      intro y
      simp [labelled, hl]
    have hparts := hshape []
    rw [List.append_nil] at hparts
    rw [hparts] at hline
    simp only [List.mem_append, not_or] at hline
    obtain ⟨hgap, -, htext, -⟩ := hline
    have hbar : ∀ y, Link.inline? (['|'] ++ y) = Link.inline? y :=
      Link.inline?_append (List.forall_mem_singleton.2 (by decide))
    rw [hshape, Link.inline?_blanks (p.label_read l hl).1 hgap, hbar,
      Link.inline?_text htext (hplain l hl), hbar]

theorem inline?_append (hplain : p.Plain) (hline : '\n' ∉ p.written) (t : Text) :
    Link.inline? (p.written ++ t) = Link.inline? t := by
  rw [written, List.mem_append, not_or] at hline
  have hspelling : ∀ c ∈ p.spelling, c ≠ '\n' ∧ Bracket.isClosing c = false := by
    intro c hc
    rcases p.spelled.mem hc with rfl | rfl | rfl | rfl <;> decide
  rw [written, List.append_assoc, Link.inline?_append hspelling, inline?_labelled hplain hline.2]

theorem tail?_between (p : Tip) {gap space name t : Text} (hgap : ∀ c ∈ gap, Text.isBlank c = true)
    (hspace : ∀ c ∈ space, Text.isBlank c = true) (hname : Identifier.valid name = true)
    (ht : Text.Stops Identifier.isChar t) :
    Link.tail? (gap ++ (p.written ++ (space ++ (name ++ t)))) =
      some (p.connector gap space, name) := by
  have hbar : Text.Stops (· == '|') (name ++ t) :=
    Identifier.stops_append hname
      (fun c hc => by simpa using Identifier.ne_of_isChar hc (by decide)) t
  rw [Link.tail?, Link.readTail?,
    p.read?_between hgap hspace (Identifier.stops_isBlank_append hname t) hbar]
  simp only [Option.bind_eq_bind, Option.bind_some, Identifier.read?_append hname ht]
  rfl

end Tip

theorem Buffer.edgeOn?_eq {line : Line} (h : Line.isDirective line = false) (i : Nat) :
    edgeOn? line i = ((Line.link? line).map fun (_, l) => l.ends).bind fun (source, k, target) =>
      if Keyword.isKeyword source then none
      else some ⟨source, target, (k.label.map (·.text)).getD [], Arrow.ofSpelling k.arrow, i⟩ := by
  rw [edgeOn?, h, if_neg (by simp)]
  cases Line.link? line <;> rfl

end Chartwright
