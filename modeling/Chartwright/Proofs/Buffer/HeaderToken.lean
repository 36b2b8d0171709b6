import Chartwright.Buffer.Header
import Chartwright.Proofs.Markup.Token
/-!
The token of the direction in a header.

What stands before the token, from its line start on, is a header word between blanks
(`Header.Leads`), and what stands behind it does not run on (`Header.read?_eq_some_iff`). So another
token is read at the same place. No earlier line start begins a header with the one token and none
with the other: a header that ends before the token ends before it with either, and one that ended
inside or behind it would have the blank before the token inside its own token or word
(`Header.isSome_read?_replace`). Hence the first header stays the first
(`Header.find?_setDirection`), and reading and setting the direction obey the laws of a lens
(`Header.setDirection_lawful`).
-/
namespace Chartwright

/-! ## Letters in either case -/

namespace Identifier

variable {c : Char} {t : Text}

theorem isStart_of_toUpper (h : isStart c.toUpper = true) : isStart c = true := by
  unfold Char.toUpper at h
  split at h
  · next hlower => exact isStart_iff.2 (.inr (.inr hlower))
  · exact h

theorem isStart_of_toLower (h : isStart c.toLower = true) : isStart c = true := by
  unfold Char.toLower at h
  split at h
  · next hupper => exact isStart_iff.2 (.inl hupper)
  · exact h

theorem valid_of_map {f : Char → Char} (hf : ∀ c, isStart (f c) = true → isStart c = true)
    (hne : t ≠ []) (h : (t.map f).all isStart = true) : valid t = true := by
  have hstart : ∀ c ∈ t, isStart c = true :=
    fun c hc => hf c (List.all_eq_true.1 h _ (List.mem_map_of_mem hc))
  obtain ⟨c, cs, rfl⟩ := List.exists_cons_of_ne_nil hne
  exact valid_cons.2 ⟨hstart c List.mem_cons_self, fun d hd =>
    isChar_of_isStart (hstart d (List.mem_cons_of_mem c hd))⟩

end Identifier

namespace Direction

variable {token : Text}

/-- The tokens in upper case. -/
def spellings : List Text := "TD".toList :: all.map Direction.token

theorem map_toUpper_mem_spellings (h : (ofToken? token).isSome = true) :
    token.map Char.toUpper ∈ spellings := by
  rw [ofToken?] at h
  split at h
  · next hother => exact hother ▸ List.mem_cons_self
  · obtain ⟨d, hd⟩ := Option.isSome_iff_exists.1 h
    have htoken := List.find?_some hd
    exact List.mem_cons_of_mem
      _ (List.mem_map.2 ⟨d, List.mem_of_find?_eq_some hd, of_decide_eq_true htoken⟩)

theorem length_of_ofToken? (h : (ofToken? token).isSome = true) : token.length = 2 := by
  have hall : ∀ spelling ∈ spellings, spelling.length = 2 := by decide
  rw [← List.length_map Char.toUpper]
  exact hall _ (map_toUpper_mem_spellings h)

theorem valid_of_ofToken? (h : (ofToken? token).isSome = true) : Identifier.valid token = true := by
  have hall : ∀ spelling ∈ spellings, spelling.all Identifier.isStart = true := by decide
  refine Identifier.valid_of_map (fun c => Identifier.isStart_of_toUpper) ?_
    (hall _ (map_toUpper_mem_spellings h))
  rintro rfl
  cases length_of_ofToken? h

theorem isSome_ofToken?_token (d : Direction) : (ofToken? d.token).isSome = true := by
  rw [ofToken?_token]; rfl

end Direction

namespace Header

variable {t front token token' after indent word gap : Text} {h : Header} {d d' : Direction}
  {lineStart : Bool}

/-! ## Where a header stands -/

/-- What stands before the token of a header: a header word, in whatever case, between blanks. -/
structure Leads (indent word gap : Text) : Prop where
  indent : ∀ c ∈ indent, Text.isBlank c = true
  word : word.map Char.toLower = "flowchart".toList ∨ word.map Char.toLower = "graph".toList
  gap_ne_nil : gap ≠ []
  gap : ∀ c ∈ gap, Text.isBlank c = true

theorem Leads.valid_word (h : Leads indent word gap) : Identifier.valid word = true := by
  refine Identifier.valid_of_map (fun c => Identifier.isStart_of_toLower) ?_ ?_
  · rintro rfl
    rcases h.word with h | h <;> cases h
  · rcases h.word with h | h <;> rw [h] <;> decide

theorem headerWord?_eq_some_iff : Line.headerWord? t = some (word, after) ↔
    (word.map Char.toLower = "flowchart".toList ∨ word.map Char.toLower = "graph".toList) ∧
      t = word ++ after := by
  constructor
  · intro h
    refine ⟨?_, eq_of_headerWord? h⟩
    obtain ⟨w, hw, hread⟩ := List.exists_of_findSome?_eq_some h
    simp only [Option.map_eq_some_iff, Prod.mk.injEq, Keyword.after?,
      Option.ite_none_right_eq_some] at hread
    obtain ⟨_, ⟨hlower, -⟩, rfl, -⟩ := hread
    rw [hlower]
    simpa using hw
  · rintro ⟨hword, rfl⟩
    have hread : ∀ w : Text, word.map Char.toLower = w →
        Keyword.after? w (word ++ after) = some after ∧ (word ++ after).take w.length = word := by
      rintro w rfl
      simp [Keyword.after?]
    rcases hword with hword | hword
    · obtain ⟨hafter, htake⟩ := hread _ hword
      rw [Line.headerWord?, List.findSome?_cons, hafter, htake]
      rfl
    · obtain ⟨hafter, htake⟩ := hread _ hword
      have hother : Keyword.after? "flowchart".toList (word ++ after) = none := by
        refine if_neg fun hlower => ?_
        obtain ⟨c, cs, rfl⟩ : ∃ c cs, word = c :: cs := by
          cases word with
          | nil => cases hword
          | cons c cs => exact ⟨c, cs, rfl⟩
        -- the words begin with different letters
        have hf := (List.cons.inj hlower).1
        have hg := (List.cons.inj hword).1
        rw [hf] at hg
        exact absurd hg (by decide)
      rw [Line.headerWord?, List.findSome?_cons, hother, Option.map_none, List.findSome?_cons,
        hafter, htake]
      rfl

theorem readToken?_eq_some_iff : readToken? t = some (token, after) ↔
    (Direction.ofToken? token).isSome = true ∧ Text.endsWord after = true ∧ t = token ++ after := by
  rw [readToken?]
  constructor
  · intro h
    split at h
    · next hread =>
      cases h
      exact ⟨(Bool.and_eq_true_iff.1 hread).1, (Bool.and_eq_true_iff.1 hread).2,
        (List.take_append_drop 2 t).symm⟩
    · cases h
  · rintro ⟨htoken, hends, rfl⟩
    have hlength := Direction.length_of_ofToken? htoken
    rw [List.take_left' hlength, List.drop_left' hlength, htoken, hends]
    rfl

theorem read?_eq_some_iff : read? t = some (h, after) ↔ ∃ indent word gap, Leads indent word gap ∧
    h.before = indent ++ (word ++ gap) ∧ (Direction.ofToken? h.token).isSome = true ∧
      Text.endsWord after = true ∧ t = h.before ++ h.token ++ after := by
  constructor
  · intro hread
    have heq := eq_of_read? hread
    simp only [read?, Option.bind_eq_bind, Option.bind_eq_some_iff, Prod.exists] at hread
    obtain ⟨word, rest, hword, hread⟩ := hread
    split at hread
    · cases hread
    · next hgap =>
      simp only [Option.bind_eq_some_iff, Prod.exists, Option.pure_def, Option.some.injEq,
        Prod.mk.injEq] at hread
      obtain ⟨token, _, htoken, rfl, rfl⟩ := hread
      obtain ⟨hname, hends, -⟩ := readToken?_eq_some_iff.1 htoken
      exact ⟨_, word, _,
        ⟨fun c => Text.isBlank_of_mem_blanks,
        (headerWord?_eq_some_iff.1 hword).1, by simpa using hgap,
        fun c => Text.isBlank_of_mem_blanks⟩, List.append_assoc .., hname, hends, heq⟩
  · rintro ⟨indent, word, gap, hleads, hbefore, htoken, hends, rfl⟩
    obtain ⟨before, token⟩ := h
    obtain rfl : before = indent ++ (word ++ gap) := hbefore
    have htext : indent ++ (word ++ gap) ++ token ++ after =
        indent ++ (word ++ (gap ++ (token ++ after))) := by simp
    have hword := Identifier.stops_isBlank_append hleads.valid_word (gap ++ (token ++ after))
    have hstops := Identifier.stops_isBlank_append (Direction.valid_of_ofToken? htoken) after
    have hlead : Line.headerWord? (word ++ (gap ++ (token ++ after))) =
        some (word, gap ++ (token ++ after)) :=
      headerWord?_eq_some_iff.2 ⟨hleads.word, rfl⟩
    have hread := readToken?_eq_some_iff.2 ⟨htoken, hends, rfl⟩
    rw [htext, read?, Text.trimLeft_append hleads.indent hword, hlead,
      Text.blanks_append hleads.indent hword]
    dsimp only [Option.bind_eq_bind, Option.bind_some]
    rw [Text.blanks_append hleads.gap hstops, Text.trimLeft_append hleads.gap hstops,
      if_neg (by simpa using hleads.gap_ne_nil), hread]
    simp

/-- The first header begins at a line start. -/
theorem exists_of_findFrom (hf : findFrom lineStart t = some (h, after)) :
    ∃ x indent word gap, Leads indent word gap ∧ h.before = x ++ (indent ++ (word ++ gap)) ∧
      (Direction.ofToken? h.token).isSome = true ∧ Text.endsWord after = true ∧
        (∀ c ∈ x.getLast?, c = '\n') ∧ (x = [] → lineStart = true) := by
  induction t generalizing lineStart h with
  | nil => cases hf
  | cons c cs ih =>
    rw [findFrom] at hf
    split at hf
    · next found hread =>
      cases hf
      split at hread
      · next hstart =>
        obtain ⟨indent, word, gap, hleads, hbefore, htoken, hends, -⟩ := read?_eq_some_iff.1 hread
        exact ⟨[], indent, word, gap, hleads, hbefore, htoken, hends, by simp, fun _ => hstart⟩
      · cases hread
    · simp only [Option.map_eq_some_iff, Prod.mk.injEq, Prod.exists] at hf
      obtain ⟨h', after', hf, rfl, rfl⟩ := hf
      obtain ⟨x, indent, word, gap, hleads, hbefore, htoken, hends, hlast, hfirst⟩ := ih hf
      refine ⟨c :: x, indent, word, gap, hleads, congrArg (c :: ·) hbefore, htoken, hends, ?_,
        fun hnil => absurd hnil (List.cons_ne_nil c x)⟩
      rw [List.getLast?_cons]
      cases hx : x.getLast? with
      | none => simpa using hfirst (List.getLast?_eq_none_iff.1 hx)
      | some d => simpa using hlast d hx

/-! ## Another token -/

/-- A text holds a character that is no blank, and ends in a blank. -/
structure Fronts (front : Text) : Prop where
  shows : ∃ c ∈ front, Text.isBlank c = false
  last : ∃ c, front.getLast? = some c ∧ Text.isBlank c = true

theorem Leads.fronts (h : Leads indent word gap) (x : Text) :
    Fronts (x ++ (indent ++ (word ++ gap))) := by
  have hword := h.valid_word
  obtain ⟨c, cs, rfl⟩ := List.exists_cons_of_ne_nil (Identifier.ne_nil_of_valid hword)
  obtain ⟨gap, d, rfl⟩ := List.eq_nil_or_concat gap |>.resolve_left h.gap_ne_nil
  constructor
  · exact ⟨c, by simp,
      Identifier.not_isBlank_of_isChar (Identifier.isChar_of_valid hword c List.mem_cons_self)⟩
  · refine ⟨d, ?_, h.gap d (by simp)⟩
    simp only [List.concat_eq_append, ← List.append_assoc]
    exact List.getLast?_concat ..

theorem Fronts.not_subset {x y id : Text} (h : Fronts (x ++ y)) (hy : y ≠ [])
    (hid : Identifier.valid id = true) : ¬ y ⊆ id := by
  obtain ⟨c, hlast, hblank⟩ := h.last
  rw [List.getLast?_append, List.getLast?_eq_some_getLast hy, Option.some_or,
    Option.some.injEq] at hlast
  intro hsub
  have hchar := Identifier.isChar_of_valid hid c (hsub (hlast ▸ List.getLast_mem hy))
  rw [Identifier.not_isChar_of_isBlank hblank] at hchar
  cases hchar

/-- The lead of a header does not go on behind a blank with a token. -/
theorem Leads.not_append (h : Leads indent word gap) (hfront : Fronts front) {c : Char} {y : Text}
    (hc : Text.isBlank c = false) : indent ++ (word ++ gap) ≠ front ++ c :: y := by
  intro heq
  obtain ⟨d, hd, hshown⟩ := hfront.shows
  rcases List.append_eq_append_iff.1 heq with ⟨b, rfl, hrest⟩ | ⟨b, rfl, -⟩
  · rcases List.append_eq_append_iff.1 hrest with ⟨b', rfl, hgap⟩ | ⟨b', rfl, -⟩
    · -- the token would stand among the blanks behind the word
      have hmem : c ∈ gap := hgap ▸ List.mem_append_right b' List.mem_cons_self
      rw [h.gap c hmem] at hc
      cases hc
    · by_cases hb : b = []
      · rw [hb, List.append_nil] at hd
        rw [h.indent d hd] at hshown
        cases hshown
      · exact hfront.not_subset hb h.valid_word (List.subset_append_left b b')
  · rw [h.indent d (List.mem_append_left b hd)] at hshown
    cases hshown

/-- A place before the token begins a header, or none, whatever the token is. -/
theorem isSome_read?_replace (hfront : Fronts front)
    (htoken : (Direction.ofToken? token).isSome = true)
    (htoken' : (Direction.ofToken? token').isSome = true) (hends : Text.endsWord after = true)
    (hread : (read? (front ++ token ++ after)).isSome = true) :
    (read? (front ++ token' ++ after)).isSome = true := by
  obtain ⟨⟨k, rest⟩, hread⟩ := Option.isSome_iff_exists.1 hread
  obtain ⟨indent, word, gap, hleads, hbefore, hname, hstops, heq⟩ := read?_eq_some_iff.1 hread
  rw [Option.isSome_iff_exists]
  by_cases hsame : k.before = front
  · refine ⟨(⟨front, token'⟩, after),
      read?_eq_some_iff.2 ⟨indent, word, gap, hleads, hsame ▸ hbefore, htoken', hends, rfl⟩⟩
  · rw [List.append_assoc, List.append_assoc] at heq
    rcases List.append_eq_append_iff.1 heq with ⟨b, hlong, htail⟩ | ⟨b, rfl, htail⟩
    · -- a header whose lead holds the token
      cases b with
      | nil => exact absurd (hlong.trans (List.append_nil front)) hsame
      | cons c y =>
        obtain ⟨d, ds, rfl⟩ :=
          List.exists_cons_of_ne_nil
            (Identifier.ne_nil_of_valid (Direction.valid_of_ofToken? htoken))
        obtain rfl : d = c := (List.cons.inj htail).1
        have hchar :=
          Identifier.isChar_of_valid (Direction.valid_of_ofToken? htoken) d List.mem_cons_self
        exact absurd (hbefore.symm.trans hlong)
          (hleads.not_append hfront (Identifier.not_isBlank_of_isChar hchar))
    · have hb : b ≠ [] := fun hnil => hsame (by rw [hnil, List.append_nil])
      have hvalid := Direction.valid_of_ofToken? hname
      rcases List.append_eq_append_iff.1 htail with ⟨b', rfl, hrest⟩ | ⟨b', htoken, -⟩
      · cases b' with
        | nil => exact absurd (by simp) (hfront.not_subset hb hvalid)
        | cons c y =>
          -- a header that ends before the token
          have hkept : Text.endsWord (c :: y ++ (token' ++ after)) = true := by
            rw [hrest] at hstops
            exact hstops
          exact ⟨(k, c :: y ++ (token' ++ after)),
            read?_eq_some_iff.2 ⟨indent, word, gap, hleads, hbefore, hname, hkept,
            by simp⟩⟩
      · -- a header whose token holds the blank before the other one
        exact absurd (htoken ▸ List.subset_append_left b b') (hfront.not_subset hb hvalid)

/-- The first header of a text stays the first one with another token. -/
theorem findFrom_replace (hf : findFrom lineStart t = some (h, after))
    (htoken : (Direction.ofToken? token).isSome = true) :
    findFrom lineStart (h.before ++ token ++ after) = some (⟨h.before, token⟩, after) := by
  induction t generalizing lineStart h with
  | nil => cases hf
  | cons c cs ih =>
    rw [findFrom] at hf
    split at hf
    · next found hread =>
      cases hf
      split at hread
      · next hstart =>
        obtain ⟨indent, word, gap, hleads, hbefore, -, hends, -⟩ := read?_eq_some_iff.1 hread
        have hread' : read? (h.before ++ token ++ after) = some (⟨h.before, token⟩, after) :=
          read?_eq_some_iff.2 ⟨indent, word, gap, hleads, hbefore, htoken, hends, rfl⟩
        obtain ⟨d, ds, hcons⟩ : ∃ d ds, h.before ++ token ++ after = d :: ds := by
          refine List.exists_cons_of_ne_nil fun hnil => ?_
          have hempty := (List.append_eq_nil_iff.1 (List.append_eq_nil_iff.1 hnil).1).2
          exact Identifier.ne_nil_of_valid (Direction.valid_of_ofToken? htoken) hempty
        rw [hcons] at hread' ⊢
        rw [findFrom, if_pos hstart, hread']
      · cases hread
    · next hnone =>
      simp only [Option.map_eq_some_iff, Prod.mk.injEq, Prod.exists] at hf
      obtain ⟨h', after', hf, rfl, rfl⟩ := hf
      obtain ⟨x, indent, word, gap, hleads, hbefore, hname, hends, -⟩ := exists_of_findFrom hf
      have hfront : Fronts (c :: h'.before) := by
        rw [hbefore]
        exact hleads.fronts (c :: x)
      have hearlier :
          (if lineStart = true then read? (c :: (h'.before ++ token ++ after')) else none) =
          none := by
        split
        · next hstart =>
          rw [if_pos hstart, eq_of_findFrom hf] at hnone
          rw [← Option.not_isSome_iff_eq_none] at hnone ⊢
          exact fun hread => hnone (isSome_read?_replace hfront htoken hname hends hread)
        · rfl
      show findFrom lineStart (c :: (h'.before ++ token ++ after')) = _
      rw [findFrom, hearlier, ih hf]
      rfl

theorem find?_setDirection (hf : find? t = some (h, after)) (d : Direction) :
    find? (setDirection d t) = some (⟨h.before, d.token⟩, after) := by
  rw [setDirection, hf]
  exact findFrom_replace hf d.isSome_ofToken?_token

/-! ## Reading and setting the direction -/

theorem direction_setDirection (hf : find? t = some (h, after)) (d : Direction) :
    direction (setDirection d t) = d := by
  rw [direction, find?_setDirection hf]
  dsimp only
  rw [Direction.ofToken?_token, Option.getD_some]

theorem setDirection_setDirection (t : Text) (d d' : Direction) :
    setDirection d' (setDirection d t) = setDirection d' t := by
  cases hf : find? t with
  | none => simp [setDirection, hf]
  | some found =>
    obtain ⟨h, after⟩ := found
    rw [setDirection, find?_setDirection hf, setDirection.eq_def d' t, hf]

theorem setDirection_direction (hf : find? t = some (h, after)) (htoken : h.token = d.token) :
    setDirection (direction t) t = t := by
  have hd : direction t = d := by
    rw [direction, hf]
    dsimp only
    rw [htoken, Direction.ofToken?_token, Option.getD_some]
  rw [hd, setDirection, hf]
  dsimp only
  rw [← htoken]
  exact (eq_of_find? hf).symm

/-- The direction that is set is read, a later one replaces it, and setting the one that is read
changes nothing unless its token is written in another way. A text without a header keeps no
direction, and has the default one. -/
theorem setDirection_lawful (t : Text) :
    (∀ h after, find? t = some (h, after) →
      (∀ d, direction (setDirection d t) = d) ∧
      (∀ d d', setDirection d' (setDirection d t) = setDirection d' t) ∧
      ((∃ d : Direction, h.token = d.token) → setDirection (direction t) t = t)) ∧
    (find? t = none → (∀ d, setDirection d t = t) ∧ direction t = .leftToRight) := by
  refine ⟨fun h after hf =>
    ⟨direction_setDirection hf, setDirection_setDirection t, ?_⟩, fun hnone => ⟨fun d => ?_, ?_⟩⟩
  · rintro ⟨d, htoken⟩
    exact setDirection_direction hf htoken
  · rw [setDirection, hnone]
  · rw [direction, hnone]

/-- Lines that are almost headers stand before a header on two lines, and another header behind
it. -/
theorem setDirection_lawful_of_two_lines :
    let t := "flowcharts TB\n\ngraph TBX\n Graph\n\tLR;\nflowchart td".toList
    let h := Header.mk "flowcharts TB\n\ngraph TBX\n Graph\n\t".toList "LR".toList
    (find? t = some (h, ";\nflowchart td".toList) ∧ h.token = Direction.leftToRight.token ∧
      (∀ d, direction (setDirection d t) = d) ∧
        (∀ d d', setDirection d' (setDirection d t) = setDirection d' t) ∧
        setDirection (direction t) t = t) ∧
    find? "graph TBX".toList = none ∧
      (∀ d, setDirection d "graph TBX".toList = "graph TBX".toList) ∧
        direction "graph TBX".toList = .leftToRight := by
  intro t h
  have hf : find? t = some (h, ";\nflowchart td".toList) := by decide +kernel
  have hnone : find? "graph TBX".toList = none := by decide +kernel
  have htoken : h.token = Direction.leftToRight.token := by decide
  obtain ⟨hread, hlast, hkept⟩ := (setDirection_lawful t).1 h _ hf
  exact ⟨⟨hf, htoken, hread, hlast, hkept ⟨_, htoken⟩⟩, hnone,
    (setDirection_lawful "graph TBX".toList).2 hnone⟩

end Header
end Chartwright
