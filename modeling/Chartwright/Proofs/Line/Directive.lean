import Chartwright.Line.Declaration
import Chartwright.Line.SubgraphLine
import Chartwright.Proofs.Markup.Token
/-!
Lines that are directives, since they begin with a keyword, and lines that are none: those that
begin with an identifier that is no keyword and does not run on into one. Of what kind a line is
shows before the first character that is in no keyword (`Line.isDirective_append_cons`,
`Line.opensSubgraph_append_cons`).
-/
namespace Chartwright

namespace Text

theorem trimRight_append_of_stops {x : Text} (h : Stops isBlank x.reverse) (y : Text) :
    trimRight (x ++ y) = x ++ trimRight y := by
  rw [trimRight, trimRight, List.reverse_append, dropWhile_append_of_stops _ h, List.reverse_append,
    List.reverse_reverse]

theorem trimLeft_append_of_ne_nil {x : Text} (h : trimLeft x ≠ []) (y : Text) :
    trimLeft (x ++ y) = trimLeft x ++ y := by
  rw [trimLeft, List.dropWhile_append, if_neg (by simpa [trimLeft] using h)]
  rfl

theorem exists_append_eq_trimRight (t : Text) :
    ∃ run, t = trimRight t ++ run ∧ ∀ c ∈ run, isBlank c = true := by
  refine ⟨(t.reverse.takeWhile isBlank).reverse, ?_, fun c hc => ?_⟩
  · rw [trimRight, ← List.reverse_append, List.takeWhile_append_dropWhile, List.reverse_reverse]
  · exact List.all_eq_true.1 List.all_takeWhile c (List.mem_reverse.1 hc)

theorem exists_append_eq_trim {t : Text} (h : Stops isBlank t) :
    ∃ run, t = trim t ++ run ∧ ∀ c ∈ run, isBlank c = true := by
  rw [trim, trimLeft_of_stops h]
  exact exists_append_eq_trimRight t

theorem trim_ne_nil {t : Text} (h : Stops isBlank t) (hne : t ≠ []) : trim t ≠ [] := by
  intro hnil
  obtain ⟨run, ht, hrun⟩ := exists_append_eq_trim h
  obtain ⟨c, cs, rfl⟩ := List.exists_cons_of_ne_nil hne
  rw [hnil, List.nil_append] at ht
  rw [stops_cons, hrun c (ht ▸ List.mem_cons_self)] at h
  cases h

theorem head?_of_takeWhile {p : Char → Bool} {t run : Text} {c : Char}
    (h : t.takeWhile p = c :: run) : t.head? = some c := by
  cases t with
  | nil => cases h
  | cons d ds =>
    rw [List.takeWhile_cons] at h
    split at h
    · cases h
      rfl
    · cases h

theorem Stops.trimRight {p : Char → Bool} {t : Text} (h : Stops p t) : Stops p (trimRight t) := by
  obtain ⟨run, hrun, -⟩ := exists_append_eq_trimRight t
  intro c hc
  apply h c
  rw [hrun, List.head?_append, Option.mem_def.1 hc]
  rfl

end Text

namespace Keyword

/-- A character that, in lower case, may be part of a keyword. -/
def isLetter (c : Char) : Bool := Identifier.isChar c || c.toNat == 0x212A

theorem isLetter_of_isKeyword {word : Text} (h : isKeyword word = true) {c : Char} (hc : c ∈ word) :
    isLetter c = true := by
  have hall : (all.all fun k => k.all Identifier.isChar) = true := by decide
  have hmem : word.map lower ∈ all := by simpa [isKeyword] using h
  have hlower : Identifier.isChar (lower c) = true :=
    List.all_eq_true.1 (List.all_eq_true.1 hall _ hmem) _ (List.mem_map_of_mem hc)
  rw [isLetter, Bool.or_eq_true, beq_iff_eq]
  by_cases hk : c.toNat = 0x212A
  · exact .inr hk
  · apply Or.inl
    rw [lower, if_neg hk] at hlower
    unfold Char.toLower at hlower
    split at hlower
    · next hupper => exact Identifier.isChar_iff.2 (.inr (.inl hupper))
    · exact hlower

end Keyword

namespace Line

/-- A line that begins with an identifier, no keyword, which nothing that a keyword may hold
follows. -/
theorem not_isDirective {indent id rest : Text} (hindent : ∀ c ∈ indent, Text.isBlank c = true)
    (hid : Identifier.valid id = true) (hname : Keyword.isKeyword id = false)
    (hrest : Text.Stops Keyword.isLetter rest) :
    isDirective (indent ++ (id ++ rest)) = false := by
  have hchar := Identifier.isChar_of_valid hid
  have hback : Text.Stops Text.isBlank id.reverse := fun c hc =>
    Identifier.not_isBlank_of_isChar (hchar c (List.mem_reverse.1 (List.mem_of_mem_head? hc)))
  have htrim : Text.trim (indent ++ (id ++ rest)) = id ++ Text.trimRight rest := by
    rw [Text.trim, Text.trimLeft_append hindent (Identifier.stops_isBlank_append hid rest),
      Text.trimRight_append_of_stops hback]
  obtain ⟨c, cs, rfl⟩ : ∃ c cs, id = c :: cs :=
    List.exists_cons_of_ne_nil (Identifier.ne_nil_of_valid hid)
  have hpercent : Text.startsWith ['%', '%'] (c :: cs ++ Text.trimRight rest) = false := by
    have hne : '%' ≠ c := Ne.symm (Identifier.ne_of_isChar (hchar c List.mem_cons_self) (by decide))
    simp [Text.startsWith, Text.after?, hne]
  have hword : firstWord (indent ++ (c :: cs ++ rest)) =
      c :: cs ++ (Text.trimRight rest).takeWhile fun c => !(Text.isBlank c || c == '[') := by
    rw [firstWord, htrim]
    apply List.takeWhile_append_of_pos
    intro d hd
    have hsquare : d ≠ '[' := Identifier.ne_of_isChar (hchar d hd) (by decide)
    simp [Identifier.not_isBlank_of_isChar (hchar d hd), hsquare]
  have hkeyword : Keyword.isKeyword (firstWord (indent ++ (c :: cs ++ rest))) = false := by
    rw [hword]
    cases ht : (Text.trimRight rest).takeWhile fun c => !(Text.isBlank c || c == '[') with
    | nil => rwa [List.append_nil]
    | cons d ds =>
      -- the word runs on, but into a character that no keyword holds
      have hstops : Keyword.isLetter d = false := by
        apply hrest.trimRight d
        exact Text.head?_of_takeWhile ht
      rw [Bool.eq_false_iff]
      intro hk
      have hletter := Keyword.isLetter_of_isKeyword hk (List.mem_append_right _ List.mem_cons_self)
      rw [hstops] at hletter
      cases hletter
  rw [isDirective, htrim, hkeyword, hpercent]
  rfl

theorem not_isDirective_ampersand {indent : Text} (hindent : ∀ c ∈ indent, Text.isBlank c = true)
    (t : Text) : isDirective (indent ++ '&' :: t) = false := by
  have hback : Text.Stops Text.isBlank ['&'].reverse := Text.stops_cons.2 (by decide)
  have htrim : Text.trim (indent ++ '&' :: t) = ['&'] ++ Text.trimRight t := by
    rw [Text.trim, Text.trimLeft_append hindent (Text.stops_cons.2 (by decide)),
      ← List.singleton_append, Text.trimRight_append_of_stops hback]
  have hkeyword : Keyword.isKeyword (firstWord (indent ++ '&' :: t)) = false := by
    rw [firstWord, htrim, Bool.eq_false_iff]
    intro hk
    exact absurd (Keyword.isLetter_of_isKeyword hk (c := '&') List.mem_cons_self) (by decide)
  rw [isDirective, htrim, hkeyword]
  rfl

/-- A line that begins with a keyword and a blank behind it. -/
theorem isDirective_of_keyword {word rest : Text} {line : Line}
    (hkeyword : Keyword.isKeyword word = true)
    (hword : word.all (fun c => !(Text.isBlank c || c == '[')) = true)
    (h : Text.trimLeft line = word ++ rest) (hblanks : Text.blanks rest ≠ []) :
    isDirective line = true := by
  have hstops : Text.Stops (fun c => !(Text.isBlank c || c == '[')) rest := by
    cases rest with
    | nil => exact Text.stops_nil _
    | cons c cs =>
      rw [Text.blanks, List.takeWhile_cons] at hblanks
      split at hblanks
      · next hc => simp [hc]
      · exact absurd rfl hblanks
  have hback : Text.Stops Text.isBlank word.reverse := by
    intro c hc
    have hmem := List.all_eq_true.1 hword c (List.mem_reverse.1 (List.mem_of_mem_head? hc))
    cases hblank : Text.isBlank c with
    | false => rfl
    | true => simp [hblank] at hmem
  have htrim : Text.trim line = word ++ Text.trimRight rest := by
    rw [Text.trim, h, Text.trimRight_append_of_stops hback]
  have hfirst : firstWord line = word := by
    rw [firstWord, htrim]
    exact Text.takeWhile_append (List.all_eq_true.1 hword) hstops.trimRight
  rw [isDirective, hfirst, hkeyword, Bool.or_true]

/-- A closing line begins with the word `end`, and blanks follow it. -/
theorem exists_of_closesSubgraph {line : Line} (h : closesSubgraph line = true) :
    ∃ run, Text.trimLeft line = "end".toList ++ run ∧ ∀ c ∈ run, Text.isBlank c = true := by
  have htrim : Text.trimRight (Text.trimLeft line) = "end".toList := by
    simpa [closesSubgraph, Text.trim] using h
  obtain ⟨run, hrun, hblank⟩ := Text.exists_append_eq_trimRight (Text.trimLeft line)
  exact ⟨run, htrim ▸ hrun, hblank⟩

/-- A line with the word `end` alone. -/
theorem isDirective_of_closesSubgraph {line : Line} (h : closesSubgraph line = true) :
    isDirective line = true := by
  have htrim : Text.trim line = "end".toList := by simpa [closesSubgraph] using h
  have hkeyword : Keyword.isKeyword (firstWord line) = true := by
    rw [firstWord, htrim]
    decide
  rw [isDirective, hkeyword, Bool.or_true]

theorem isDirective_of_opening {line : Line} {o : Opening} {rest : Text}
    (h : Opening.read? line = some (o, rest)) : isDirective line = true := by
  simp only [Opening.read?, Option.bind_eq_bind, Option.bind_eq_some_iff, Prod.exists] at h
  obtain ⟨_, hword, _, _, _, h⟩ := h
  split at h
  · cases h
  · next hblanks =>
    have hline := Text.after?_eq_some_iff.1 hword
    exact isDirective_of_keyword (by decide) (by decide) hline (by simpa using hblanks)

/-! ## What a line begins with -/

/-- What a line begins with makes a directive of it: a comment sign, or a keyword that ends
there. -/
def beginsDirective (w : Text) : Bool :=
  Text.startsWith ['%', '%'] w || (!(w.all fun c => !(Text.isBlank c || c == '[')) &&
    Keyword.isKeyword (w.takeWhile fun c => !(Text.isBlank c || c == '[')))

/-- Whether a line is a directive shows before a character that is in no keyword and ends none. -/
theorem isDirective_append_cons {x : Text} (hx : Text.trimLeft x ≠ []) {c : Char}
    (hpercent : c ≠ '%') (hblank : Text.isBlank c = false) (hletter : Keyword.isLetter c = false)
    (hends : c = '[' → Keyword.isKeyword (Text.trimLeft x) = false) (y : Text) :
    isDirective (x ++ c :: y) = beginsDirective (Text.trimLeft x) := by
  have htrim : Text.trim (x ++ c :: y) = Text.trimLeft x ++ c :: Text.trimRight y := by
    have hstops : Text.Stops Text.isBlank (Text.trimLeft x ++ [c]).reverse := by
      rw [List.reverse_append]
      exact Text.stops_cons.2 hblank
    rw [Text.trim, Text.trimLeft_append_of_ne_nil hx, List.append_cons,
      Text.trimRight_append_of_stops hstops, ← List.append_cons]
  generalize Text.trimLeft x = w at *
  have hcomment : Text.startsWith ['%', '%'] (w ++ c :: Text.trimRight y) =
      Text.startsWith ['%', '%'] w := by
    have hstops : ∀ e ∈ ['%', '%'], Text.Stops (· == e) (c :: Text.trimRight y) := by
      intro e he
      obtain rfl : e = '%' := by simpa using he
      exact Text.stops_cons.2 (by simpa using hpercent)
    rw [Text.startsWith, Text.startsWith, Text.after?_append_of_stops w hstops, Option.isSome_map]
  have hkeyword : Keyword.isKeyword (firstWord (x ++ c :: y)) =
      (!(w.all fun c => !(Text.isBlank c || c == '[')) &&
        Keyword.isKeyword (w.takeWhile fun c => !(Text.isBlank c || c == '['))) := by
    have hsquare : (fun c => !(Text.isBlank c || c == '[')) c = !(c == '[') := by
      show (!(Text.isBlank c || c == '[')) = !(c == '[')
      rw [hblank, Bool.false_or]
    rw [firstWord, htrim]
    generalize (fun c => !(Text.isBlank c || c == '[')) = p at hsquare ⊢
    cases hall : w.all p with
    | false => rw [Text.takeWhile_append_of_all_eq_false hall, Bool.not_false, Bool.true_and]
    | true =>
      rw [List.takeWhile_append_of_pos (List.all_eq_true.1 hall), List.takeWhile_cons, hsquare,
        Bool.not_true, Bool.false_and]
      cases hc : c == '[' with
      | true =>
        -- the keyword would end at the bracket
        rw [Bool.not_true, if_neg Bool.false_ne_true, List.append_nil]
        exact hends (beq_iff_eq.1 hc)
      | false =>
        -- the word holds a character that is in no keyword
        rw [Bool.not_false, if_pos rfl, Bool.eq_false_iff]
        intro hkeyword
        rw [Keyword.isLetter_of_isKeyword hkeyword
            (List.mem_append_right _ List.mem_cons_self)] at hletter
        cases hletter
  have hne : (w ++ c :: Text.trimRight y).isEmpty = false := by simp
  rw [isDirective, htrim, hne, hcomment, hkeyword, Bool.false_or, beginsDirective]

/-- The word `subgraph` is told from the characters up to one that it does not hold. -/
theorem opensSubgraph_append_cons {x : Text} (hx : Text.trimLeft x ≠ []) {c : Char}
    (hc : c ∉ "subgraph".toList) (y : Text) :
    opensSubgraph (x ++ c :: y) =
      ((Text.after? "subgraph".toList (Text.trimLeft x)).map fun rest =>
        Text.endsWord (rest ++ [c])).getD false := by
  have hstops : ∀ d ∈ "subgraph".toList, Text.Stops (· == d) (c :: y) := by
    intro d hd
    rw [Text.stops_cons, beq_eq_false_iff_ne]
    rintro rfl
    exact hc hd
  rw [opensSubgraph, Text.trimLeft_append_of_ne_nil hx, Text.after?_append_of_stops _ hstops]
  cases Text.after? "subgraph".toList (Text.trimLeft x) with
  | none => rfl
  | some rest => cases rest <;> rfl

/-- A line that begins with an identifier, no keyword, opens nothing. -/
theorem not_opensSubgraph {indent id rest : Text} (hindent : ∀ c ∈ indent, Text.isBlank c = true)
    (hid : Identifier.valid id = true) (hname : Keyword.isKeyword id = false)
    (hrest : Text.Stops Identifier.isChar rest) :
    opensSubgraph (indent ++ (id ++ rest)) = false := by
  rw [opensSubgraph, Text.trimLeft_append hindent (Identifier.stops_isBlank_append hid rest)]
  cases hword : Text.after? "subgraph".toList (id ++ rest) with
  | none => rfl
  | some behind =>
    have hword := Text.after?_eq_some_iff.1 hword
    -- the identifier is as long as the identifier characters reach, and so it begins with the word
    have hrun : id = "subgraph".toList ++ behind.takeWhile Identifier.isChar := by
      rw [← Text.takeWhile_append (Identifier.isChar_of_valid hid) hrest, hword]
      exact List.takeWhile_append_of_pos (List.all_eq_true.1 (by decide))
    cases behind with
    | nil =>
      rw [List.takeWhile_nil, List.append_nil] at hrun
      rw [hrun] at hname
      exact absurd hname (by decide)
    | cons c cs =>
      cases hc : Identifier.isChar c with
      | true => simp [Text.endsWord, Text.isWord_of_isChar hc]
      | false =>
        rw [List.takeWhile_cons, hc, if_neg Bool.false_ne_true, List.append_nil] at hrun
        rw [hrun] at hname
        exact absurd hname (by decide)

theorem declarations_of_isDirective {line : Line} (h : isDirective line = true) :
    declarations line = [] := by
  rw [declarations, if_pos h]

theorem identifiers_of_isDirective {line : Line} (h : isDirective line = true) :
    identifiers line = [] := by
  rw [identifiers, if_pos h]

end Line
end Chartwright
