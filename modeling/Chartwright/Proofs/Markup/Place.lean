import Chartwright.Proofs.Markup.Token
import Chartwright.Proofs.Text.Scan
/-!
Identifiers by their places.

A name stands at a place as a whole identifier if its characters are there and none of an identifier
on either side (`Identifier.Place`). Said by offsets, this can be carried from a text to a copy of
it of which parts are hidden, and back. The tokens of a text are found at all such places
(`Identifier.mem_tokens_of_place`): the scan takes what starts at a place, if a name may start
there, and goes on behind it (`Identifier.tokens_eq`).
-/
namespace Chartwright

namespace Text

theorem eq_append_of_getElem? {t word : Text} {n : Nat}
    (h : ∀ i < word.length, t[n + i]? = word[i]?) :
    t = t.take n ++ (word ++ t.drop (n + word.length)) := by
  have hcut : (t.drop n).take word.length = word := by
    apply List.ext_getElem?
    intro i
    by_cases hi : i < word.length
    · rw [List.getElem?_take_of_lt hi, List.getElem?_drop, h i hi]
    · rw [List.getElem?_eq_none (by simp; omega), List.getElem?_eq_none (by omega)]
  calc t = t.take n ++ t.drop n := (List.take_append_drop ..).symm
    _ = t.take n ++ ((t.drop n).take word.length ++ (t.drop n).drop word.length) := by
      rw [List.take_append_drop (i := word.length)]
    _ = _ := by rw [hcut, List.drop_drop]

theorem endOf_eq_getElem? {t : Text} (before : Option Char) {n : Nat} (h : t.length = n + 1) :
    endOf before t = t[n]? := by
  induction t generalizing before n with
  | nil => cases h
  | cons c cs ih =>
    cases n with
    | zero =>
      obtain rfl : cs = [] := List.length_eq_zero_iff.1 (Nat.succ.inj h)
      rfl
    | succ n => rw [endOf, ih (some c) (Nat.succ.inj h), List.getElem?_cons_succ]

end Text

namespace Identifier

/-- A whole identifier at an offset. -/
structure Place (t : Text) (n : Nat) (name : Text) : Prop where
  valid : valid name = true
  shown : ∀ i < name.length, t[n + i]? = name[i]?
  before : ∀ k c, n = k + 1 → t[k]? = some c → isChar c = false
  behind : ∀ c, t[n + name.length]? = some c → isChar c = false

variable {t name : Text} {n : Nat}

theorem place_append {x z : Text} (hvalid : valid name = true)
    (hbefore : apart (Text.endOf none x) = true) (hbehind : Text.Stops isChar z) :
    Place (x ++ (name ++ z)) x.length name where
  valid := hvalid
  shown i hi := by
    rw [List.getElem?_append_right (Nat.le_add_right _ _), Nat.add_sub_cancel_left,
      List.getElem?_append_left hi]
  before k c hk hc := by
    rw [List.getElem?_append_left (by omega), ← Text.endOf_eq_getElem? none hk] at hc
    rw [hc] at hbefore
    simpa [apart] using hbefore
  behind c hc := by
    rw [← List.append_assoc, Text.getElem?_length_append _ List.length_append.symm] at hc
    exact hbehind c hc

theorem Place.isChar_of_shown (h : Place t n name) {i : Nat} {c : Char} (hi : i < name.length)
    (hc : t[n + i]? = some c) : isChar c = true := by
  rw [h.shown i hi] at hc
  exact isChar_of_valid h.valid c (List.mem_of_getElem? hc)

theorem Place.length_pos (h : Place t n name) : 0 < name.length :=
  List.length_pos_iff.2 (ne_nil_of_valid h.valid)

theorem Place.exists_getElem? (h : Place t n name) : ∃ c, t[n]? = some c ∧ isChar c = true := by
  have hfirst := h.shown 0 h.length_pos
  rw [Nat.add_zero, List.getElem?_eq_getElem h.length_pos] at hfirst
  exact ⟨_, hfirst, isChar_of_valid h.valid _ (List.getElem_mem h.length_pos)⟩

theorem Place.exists_eq_append (h : Place t n name) :
    ∃ x z, t = x ++ (name ++ z) ∧ x.length = n ∧ apart (Text.endOf none x) = true ∧
      Text.Stops isChar z := by
  have hn : n < t.length := by
    obtain ⟨c, hc, -⟩ := h.exists_getElem?
    exact (List.getElem?_eq_some_iff.1 hc).1
  have hlength : (t.take n).length = n := by
    rw [List.length_take, Nat.min_eq_left (Nat.le_of_lt hn)]
  refine ⟨t.take n, t.drop (n + name.length), Text.eq_append_of_getElem? h.shown, hlength, ?_, ?_⟩
  · cases n with
    | zero => rfl
    | succ k =>
      rw [Text.endOf_eq_getElem? none hlength, List.getElem?_take_of_lt (Nat.lt_succ_self k)]
      cases hc : t[k]? with
      | none => rfl
      | some c => simpa [apart] using h.before k c rfl hc
  · intro c hc
    apply h.behind c
    rwa [Option.mem_def, List.head?_eq_getElem?, List.getElem?_drop, Nat.add_zero] at hc

/-- A place is left as it is by hiding spans outside of the name. -/
theorem Place.hide_of_outside {filler : Char} {spans : List Span} (hfiller : isChar filler = false)
    (h : Place t n name) (hout : ∀ i < name.length, spans.any (·.contains (n + i)) = false) :
    Place (Text.hide filler spans t) n name where
  valid := h.valid
  shown i hi := by
    rw [Text.getElem?_hide, hout i hi, h.shown i hi]
    simp
  before k c hk hc := by
    rw [Text.getElem?_hide, Option.map_eq_some_iff] at hc
    obtain ⟨d, hd, rfl⟩ := hc
    split
    · exact hfiller
    · exact h.before k d hk hd
  behind c hc := by
    rw [Text.getElem?_hide, Option.map_eq_some_iff] at hc
    obtain ⟨d, hd, rfl⟩ := hc
    split
    · exact hfiller
    · exact h.behind d hd

/-- A place is left as it is by hiding spans that do not reach over it and do not begin inside of a
name. -/
theorem Place.hide {filler : Char} {spans : List Span} (hfiller : isChar filler = false)
    (h : Place t n name) (hover : spans.any (·.contains n) = false)
    (hstart : ∀ s ∈ spans, ∀ c, t[s.start]? = some c → isChar c = false) :
    Place (Text.hide filler spans t) n name := by
  refine h.hide_of_outside hfiller fun i hi => List.any_eq_false.2 fun s hs hcontains => ?_
  have hnot := List.any_eq_false.1 hover s hs
  simp only [Span.contains, Bool.and_eq_true, decide_eq_true_eq] at hcontains hnot
  -- the span begins behind the first character of the name, and not behind the last
  have hplace : s.start = n + (s.start - n) := by omega
  have hin : s.start - n < name.length := by omega
  have hchar := h.shown (s.start - n) hin
  rw [← hplace, List.getElem?_eq_getElem hin] at hchar
  have hnone := hstart s hs _ hchar
  rw [isChar_of_valid h.valid _ (List.getElem_mem hin)] at hnone
  cases hnone

/-- No identifier runs across an end of a span. -/
structure Separates (t : Text) (s : Span) : Prop where
  start : ∀ k c d, s.start = k + 1 → t[k]? = some c → t[k + 1]? = some d → isChar c = true →
      isChar d = false
  stop : ∀ k c d, s.stop = k + 1 → t[k]? = some c → t[k + 1]? = some d → isChar c = true →
      isChar d = false

section Hidden

variable {filler : Char} {spans : List Span}

theorem Place.shown_of_hide (hfiller : isChar filler = false)
    (h : Place (Text.hide filler spans t) n name) {i : Nat} (hi : i < name.length) :
    spans.any (·.contains (n + i)) = false ∧ t[n + i]? = name[i]? := by
  have hshown := h.shown i hi
  rw [List.getElem?_eq_getElem hi, Text.getElem?_hide, Option.map_eq_some_iff] at hshown
  obtain ⟨c, hc, heq⟩ := hshown
  split at heq
  · have hchar := isChar_of_valid h.valid _ (List.getElem_mem hi)
    rw [← heq, hfiller] at hchar
    cases hchar
  · next hout => exact ⟨Bool.eq_false_iff.2 hout, by rw [hc, heq, List.getElem?_eq_getElem hi]⟩

theorem Place.outside_of_hide (hfiller : isChar filler = false)
    (h : Place (Text.hide filler spans t) n name) :
    ∀ i < name.length, spans.any (·.contains (n + i)) = false :=
  fun _ hi => (h.shown_of_hide hfiller hi).1

/-- A name that is seen in a copy of a text stands in the text, if what is hidden separates. -/
theorem Place.of_hide (hfiller : isChar filler = false) (hspans : ∀ s ∈ spans, Separates t s)
    (h : Place (Text.hide filler spans t) n name) : Place t n name where
  valid := h.valid
  shown i hi := (h.shown_of_hide hfiller hi).2
  before k c hk hc := by
    obtain ⟨hout, hfirst⟩ := h.shown_of_hide hfiller h.length_pos
    have hchar := isChar_of_valid h.valid _ (List.getElem_mem h.length_pos)
    rw [Nat.add_zero] at hout hfirst
    rw [List.getElem?_eq_getElem h.length_pos] at hfirst
    by_cases hhidden : spans.any (·.contains k) = true
    · -- what hides the character before the name ends there
      obtain ⟨s, hs, hin⟩ := List.any_eq_true.1 hhidden
      have hnot := List.any_eq_false.1 hout s hs
      simp only [Span.contains, Bool.and_eq_true, decide_eq_true_eq] at hin hnot
      refine Bool.eq_false_iff.2 fun hbefore => ?_
      rw [(hspans s hs).stop k c _ (by omega) hc (hk ▸ hfirst) hbefore] at hchar
      cases hchar
    · refine h.before k c hk ?_
      rw [Text.getElem?_hide, hc, Option.map_some, if_neg hhidden]
  behind c hc := by
    have hlast : name.length - 1 < name.length := Nat.sub_lt h.length_pos Nat.one_pos
    obtain ⟨hout, hend⟩ := h.shown_of_hide hfiller hlast
    have hchar := isChar_of_valid h.valid _ (List.getElem_mem hlast)
    rw [List.getElem?_eq_getElem hlast] at hend
    have hnext : n + name.length = n + (name.length - 1) + 1 := by omega
    by_cases hhidden : spans.any (·.contains (n + name.length)) = true
    · -- what hides the character behind the name begins there
      obtain ⟨s, hs, hin⟩ := List.any_eq_true.1 hhidden
      have hnot := List.any_eq_false.1 hout s hs
      simp only [Span.contains, Bool.and_eq_true, decide_eq_true_eq] at hin hnot
      exact (hspans s hs).start _ _ c (by omega) hend (hnext ▸ hc) hchar
    · refine h.behind c ?_
      rw [Text.getElem?_hide, hc, Option.map_some, if_neg hhidden]

end Hidden

/-! ## The scan for tokens -/

/-- The identifier at a place, with the number of characters that it takes. -/
def tokenAt (before : Option Char) (t : Text) : Option (Text × Nat) :=
  (token? before t).map fun found => (found.1, found.1.length)

theorem tokens_eq (t : Text) : tokens t = Text.occurrencesFrom tokenAt none 0 0 t := rfl

theorem tokenAt_of_not_isStart {c : Char} (h : isStart c = false) (before : Option Char)
    (t : Text) : tokenAt before (c :: t) = none := by
  rw [tokenAt, token?]
  split
  · simp [read?, h]
  · rfl

theorem within_tokenAt {x y : Text} (h : Text.Stops isChar y) : Text.Within tokenAt x y := by
  intro s _ _ before
  refine ⟨?_, fun found hfound => ?_⟩
  · rw [tokenAt, tokenAt, token?, token?]
    split
    · rw [read?_append_of_stops h, Option.map_map]
      rfl
    · rfl
  · obtain ⟨⟨name, rest⟩, htoken, rfl⟩ := Option.map_eq_some_iff.1 hfound
    rw [token?, Option.ite_none_right_eq_some] at htoken
    rw [eq_append_of_read? htoken.2, List.length_append]
    exact Nat.le_add_right ..

theorem map_tokensFrom {before : Option Char} (h : apart before = true) (offset : Nat) (t : Text) :
    (Text.occurrencesFrom tokenAt before 0 offset t).map (·.2) = (tokens t).map (·.2) := by
  have hnone : Text.occurrencesFrom tokenAt before 0 0 t = tokens t := by
    cases t with
    | nil => rfl
    | cons c cs =>
      have hhere : tokenAt before (c :: cs) = tokenAt none (c :: cs) := by
        rw [tokenAt, tokenAt, token?, token?, h]
        rfl
      rw [tokens_eq, Text.occurrencesFrom, Text.occurrencesFrom, hhere]
  rw [Text.occurrencesFrom_offset, hnone, List.map_map]
  rfl

/-- Whole identifiers do not overlap, so none is passed over. -/
theorem mem_tokensFrom {z : Text} (hvalid : valid name = true) (hbehind : Text.Stops isChar z)
    (x : Text) (before : Option Char) (skip offset : Nat) (hskip : skip ≤ x.length)
    (hbefore : apart (Text.endOf before x) = true) :
    (offset + x.length, name) ∈ Text.occurrencesFrom tokenAt before skip offset
      (x ++ (name ++ z)) := by
  induction x generalizing before skip offset with
  | nil =>
    obtain rfl : skip = 0 := Nat.le_zero.1 hskip
    have hbefore : apart before = true := hbefore
    have hread : token? before (name ++ z) = some (name, z) := by
      rw [token?, if_pos hbefore, read?_append hvalid hbehind]
    have hscan : tokenAt before (name ++ z) = some (name, name.length) := by
      rw [tokenAt, hread]
      rfl
    rw [List.nil_append, Text.occurrencesFrom_cons (ne_nil_of_valid hvalid) hscan]
    exact List.mem_cons_self
  | cons c cs ih =>
    have hlater : ∀ skip ≤ cs.length, (offset + (c :: cs).length, name) ∈
        Text.occurrencesFrom tokenAt (some c) skip (offset + 1) (cs ++ (name ++ z)) := by
      intro skip hskip
      have := ih (some c) skip (offset + 1) hskip hbefore
      rwa [Nat.add_assoc, Nat.add_comm 1] at this
    rw [List.cons_append]
    cases skip with
    | succ k => exact hlater k (Nat.le_of_succ_le_succ hskip)
    | zero =>
      rw [Text.occurrencesFrom, tokenAt]
      cases hread : token? before (c :: (cs ++ (name ++ z))) with
      | none => exact hlater 0 (Nat.zero_le _)
      | some found =>
        obtain ⟨other, rest⟩ := found
        refine List.mem_cons_of_mem _ (hlater (other.length - 1) ?_)
        rw [token?, Option.ite_none_right_eq_some] at hread
        obtain ⟨-, hread⟩ := hread
        have heq := eq_append_of_read? hread
        -- an identifier that ran up to the place would touch the one that stands there
        refine Nat.le_of_not_lt fun hlong => ?_
        obtain ⟨d, hd, hend⟩ := Text.endOf_of_ne_nil before (List.cons_ne_nil c cs)
        have hmem : d ∈ other := by
          rw [← List.cons_append] at heq
          have hsub : c :: cs <+: other :=
            List.prefix_of_prefix_length_le ⟨_, heq⟩ ⟨rest, rfl⟩ (by simp; omega)
          exact hsub.subset hd
        rw [hend, apart, Option.any_some, isChar_of_valid (valid_of_read? hread) d hmem] at hbefore
        cases hbefore

/-- The tokens of a text are found at all their places. -/
theorem mem_tokens_of_place (h : Place t n name) : (n, name) ∈ tokens t := by
  obtain ⟨x, z, rfl, rfl, hbefore, hbehind⟩ := h.exists_eq_append
  have := mem_tokensFrom h.valid hbehind x none 0 0 (Nat.zero_le _) hbefore
  rwa [Nat.zero_add] at this

theorem place_of_mem_tokens (h : (n, name) ∈ tokens t) : Place t n name := by
  rw [tokens_eq] at h
  obtain ⟨x, y, width, rfl, hplace, hfound⟩ := Text.mem_occurrencesFrom h
  obtain ⟨⟨found, rest⟩, htoken, heq⟩ := Option.map_eq_some_iff.1 hfound
  obtain rfl : found = name := congrArg Prod.fst heq
  obtain rfl : n = x.length := hplace.trans (Nat.zero_add _)
  obtain ⟨hbefore, hread⟩ := Option.ite_none_right_eq_some.1 htoken
  rw [eq_append_of_read? hread]
  exact place_append (valid_of_read? hread) hbefore (stops_of_read? hread)

/-! ## The search for a name -/

theorem Place.isSome_mention? (h : Place t n name) : (mention? name t).isSome = true := by
  obtain ⟨x, z, rfl, -, hbefore, hbehind⟩ := h.exists_eq_append
  rw [mention?, Option.isSome_map]
  refine Text.isSome_firstFrom rfl ?_
  simp only [standsAt, hbefore, Text.after?_append, apart_head?_iff.2 hbehind]
  rfl

theorem place_of_mention? (hvalid : valid name = true) (h : mention? name t = some n) :
    Place t n name := by
  obtain ⟨⟨m, found⟩, hfirst, rfl⟩ := Option.map_eq_some_iff.1 h
  obtain ⟨x, y, rfl, rfl, hread, -⟩ := Text.exists_of_firstFrom hfirst
  obtain ⟨hstands, -⟩ := Option.ite_none_right_eq_some.1 hread
  rw [standsAt, Bool.and_eq_true] at hstands
  obtain ⟨hbefore, hbehind⟩ := hstands
  split at hbehind
  · next rest hrest =>
    rw [Text.after?_eq_some_iff.1 hrest]
    exact place_append hvalid hbefore (apart_head?_iff.1 hbehind)
  · cases hbehind

theorem isSome_mention?_iff (hvalid : valid name = true) :
    (mention? name t).isSome = true ↔ ∃ n, Place t n name := by
  constructor
  · intro h
    obtain ⟨n, hn⟩ := Option.isSome_iff_exists.1 h
    exact ⟨n, place_of_mention? hvalid hn⟩
  · rintro ⟨n, hplace⟩
    exact hplace.isSome_mention?

end Identifier
end Chartwright
