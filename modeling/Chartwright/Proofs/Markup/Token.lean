import Chartwright.Markup.Arrow
import Chartwright.Markup.Bracket
import Chartwright.Markup.Identifier
import Chartwright.Proofs.Text.Runs
import Chartwright.Text.Word
/-!
The tokens of a line, read back from the front of a text.

An identifier is read back when no character of an identifier follows it, an arrow whatever follows
it, since it ends in its point. The characters of identifiers are neither blank nor part of an
arrow, so a reader that looks for either passes over them.
-/
namespace Chartwright

namespace Identifier

theorem eq_lowLine_iff {c : Char} : c = '_' ↔ c.toNat = 95 := by
  rw [← Char.toNat_inj]
  rfl

theorem isChar_iff {c : Char} : isChar c = true ↔
    (48 ≤ c.toNat ∧ c.toNat ≤ 57) ∨ (65 ≤ c.toNat ∧ c.toNat ≤ 90) ∨ c.toNat = 95 ∨
      (97 ≤ c.toNat ∧ c.toNat ≤ 122) := by
  unfold isChar Char.isAlphanum Char.isAlpha Char.isUpper Char.isLower Char.isDigit
  simp only [Bool.or_eq_true, Bool.and_eq_true, decide_eq_true_eq, beq_iff_eq, eq_lowLine_iff,
    ge_iff_le, UInt32.le_iff_toNat_le, Char.toNat]
  simp
  omega

theorem isStart_iff {c : Char} : isStart c = true ↔
    (65 ≤ c.toNat ∧ c.toNat ≤ 90) ∨ c.toNat = 95 ∨ (97 ≤ c.toNat ∧ c.toNat ≤ 122) := by
  unfold isStart Char.isAlpha Char.isUpper Char.isLower
  simp only [Bool.or_eq_true, Bool.and_eq_true, decide_eq_true_eq, beq_iff_eq, eq_lowLine_iff,
    ge_iff_le, UInt32.le_iff_toNat_le, Char.toNat]
  simp
  omega

theorem not_isBlank_of_isChar {c : Char} (h : isChar c = true) : Text.isBlank c = false := by
  rw [isChar_iff] at h
  simp only [Text.isBlank, Bool.or_eq_false_iff, Bool.and_eq_false_imp, decide_eq_true_eq,
    decide_eq_false_iff_not, beq_eq_false_iff_ne]
  omega

theorem not_isChar_of_isBlank {c : Char} (h : Text.isBlank c = true) : isChar c = false := by
  rw [Bool.eq_false_iff]
  intro hc
  rw [not_isBlank_of_isChar hc] at h
  cases h

theorem not_isStart_of_not_isChar {c : Char} (h : isChar c = false) : isStart c = false := by
  rw [Bool.eq_false_iff]
  intro hc
  rw [isChar_of_isStart hc] at h
  cases h

theorem ne_of_isChar {c d : Char} (h : isChar c = true) (hd : isChar d = false) : c ≠ d := by
  rintro rfl
  rw [h] at hd
  cases hd

section Valid

variable {id rest : Text}

theorem valid_cons {c : Char} {cs : Text} :
    valid (c :: cs) = true ↔ isStart c = true ∧ ∀ d ∈ cs, isChar d = true := by
  simp [valid]

theorem isChar_of_valid (h : valid id = true) : ∀ c ∈ id, isChar c = true := by
  cases id with
  | nil => cases h
  | cons c cs =>
    obtain ⟨hstart, hrest⟩ := valid_cons.1 h
    intro d hd
    rcases List.mem_cons.1 hd with rfl | hd
    · exact isChar_of_isStart hstart
    · exact hrest d hd

theorem not_mem_of_valid (h : valid id = true) {c : Char} (hc : isChar c = false) : c ∉ id :=
  fun hmem => ne_of_isChar (isChar_of_valid h c hmem) hc rfl

theorem ne_nil_of_valid (h : valid id = true) : id ≠ [] := by
  rintro rfl
  cases h

/-- An identifier is read back from the front of a text that does not prolong it. -/
theorem read?_append (h : valid id = true) (hrest : Text.Stops isChar rest) :
    read? (id ++ rest) = some (id, rest) := by
  cases id with
  | nil => cases h
  | cons c cs =>
    obtain ⟨hstart, hcs⟩ := valid_cons.1 h
    simp [read?, hstart, Text.takeWhile_append hcs hrest, Text.dropWhile_append hcs hrest]

theorem read?_append_of_stops (hrest : Text.Stops isChar rest) (t : Text) :
    read? (t ++ rest) = (read? t).map fun found => (found.1, found.2 ++ rest) := by
  cases t with
  | nil =>
    cases rest with
    | nil => rfl
    | cons c cs =>
      have hstart := not_isStart_of_not_isChar (Text.stops_cons.1 hrest)
      simp [read?, hstart]
  | cons c cs =>
    simp only [List.cons_append, read?, Text.takeWhile_append_of_stops cs hrest,
      Text.dropWhile_append_of_stops cs hrest]
    split <;> rfl

theorem exists_start_of_read? {t name rest : Text} (h : read? t = some (name, rest)) :
    ∃ c cs, t = c :: cs ∧ isStart c = true := by
  cases t with
  | nil => cases h
  | cons c cs => exact ⟨c, cs, rfl, (Option.ite_none_right_eq_some.1 h).1⟩

theorem stops_of_read? {t : Text} (h : read? t = some (id, rest)) : Text.Stops isChar rest := by
  intro c hc
  have happart := apart_rest_of_read? h
  rw [Option.mem_def.1 hc] at happart
  simpa [apart] using happart

theorem apart_head?_iff {t : Text} : apart t.head? = true ↔ Text.Stops isChar t := by
  cases t with
  | nil => simp [apart]
  | cons c cs => simp [apart]

theorem stops_append (h : valid id = true) {p : Char → Bool}
    (hp : ∀ c, isChar c = true → p c = false) (rest : Text) : Text.Stops p (id ++ rest) := by
  cases id with
  | nil => cases h
  | cons c cs => exact Text.stops_cons.2 (hp c (isChar_of_valid h c List.mem_cons_self))

theorem stops_isBlank_append (h : valid id = true) (rest : Text) :
    Text.Stops Text.isBlank (id ++ rest) :=
  stops_append h (fun _ => not_isBlank_of_isChar) rest

end Valid

end Identifier

namespace Text

/-- The blanks beyond ASCII. -/
def wideBlanks : List Nat :=
  [0x85, 0xA0, 0x1680, 0x2000, 0x2001, 0x2002, 0x2003, 0x2004, 0x2005, 0x2006, 0x2007, 0x2008,
    0x2009, 0x200A, 0x2028, 0x2029, 0x202F, 0x205F, 0x3000]

theorem mem_wideBlanks {c : Char} (h : isBlank c = true) (wide : ¬ c.toNat < 128) :
    c.toNat ∈ wideBlanks := by
  simp only [isBlank, Bool.or_eq_true, Bool.and_eq_true, decide_eq_true_eq, beq_iff_eq] at h
  simp only [wideBlanks, List.mem_cons, List.not_mem_nil, or_false]
  omega

theorem isWord_of_isChar {c : Char} (h : Identifier.isChar c = true) : isWord c = true := by
  have hnumber := Identifier.isChar_iff.1 h
  have hascii : c.toNat < 128 := by omega
  rw [isWord, if_pos hascii]
  exact h

theorem not_isWord_of_isBlank {c : Char} (h : isBlank c = true) : isWord c = false := by
  unfold isWord
  split
  · exact Identifier.not_isChar_of_isBlank h
  · next wide =>
    have hall : (wideBlanks.all fun n => !letterNumberRanges.any fun r => r.1 ≤ n && n ≤ r.2) =
        true := by
      decide +kernel
    have hnone := List.all_eq_true.1 hall c.toNat (mem_wideBlanks h wide)
    rw [Bool.not_eq_true'] at hnone
    exact hnone

end Text

namespace Arrow

/-- The spellings of arrows. -/
inductive Spelling : Text → Prop where
  | thick (n : Nat) : Spelling (List.replicate (n + 2) '=' ++ ['>'])
  | dotted (m n : Nat) :
    Spelling (['-'] ++ List.replicate (m + 1) '.' ++ List.replicate n '-' ++ ['>'])
  | plain (n : Nat) : Spelling (List.replicate (n + 2) '-' ++ ['>'])

theorem run?_replicate {c : Char} {least n : Nat} {rest : Text} (hn : least ≤ n)
    (h : Text.Stops (· = c) rest) :
    run? c least (List.replicate n c ++ rest) = some (List.replicate n c, rest) := by
  have hrun : ∀ d ∈ List.replicate n c, decide (d = c) = true := by
    intro d hd
    simpa using (List.mem_replicate.1 hd).2
  simp only [run?]
  rw [Text.takeWhile_append hrun h, Text.dropWhile_append hrun h, List.length_replicate, if_pos hn]

theorem eq_replicate_of_run? {c : Char} {least : Nat} {t taken rest : Text}
    (h : run? c least t = some (taken, rest)) :
    ∃ n, least ≤ n ∧ taken = List.replicate n c := by
  simp only [run?, Option.ite_none_right_eq_some, Option.some.injEq, Prod.mk.injEq] at h
  obtain ⟨hleast, rfl, rfl⟩ := h
  refine ⟨_, hleast, List.eq_replicate_iff.2 ⟨rfl, fun d hd => ?_⟩⟩
  have := List.all_eq_true.1 (List.all_takeWhile (p := (fun d => decide (d = c))) (l := t)) d hd
  simpa using this

theorem eq_of_pointed? {shaft t taken rest : Text} (h : pointed? shaft t = some (taken, rest)) :
    taken = shaft ++ ['>'] := by
  unfold pointed? at h
  split at h
  · cases h
    rfl
  · cases h

theorem readThick?_of_ne {c : Char} {t : Text} (h : c ≠ '=') : readThick? (c :: t) = none := by
  simp [readThick?, run?, h]

theorem readDotted?_of_ne {c : Char} {t : Text} (h : c ≠ '-') : readDotted? (c :: t) = none := by
  simp [readDotted?, Text.after?, Ne.symm h]

theorem readDotted?_of_ne_dot {c : Char} {t : Text} (h : c ≠ '.') :
    readDotted? ('-' :: c :: t) = none := by
  simp [readDotted?, Text.after?, run?, h]

theorem readPlain?_of_ne {c : Char} {t : Text} (h : c ≠ '-') : readPlain? (c :: t) = none := by
  simp [readPlain?, run?, h]

theorem read?_of_ne {c : Char} {t : Text} (hdash : c ≠ '-') (hequal : c ≠ '=') :
    read? (c :: t) = none := by
  simp [read?, readThick?_of_ne hequal, readDotted?_of_ne hdash, readPlain?_of_ne hdash]

/-- A spelling is read whatever follows it. -/
theorem Spelling.read?_append {a : Text} (h : Spelling a) (rest : Text) :
    read? (a ++ rest) = some (a, rest) := by
  have hpoint : ∀ c : Char, c ≠ '>' → Text.Stops (· = c) ('>' :: rest) := by
    intro c hc
    simp [Ne.symm hc]
  cases h with
  | thick n =>
    have hrun := run?_replicate (show 2 ≤ n + 2 by omega) (hpoint '=' (by decide))
    have hread : readThick? (List.replicate (n + 2) '=' ++ '>' :: rest) =
        some (List.replicate (n + 2) '=' ++ ['>'], rest) := by
      simp only [readThick?, hrun, Option.bind_eq_bind, Option.bind_some, pointed?]
    rw [List.append_assoc, List.singleton_append, read?, hread]
    rfl
  | dotted m n =>
    have hdashes := run?_replicate (show 0 ≤ n by omega) (hpoint '-' (by decide))
    -- the dots end at the dashes, or at the point if there are none
    have hstops : Text.Stops (· = '.') (List.replicate n '-' ++ '>' :: rest) := by
      cases n with
      | zero => simp
      | succ n => simp [List.replicate_succ]
    have hdots := run?_replicate (show 1 ≤ m + 1 by omega) hstops
    have hthick : readThick?
        ('-' :: (List.replicate (m + 1) '.' ++ (List.replicate n '-' ++ '>' :: rest))) = none :=
      readThick?_of_ne (by decide)
    have hread : readDotted?
        ('-' :: (List.replicate (m + 1) '.' ++ (List.replicate n '-' ++ '>' :: rest))) =
        some (['-'] ++ List.replicate (m + 1) '.' ++ List.replicate n '-' ++ ['>'], rest) := by
      simp only [readDotted?, Text.after?, if_pos, hdots, hdashes, Option.bind_eq_bind,
        Option.bind_some, pointed?]
    have hshape : ['-'] ++ List.replicate (m + 1) '.' ++ List.replicate n '-' ++ ['>'] ++ rest =
        '-' :: (List.replicate (m + 1) '.' ++ (List.replicate n '-' ++ '>' :: rest)) := by simp
    rw [hshape, read?, hthick, hread]
    rfl
  | plain n =>
    have hrun := run?_replicate (show 2 ≤ n + 2 by omega) (hpoint '-' (by decide))
    have hthick : readThick? (List.replicate (n + 2) '-' ++ '>' :: rest) = none :=
      readThick?_of_ne (by decide)
    have hdotted : readDotted? (List.replicate (n + 2) '-' ++ '>' :: rest) = none :=
      readDotted?_of_ne_dot (by decide)
    have hread : readPlain? (List.replicate (n + 2) '-' ++ '>' :: rest) =
        some (List.replicate (n + 2) '-' ++ ['>'], rest) := by
      simp only [readPlain?, hrun, Option.bind_eq_bind, Option.bind_some, pointed?]
    rw [List.append_assoc, List.singleton_append, read?, hthick, hdotted, hread]
    rfl

theorem spelling_of_read? {t taken rest : Text} (h : read? t = some (taken, rest)) :
    Spelling taken := by
  simp only [read?, Option.orElse_eq_orElse, Option.orElse_eq_or, Option.or_eq_some_iff] at h
  rcases h with h | ⟨-, h | ⟨-, h⟩⟩
  · simp only [readThick?, Option.bind_eq_bind, Option.bind_eq_some_iff, Prod.exists] at h
    obtain ⟨a, b, hr, hp⟩ := h
    obtain ⟨n, hn, rfl⟩ := eq_replicate_of_run? hr
    obtain ⟨n, rfl⟩ := Nat.exists_eq_add_of_le' hn
    exact eq_of_pointed? hp ▸ .thick n
  · simp only [readDotted?, Option.bind_eq_bind, Option.bind_eq_some_iff, Prod.exists] at h
    obtain ⟨r, -, d, r', hd, e, r'', he, hp⟩ := h
    obtain ⟨m, hm, rfl⟩ := eq_replicate_of_run? hd
    obtain ⟨m, rfl⟩ := Nat.exists_eq_add_of_le' hm
    obtain ⟨n, -, rfl⟩ := eq_replicate_of_run? he
    exact eq_of_pointed? hp ▸ .dotted m n
  · simp only [readPlain?, Option.bind_eq_bind, Option.bind_eq_some_iff, Prod.exists] at h
    obtain ⟨a, b, hr, hp⟩ := h
    obtain ⟨n, hn, rfl⟩ := eq_replicate_of_run? hr
    obtain ⟨n, rfl⟩ := Nat.exists_eq_add_of_le' hn
    exact eq_of_pointed? hp ▸ .plain n

/-- What is read as an arrow is a spelling, and every spelling is read. -/
theorem read?_eq_some_iff {t taken rest : Text} :
    read? t = some (taken, rest) ↔ Spelling taken ∧ t = taken ++ rest :=
  ⟨fun h => ⟨spelling_of_read? h, eq_append_of_read? h⟩, fun ⟨h, e⟩ => e ▸ h.read?_append rest⟩

namespace Spelling

variable {a : Text}

theorem eq_append_point (h : Spelling a) : ∃ shaft, a = shaft ++ ['>'] ∧ '>' ∉ shaft := by
  cases h with
  | thick n => exact ⟨_, rfl, by simp [List.mem_replicate]⟩
  | dotted m n => exact ⟨_, rfl, by simp [List.mem_replicate]⟩
  | plain n => exact ⟨_, rfl, by simp [List.mem_replicate]⟩

theorem mem (h : Spelling a) {c : Char} (hc : c ∈ a) : c = '-' ∨ c = '=' ∨ c = '.' ∨ c = '>' := by
  cases h with
  | thick n =>
    simp [List.mem_replicate] at hc
    rcases hc with rfl | rfl <;> simp
  | dotted m n =>
    simp [List.mem_replicate] at hc
    rcases hc with rfl | rfl | ⟨-, rfl⟩ | rfl <;> simp
  | plain n =>
    simp [List.mem_replicate] at hc
    rcases hc with rfl | rfl <;> simp

theorem not_mem (h : Spelling a) {c : Char} (hc : c ∉ ['-', '=', '.', '>']) : c ∉ a := by
  intro hmem
  exact hc (by simpa using h.mem hmem)

theorem head (h : Spelling a) : ∃ c cs, a = c :: cs ∧ (c = '-' ∨ c = '=') := by
  cases h with
  | thick n => exact ⟨'=', _, by rw [List.replicate_succ]; rfl, .inr rfl⟩
  | dotted m n => exact ⟨'-', _, rfl, .inl rfl⟩
  | plain n => exact ⟨'-', _, by rw [List.replicate_succ]; rfl, .inl rfl⟩

end Spelling

/-- A text that no part of an arrow can follow hides no arrow behind a text. -/
theorem read?_append_of_stops {t rest : Text}
    (h : Text.Stops (fun c => c == '-' || c == '=' || c == '.' || c == '>') rest) :
    read? (t ++ rest) = (read? t).map fun found => (found.1, found.2 ++ rest) := by
  cases hread : read? t with
  | some found =>
    obtain ⟨hspelling, rfl⟩ := read?_eq_some_iff.1 hread
    rw [List.append_assoc]
    exact hspelling.read?_append _
  | none =>
    rw [Option.map_none, Option.eq_none_iff_forall_ne_some]
    rintro ⟨taken, after⟩ hlong
    obtain ⟨hspelling, heq⟩ := read?_eq_some_iff.1 hlong
    rcases List.append_eq_append_iff.1 heq with ⟨mid, rfl, rfl⟩ | ⟨mid, rfl, -⟩
    · -- the arrow would end inside of the rest
      cases mid with
      | nil =>
        rw [List.append_nil] at hspelling
        rw [← List.append_nil t, hspelling.read?_append] at hread
        cases hread
      | cons c cs =>
        have hc := hspelling.mem (List.mem_append_right t List.mem_cons_self)
        rw [List.cons_append, Text.stops_cons] at h
        rcases hc with rfl | rfl | rfl | rfl <;> simp at h
    · -- the arrow would end in the text itself
      rw [hspelling.read?_append] at hread
      cases hread

theorem read?_of_suffix {x s : Text} (h : occursIn x = false) (hs : s <:+ x) : read? s = none := by
  induction x with
  | nil =>
    rw [List.suffix_nil.1 hs]
    rfl
  | cons c cs ih =>
    rw [occursIn, Bool.or_eq_false_iff, Option.isSome_eq_false_iff, Option.isNone_iff_eq_none] at h
    rcases List.suffix_cons_iff.1 hs with rfl | hs
    · exact h.1
    · exact ih h.2 hs

end Arrow

namespace Bracket

theorem length_pos (b : Bracket) : 0 < b.opener.length ∧ 0 < b.closer.length := by
  cases b <;> decide

theorem not_isChar_of_mem_opener {b : Bracket} {c : Char} (h : c ∈ b.opener) :
    Identifier.isChar c = false := by
  have hall : ∀ b ∈ Bracket.all, (b.opener.all fun c => !Identifier.isChar c) = true := by decide
  have hnot := List.all_eq_true.1 (hall b (by cases b <;> decide)) c h
  simpa using hnot

theorem not_isClosing_of_isBlank {c : Char} (h : Text.isBlank c = true) : isClosing c = false := by
  rw [Bool.eq_false_iff]
  intro hclosing
  simp only [isClosing, Bool.or_eq_true, beq_iff_eq] at hclosing
  rcases hclosing with (rfl | rfl) | rfl <;> exact absurd h (by decide)

/-- A character that makes an opener longer. -/
def isExtension : Bracket → Char → Bool
  | square, c => c == '(' || c == '[' || c == '/' || c == '\\'
  | round, c => c == '[' || c == '('
  | brace, c => c == '{'
  | _, _ => false

/-- The character that an opener starts with. -/
def isOpening (c : Char) : Bool := c == '(' || c == '[' || c == '{' || c == '>'

theorem read?_opener_append {b : Bracket} {t : Text} :
    read? (b.opener ++ t) = some (b, t) ↔ Text.Stops b.isExtension t := by
  cases t with
  | nil => cases b <;> simp [read?, all, opener, Text.after?]
  | cons c cs =>
    rw [Text.stops_cons]
    -- of the other openers only those that go on after this one are in question
    cases b <;> simp [read?, all, opener, Text.after?, isExtension, List.findSome?]
    all_goals grind

/-- A character of an opener. -/
def inOpener (c : Char) : Bool := all.any fun b => b.opener.contains c

/-- The opener at the front of a text is the same with more behind it if each opener can be told
without that. -/
theorem read?_append {t y : Text}
    (h : ∀ b : Bracket, Text.after? b.opener (t ++ y) = (Text.after? b.opener t).map (· ++ y)) :
    read? (t ++ y) = (read? t).map fun found => (found.1, found.2 ++ y) := by
  rw [read?, read?, List.map_findSome?]
  congr 1
  funext b
  rw [h, Function.comp_apply, Option.map_map, Option.map_map]
  rfl

theorem read?_append_of_le {t : Text} (h : 2 ≤ t.length) (y : Text) :
    read? (t ++ y) = (read? t).map fun found => (found.1, found.2 ++ y) := by
  refine read?_append fun b => Text.after?_append_of_le (Nat.le_trans ?_ h) y
  cases b <;> decide

theorem read?_append_of_stops {y : Text} (h : Text.Stops inOpener y) (t : Text) :
    read? (t ++ y) = (read? t).map fun found => (found.1, found.2 ++ y) := by
  have hword : ∀ b : Bracket, ∀ w ∈ b.opener, Text.Stops (· == w) y := by
    intro b w hw c hc
    have hnone := h c hc
    rw [beq_eq_false_iff_ne]
    rintro rfl
    have hany : inOpener c = true :=
      List.any_eq_true.2 ⟨b, by cases b <;> decide, by simpa using hw⟩
    rw [hany] at hnone
    cases hnone
  exact read?_append fun b => Text.after?_append_of_stops t (hword b)

theorem read?_of_stops {t : Text} (h : Text.Stops isOpening t) : read? t = none := by
  cases t with
  | nil => rfl
  | cons c cs =>
    rw [Text.stops_cons] at h
    simp only [isOpening, Bool.or_eq_false_iff, beq_eq_false_iff_ne] at h
    obtain ⟨⟨⟨hround, hsquare⟩, hbrace⟩, hflag⟩ := h
    simp [read?, all, opener, Text.after?, List.findSome?, Ne.symm hround, Ne.symm hsquare,
      Ne.symm hbrace, Ne.symm hflag]

end Bracket
end Chartwright
