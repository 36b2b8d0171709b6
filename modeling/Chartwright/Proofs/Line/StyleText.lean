import Chartwright.Line.StyleLine
import Chartwright.Proofs.Line.Directive
import Chartwright.Proofs.Number.IntegerText
/-!
Styles, written and read again.

What is read off a line can be written: its texts are not empty, have no blanks at their ends and
hold no comma, and its integers are not zero and not too long (`Style.writable_of_read`). A style is
written just when its integers are not too long (`StyleLine.write_of_brief`,
`StyleLine.write_of_not_brief`), and its text is read back (`Style.read_text`,
`StyleLine.read_text`).
-/
namespace Chartwright

namespace Style

/-- A text that can stand as a value in a pair. -/
structure Value (t : Text) : Prop where
  tight : Text.Tight t
  comma_not_mem : ',' ∉ t
  lineFeed_not_mem : '\n' ∉ t

/-- The texts that a style sets. -/
def texts (s : Style) : List Text := s.fill.toList ++ s.stroke.toList ++ s.color.toList

/-- The integers that a style sets. -/
def numbers (s : Style) : List Int := s.strokeWidth.toList ++ s.rx.toList

/-- A style that is read back as it is written. -/
structure Writable (s : Style) : Prop where
  value : ∀ t ∈ s.texts, Value t
  short : ∀ n ∈ s.numbers, n ≠ 0 ∧ Integer.Short n

/-- No integer of a style has too many digits. -/
def Brief (s : Style) : Prop := ∀ n ∈ s.numbers, Integer.Short n

theorem brief_empty : empty.Brief := by simp [Brief, numbers, empty]

theorem mem_orElse {α : Type} {first second : Option α} {x : α}
    (h : x ∈ (first <|> second).toList) : x ∈ first.toList ∨ x ∈ second.toList := by
  cases first with
  | none => exact .inr h
  | some y => exact .inl h

theorem mem_numbers_merge {base update : Style} {n : Int} (h : n ∈ (base.merge update).numbers) :
    n ∈ update.numbers ∨ n ∈ base.numbers := by
  simp only [numbers, Style.merge, List.mem_append] at h ⊢
  rcases h with h | h
  · exact (mem_orElse h).imp .inl .inl
  · exact (mem_orElse h).imp .inr .inr

theorem Brief.merge {base update : Style} (h : base.Brief) (h' : update.Brief) :
    (base.merge update).Brief :=
  fun n hn => (mem_numbers_merge hn).elim (h' n) (h n)

theorem Brief.of_merge {base update : Style} (h : (base.merge update).Brief) : update.Brief := by
  have hor {n : Int} {a b : Option Int} (hn : n ∈ a.toList) : n ∈ (a <|> b).toList := by
    cases a with
    | none => cases hn
    | some m => exact hn
  intro n hn
  refine h n ?_
  simp only [numbers, Style.merge, List.mem_append] at hn ⊢
  exact hn.imp hor hor

theorem Writable.brief {s : Style} (h : s.Writable) : s.Brief := fun n hn => (h.short n hn).2

theorem writable_empty : empty.Writable := ⟨by simp [texts, empty], by simp [numbers, empty]⟩

/-! ## Reading -/

theorem short_of_readPixels {fallback n : Int} {value : Text}
    (hfallback : fallback ≠ 0 ∧ Integer.Short fallback) (h : readPixels fallback value = .ok n) :
    n ≠ 0 ∧ Integer.Short n := by
  obtain ⟨found, hread, hn⟩ := Except.exists_of_map_eq_ok h
  cases found with
  | none => exact hn ▸ hfallback
  | some m =>
    by_cases hm : m = 0
    · simp only [if_pos hm] at hn
      exact hn ▸ hfallback
    · simp only [if_neg hm] at hn
      exact hn ▸ ⟨hm, Integer.short_of_leading hread⟩

theorem short_of_small {n : Int} (h : n.natAbs < 10) : Integer.Short n :=
  Nat.lt_of_lt_of_le h (Nat.le_self_pow (by decide) 10)

/-- One more pair leaves a style writable. -/
theorem Writable.set {s found : Style} {key value : Text} (hs : s.Writable) (hvalue : Value value)
    (h : s.set key value = .ok found) : found.Writable := by
  have hwidth : defaultWidth ≠ 0 ∧ Integer.Short defaultWidth :=
    ⟨by decide, short_of_small (by decide)⟩
  have hradius : defaultRadius ≠ 0 ∧ Integer.Short defaultRadius :=
    ⟨by decide, short_of_small (by decide)⟩
  have hvalues := hs.value
  have hnumbers := hs.short
  simp only [texts, numbers, List.forall_mem_append] at hvalues hnumbers
  -- the pair sets one of the five, and the others stay as they are
  have htext : ∀ t ∈ (some value).toList, Value t := by simpa using hvalue
  unfold Style.set at h
  split at h
  · cases h
    exact ⟨by simp only [texts, List.forall_mem_append]; exact ⟨⟨htext, hvalues.1.2⟩, hvalues.2⟩,
      hs.short⟩
  split at h
  · cases h
    exact ⟨by simp only [texts, List.forall_mem_append]; exact ⟨⟨hvalues.1.1, htext⟩, hvalues.2⟩,
      hs.short⟩
  split at h
  · obtain ⟨n, hn, rfl⟩ := Except.exists_of_map_eq_ok h
    have hnumber : ∀ m ∈ (some n).toList, m ≠ 0 ∧ Integer.Short m := by
      simpa using short_of_readPixels hwidth hn
    exact ⟨hs.value, by simp only [numbers, List.forall_mem_append]; exact ⟨hnumber, hnumbers.2⟩⟩
  split at h
  · cases h
    exact ⟨by simp only [texts, List.forall_mem_append]; exact ⟨hvalues.1, htext⟩, hs.short⟩
  split at h
  · obtain ⟨n, hn, rfl⟩ := Except.exists_of_map_eq_ok h
    have hnumber : ∀ m ∈ (some n).toList, m ≠ 0 ∧ Integer.Short m := by
      simpa using short_of_readPixels hradius hn
    exact ⟨hs.value, by simp only [numbers, List.forall_mem_append]; exact ⟨hnumbers.1, hnumber⟩⟩
  · cases h
    exact hs

theorem mem_of_mem_readPair {pair : Text} {c : Char} (h : c ∈ (readPair pair).2) : c ∈ pair := by
  unfold readPair at h
  split at h
  · next key value hcut =>
    rw [Text.eq_append_of_cut? hcut]
    exact List.mem_append_right _ (Text.mem_of_mem_trim h)
  · cases h

theorem Writable.addPair {s found : Style} {pair : Text} (hs : s.Writable) (hcomma : ',' ∉ pair)
    (hline : '\n' ∉ pair) (h : s.addPair pair = .ok found) : found.Writable := by
  simp only [Style.addPair] at h
  split at h
  · cases h
    exact hs
  · next hfull =>
    simp only [Bool.or_eq_true, not_or, List.isEmpty_iff] at hfull
    refine hs.set ⟨?_, fun hc => hcomma (mem_of_mem_readPair hc), fun hc =>
      hline (mem_of_mem_readPair hc)⟩ h
    unfold readPair at hfull ⊢
    split at hfull
    · exact Text.tight_trim hfull.2
    · exact absurd rfl hfull.2

theorem writable_of_foldlM {pairs : List Text} {s found : Style} (hs : s.Writable)
    (hpairs : ∀ pair ∈ pairs, ',' ∉ pair ∧ '\n' ∉ pair) (h : pairs.foldlM addPair s = .ok found) :
    found.Writable := by
  induction pairs generalizing s with
  | nil =>
    cases h
    exact hs
  | cons pair rest ih =>
    rw [List.foldlM_cons] at h
    cases hnext : s.addPair pair with
    | error e =>
      rw [hnext] at h
      cases h
    | ok next =>
      rw [hnext] at h
      obtain ⟨hcomma, hline⟩ := hpairs pair List.mem_cons_self
      exact ih (hs.addPair hcomma hline hnext) (fun p hp => hpairs p (List.mem_cons_of_mem _ hp)) h

/-- What is read can be written. -/
theorem writable_of_read {pairs : Text} {s : Style} (hline : '\n' ∉ pairs)
    (h : read pairs = .ok s) : s.Writable := by
  refine writable_of_foldlM writable_empty
    (fun pair hpair => ⟨fun hmem => ?_, fun hmem => hline ?_⟩) h
  · have hstops := (Text.mem_of_mem_piecesBy hpair hmem).2
    simp at hstops
  · exact (Text.mem_of_mem_piecesBy hpair hmem).1

/-! ## Writing -/

/-- A key with a value in pixels, however many digits it has. -/
def pixels (key : Text) : Option Int → List Text
  | some n => [key ++ [':'] ++ Integer.decimal n ++ "px".toList]
  | none => []

/-- The pairs that a style is written with. -/
def pairs (s : Style) : List Text :=
  writeText "fill".toList s.fill ++ writeText "stroke".toList s.stroke ++
    pixels "stroke-width".toList s.strokeWidth ++ writeText "color".toList s.color ++
      pixels "rx".toList s.rx

/-- The text of a style, however many digits its integers have. -/
def text (s : Style) : Text := Text.join [','] s.pairs

theorem writePixels_of_short {key : Text} {number : Option Int}
    (h : ∀ n ∈ number.toList, Integer.Short n) :
    writePixels key number = .ok (pixels key number) := by
  cases number with
  | none => rfl
  | some n =>
    rw [writePixels, Integer.write_of_short (h n (by simp))]
    rfl

theorem writePixels_of_long {key : Text} {n : Int} (h : ¬ Integer.Short n) :
    writePixels key (some n) = .error .writing := by
  rw [writePixels, Integer.write_of_long h]
  rfl

theorem write_of_brief {s : Style} (h : s.Brief) : s.write = .ok s.text := by
  obtain ⟨hwidth, hradius⟩ := List.forall_mem_append.1 h
  rw [write, writePixels_of_short hwidth, writePixels_of_short hradius]
  rfl

theorem write_of_not_brief {s : Style} (h : ¬ s.Brief) : s.write = .error .writing := by
  rw [write]
  by_cases hwidth : ∀ n ∈ s.strokeWidth.toList, Integer.Short n
  · -- the width is written, so the radius is what is too long
    have hradius : ¬ ∀ n ∈ s.rx.toList, Integer.Short n :=
      fun hrx => h (List.forall_mem_append.2 ⟨hwidth, hrx⟩)
    rw [writePixels_of_short hwidth]
    cases hrx : s.rx with
    | none => simp [hrx] at hradius
    | some n =>
      rw [writePixels_of_long (by simpa [hrx] using hradius)]
      rfl
  · cases hn : s.strokeWidth with
    | none => simp [hn] at hwidth
    | some n =>
      rw [writePixels_of_long (by simpa [hn] using hwidth)]
      rfl

theorem not_mem_decimal {n : Int} {d : Char} (hd : d.isDigit = false) (hdash : d ≠ '-') :
    d ∉ Integer.decimal n := by
  have hrow : d ∉ Nat.toDigits 10 n.natAbs := by
    intro hmem
    rw [Nat.isDigit_of_mem_toDigits (by decide) (by decide) hmem] at hd
    cases hd
  unfold Integer.decimal
  split
  · rw [List.mem_cons, not_or]
    exact ⟨hdash, hrow⟩
  · exact hrow

theorem value_pixels (n : Int) : Value (Integer.decimal n ++ "px".toList) where
  tight := by
    obtain ⟨c, cs, hc⟩ : ∃ c cs, Integer.decimal n = c :: cs := by
      unfold Integer.decimal
      split
      · exact ⟨_, _, rfl⟩
      · exact List.exists_cons_of_ne_nil Nat.toDigits_ne_nil
    have hblank : Text.isBlank c = false := by
      rw [Bool.eq_false_iff]
      intro hblank
      refine not_mem_decimal (n := n) ?_ ?_ (hc ▸ List.mem_cons_self)
      · rw [Bool.eq_false_iff]
        intro hdigit
        have hnumber : Identifier.isChar c = true := by
          simp [Identifier.isChar, Char.isAlphanum, hdigit]
        rw [Identifier.not_isBlank_of_isChar hnumber] at hblank
        cases hblank
      · rintro rfl
        exact absurd hblank (by decide)
    refine ⟨by simp [hc], ?_,
      Text.stops_reverse_append _ (by decide) (Text.forall_mem_of_all (by decide))⟩
    rw [hc]
    exact Text.stops_cons.2 hblank
  comma_not_mem := by
    rw [List.mem_append, not_or]
    exact ⟨not_mem_decimal (by decide) (by decide), by decide⟩
  lineFeed_not_mem := by
    rw [List.mem_append, not_or]
    exact ⟨not_mem_decimal (by decide) (by decide), by decide⟩

/-- The keys that are written. -/
def keys : List Text :=
  ["fill".toList, "stroke".toList, "stroke-width".toList, "color".toList, "rx".toList]

/-- Every pair that is written is a key with a value. -/
theorem exists_of_mem_pairs {s : Style} (h : ∀ t ∈ s.texts, Value t) {pair : Text}
    (hpair : pair ∈ s.pairs) :
    ∃ key ∈ keys, ∃ value, Value value ∧ pair = key ++ [':'] ++ value := by
  have htext : ∀ {key : Text} {value : Option Text}, (∀ t ∈ value.toList, t ∈ s.texts) →
      pair ∈ writeText key value → ∃ value, Value value ∧ pair = key ++ [':'] ++ value := by
    intro key value hmem hpair
    cases value with
    | none => cases hpair
    | some t =>
      have hvalue := h t (hmem t (by simp))
      obtain ⟨c, cs, rfl⟩ := List.exists_cons_of_ne_nil hvalue.tight.ne_nil
      exact ⟨c :: cs, hvalue, List.mem_singleton.1 hpair⟩
  have hpixels : ∀ {key : Text} {number : Option Int}, pair ∈ pixels key number →
      ∃ value, Value value ∧ pair = key ++ [':'] ++ value := by
    intro key number hpair
    cases number with
    | none => cases hpair
    | some n => exact ⟨_, value_pixels n, by rw [List.mem_singleton.1 hpair, List.append_assoc]⟩
  simp only [pairs, List.mem_append] at hpair
  rcases hpair with (((hpair | hpair) | hpair) | hpair) | hpair
  · exact ⟨_, by decide, htext (fun t ht => by simp [texts, ht]) hpair⟩
  · exact ⟨_, by decide, htext (fun t ht => by simp [texts, ht]) hpair⟩
  · exact ⟨_, by decide, hpixels hpair⟩
  · exact ⟨_, by decide, htext (fun t ht => by simp [texts, ht]) hpair⟩
  · exact ⟨_, by decide, hpixels hpair⟩

/-- Neither a comma nor a line feed is written in a pair, and no blank before it. -/
theorem not_mem_of_mem_pairs {s : Style} (h : ∀ t ∈ s.texts, Value t) {pair : Text}
    (hpair : pair ∈ s.pairs) :
    ',' ∉ pair ∧ '\n' ∉ pair ∧ pair ≠ [] ∧ Text.Stops Text.isBlank pair := by
  obtain ⟨key, hkey, value, hvalue, rfl⟩ := exists_of_mem_pairs h hpair
  have hkeys : keys.all (fun key => !key.contains ',' && !key.contains '\n' &&
      !key.head?.all Text.isBlank) = true := by
    decide
  have hclean := List.all_eq_true.1 hkeys key hkey
  simp only [Bool.and_eq_true, Bool.not_eq_true', List.contains_eq_mem,
    decide_eq_false_iff_not] at hclean
  obtain ⟨⟨hcomma, hline⟩, hhead⟩ := hclean
  obtain ⟨c, cs, rfl⟩ : ∃ c cs, key = c :: cs := by
    cases key with
    | nil => cases hhead
    | cons c cs => exact ⟨c, cs, rfl⟩
  simp only [List.mem_append, not_or]
  exact ⟨⟨⟨hcomma, by decide⟩, hvalue.comma_not_mem⟩,
    ⟨⟨hline, by decide⟩, hvalue.lineFeed_not_mem⟩, by simp,
    Text.stops_cons.2 (by simpa using hhead)⟩

theorem readPair_append {key value : Text} (hkey : Text.Tight key) (hcolon : ':' ∉ key)
    (hvalue : Text.Tight value) : readPair (key ++ [':'] ++ value) = (key, value) := by
  rw [readPair, Text.cut?_of_not_mem value hcolon]
  simp only [Text.trim_of_stops hkey.front hkey.back, Text.trim_of_stops hvalue.front hvalue.back]

theorem addPair_append {key value : Text} (hkey : Text.Tight key) (hcolon : ':' ∉ key)
    (hvalue : Text.Tight value) (s : Style) :
    s.addPair (key ++ [':'] ++ value) = s.set key value := by
  simp only [addPair, readPair_append hkey hcolon hvalue]
  rw [if_neg]
  simp [hkey.ne_nil, hvalue.ne_nil]

section Pairs

variable {key : Text} {s found : Style}

theorem foldlM_writeText {value : Option Text} (hkey : Text.Tight key) (hcolon : ':' ∉ key)
    (hvalue : ∀ t ∈ value.toList, Value t) (hset : ∀ t, value = some t → s.set key t = .ok found)
    (hnone : value = none → s = found) : (writeText key value).foldlM addPair s = .ok found := by
  cases value with
  | none =>
    rw [hnone rfl]
    rfl
  | some t =>
    have htight := (hvalue t (by simp)).tight
    obtain ⟨c, cs, rfl⟩ := List.exists_cons_of_ne_nil htight.ne_nil
    rw [writeText, List.foldlM_cons, addPair_append hkey hcolon htight, hset _ rfl]
    rfl

/-- What is read of a width or a radius that is written. -/
def readBack (fallback n : Int) : Except Integer.TooLong Int :=
  readPixels fallback (Integer.decimal n ++ "px".toList)

theorem readBack_eq (fallback n : Int) :
    readBack fallback n = (Integer.leading (Integer.decimal n ++ "px".toList)).map fun
      | some n => if n = 0 then fallback else n
      | none => fallback := rfl

/-- A width or a radius is read back as it is written, unless it is zero. -/
theorem readBack_of_short {n : Int} (h : Integer.Short n) (fallback : Int) :
    readBack fallback n = .ok (if n = 0 then fallback else n) := by
  have hstops : Text.Stops Text.isDigit "px".toList := Text.stops_cons.2 (by decide)
  rw [readBack_eq, Integer.leading_decimal h hstops]
  rfl

theorem foldlM_pixels {fallback : Int} (put : Option Int → Style) (hkey : Text.Tight key)
    (hcolon : ':' ∉ key)
    (hset : ∀ value, (put none).set key value = (readPixels fallback value).map fun n =>
    put (some n))
    (number : Option Int) :
    (pixels key number).foldlM addPair (put none) = (number.mapM (readBack fallback)).map put := by
  cases number with
  | none => rfl
  | some n =>
    rw [pixels, List.append_assoc, List.foldlM_cons,
      addPair_append hkey hcolon (value_pixels n).tight, hset, Option.mapM_some, ← readBack]
    cases readBack fallback n <;> rfl

end Pairs

/-- A style with what is read back of its width and its radius. -/
def reread (s : Style) : Except Integer.TooLong Style :=
  (s.strokeWidth.mapM (readBack defaultWidth)).bind fun width =>
    (s.rx.mapM (readBack defaultRadius)).map fun rx => { s with strokeWidth := width, rx := rx }

/-- The pairs of a style, added one by one, build it up. -/
theorem foldlM_pairs {s : Style} (h : ∀ t ∈ s.texts, Value t) :
    s.pairs.foldlM addPair empty = s.reread := by
  obtain ⟨fill, stroke, width, color, rx⟩ := s
  simp only [texts, List.forall_mem_append] at h
  obtain ⟨⟨hfill, hstroke⟩, hcolor⟩ := h
  have first : (writeText "fill".toList fill).foldlM addPair empty = .ok { fill := fill } :=
    foldlM_writeText (Text.tight_of_all (by decide) (by decide)) (by decide) hfill
      (by rintro t rfl; rfl) (by rintro rfl; rfl)
  have second : (writeText "stroke".toList stroke).foldlM addPair { fill := fill } =
      .ok { fill := fill, stroke := stroke } :=
    foldlM_writeText (Text.tight_of_all (by decide) (by decide)) (by decide) hstroke
      (by rintro t rfl; rfl) (by rintro rfl; rfl)
  have third : (pixels "stroke-width".toList width).foldlM addPair
      { fill := fill, stroke := stroke } =
      (width.mapM (readBack defaultWidth)).map fun w =>
        { fill := fill, stroke := stroke, strokeWidth := w } :=
    foldlM_pixels (fun w => { fill := fill, stroke := stroke, strokeWidth := w })
      (Text.tight_of_all (by decide) (by decide)) (by decide) (fun _ => rfl) width
  have fourth (w : Option Int) : (writeText "color".toList color).foldlM addPair
      { fill := fill, stroke := stroke, strokeWidth := w } =
      .ok { fill := fill, stroke := stroke, strokeWidth := w, color := color } :=
    foldlM_writeText (Text.tight_of_all (by decide) (by decide)) (by decide) hcolor
      (by rintro t rfl; rfl) (by rintro rfl; rfl)
  have last (w : Option Int) : (pixels "rx".toList rx).foldlM addPair
      { fill := fill, stroke := stroke, strokeWidth := w, color := color } =
      (rx.mapM (readBack defaultRadius)).map fun r =>
        { fill := fill, stroke := stroke, strokeWidth := w, color := color, rx := r } :=
    foldlM_pixels (fun r =>
      { fill := fill, stroke := stroke, strokeWidth := w, color := color, rx := r })
      (Text.tight_of_all (by decide) (by decide)) (by decide) (fun _ => rfl) rx
  simp only [pairs, List.foldlM_append, first, second, third, bind, Except.bind, reread]
  cases width.mapM (readBack defaultWidth) with
  | error _ => rfl
  | ok w => simp only [Except.map, fourth, last]

theorem read_text_eq {s : Style} (h : ∀ t ∈ s.texts, Value t) : read s.text = s.reread := by
  have hbuild := foldlM_pairs h
  rw [read, text]
  by_cases hnil : s.pairs = []
  · rw [hnil] at hbuild ⊢
    exact hbuild
  · rwa [Text.pieces_join hnil fun pair hpair => (not_mem_of_mem_pairs h hpair).1]

/-- A style with the width and the radius of a node without a style in place of zeros. -/
def withoutZeros (s : Style) : Style where
  fill := s.fill
  stroke := s.stroke
  strokeWidth := s.strokeWidth.map fun n => if n = 0 then defaultWidth else n
  color := s.color
  rx := s.rx.map fun n => if n = 0 then defaultRadius else n

theorem withoutZeros_eq_self_iff {s : Style} : s.withoutZeros = s ↔ ∀ n ∈ s.numbers, n ≠ 0 := by
  have hkept : ∀ fallback : Int, fallback ≠ 0 → ∀ number : Option Int,
      (number.map fun n => if n = 0 then fallback else n) = number ↔
        ∀ n ∈ number.toList, n ≠ 0 := by
    intro fallback hfallback number
    cases number with
    | none => simp
    | some n => by_cases hn : n = 0 <;> simp [hn, hfallback]
  obtain ⟨fill, stroke, width, color, rx⟩ := s
  simp only [withoutZeros, numbers, mk.injEq, true_and, List.forall_mem_append,
    hkept defaultWidth (by decide) width, hkept defaultRadius (by decide) rx]

theorem reread_of_short {s : Style} (h : ∀ n ∈ s.numbers, Integer.Short n) :
    s.reread = .ok s.withoutZeros := by
  have hnumber : ∀ fallback : Int, ∀ number : Option Int, (∀ n ∈ number.toList, Integer.Short n) →
      number.mapM (readBack fallback) =
        .ok (number.map fun n => if n = 0 then fallback else n) := by
    intro fallback number hshort
    cases number with
    | none => rfl
    | some n =>
      rw [Option.mapM_some, readBack_of_short (hshort n (by simp))]
      rfl
  obtain ⟨hwidth, hrx⟩ := List.forall_mem_append.1 h
  rw [reread, hnumber _ _ hwidth, hnumber _ _ hrx]
  rfl

/-- A writable style is read back as it is written. -/
theorem read_text {s : Style} (h : s.Writable) : read s.text = .ok s := by
  rw [read_text_eq h.value, reread_of_short fun n hn => (h.short n hn).2,
    withoutZeros_eq_self_iff.2 fun n hn => (h.short n hn).1]

theorem pairs_ne_nil {s : Style} (h : ∀ t ∈ s.texts, Value t) (hne : s ≠ empty) : s.pairs ≠ [] := by
  have htext : ∀ {key : Text} {value : Option Text}, (∀ t ∈ value.toList, t ∈ s.texts) →
      writeText key value = [] → value = none := by
    intro key value hmem hnil
    cases value with
    | none => rfl
    | some t =>
      obtain ⟨c, cs, rfl⟩ := List.exists_cons_of_ne_nil (h t (hmem t (by simp))).tight.ne_nil
      cases hnil
  have hpixels : ∀ {key : Text} {number : Option Int}, pixels key number = [] → number = none := by
    intro key number hnil
    cases number with
    | none => rfl
    | some n => cases hnil
  intro hnil
  simp only [pairs, List.append_eq_nil_iff] at hnil
  obtain ⟨⟨⟨⟨hfill, hstroke⟩, hwidth⟩, hcolor⟩, hrx⟩ := hnil
  have hfill := htext (fun t ht => by simp [texts, ht]) hfill
  have hstroke := htext (fun t ht => by simp [texts, ht]) hstroke
  have hcolor := htext (fun t ht => by simp [texts, ht]) hcolor
  obtain ⟨fill, stroke, width, color, rx⟩ := s
  obtain rfl : fill = none := hfill
  obtain rfl : stroke = none := hstroke
  obtain rfl : width = none := hpixels hwidth
  obtain rfl : color = none := hcolor
  obtain rfl : rx = none := hpixels hrx
  exact hne rfl

theorem lineFeed_not_mem_text {s : Style} (h : ∀ t ∈ s.texts, Value t) : '\n' ∉ s.text := by
  intro hmem
  rcases Text.mem_of_mem_join hmem with hsep | ⟨pair, hpair, hmem⟩
  · exact absurd hsep (by decide)
  · exact (not_mem_of_mem_pairs h hpair).2.1 hmem

theorem stops_text {s : Style} (h : ∀ t ∈ s.texts, Value t) (hne : s ≠ empty) :
    s.text ≠ [] ∧ Text.Stops Text.isBlank s.text := by
  obtain ⟨pair, rest, hpairs⟩ := List.exists_cons_of_ne_nil (pairs_ne_nil h hne)
  obtain ⟨-, -, hfull, hstops⟩ := not_mem_of_mem_pairs h (hpairs ▸ List.mem_cons_self)
  obtain ⟨back, hback⟩ : ∃ back, s.text = pair ++ back := by
    rw [text, hpairs]
    cases rest with
    | nil => exact ⟨[], (List.append_nil _).symm⟩
    | cons next rest => exact ⟨_, List.append_assoc ..⟩
  exact ⟨by simp [hback, hfull], hback ▸ Text.stops_append_of_ne_nil hfull hstops back⟩

end Style

namespace StyleLine

/-! ## Style lines -/

/-- A line with the word `style` and a blank behind it is a directive. -/
theorem isDirective_of_afterWord? {line : Line} {indent rest : Text}
    (h : afterWord? line = some (indent, rest)) (hblanks : Text.blanks rest ≠ []) :
    Line.isDirective line = true := by
  obtain ⟨rest', hafter, heq⟩ := Option.map_eq_some_iff.1 h
  cases heq
  exact Line.isDirective_of_keyword (by decide) (by decide)
    (Text.after?_eq_some_iff.1 hafter) hblanks

theorem isDirective_of_isFor {id : Text} {line : Line} (h : isFor id line = true) :
    Line.isDirective line = true := by
  obtain ⟨found, hfound⟩ := Option.isSome_iff_exists.1 h
  simp only [indentFor?, Option.bind_eq_bind, Option.bind_eq_some_iff, Prod.exists,
    Option.ite_none_right_eq_some]
    at hfound
  obtain ⟨indent, rest, hword, hany, -⟩ := hfound
  -- the word is followed by a blank, so it is the first word of the line
  obtain ⟨k, hk, -⟩ := List.any_eq_true.1 hany
  refine isDirective_of_afterWord? hword fun hnil => ?_
  rw [hnil] at hk
  cases hk

theorem parts?_eq_some_iff {line : Line} {id pairs : Text} : parts? line = some (id, pairs) ↔
    ∃ indent rest after, afterWord? line = some (indent, rest) ∧ Text.blanks rest ≠ [] ∧
      Identifier.read? (Text.trimLeft rest) = some (id, after) ∧ pairs? after = some pairs := by
  simp only [parts?, Option.bind_eq_bind, Option.bind_eq_some_iff, Prod.exists]
  constructor
  · rintro ⟨indent, rest, hword, h⟩
    split at h
    · cases h
    · next hblanks =>
      simp only [Option.bind_eq_some_iff, Prod.exists] at h
      obtain ⟨_, after, hread, _, hpairs, heq⟩ := h
      cases heq
      exact ⟨indent, rest, after, hword, by simpa using hblanks, hread, hpairs⟩
  · rintro ⟨indent, rest, after, hword, hblanks, hread, hpairs⟩
    refine ⟨indent, rest, hword, ?_⟩
    simp [hblanks, hread, hpairs]

theorem read_of_not_isDirective {line : Line} (h : Line.isDirective line = false) :
    read line = .ok none := by
  have hparts : parts? line = none := by
    refine Option.eq_none_iff_forall_ne_some.2 fun (id, pairs) hfound => ?_
    obtain ⟨indent, rest, -, hword, hblanks, -⟩ := parts?_eq_some_iff.1 hfound
    rw [isDirective_of_afterWord? hword hblanks] at h
    cases h
  rw [read, hparts]

/-- A line sets the style of a node if the name that is read on it is the node's. -/
theorem isFor_iff_of_parts? {id name pairs : Text} {line : Line} (hid : Identifier.valid id = true)
    (h : parts? line = some (name, pairs)) : isFor id line = true ↔ name = id := by
  obtain ⟨indent, rest, after, hword, hblanks, hread, hpairs⟩ := parts?_eq_some_iff.1 h
  obtain ⟨c, cs, rfl, hc⟩ : ∃ c cs, after = c :: cs ∧ Text.isBlank c = true := by
    cases after with
    | nil => cases hpairs
    | cons c cs =>
      cases hc : Text.isBlank c with
      | true => exact ⟨c, cs, rfl, hc⟩
      | false => simp [pairs?, Text.blanks, hc] at hpairs
  have hrest := Text.blanks_append_trimLeft rest
  have hgap : ∀ d ∈ Text.blanks rest, Text.isBlank d = true := fun d => Text.isBlank_of_mem_blanks
  rw [Identifier.eq_append_of_read? hread] at hrest hread
  rw [isFor, indentFor?, hword, Option.bind_eq_bind, Option.bind_some]
  dsimp only
  rw [Option.isSome_ite, List.any_eq_true]
  generalize Text.blanks rest = gap at hrest hgap hblanks ⊢
  subst hrest
  constructor
  · rintro ⟨k, hk, hfound⟩
    have hk : k + 1 ≤ gap.length := List.mem_range.1 hk
    rw [List.drop_append_of_le_length hk] at hfound
    split at hfound
    · next d ds hid' =>
      have heq := Text.after?_eq_some_iff.1 hid'
      -- the name begins behind the blanks
      cases hdrop : gap.drop (k + 1) with
      | nil =>
        rw [hdrop, List.nil_append] at heq
        have hstops : Text.Stops Identifier.isChar (d :: ds) :=
          Text.stops_cons.2 (Identifier.not_isChar_of_isBlank hfound)
        have hread' := Identifier.read?_append hid hstops
        rw [← heq, hread] at hread'
        exact (Prod.mk.inj (Option.some.inj hread')).1
      | cons g gs =>
        have hg := hgap g (List.mem_of_mem_drop (hdrop ▸ List.mem_cons_self))
        have hstops := Identifier.stops_isBlank_append hid (d :: ds)
        rw [← heq, hdrop, List.cons_append, Text.stops_cons, hg] at hstops
        cases hstops
    · cases hfound
  · rintro rfl
    obtain ⟨n, hn⟩ : ∃ n, gap.length = n + 1 :=
      Nat.exists_eq_succ_of_ne_zero fun hzero => hblanks (List.length_eq_zero_iff.1 hzero)
    refine ⟨n, List.mem_range.2 (by omega), ?_⟩
    rw [← hn, List.drop_left, Text.after?_append]
    exact hc

section Written

variable {indent id pairs : Text}

theorem afterWord?_append (hindent : ∀ c ∈ indent, Text.isBlank c = true) (rest : Text) :
    afterWord? (indent ++ ("style".toList ++ rest)) = some (indent, rest) := by
  have hstops : Text.Stops Text.isBlank ("style".toList ++ rest) := Text.stops_cons.2 (by decide)
  rw [afterWord?, Text.trimLeft_append hindent hstops, Text.blanks_append hindent hstops,
    Text.after?_append]
  rfl

theorem pairs?_append (hline : '\n' ∉ pairs) (hne : pairs ≠ [])
    (hstops : Text.Stops Text.isBlank pairs) : pairs? ([' '] ++ pairs) = some pairs := by
  have hfeed : ∀ c ∈ pairs, (c != '\n') = true := by
    intro c hc
    rw [bne_iff_ne]
    rintro rfl
    exact hline hc
  have htake : pairs.takeWhile (· != '\n') = pairs := by
    simpa using Text.takeWhile_append hfeed (Text.stops_nil _)
  have hdrop : pairs.dropWhile (· != '\n') = [] := by
    simpa using Text.dropWhile_append hfeed (Text.stops_nil _)
  have hfull : pairs.isEmpty = false := List.isEmpty_eq_false_iff.2 hne
  rw [pairs?, Text.trimLeft_append Text.isBlank_of_mem_space hstops,
    Text.blanks_append Text.isBlank_of_mem_space hstops, hdrop, htake, hfull]
  rfl

theorem parts?_append (hindent : ∀ c ∈ indent, Text.isBlank c = true)
    (hid : Identifier.valid id = true) (hline : '\n' ∉ pairs) (hne : pairs ≠ [])
    (hstops : Text.Stops Text.isBlank pairs) :
    parts? (indent ++ ("style".toList ++ ([' '] ++ (id ++ ([' '] ++ pairs))))) =
      some (id, pairs) := by
  have hstop := Identifier.stops_isBlank_append hid ([' '] ++ pairs)
  have hread : Identifier.read? (id ++ ([' '] ++ pairs)) = some (id, [' '] ++ pairs) :=
    Identifier.read?_append hid (Text.stops_cons.2 (by decide))
  simp only [parts?, afterWord?_append hindent, Option.bind_eq_bind, Option.bind_some,
    Text.blanks_append Text.isBlank_of_mem_space hstop,
    Text.trimLeft_append Text.isBlank_of_mem_space hstop, hread, pairs?_append hline hne hstops]
  rfl

/-- The line of a style, however many digits its integers have. -/
def text (indent id : Text) (s : Style) : Line := ofPairs indent id s.text

theorem write_of_brief (indent id : Text) {s : Style} (h : s.Brief) :
    write indent id s = .ok (text indent id s) := by
  rw [write, Style.write_of_brief h]
  rfl

theorem write_of_not_brief (indent id : Text) {s : Style} (h : ¬ s.Brief) :
    write indent id s = .error .writing := by
  rw [write, Style.write_of_not_brief h]
  rfl

theorem text_eq (indent id : Text) (s : Style) :
    text indent id s = indent ++ ("style".toList ++ ([' '] ++ (id ++ ([' '] ++ s.text)))) := by
  simp [text, ofPairs]

theorem isDirective_text (hindent : ∀ c ∈ indent, Text.isBlank c = true) (id : Text) (s : Style) :
    Line.isDirective (text indent id s) = true := by
  rw [text_eq]
  refine isDirective_of_afterWord? (afterWord?_append hindent _) ?_
  rw [Text.blanks, List.singleton_append, List.takeWhile_cons_of_pos (by decide)]
  exact List.cons_ne_nil _ _

theorem read_text_eq {s : Style} (hindent : ∀ c ∈ indent, Text.isBlank c = true)
    (hid : Identifier.valid id = true) (h : ∀ t ∈ s.texts, Style.Value t) (hne : s ≠ .empty) :
    read (text indent id s) = s.reread.map fun found => some ⟨id, found⟩ := by
  obtain ⟨hfull, hstops⟩ := Style.stops_text h hne
  rw [read, text_eq, parts?_append hindent hid (Style.lineFeed_not_mem_text h) hfull hstops]
  simp only [Style.read_text_eq h]

/-- A style that sets something is read back off its line. -/
theorem read_text {s : Style} (hindent : ∀ c ∈ indent, Text.isBlank c = true)
    (hid : Identifier.valid id = true) (h : s.Writable) (hne : s ≠ .empty) :
    read (text indent id s) = .ok (some ⟨id, s⟩) := by
  rw [read_text_eq hindent hid h.value hne, ← Style.read_text_eq h.value, Style.read_text h]
  rfl

end Written

theorem lineFeed_not_mem_of_pairs? {t pairs : Text} (h : pairs? t = some pairs) : '\n' ∉ pairs := by
  simp only [pairs?] at h
  split at h
  · cases h
  split at h
  · split at h <;> cases h
    exact List.not_mem_nil
  · split at h <;> cases h
    intro hmem
    have hstops := List.all_eq_true.1 List.all_takeWhile _ hmem
    simp at hstops

/-- What a line sets can be written. -/
theorem writable_of_read {line : Line} {found : StyleLine} (h : read line = .ok (some found)) :
    found.style.Writable := by
  unfold read at h
  split at h
  · cases h
  · next id pairs hparts =>
    obtain ⟨s, hs, heq⟩ := Except.exists_of_map_eq_ok h
    cases heq
    obtain ⟨-, -, after, -, -, -, hpairs⟩ := parts?_eq_some_iff.1 hparts
    exact Style.writable_of_read (lineFeed_not_mem_of_pairs? hpairs) hs

end StyleLine
end Chartwright
