import Chartwright.Text.Span
/-!
Scanning texts that are put together.

A scan of `x ++ y` is the scan of `x` followed by the scan of `y`, if nothing that is found in `x`
looks beyond it, and the finds in `y` are moved by the length of `x`. The same holds of hiding
spans. So what a scanner makes of a line can be told part by part.
-/
namespace Chartwright

namespace Span

/-- A span moved to the right. -/
def shift (k : Nat) (s : Span) : Span := ⟨s.start + k, s.stop + k⟩

/-- What of a span lies behind the first `k` places, counted from there. -/
def back (k : Nat) (s : Span) : Span := ⟨s.start - k, s.stop - k⟩

@[simp] theorem back_shift (k : Nat) (s : Span) : (s.shift k).back k = s := by simp [shift, back]

@[simp] theorem shift_zero (s : Span) : s.shift 0 = s := rfl

theorem shift_shift (j k : Nat) (s : Span) : (s.shift j).shift k = s.shift (j + k) := by
  simp [shift, Nat.add_assoc]

theorem map_shift_shift (j k : Nat) (spans : List Span) :
    (spans.map (shift j)).map (shift k) = spans.map (shift (k + j)) := by
  rw [List.map_map]
  apply List.map_congr_left
  intro s _
  rw [Function.comp_apply, shift_shift, Nat.add_comm]

theorem contains_back (k i : Nat) (s : Span) : (s.back k).contains i = s.contains (i + k) := by
  have hstart : (s.back k).start ≤ i ↔ s.start ≤ i + k := by
    show s.start - k ≤ i ↔ s.start ≤ i + k
    omega
  have hstop : i < (s.back k).stop ↔ i + k < s.stop := by
    show i < s.stop - k ↔ i + k < s.stop
    omega
  simp only [contains, hstart, hstop]

theorem contains_shift_of_lt {k i : Nat} (s : Span) (h : i < k) :
    (s.shift k).contains i = false := by
  have hstart : ¬ s.start + k ≤ i := by omega
  simp [contains, shift, hstart]

theorem contains_of_stop_le {i : Nat} {s : Span} (h : s.stop ≤ i) : s.contains i = false := by
  have hstop : ¬ i < s.stop := by omega
  simp [contains, hstop]

theorem cut_shift (s : Span) (x y : Text) : (s.shift x.length).cut (x ++ y) = s.cut y := by
  simp only [cut, shift]
  rw [Nat.add_comm s.stop, List.take_length_add_append, Nat.add_comm s.start,
    List.drop_length_add_append]

theorem cut_append (x y z : Text) :
    (⟨x.length, x.length + y.length⟩ : Span).cut (x ++ (y ++ z)) = y := by
  have hshift : (⟨x.length, x.length + y.length⟩ : Span) = shift x.length ⟨0, y.length⟩ := by
    simp [shift, Nat.add_comm]
  rw [hshift, cut_shift, cut, List.take_left, List.drop_zero]

end Span

namespace Text

/-- The character before a place, once the text `x` lies between the two. -/
def endOf (before : Option Char) : Text → Option Char
  | [] => before
  | c :: cs => endOf (some c) cs

theorem endOf_append (before : Option Char) (x y : Text) :
    endOf before (x ++ y) = endOf (endOf before x) y := by
  induction x generalizing before with
  | nil => rfl
  | cons c cs ih => exact ih (some c)

theorem endOf_of_ne_nil (before : Option Char) {x : Text} (h : x ≠ []) :
    ∃ c ∈ x, endOf before x = some c := by
  induction x generalizing before with
  | nil => exact absurd rfl h
  | cons c cs ih =>
    cases cs with
    | nil => exact ⟨c, List.mem_cons_self, rfl⟩
    | cons d ds =>
      obtain ⟨l, hl, hend⟩ := ih (some c) (by simp)
      exact ⟨l, List.mem_cons_of_mem _ hl, hend⟩

/-! ## Hiding -/

section Hide

variable {filler : Char} {spans : List Span} {x y : Text}

theorem hide_append (filler : Char) (spans : List Span) (x y : Text) :
    hide filler spans (x ++ y) =
      hide filler spans x ++ hide filler (spans.map (Span.back x.length)) y := by
  apply List.ext_getElem?
  intro i
  rw [getElem?_hide]
  by_cases hi : i < x.length
  · rw [List.getElem?_append_left hi, List.getElem?_append_left (by simpa using hi), getElem?_hide]
  · have hle : x.length ≤ i := Nat.le_of_not_lt hi
    rw [List.getElem?_append_right hle, List.getElem?_append_right (by simpa using hle),
      getElem?_hide, length_hide]
    congr 1
    funext c
    have hback : ∀ s : Span, (s.back x.length).contains (i - x.length) = s.contains i := by
      intro s
      rw [Span.contains_back, Nat.sub_add_cancel hle]
    simp [List.any_map, Function.comp_def, hback]

theorem hide_congr {others : List Span}
    (h : ∀ i < x.length, spans.any (·.contains i) = others.any (·.contains i)) :
    hide filler spans x = hide filler others x := by
  apply List.ext_getElem?
  intro i
  rw [getElem?_hide, getElem?_hide]
  by_cases hi : i < x.length
  · rw [h i hi]
  · rw [List.getElem?_eq_none (Nat.le_of_not_lt hi)]
    rfl

theorem hide_of_le (h : ∀ s ∈ spans, x.length ≤ s.start) : hide filler spans x = x := by
  refine (hide_congr fun i hi => ?_).trans (hide_nil filler x)
  rw [List.any_nil, List.any_eq_false]
  intro s hs
  have := h s hs
  simp [Span.contains]
  omega

/-- A span around a text hides all of it. -/
theorem hide_of_mem {s : Span} (hs : s ∈ spans) (hstart : s.start = 0) (hstop : x.length ≤ s.stop) :
    hide filler spans x = List.replicate x.length filler := by
  apply List.ext_getElem?
  intro i
  rw [getElem?_hide]
  by_cases hi : i < x.length
  · have hany : spans.any (·.contains i) = true := by
      rw [List.any_eq_true]
      refine ⟨s, hs, ?_⟩
      simp [Span.contains]
      omega
    simp [hany, hi]
  · rw [List.getElem?_eq_none (Nat.le_of_not_lt hi), List.getElem?_eq_none (by simpa using hi)]
    rfl

/-- Spans in a text and spans behind it hide what they hide of either part. -/
theorem hide_parts {spans others : List Span} (h : ∀ s ∈ spans, s.stop ≤ x.length) :
    hide filler (spans ++ others.map (Span.shift x.length)) (x ++ y) =
      hide filler spans x ++ hide filler others y := by
  rw [hide_append]
  congr 1
  -- over `x` the later spans are out of reach, over `y` the earlier ones
  · apply hide_congr
    intro i hi
    have hbehind : (others.map (Span.shift x.length)).any (·.contains i) = false := by
      rw [List.any_eq_false]
      intro s hs
      obtain ⟨s, -, rfl⟩ := List.mem_map.1 hs
      rw [Span.contains_shift_of_lt s hi]
      simp
    rw [List.any_append, hbehind, Bool.or_false]
  · apply hide_congr
    intro i _
    have hbefore : (spans.any fun s => s.contains (i + x.length)) = false := by
      rw [List.any_eq_false]
      intro s hs
      have := h s hs
      rw [Span.contains_of_stop_le (by omega)]
      simp
    simp [List.any_append, List.any_map, Function.comp_def, Span.contains_back, hbefore]

/-- A span around the end of a text, and others in it. -/
theorem hide_box {s : Span} {others : List Span} (hs : s = ⟨x.length, x.length + y.length⟩)
    (h : ∀ s ∈ others, x.length ≤ s.start) :
    hide filler ([s] ++ others) (x ++ y) = x ++ List.replicate y.length filler := by
  subst hs
  rw [hide_append, hide_of_le]
  · congr 1
    refine hide_of_mem (s := Span.back x.length ⟨x.length, x.length + y.length⟩) ?_ ?_ ?_
    · exact List.mem_map_of_mem (List.mem_append_left _ List.mem_cons_self)
    · exact Nat.sub_self _
    · show y.length ≤ x.length + y.length - x.length
      omega
  · intro s hs
    rcases List.mem_append.1 hs with hs | hs
    · obtain rfl := List.mem_singleton.1 hs
      exact Nat.le_refl _
    · exact h s hs

theorem hide_cons (filler : Char) (spans : List Span) (c : Char) (t : Text) :
    ∃ d, (d = c ∨ d = filler) ∧ hide filler spans
      (c :: t) = d :: hide filler (spans.map (Span.back 1)) t := by
  refine ⟨if spans.any (·.contains 0) then filler else c, ?_, hide_append filler spans [c] t⟩
  split
  · exact .inr rfl
  · exact .inl rfl

/-- A word without the filler stands only where it stood before. -/
theorem after?_of_hide {word r z : Text} (hword : filler ∉ word)
    (h : after? word (hide filler spans x ++ z) = some r) :
    ∃ r', after? word (x ++ z) = some r' := by
  induction word generalizing x spans with
  | nil => exact ⟨_, rfl⟩
  | cons w ws ih =>
    cases x with
    | nil => exact ⟨r, h⟩
    | cons c cs =>
      obtain ⟨d, hd, hhide⟩ := hide_cons filler spans c cs
      rw [hhide, List.cons_append, after?, Option.ite_none_right_eq_some] at h
      obtain ⟨rfl, h⟩ := h
      have hne : w ≠ filler := fun e => hword (e ▸ List.mem_cons_self)
      have hc : w = c := hd.resolve_right hne
      obtain ⟨r', hr'⟩ := ih (fun hmem => hword (List.mem_cons_of_mem _ hmem)) h
      exact ⟨r', by simp [after?, hc, ← hr']⟩

/-- What a word cuts off is not shortened by hiding some of it. -/
theorem cut?_hide {word : Text} (hword : filler ∉ word) (h : cut? word (x ++ word) = some (x, [])) :
    cut? word (hide filler spans x ++ word) = some (hide filler spans x, []) := by
  induction x generalizing spans with
  | nil => exact h
  | cons c cs ih =>
    rw [List.cons_append, cut?] at h
    cases hc : after? word (c :: (cs ++ word)) with
    | some found =>
      rw [hc] at h
      simp at h
    | none =>
      rw [hc] at h
      obtain ⟨⟨front, rest⟩, hfound, heq⟩ := Option.map_eq_some_iff.1 h
      simp only [Prod.mk.injEq, List.cons.injEq, true_and] at heq
      obtain ⟨rfl, rfl⟩ := heq
      -- hiding makes no place for the word where there was none
      have hlater : after? word (hide filler spans (c :: front) ++ word) = none := by
        rw [Option.eq_none_iff_forall_ne_some]
        intro r hr
        obtain ⟨r', hr'⟩ := after?_of_hide hword hr
        rw [List.cons_append, hc] at hr'
        cases hr'
      obtain ⟨d, -, hhide⟩ := hide_cons filler spans c front
      rw [hhide, List.cons_append] at hlater
      rw [hhide, List.cons_append, cut?, hlater]
      simp [ih hfound]

theorem mem_hide {c : Char} (h : c ∈ hide filler spans x) : c = filler ∨ c ∈ x := by
  obtain ⟨i, hi⟩ := List.mem_iff_getElem?.1 h
  rw [getElem?_hide, Option.map_eq_some_iff] at hi
  obtain ⟨d, hd, rfl⟩ := hi
  split
  · exact .inl rfl
  · exact .inr (List.mem_of_getElem? hd)

end Hide

/-! ## Occurrences -/

section Occurrences

variable {α : Type} {read : Option Char → Text → Option (α × Nat)} {before : Option Char}
  {x y : Text}

/-- What is found in a text does not depend on where the text lies. -/
theorem occurrencesFrom_offset (read : Option Char → Text → Option (α × Nat)) (before : Option Char)
    (skip offset : Nat) (t : Text) :
    occurrencesFrom read before skip offset t =
      (occurrencesFrom read before skip 0 t).map fun found => (found.1 + offset, found.2) := by
  induction t generalizing before skip offset with
  | nil => rfl
  | cons c cs ih =>
    have hmove : ∀ skip, occurrencesFrom read (some c) skip (offset + 1) cs =
        (occurrencesFrom read (some c) skip (0 + 1) cs).map fun found =>
          (found.1 + offset, found.2) := by
      intro skip
      rw [ih (some c) skip (offset + 1), ih (some c) skip (0 + 1), List.map_map]
      apply List.map_congr_left
      intro found _
      simp
      omega
    cases skip with
    | succ k => simpa only [occurrencesFrom] using hmove k
    | zero =>
      cases hr : read before (c :: cs) with
      | none => simpa only [occurrencesFrom, hr] using hmove 0
      | some found => simp [occurrencesFrom, hr, hmove]

theorem occurrencesFrom_map {β : Type} (f : α → β) (read : Option Char → Text → Option (α × Nat))
    (before : Option Char) (skip offset : Nat) (t : Text) :
    occurrencesFrom (fun before t => (read before t).map fun found => (f found.1, found.2)) before
      skip offset t =
      (occurrencesFrom read before skip offset t).map fun found => (found.1, f found.2) := by
  induction t generalizing before skip offset with
  | nil => rfl
  | cons c cs ih =>
    cases skip with
    | succ k => exact ih ..
    | zero =>
      cases hr : read before (c :: cs) with
      | none => simpa only [occurrencesFrom, hr, Option.map_none] using ih ..
      | some found => simp [occurrencesFrom, hr, ih]

/-- The reader sees no more of a text than the part `x` of it. -/
def Within (read : Option Char → Text → Option (α × Nat)) (x y : Text) : Prop :=
  ∀ s, s <:+ x → s ≠ [] → ∀ before, read before (s ++ y) = read before s ∧
    ∀ found, read before s = some found → found.2 ≤ s.length

theorem Within.tail {c : Char} (h : Within read (c :: x) y) : Within read x y :=
  fun s hs => h s (hs.trans (List.suffix_cons c x))

/-- A scan of two texts one after the other. A find in the first text may still be passed over at
its start, but never at its end. -/
theorem occurrencesFrom_append (h : Within read x y) (before : Option Char) (skip offset : Nat)
    (hskip : skip ≤ x.length) :
    occurrencesFrom read before skip offset (x ++ y) =
      occurrencesFrom read before skip offset x ++
        occurrencesFrom read (endOf before x) 0 (offset + x.length) y := by
  induction x generalizing before skip offset with
  | nil =>
    obtain rfl : skip = 0 := by simpa using hskip
    rfl
  | cons c cs ih =>
    have hlength : offset + (c :: cs).length = offset + 1 + cs.length := by
      simp
      omega
    rw [hlength]
    cases skip with
    | succ k =>
      have hk : k ≤ cs.length := by simpa using hskip
      simp only [List.cons_append, occurrencesFrom]
      exact ih h.tail (some c) k (offset + 1) hk
    | zero =>
      obtain ⟨hread, hwidth⟩ := h (c :: cs) List.suffix_rfl (by simp) before
      rw [List.cons_append] at hread
      rw [List.cons_append, occurrencesFrom, occurrencesFrom, hread]
      cases hr : read before (c :: cs) with
      | none => exact ih h.tail (some c) 0 (offset + 1) (Nat.zero_le _)
      | some found =>
        -- the find ends inside of `x`, so what is left to skip is no longer than the tail
        have hw : found.2 - 1 ≤ cs.length := by
          have := hwidth found hr
          simp at this
          omega
        simp only [List.cons_append]
        rw [ih h.tail (some c) (found.2 - 1) (offset + 1) hw]
        rfl

theorem occurrencesFrom_skip (before : Option Char) (offset : Nat) (x y : Text) :
    occurrencesFrom read before x.length offset (x ++ y) =
      occurrencesFrom read (endOf before x) 0 (offset + x.length) y := by
  induction x generalizing before offset with
  | nil => rfl
  | cons c cs ih =>
    simp only [List.cons_append, List.length_cons, occurrencesFrom, ih]
    rw [Nat.add_assoc, Nat.add_comm 1]
    rfl

/-- A find that takes up all of `x`. -/
theorem occurrencesFrom_cons {a : α} (hx : x ≠ []) (h : read before (x ++ y) = some (a, x.length))
    (offset : Nat) :
    occurrencesFrom read before 0 offset (x ++ y) =
      (offset, a) :: occurrencesFrom read (endOf before x) 0 (offset + x.length) y := by
  cases x with
  | nil => exact absurd rfl hx
  | cons c cs =>
    rw [List.cons_append] at h
    rw [List.cons_append, occurrencesFrom, h]
    have hlength : (c :: cs).length - 1 = cs.length := by simp
    simp only [hlength, occurrencesFrom_skip]
    congr 2
    simp
    omega

/-- Nothing is found at any place in `x`. -/
theorem occurrencesFrom_of_none (h : ∀ s, s <:+ x → s ≠ [] → ∀ before, read before (s ++ y) = none)
    (before : Option Char) (offset : Nat) :
    occurrencesFrom read before 0 offset (x ++ y) =
      occurrencesFrom read (endOf before x) 0 (offset + x.length) y := by
  induction x generalizing before offset with
  | nil => rfl
  | cons c cs ih =>
    have hnone := h (c :: cs) List.suffix_rfl (by simp) before
    rw [List.cons_append] at hnone
    rw [List.cons_append, occurrencesFrom, hnone]
    refine (ih (fun s hs => h s (hs.trans (List.suffix_cons c cs))) (some c) (offset + 1)).trans ?_
    rw [List.length_cons, Nat.add_assoc, Nat.add_comm 1]
    rfl

/-- Every find is read somewhere in the text. -/
theorem mem_occurrencesFrom {skip offset : Nat} {t : Text} {found : Nat × α}
    (h : found ∈ occurrencesFrom read before skip offset t) :
    ∃ front rest width, t = front ++ rest ∧ found.1 = offset + front.length ∧
      read (endOf before front) rest = some (found.2, width) := by
  induction t generalizing before skip offset with
  | nil => simp [occurrencesFrom] at h
  | cons c cs ih =>
    have hlater : ∀ {skip}, found ∈ occurrencesFrom read (some c) skip (offset + 1) cs →
        ∃ front rest width, c :: cs = front ++ rest ∧ found.1 = offset + front.length ∧
          read (endOf before front) rest = some (found.2, width) := by
      intro skip hmem
      obtain ⟨front, rest, width, rfl, hoffset, hr⟩ := ih hmem
      refine ⟨c :: front, rest, width, rfl, ?_, hr⟩
      simp
      omega
    cases skip with
    | succ k => exact hlater h
    | zero =>
      rw [occurrencesFrom] at h
      cases hr : read before (c :: cs) with
      | none =>
        rw [hr] at h
        exact hlater h
      | some a =>
        rw [hr] at h
        rcases List.mem_cons.1 h with rfl | h
        · exact ⟨[], c :: cs, a.2, rfl, rfl, hr⟩
        · exact hlater h

/-- What is found lies behind what is covered already. -/
theorem le_of_mem_occurrencesFrom {skip offset : Nat} {t : Text} {found : Nat × α}
    (h : found ∈ occurrencesFrom read before skip offset t) : offset + skip ≤ found.1 := by
  induction t generalizing before skip offset with
  | nil => cases h
  | cons c cs ih =>
    cases skip with
    | succ k =>
      have hlater := ih h
      omega
    | zero =>
      rw [occurrencesFrom] at h
      split at h
      · rcases List.mem_cons.1 h with rfl | h
        · exact Nat.le_refl _
        · have hlater := ih h
          omega
      · have hlater := ih h
        omega

end Occurrences

/-! ## The spans of what is found -/

section Spans

variable {read : Text → Option (Span × Nat)} {x y : Text}

/-- The spans that a reader finds in a text. It returns a span relative to the place where it
reads. -/
def spansOf (read : Text → Option (Span × Nat)) (t : Text) : List Span :=
  (occurrences (fun _ t => read t) t).map fun (offset, s) => s.shift offset

theorem spansOf_width (width : Text → Option Nat) (t : Text) :
    ((occurrences (fun _ t => (width t).map fun n => (n, n)) t).map fun (offset, n) =>
      (⟨offset, offset + n⟩ : Span)) =
      spansOf (fun t => (width t).map fun n => (⟨0, n⟩, n)) t := by
  have hread : (fun (_ : Option Char) t => (width t).map fun n => ((⟨0, n⟩ : Span), n)) =
      fun _ t => ((width t).map fun n => (n, n)).map fun found =>
        ((⟨0, found.1⟩ : Span), found.2) := by
    funext before t
    rw [Option.map_map]
    rfl
  rw [spansOf, hread, occurrences, occurrences, occurrencesFrom_map (fun n => (⟨0, n⟩ : Span)),
    List.map_map]
  apply List.map_congr_left
  intro found _
  simp [Span.shift, Nat.add_comm]

theorem occurrencesFrom_before (read : Text → Option (Span × Nat)) (before before' : Option Char)
    (skip offset : Nat) (t : Text) :
    occurrencesFrom (fun _ t => read t) before skip offset t =
      occurrencesFrom (fun _ t => read t) before' skip offset t := by
  cases t <;> rfl

theorem map_occurrencesFrom (read : Text → Option (Span × Nat)) (before : Option Char)
    (offset : Nat) (t : Text) :
    ((occurrencesFrom (fun _ t => read t) before 0 offset t).map fun (offset, s) =>
      s.shift offset) =
      (spansOf read t).map (Span.shift offset) := by
  rw [occurrencesFrom_offset, spansOf, occurrences, occurrencesFrom_before read none before,
    List.map_map, List.map_map]
  apply List.map_congr_left
  intro found _
  simp [Span.shift_shift]

@[simp] theorem spansOf_nil (read : Text → Option (Span × Nat)) : spansOf read [] = [] := rfl

theorem spansOf_append (h : Within (fun _ t => read t) x y) :
    spansOf read (x ++ y) = spansOf read x ++ (spansOf read y).map (Span.shift x.length) := by
  have hy := map_occurrencesFrom read (endOf none x) (0 + x.length) y
  rw [spansOf, occurrences, occurrencesFrom_append h none 0 0 (Nat.zero_le _), List.map_append, hy,
    Nat.zero_add]
  rfl

theorem spansOf_cons {s : Span} (hx : x ≠ []) (h : read (x ++ y) = some (s, x.length)) :
    spansOf read (x ++ y) = s :: (spansOf read y).map (Span.shift x.length) := by
  have hfinds := @occurrencesFrom_cons _ (fun _ t => read t) none x y s hx h 0
  rw [spansOf, occurrences, hfinds, List.map_cons, map_occurrencesFrom, Nat.zero_add]
  rfl

theorem spansOf_of_none (h : ∀ s, s <:+ x → s ≠ [] → read (s ++ y) = none) :
    spansOf read (x ++ y) = (spansOf read y).map (Span.shift x.length) := by
  rw [spansOf, occurrences, occurrencesFrom_of_none (fun s hs hne _ => h s hs hne),
    map_occurrencesFrom, Nat.zero_add]

theorem exists_of_mem_spansOf {s : Span} {t : Text} (hs : s ∈ spansOf read t) :
    ∃ x y found, t = x ++ y ∧ read y = some found ∧ s = found.1.shift x.length := by
  obtain ⟨⟨offset, span⟩, hfound, rfl⟩ := List.mem_map.1 hs
  obtain ⟨front, rest, width, rfl, rfl, hread⟩ := mem_occurrencesFrom hfound
  exact ⟨front, rest, (span, width), rfl, hread, by rw [Nat.zero_add]⟩

theorem stop_le_of_mem_spansOf (h : ∀ t found, read t = some found → found.1.stop ≤ t.length)
    {s : Span} {t : Text} (hs : s ∈ spansOf read t) : s.stop ≤ t.length := by
  obtain ⟨x, y, found, rfl, hread, rfl⟩ := exists_of_mem_spansOf hs
  have := h y found hread
  rw [List.length_append]
  simp only [Span.shift]
  omega

/-- Finds follow one another, if a reader finds nothing behind what it reads. -/
theorem pairwise_spansOf (h : ∀ t found, read t = some found → found.1.stop ≤ found.2) (t : Text) :
    (spansOf read t).Pairwise fun s s' => s.stop ≤ s'.start := by
  suffices hfrom : ∀ (t : Text) before skip offset,
      (occurrencesFrom (fun _ t => read t) before skip offset t).Pairwise
      fun found later => found.2.stop + found.1 ≤ later.1 by
    refine List.pairwise_map.2 ((hfrom t none 0 0).imp fun hle => ?_)
    exact Nat.le_trans hle (Nat.le_add_left _ _)
  intro t
  induction t with
  | nil => exact fun _ _ _ => .nil
  | cons c cs ih =>
    intro before skip offset
    cases skip with
    | succ k => exact ih ..
    | zero =>
      rw [occurrencesFrom]
      split
      · next span width hread =>
        refine List.pairwise_cons.2 ⟨fun later hlater => ?_, ih ..⟩
        have hstop : span.stop ≤ width := h _ _ hread
        have hle := le_of_mem_occurrencesFrom hlater
        dsimp only
        omega
      · exact ih ..

/-- Where a reader succeeds, something is found that covers the place, if the finds are all that the
reader reads. -/
theorem exists_mem_spansOf
    (h : ∀ t found, read t = some found → found.1 = ⟨0, found.2⟩ ∧ 0 < found.2) (x : Text)
    (hy : y ≠ []) (hread : (read y).isSome = true) :
    ∃ s ∈ spansOf read (x ++ y), s.contains x.length = true := by
  suffices hfrom : ∀ before skip offset, skip ≤ x.length →
      ∃ found ∈ occurrencesFrom (fun _ t => read t) before skip offset (x ++ y),
        found.2.start + found.1 ≤ offset + x.length ∧ offset + x.length < found.2.stop + found.1 by
    obtain ⟨found, hmem, hstart, hstop⟩ := hfrom none 0 0 (Nat.zero_le _)
    refine ⟨found.2.shift found.1, List.mem_map_of_mem hmem, ?_⟩
    rw [Nat.zero_add] at hstart hstop
    simp only [Span.contains, Span.shift, hstart, hstop, decide_true, Bool.and_self]
  induction x with
  | nil =>
    intro before skip offset hskip
    obtain rfl : skip = 0 := Nat.le_zero.1 hskip
    obtain ⟨found, hfound⟩ := Option.isSome_iff_exists.1 hread
    obtain ⟨hspan, hpos⟩ := h y found hfound
    cases y with
    | nil => exact absurd rfl hy
    | cons c cs =>
      refine ⟨(offset, found.1), by simp [occurrencesFrom, hfound], ?_⟩
      simp only [hspan, List.length_nil]
      omega
  | cons c cs ih =>
    intro before skip offset hskip
    rw [List.length_cons] at hskip
    have hlater : ∀ before skip, skip ≤ cs.length →
        ∃ found ∈ occurrencesFrom (fun _ t => read t) before skip (offset + 1) (cs ++ y),
          found.2.start + found.1 ≤ offset + (c :: cs).length ∧
            offset + (c :: cs).length < found.2.stop + found.1 := by
      intro before skip hskip
      obtain ⟨found, hmem, hstart, hstop⟩ := ih before skip (offset + 1) hskip
      refine ⟨found, hmem, ?_⟩
      rw [List.length_cons]
      omega
    cases skip with
    | succ k => exact hlater (some c) k (Nat.le_of_succ_le_succ hskip)
    | zero =>
      rw [List.cons_append, occurrencesFrom]
      cases hhere : read (c :: (cs ++ y)) with
      | none => exact hlater (some c) 0 (Nat.zero_le _)
      | some found =>
        obtain ⟨hspan, hpos⟩ := h _ _ hhere
        by_cases hwidth : found.2 - 1 ≤ cs.length
        · obtain ⟨later, hmem, hcovers⟩ := hlater (some c) (found.2 - 1) hwidth
          exact ⟨later, List.mem_cons_of_mem _ hmem, hcovers⟩
        · -- the place lies in what is read here
          refine ⟨(offset, found.1), List.mem_cons_self, ?_⟩
          simp only [hspan, List.length_cons]
          omega

end Spans

/-! ## The leftmost place -/

section First

variable {α : Type} {read : Option Char → Text → Option α} {before : Option Char} {t : Text}

/-- At the leftmost place the reader succeeds, and further left it does not. -/
theorem exists_of_firstFrom {n : Nat} {a : α} (h : firstFrom read before t = some (n, a)) :
    ∃ x y, t = x ++ y ∧ n = x.length ∧ read (endOf before x) y = some a ∧
      ∀ x' y', t = x' ++ y' → x'.length < n → read (endOf before x') y' = none := by
  induction t generalizing before n with
  | nil =>
    obtain ⟨found, hfound, heq⟩ := Option.map_eq_some_iff.1 h
    cases heq
    exact ⟨[], [], rfl, rfl, hfound, fun x' y' _ hlt => absurd hlt (Nat.not_lt_zero _)⟩
  | cons c cs ih =>
    rw [firstFrom] at h
    split at h
    · next found hfound =>
      cases h
      exact ⟨[], c :: cs, rfl, rfl, hfound, fun x' y' _ hlt => absurd hlt (Nat.not_lt_zero _)⟩
    · next hnone =>
      obtain ⟨⟨m, found⟩, hfound, heq⟩ := Option.map_eq_some_iff.1 h
      cases heq
      obtain ⟨x, y, rfl, rfl, hread, hleft⟩ := ih hfound
      refine ⟨c :: x, y, rfl, rfl, hread, fun x' y' ht hlt => ?_⟩
      cases x' with
      | nil =>
        obtain rfl : c :: (x ++ y) = y' := ht
        exact hnone
      | cons d ds =>
        obtain ⟨rfl, hds⟩ := List.cons.inj ht
        exact hleft ds y' hds (by simpa using hlt)

/-- If there is a place where the reader succeeds, there is a leftmost one. -/
theorem isSome_firstFrom {x y : Text} (ht : t = x ++ y)
    (h : (read (endOf before x) y).isSome = true) : (firstFrom read before t).isSome = true := by
  subst ht
  induction x generalizing before with
  | nil =>
    obtain ⟨a, ha⟩ := Option.isSome_iff_exists.1 h
    rw [endOf] at ha
    cases y with
    | nil => simp [firstFrom, ha]
    | cons c cs => simp [firstFrom, ha]
  | cons c cs ih =>
    rw [List.cons_append, firstFrom]
    split
    · rfl
    · rw [Option.isSome_map]
      exact ih h

end First

end Text
end Chartwright
