import Mathlib.Data.List.TakeWhile
import Chartwright.Proofs.Json.Canonical
import Chartwright.Proofs.Line.StyleText
import Chartwright.Wire.Entity
/-!
Styles as JSON objects.

The properties that are set come back as they were, and those that are not set stay unset
(`Style.check_setToJson`). A style that is found in a text has no integer with too many digits,
however the integer was spelled (`Style.brief_of_check`).
-/
namespace Chartwright

namespace Check

variable {α : Type} {ms : List (Text × Json)} {name : String}

theorem find?_toList {β : Type} (key : Text) (name : String) (f : β → Json) (value? : Option β) :
    Assoc.find? key ((value?.map fun v => (name, f v)).toList.map fun (n, v) => (n.toList, v)) =
      if name.toList = key then value?.map f else none := by
  cases value? with
  | none => simp [Assoc.find?]
  | some v => by_cases h : name.toList = key <;> simp [Assoc.find?, h]

theorem fieldOr_optional {check : Check α} {f : α → Json} {value? : Option α}
    (h : Assoc.find? name.toList ms = value?.map f)
    (hf : ∀ v, optional check (f v) = .sound (some v)) :
    fieldOr name none (optional check) ms = .sound value? := by
  unfold fieldOr
  rw [h]
  cases value? with
  | none => rfl
  | some v =>
    simp only [Option.map_some, hf]
    rfl

theorem fieldOr_text {value? : Option Text}
    (h : Assoc.find? name.toList ms = value?.map Json.text) :
    fieldOr name none (optional text) ms = .sound value? := fieldOr_optional h fun _ => rfl

theorem fieldOr_integer {value? : Option Int}
    (h : Assoc.find? name.toList ms = value?.map Json.int) :
    fieldOr name none (optional integer) ms = .sound value? := fieldOr_optional h fun _ => rfl

end Check

namespace Style

theorem find?_setMembers (s : Style) (key : Text) :
    Assoc.find? key (s.setMembers.map fun (n, v) => (n.toList, v)) =
      ((((if "fill".toList = key then s.fill.map Json.text else none).or
        (if "stroke".toList = key then s.stroke.map Json.text else none)).or
        (if "stroke_width".toList = key then s.strokeWidth.map Json.int else none)).or
        (if "color".toList = key then s.color.map Json.text else none)).or
        (if "rx".toList = key then s.rx.map Json.int else none) := by
  simp only [setMembers, List.map_append, Assoc.find?_append, Check.find?_toList]

theorem check_setToJson (whole : Fault) (s : Style) : check whole s.setToJson = .sound s := by
  let ms := s.setMembers.map fun (n, v) => (n.toList, v)
  have hfill : Assoc.find? "fill".toList ms = s.fill.map Json.text := by
    simpa using s.find?_setMembers "fill".toList
  have hstroke : Assoc.find? "stroke".toList ms = s.stroke.map Json.text := by
    simpa using s.find?_setMembers "stroke".toList
  have hwidth : Assoc.find? "stroke_width".toList ms = s.strokeWidth.map Json.int := by
    simpa using s.find?_setMembers "stroke_width".toList
  have hcolor : Assoc.find? "color".toList ms = s.color.map Json.text := by
    simpa using s.find?_setMembers "color".toList
  have hrx : Assoc.find? "rx".toList ms = s.rx.map Json.int := by
    simpa using s.find?_setMembers "rx".toList
  change (Check.record whole _) (.object ms) = _
  simp only [Check.record, Check.fieldOr_text hfill, Check.fieldOr_text hstroke,
    Check.fieldOr_integer hwidth, Check.fieldOr_text hcolor, Check.fieldOr_integer hrx]
  rfl

end Style

/-! ## Integers that are found -/

namespace Checked

variable {α β : Type} {b : β}

theorem exists_of_map {f : α → β} {a : Checked α} (h : f <$> a = .sound b) :
    ∃ x, a = .sound x ∧ f x = b := by
  cases a with
  | sound x => exact ⟨x, rfl, Checked.sound.inj h⟩
  | faulty issues => cases h

theorem exists_of_seq {f : Checked (α → β)} {a : Checked α} (h : f <*> a = .sound b) :
    ∃ g x, f = .sound g ∧ a = .sound x ∧ g x = b := by
  cases f with
  | sound g =>
    cases a with
    | sound x => exact ⟨g, x, rfl, rfl, Checked.sound.inj h⟩
    | faulty issues => cases h
  | faulty issues => cases a <;> cases h

theorem sound_of_within {step : Step} {a : Checked β} (h : a.within step = .sound b) :
    a = .sound b := by
  cases a with
  | sound x => exact h
  | faulty issues => cases h

theorem all_map_of_sound {α : Type} {f : α → Checked α} {xs : List α}
    (h : ∀ x ∈ xs, f x = .sound x) : all (xs.map f) = .sound xs := by
  induction xs with
  | nil => rfl
  | cons x xs ih =>
    rw [List.forall_mem_cons] at h
    rw [List.map_cons, all, h.1, ih h.2]
    rfl

theorem exists_of_all_cons {x : α} {f : α → Checked β} {xs : List α} {ys : List β}
    (h : all ((x :: xs).map f) = .sound ys) :
    ∃ y rest, f x = .sound y ∧ all (xs.map f) = .sound rest ∧ ys = y :: rest := by
  rw [List.map_cons, all] at h
  obtain ⟨g, rest, hg, hrest, rfl⟩ := exists_of_seq h
  obtain ⟨y, hy, rfl⟩ := exists_of_map hg
  exact ⟨y, rest, hy, hrest, rfl⟩

theorem exists_of_mem_all {f : α → Checked β} {xs : List α} {ys : List β}
    (h : all (xs.map f) = .sound ys) :
    ∀ y ∈ ys, ∃ x ∈ xs, f x = .sound y := by
  induction xs generalizing ys with
  | nil =>
    cases h
    simp
  | cons x xs ih =>
    obtain ⟨y, rest, hy, hrest, rfl⟩ := exists_of_all_cons h
    rw [List.forall_mem_cons]
    refine ⟨⟨x, List.mem_cons_self, hy⟩, fun y' hy' => ?_⟩
    obtain ⟨x', hx', hfound⟩ := ih hrest y' hy'
    exact ⟨x', List.mem_cons_of_mem x hx', hfound⟩

theorem map_eq_of_all {γ : Type} {before : α → γ} {after : β → γ} {f : α → Checked β} {xs : List α}
    {ys : List β} (hkeep : ∀ x y, f x = .sound y → after y = before x)
    (h : all (xs.map f) = .sound ys) : ys.map after = xs.map before := by
  induction xs generalizing ys with
  | nil =>
    cases h
    rfl
  | cons x xs ih =>
    obtain ⟨y, rest, hy, hrest, rfl⟩ := exists_of_all_cons h
    rw [List.map_cons, List.map_cons, hkeep x y hy, ih hrest]

end Checked

namespace Check

open Integer

variable {α : Type}

theorem eq_default_or_exists {check : Check α} {name : String} {default a : α}
    {ms : List (Text × Json)} (h : fieldOr name default check ms = .sound a) :
    a = default ∨ ∃ member ∈ ms, check member.2 = .sound a := by
  unfold fieldOr at h
  split at h
  · next j hj => exact .inr ⟨(name.toList, j), Assoc.mem_of_find? hj, Checked.sound_of_within h⟩
  · cases h
    exact .inl rfl

theorem short_of_natAbs_lt {n : Int} {digits : Nat} (h : n.natAbs < 10 ^ digits)
    (hdigits : digits ≤ digitLimit) :
    Short n := Nat.lt_of_lt_of_le h (Nat.pow_le_pow_right (by decide) hdigits)

theorem short_of_readWhole {x : Binary64} {n : Int} (h : readWhole x = .ok n) : Short n := by
  unfold readWhole at h
  split at h
  · cases h
  · cases h
  · split at h
    · cases h
    · split at h
      · next hbound =>
        cases h
        have hnat : n.natAbs < 10 ^ 20 := by
          simp only [wordBound] at hbound
          omega
        exact short_of_natAbs_lt hnat (by decide)
      · cases h

theorem length_readMinus_le (t : Text) : (readMinus t).2.length ≤ t.length := by
  unfold readMinus
  split
  · rw [List.length_cons]
    exact Nat.le_succ _
  · exact Nat.le_refl _

/-- A plain numeral has no more digits than may be read: either it is no longer than the longest, or
it starts with a zero and is that zero. -/
theorem length_digits_le {t : Text} {n : Int} (h : Numeral.value? t = some n)
    (hlong : Numeral.isTooLong t = false) : (readMinus t).2.length ≤ digitLimit := by
  simp only [Numeral.value?] at h
  split at h
  · cases h
  · next hdigits =>
    simp only [Bool.or_eq_true, not_or, Bool.not_eq_true, Bool.not_eq_false', Bool.and_eq_false_iff,
      decide_eq_false_iff_not] at hdigits
    obtain ⟨⟨-, hall⟩, hzero⟩ := hdigits
    have hnone : (readMinus t).2.dropWhile Text.isAsciiDigit = [] :=
      List.dropWhile_eq_nil_iff.2 fun c hc => List.all_eq_true.1 hall c hc
    simp only [Numeral.isTooLong, hnone, List.length_nil, Nat.sub_zero, Bool.and_eq_false_iff,
      bne_eq_false_iff_eq, decide_eq_false_iff_not] at hlong
    have hshorter := length_readMinus_le t
    rcases hlong with hlead | hlong
    · have hone : ¬ 1 < (readMinus t).2.length := hzero.resolve_right fun hne => hne hlead
      simp only [digitLimit]
      omega
    · simp only [Numeral.longest] at hlong
      simp only [digitLimit]
      omega

theorem short_of_value? {t : Text} {n : Int} (h : Numeral.value? t = some n)
    (hlong : Numeral.isTooLong t = false) : Short n := by
  have hlength := length_digits_le h hlong
  simp only [Numeral.value?] at h
  split at h
  · cases h
  · have hvalue : n.natAbs = Text.natOfDigits (readMinus t).2 := by
      cases h
      split <;> simp
    exact short_of_natAbs_lt (hvalue ▸ Text.natOfDigits_lt _) hlength

/-- A numeral that is not too long denotes an integer that has not too many digits. -/
theorem short_of_readNumeral {t : Text} {n : Int} (h : readNumeral t = .ok n) : Short n := by
  unfold readNumeral at h
  split at h
  · cases h
  · next plain _ =>
    split at h
    · cases h
    · next hlong =>
      rw [Bool.or_eq_true, not_or, Bool.not_eq_true, Bool.not_eq_true] at hlong
      cases hvalue : Numeral.value? plain with
      | none =>
        rw [hvalue] at h
        cases h
      | some m =>
        rw [hvalue] at h
        cases h
        exact short_of_value? hvalue hlong.2

theorem short_of_readInteger {j : Json} {n : Int} (hj : j.Canonical) (h : readInteger j = .ok n) :
    Short n := by
  cases j with
  | int m =>
    cases h
    exact hj
  | bool b =>
    cases h
    have hnat : (if b then 1 else 0 : Int).natAbs < 10 ^ 1 := by cases b <;> decide
    exact short_of_natAbs_lt hnat (by decide)
  | float x => exact short_of_readWhole h
  | text t => exact short_of_readNumeral h
  | null | brokenText | list | object => cases h

theorem readInteger_of_optional {j : Json} {n : Int} (h : optional integer j = .sound (some n)) :
    readInteger j = .ok n := by
  cases j with
  | null => cases h
  | _ =>
    simp only [optional, integer, ofReader] at h
    split at h
    · next m hm =>
      cases h
      exact hm
    · cases h

theorem short_of_fieldOr {name : String} {ms : List (Text × Json)} {value? : Option Int}
    (hms : ∀ member ∈ ms, member.2.Canonical)
    (h : fieldOr name none (optional integer) ms = .sound value?) :
    ∀ n ∈ value?.toList, Short n := by
  intro n hn
  obtain rfl : value? = some n := by simpa using hn
  rcases eq_default_or_exists h with hdefault | ⟨member, hmem, hcheck⟩
  · cases hdefault
  · exact short_of_readInteger (hms member hmem) (readInteger_of_optional hcheck)

end Check

namespace Style

theorem brief_of_check {whole : Fault} {j : Json} {s : Style} (hj : j.Canonical)
    (h : check whole j = .sound s) : s.Brief := by
  unfold check Check.record at h
  split at h
  · next ms =>
    have hms : ∀ member ∈ ms, member.2.Canonical := Json.membersCanonical_iff.1 hj.2
    -- the five properties, the last one first
    obtain ⟨g₅, rx, h₄, hrx, rfl⟩ := Checked.exists_of_seq h
    obtain ⟨g₄, color, h₃, -, rfl⟩ := Checked.exists_of_seq h₄
    obtain ⟨g₃, strokeWidth, h₂, hwidth, rfl⟩ := Checked.exists_of_seq h₃
    obtain ⟨g₂, stroke, h₁, -, rfl⟩ := Checked.exists_of_seq h₂
    obtain ⟨fill, -, rfl⟩ := Checked.exists_of_map h₁
    intro n hn
    rcases List.mem_append.1 hn with hn | hn
    · exact Check.short_of_fieldOr hms hwidth n hn
    · exact Check.short_of_fieldOr hms hrx n hn
  · cases h

end Style
end Chartwright
