import Chartwright.Json.Printer
import Chartwright.Json.Reader
import Chartwright.Proofs.Number.IntegerText
/-!
Integers in a JSON text, written and read again.

An integer that has not too many digits reads back as itself when neither a digit nor a fraction or
an exponent follows (`readScalar_decimal`). No word starts like one.
-/
namespace Chartwright.Integer

/-- Only the number zero is written with a zero in front. -/
theorem eq_zero_of_toDigits {m : Nat} {rest : Text} (h : Nat.toDigits 10 m = '0' :: rest) :
    rest = [] := by
  cases rest with
  | nil => rfl
  | cons c cs =>
    have hsmall : m < 10 ^ (c :: cs).length := by
      have hvalue : Text.natOfDigits ('0' :: c :: cs) = Text.natOfDigits (c :: cs) := by
        have hzero : Text.digit? '0' = some 0 := by decide
        simp only [Text.natOfDigits, List.foldl_cons, hzero]
        rfl
      rw [← Text.natOfDigits_toDigits m, h, hvalue]
      exact Text.natOfDigits_lt _
    have hlength := (Nat.length_toDigits_le_iff (b := 10) (by decide) (by simp)).2 hsmall
    rw [h, List.length_cons] at hlength
    omega

theorem decimal_eq (n : Int) :
    decimal n = List.replicate (if n < 0 then 1 else 0) '-' ++ Nat.toDigits 10 n.natAbs := by
  unfold decimal
  split <;> rfl

end Chartwright.Integer

namespace Chartwright.Json

open Integer

/-- The characters that may continue an integer, or make it another number. -/
def continuesNumber (c : Char) : Bool := Text.isAsciiDigit c || c = '.' || c = 'e' || c = 'E'

variable {rest : Text} {m : Nat} {n : Int}

theorem isAsciiDigit_eq (c : Char) : Text.isAsciiDigit c = c.isDigit := by
  simp only [Text.isAsciiDigit, Char.isDigit, Char.le_def]

theorem isAsciiDigit_of_mem_toDigits : ∀ c ∈ Nat.toDigits 10 m, Text.isAsciiDigit c = true :=
  fun c hc => by
  rw [isAsciiDigit_eq]
  exact Nat.isDigit_of_mem_toDigits (by decide) (by decide) hc

theorem wholeDigits_toDigits (h : Text.Stops continuesNumber rest) :
    wholeDigits (Nat.toDigits 10 m ++ rest) = Nat.toDigits 10 m := by
  have hstops : Text.Stops Text.isAsciiDigit rest := fun c hc => by
    have := h c hc
    simp only [continuesNumber, Bool.or_eq_false_iff] at this
    exact this.1.1.1
  cases hdigits : Nat.toDigits 10 m with
  | nil => exact absurd hdigits Nat.toDigits_ne_nil
  | cons d ds =>
    by_cases hzero : d = '0'
    · subst hzero
      rw [Integer.eq_zero_of_toDigits hdigits]
      rfl
    · rw [List.cons_append, wholeDigits, ← List.cons_append, ← hdigits]
      · exact Text.takeWhile_append isAsciiDigit_of_mem_toDigits hstops
      · exact fun _ hd => hzero (List.cons.inj hd).1

theorem fraction_of_stops (h : Text.Stops continuesNumber rest) : fraction rest = [] := by
  unfold fraction
  split
  · next after => exact absurd (h '.' rfl) (by decide)
  · rfl

theorem exponent_of_stops (h : Text.Stops continuesNumber rest) : exponent rest = [] := by
  cases rest with
  | nil => rfl
  | cons c cs =>
    have hc := h c rfl
    have he : (c = 'e' || c = 'E') = false := by
      simp only [continuesNumber, Bool.or_eq_false_iff] at hc
      simp only [Bool.or_eq_false_iff]
      exact ⟨hc.1.2, hc.2⟩
    simp only [exponent, he]
    rfl

theorem readNumber?_decimal (h : Short n) (hrest : Text.Stops continuesNumber rest) :
    readNumber? (Integer.decimal n ++ rest) = some (.ok (int n), (Integer.decimal n).length) := by
  have hne : Nat.toDigits 10 n.natAbs ≠ [] := Nat.toDigits_ne_nil
  have hdash : Text.Stops (· = '-') (Nat.toDigits 10 n.natAbs ++ rest) := by
    obtain ⟨d, ds, hds⟩ := List.exists_cons_of_ne_nil hne
    have hdigit := isAsciiDigit_of_mem_toDigits (m := n.natAbs) d (hds ▸ List.mem_cons_self)
    rw [hds, List.cons_append, Text.stops_cons, decide_eq_false_iff_not]
    rintro rfl
    cases hdigit
  have hsign : (Integer.decimal n ++ rest).takeWhile (· = '-') =
      List.replicate (if n < 0 then 1 else 0) '-' := by
    rw [decimal_eq, List.append_assoc]
    exact Text.takeWhile_append (by simp) hdash
  have hbody : (Integer.decimal n ++ rest).drop
      (List.replicate (if n < 0 then 1 else 0) '-').length = Nat.toDigits 10 n.natAbs ++ rest := by
    rw [decimal_eq, List.append_assoc, List.drop_left]
  have hnegative : (!(List.replicate (if n < 0 then 1 else 0) '-').isEmpty) = decide (n < 0) := by
    split <;> simp_all
  have hone : ¬ 1 < (List.replicate (if n < 0 then 1 else 0) '-').length := by
    split <;> simp
  unfold readNumber?
  simp only [hsign, hbody, wholeDigits_toDigits hrest, List.drop_left, fraction_of_stops hrest,
    List.length_nil, Nat.add_zero, exponent_of_stops hrest, List.take_left,
    List.isEmpty_eq_false_iff.2 hne, hnegative, ofDigits_toDigits h]
  rw [if_neg]
  · rw [decimal_eq, List.length_append]
    rfl
  · rwa [Bool.or_false, decide_eq_true_eq]

theorem ne_of_isAsciiDigit {c d : Char} (hc : Text.isAsciiDigit c = true)
    (hd : Text.isAsciiDigit d = false) : c ≠ d := by
  rintro rfl
  rw [hc] at hd
  cases hd

theorem readWord?_of_isAsciiDigit {c : Char} (hc : Text.isAsciiDigit c = true) (u : Text) :
    readWord? (c :: u) = none ∧ readWord? ('-' :: c :: u) = none := by
  have hn : 'n' ≠ c := (ne_of_isAsciiDigit hc (by decide)).symm
  have ht : 't' ≠ c := (ne_of_isAsciiDigit hc (by decide)).symm
  have hf : 'f' ≠ c := (ne_of_isAsciiDigit hc (by decide)).symm
  have hN : 'N' ≠ c := (ne_of_isAsciiDigit hc (by decide)).symm
  have hI : 'I' ≠ c := (ne_of_isAsciiDigit hc (by decide)).symm
  have hdash : '-' ≠ c := (ne_of_isAsciiDigit hc (by decide)).symm
  constructor <;> simp [readWord?, words, Text.startsWith, Text.after?, hn, ht, hf, hN, hI, hdash]

theorem exists_decimal_eq (n : Int) : ∃ c u, Text.isAsciiDigit c = true ∧
    (Integer.decimal n = c :: u ∨ Integer.decimal n = '-' :: c :: u) := by
  obtain ⟨c, u, hdigits⟩ :=
    List.exists_cons_of_ne_nil (Nat.toDigits_ne_nil (b := 10) (n := n.natAbs))
  refine ⟨c, u, isAsciiDigit_of_mem_toDigits c (hdigits ▸ List.mem_cons_self), ?_⟩
  unfold Integer.decimal
  rw [hdigits]
  split
  · exact .inr rfl
  · exact .inl rfl

theorem readWord?_decimal (n : Int) (rest : Text) :
    readWord? (Integer.decimal n ++ rest) = none := by
  obtain ⟨c, u, hc, hdecimal | hdecimal⟩ := exists_decimal_eq n
  · exact hdecimal ▸ (readWord?_of_isAsciiDigit hc _).1
  · exact hdecimal ▸ (readWord?_of_isAsciiDigit hc _).2

/-- An integer reads as itself, up to a character that does not continue it. -/
theorem readScalar_decimal (h : Short n) (hrest : Text.Stops continuesNumber rest) (offset : Nat) :
    readScalar ⟨Integer.decimal n ++ rest, offset⟩ =
      .ok (int n, ⟨rest, offset + (Integer.decimal n).length⟩) := by
  simp only [readScalar, readWord?_decimal, readNumber?_decimal h hrest, Rest.drop, List.drop_left]

end Chartwright.Json
