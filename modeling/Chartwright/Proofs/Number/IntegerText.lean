import Mathlib.Algebra.Group.Nat.Defs
import Chartwright.Number.Integer
import Chartwright.Proofs.Text.Runs
/-!
Integers, written and read again.

An integer is written just when it has not too many digits (`write_of_short`, `write_of_long`). One
that is read has not too many (`short_of_leading`), and one that has not too many is read back when
something that is no digit follows (`leading_decimal`).
-/
namespace Chartwright

theorem Except.exists_of_map_eq_ok {ε α β : Type} {f : α → β} {x : Except ε α} {b : β}
    (h : x.map f = .ok b) :
    ∃ a, x = .ok a ∧ f a = b := by
  cases x with
  | error e => cases h
  | ok a => exact ⟨a, rfl, Except.ok.inj h⟩

theorem Except.exists_of_bind_eq_ok {ε α β : Type} {f : α → Except ε β} {x : Except ε α} {b : β}
    (h : x >>= f = .ok b) : ∃ a, x = .ok a ∧ f a = .ok b := by
  cases x with
  | error e => cases h
  | ok a => exact ⟨a, rfl, h⟩

namespace Text

theorem digit?_of_isDigit {c : Char} (h : c.isDigit = true) :
    digit? c = some (c.toNat - '0'.toNat) := by
  have hc : 48 ≤ c.toNat ∧ c.toNat ≤ 57 := by
    simp only [Char.isDigit, Bool.and_eq_true, decide_eq_true_eq] at h
    exact h
  have hzero : (decide (0x30 ≤ c.toNat) && decide (c.toNat < 0x30 + 10)) = true := by
    rw [Bool.and_eq_true, decide_eq_true_eq, decide_eq_true_eq]
    omega
  have hfind : digitZeros.find? (fun z => decide (z ≤ c.toNat) && decide (c.toNat < z + 10)) =
      some 0x30 :=
    List.find?_cons_of_pos hzero
  rw [digit?, hfind]
  rfl

theorem isDigit_of_isAsciiDigit {c : Char} (h : c.isDigit = true) : isDigit c = true := by
  rw [isDigit, digit?_of_isDigit h]
  rfl

theorem isDigit_of_mem_toDigits {n : Nat} : ∀ c ∈ Nat.toDigits 10 n, isDigit c = true := fun _ hc =>
  isDigit_of_isAsciiDigit (Nat.isDigit_of_mem_toDigits (by decide) (by decide) hc)

theorem foldl_digits_eq {t : Text} (h : ∀ c ∈ t, c.isDigit = true) (start : Nat) :
    t.foldl (fun n c => 10 * n + (digit? c).getD 0) start = Nat.ofDigitChars 10 t start := by
  induction t generalizing start with
  | nil => exact Nat.ofDigitChars_nil.symm
  | cons c cs ih =>
    rw [List.foldl_cons, Nat.ofDigitChars_cons, digit?_of_isDigit (h c List.mem_cons_self)]
    exact ih (fun d hd => h d (List.mem_cons_of_mem c hd)) _

theorem natOfDigits_toDigits (n : Nat) : natOfDigits (Nat.toDigits 10 n) = n := by
  rw [natOfDigits, foldl_digits_eq fun c hc =>
      Nat.isDigit_of_mem_toDigits (by decide) (by decide) hc]
  exact Nat.ofDigitChars_ten_toDigits

theorem foldl_digits_lt (t : Text) (start : Nat) :
    t.foldl (fun n c => 10 * n + (digit? c).getD 0) start < (start + 1) * 10 ^ t.length := by
  induction t generalizing start with
  | nil => simp
  | cons c cs ih =>
    have hdigit : (digit? c).getD 0 < 10 := by
      cases hd : digit? c with
      | none => decide
      | some d => exact digit?_lt_ten hd
    calc (c :: cs).foldl (fun n c => 10 * n + (digit? c).getD 0) start
        < (10 * start + (digit? c).getD 0 + 1) * 10 ^ cs.length := ih _
      _ ≤ (10 * (start + 1)) * 10 ^ cs.length := Nat.mul_le_mul_right _ (by omega)
      _ = (start + 1) * 10 ^ (c :: cs).length := by
        rw [List.length_cons, Nat.pow_succ, Nat.mul_comm 10 (start + 1), Nat.mul_assoc,
          Nat.mul_comm 10]

theorem natOfDigits_lt (t : Text) : natOfDigits t < 10 ^ t.length := by
  have h := foldl_digits_lt t 0
  rwa [Nat.zero_add, Nat.one_mul] at h

end Text

namespace Integer

/-- An integer that has not too many digits. -/
def Short (n : Int) : Prop := n.natAbs < 10 ^ digitLimit

theorem short_iff {n : Int} : Short n ↔ (Nat.toDigits 10 n.natAbs).length ≤ digitLimit :=
  (Nat.length_toDigits_le_iff (by decide) (by decide)).symm

theorem write_of_short {n : Int} (h : Short n) : write n = .ok (decimal n) :=
  if_neg (Nat.not_lt.2 (short_iff.1 h))

theorem write_of_long {n : Int} (h : ¬ Short n) : write n = .error .writing :=
  if_pos (Nat.lt_of_not_le (mt short_iff.2 h))

theorem ofDigits_toDigits {n : Int} (h : Short n) :
    ofDigits (decide (n < 0)) (Nat.toDigits 10 n.natAbs) = .ok n := by
  rw [ofDigits, if_neg (Nat.not_lt.2 (short_iff.1 h)), Text.natOfDigits_toDigits]
  by_cases hneg : n < 0
  · simp only [hneg, decide_true, if_true]
    congr 1
    omega
  · simp only [hneg, decide_false, Bool.false_eq_true, if_false]
    congr 1
    omega

theorem short_of_ofDigits {negative : Bool} {digits : Text} {n : Int}
    (h : ofDigits negative digits = .ok n) : Short n := by
  unfold ofDigits at h
  split at h
  · cases h
  · next hlength =>
    have hlt : Text.natOfDigits digits < 10 ^ digitLimit :=
      Nat.lt_of_lt_of_le (Text.natOfDigits_lt digits)
        (Nat.pow_le_pow_right (by decide) (Nat.le_of_not_lt hlength))
    cases h
    cases negative <;> simpa [Short] using hlt

theorem short_of_leading {t : Text} {n : Int} (h : leading t = .ok (some n)) : Short n := by
  simp only [leading] at h
  split at h
  · cases h
  · cases hread : ofDigits (readMinus t).1 ((readMinus t).2.takeWhile Text.isDigit) with
    | error e =>
      rw [hread] at h
      cases h
    | ok m =>
      rw [hread] at h
      cases h
      exact short_of_ofDigits hread

/-- What is read of an integer that is written are its sign and its digits. -/
theorem leading_decimal_eq (n : Int) {rest : Text} (hrest : Text.Stops Text.isDigit rest) :
    leading (decimal n ++ rest) =
      (ofDigits (decide (n < 0)) (Nat.toDigits 10 n.natAbs)).map some := by
  have hdigits : ((Nat.toDigits 10 n.natAbs) ++ rest).takeWhile Text.isDigit =
      Nat.toDigits 10 n.natAbs :=
    Text.takeWhile_append Text.isDigit_of_mem_toDigits hrest
  have hne : (Nat.toDigits 10 n.natAbs).isEmpty = false :=
    List.isEmpty_eq_false_iff.2 Nat.toDigits_ne_nil
  have hminus : readMinus (decimal n ++ rest) =
      (decide (n < 0), Nat.toDigits 10 n.natAbs ++ rest) := by
    unfold decimal
    split
    · next hneg =>
      simp only [hneg]
      rfl
    · next hpos =>
      -- the first digit is no minus sign
      obtain ⟨c, cs, hc⟩ :=
        List.exists_cons_of_ne_nil (Nat.toDigits_ne_nil (b := 10) (n := n.natAbs))
      have hdigit : c.isDigit = true :=
        Nat.isDigit_of_mem_toDigits (b := 10) (n := n.natAbs) (by decide) (by decide)
          (hc ▸ List.mem_cons_self)
      have hdash : c ≠ '-' := by
        rintro rfl
        cases hdigit
      simp only [hpos]
      rw [hc]
      simp [readMinus, hdash]
  simp only [leading, hminus, hdigits, hne]
  rfl

/-- An integer is read back up to the first character that is no digit. -/
theorem leading_decimal {n : Int} (h : Short n) {rest : Text}
    (hrest : Text.Stops Text.isDigit rest) : leading (decimal n ++ rest) = .ok (some n) := by
  rw [leading_decimal_eq n hrest, ofDigits_toDigits h]
  rfl

theorem leading_decimal_of_long {n : Int} (h : ¬ Short n) {rest : Text}
    (hrest : Text.Stops Text.isDigit rest) :
    leading (decimal n ++ rest) = .error (.reading (Nat.toDigits 10 n.natAbs).length) := by
  have hlong : digitLimit < (Nat.toDigits 10 n.natAbs).length := Nat.lt_of_not_le (mt short_iff.2 h)
  rw [leading_decimal_eq n hrest, ofDigits, if_pos hlong]
  rfl

end Integer
end Chartwright
