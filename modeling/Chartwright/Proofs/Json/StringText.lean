import Chartwright.Json.Printer
import Chartwright.Json.Reader
/-!
Strings, written and read again.

In the layout of files a character is written as it is or as one escape, and either reads back as
that character (`readString_printChar`). So a text between quotes reads back as the same text,
whatever follows (`readString_flatMap`).
-/
namespace Chartwright.Json

variable {start offset : Nat} {c : Char} {u : Text}

theorem exists_hexadecimal {n : Nat} (h : n < 32) :
    ∃ a b c d, Text.hexadecimal 4 n = [a, b, c, d] ∧ hexUnit? a b c d = some n := by
  have hdigits : ∀ n < 32,
      Text.hexadecimal 4 n = ['0', '0', Nat.digitChar (n / 16), Nat.digitChar (n % 16)] := by decide
  have hunit : ∀ n < 32, hexUnit? '0' '0' (Nat.digitChar (n / 16)) (Nat.digitChar (n % 16)) =
      some n := by decide
  exact ⟨_, _, _, _, hdigits n h, hunit n h⟩

theorem readString_escape {letter : Char} (h : escaped? letter = some c) :
    readString start offset
      ('\\' :: letter :: u) = (readString start (offset + 2) u).map (·.push c) := by
  have hletter : letter ≠ 'u' := by
    rintro rfl
    cases h
  rw [readString, h]
  · intro _ _ _ _ _ _ hu _
    exact hletter hu
  · exact hletter

/-- A small unit reads as its character, also before another unit: it is no half of a surrogate
pair. -/
theorem readString_unit {a b c d : Char} {n : Nat} (hn : n < 32) (h : hexUnit? a b c d = some n)
    (hu : u ≠ []) :
    readString start offset ('\\' :: 'u' :: a :: b :: c :: d :: u) =
      (readString start (offset + 6) u).map (·.push (Char.ofNat n)) := by
  have hhigh : isHighSurrogate n = false := by
    have : ¬ 0xD800 ≤ n := by omega
    simp [isHighSurrogate, this]
  have hlow : isLowSurrogate n = false := by
    have : ¬ 0xDC00 ≤ n := by omega
    simp [isLowSurrogate, this]
  have hpush : Piece.pushUnit n = Piece.push (Char.ofNat n) := by
    funext p
    simp [Piece.pushUnit, hhigh, hlow]
  obtain ⟨e, rest, rfl⟩ := List.exists_cons_of_ne_nil hu
  rw [readString, h]
  dsimp only
  split
  · simp only [hhigh, hpush]
    rfl
  · rw [hpush]

theorem readString_plain (hquote : c ≠ '"') (hslash : c ≠ '\\') (h : ¬ c.toNat < 32) :
    readString start offset (c :: u) = (readString start (offset + 1) u).map (·.push c) := by
  rw [readString, if_neg h]
  · exact hquote
  · exact fun hc _ => hslash hc
  · exact fun _ _ _ _ _ _ hc _ => hslash hc
  · exact fun _ hc _ => hslash hc
  · exact fun _ _ hc _ => hslash hc

/-- A character of a file reads as itself. -/
theorem readString_printChar (c : Char) (hu : u ≠ []) :
    readString start offset (printChar false c ++ u) =
      (readString start (offset + (printChar false c).length) u).map (·.push c) := by
  unfold printChar
  split
  · next h =>
    subst h
    exact readString_escape rfl
  split
  · next h =>
    subst h
    exact readString_escape rfl
  split
  · next h =>
    subst h
    exact readString_escape rfl
  split
  · next h =>
    subst h
    exact readString_escape rfl
  split
  · next h =>
    subst h
    exact readString_escape rfl
  split
  · next h =>
    obtain rfl : Char.ofNat 8 = c := by rw [← h, Char.ofNat_toNat]
    exact readString_escape rfl
  split
  · next h =>
    obtain rfl : Char.ofNat 12 = c := by rw [← h, Char.ofNat_toNat]
    exact readString_escape rfl
  split
  · next h =>
    obtain ⟨w, x, y, z, hdigits, hunit⟩ := exists_hexadecimal h
    have hread : readString start offset ('\\' :: 'u' :: w :: x :: y :: z :: u) = _ :=
      readString_unit h hunit hu
    rw [Char.ofNat_toNat] at hread
    rw [escapeUnit, hdigits]
    exact hread
  · next hquote hslash _ _ _ _ _ hcontrol => exact readString_plain hquote hslash hcontrol

/-- A text reads as itself up to the quote behind it. -/
theorem readString_flatMap (t : Text) (rest : Text) : ∀ offset,
    readString start offset (t.flatMap (printChar false) ++ '"' :: rest) =
      .ok ⟨true, t, ⟨rest, offset + (t.flatMap (printChar false)).length + 1⟩⟩ := by
  induction t with
  | nil => intro offset; rw [List.flatMap_nil, List.nil_append, readString, List.length_nil]
  | cons c cs ih =>
    intro offset
    rw [List.flatMap_cons, List.append_assoc, readString_printChar c (by simp), ih,
      List.length_append, Nat.add_assoc, Nat.add_assoc, Nat.add_assoc]
    rfl

end Chartwright.Json
