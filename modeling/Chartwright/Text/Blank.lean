import Chartwright.Text.Basic
/-!
Blank characters, and trimming them off the ends of a text. Every break between the words of a line
is a run of these characters, so the set is wider than the space and the tab.
-/
namespace Chartwright.Text

/-- White space of Unicode, together with the four separators U+001C to U+001F. -/
def isBlank (c : Char) : Bool :=
  let n := c.toNat
  (9 ≤ n && n ≤ 13) || (28 ≤ n && n ≤ 32) || n == 0x85 || n == 0xA0 || n == 0x1680 ||
    (0x2000 ≤ n && n ≤ 0x200A) || n == 0x2028 || n == 0x2029 || n == 0x202F || n == 0x205F ||
      n == 0x3000

/-- The blanks at the front of a text. -/
def blanks (t : Text) : Text := t.takeWhile isBlank

/-- A text without the blanks at its front. -/
def trimLeft (t : Text) : Text := t.dropWhile isBlank

/-- A text without the blanks at its end. -/
def trimRight (t : Text) : Text := (t.reverse.dropWhile isBlank).reverse

/-- A text without the blanks at both ends. -/
def trim (t : Text) : Text := trimRight (trimLeft t)

@[simp] theorem blanks_append_trimLeft (t : Text) : blanks t ++ trimLeft t = t :=
  List.takeWhile_append_dropWhile

theorem isBlank_of_mem_blanks {t : Text} {c : Char} (h : c ∈ blanks t) : isBlank c = true := by
  have := List.all_takeWhile (p := isBlank) (l := t)
  exact List.all_eq_true.1 this c h

end Chartwright.Text
