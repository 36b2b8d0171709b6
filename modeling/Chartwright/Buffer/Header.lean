import Chartwright.Buffer.Basic
import Chartwright.Markup.Direction
/-!
The header of a text: a line start, the word `flowchart` or `graph`, and a direction. The blanks
between them may hold line feeds, so the header is looked for in the whole text.

Main statement: what stands before the direction token, the token and what stands after it are the
text (`Header.eq_of_find?`).
-/
namespace Chartwright

/-- A header, as the token of its direction and what stands before the token in the text. -/
structure Header where
  before : Text
  token : Text
deriving DecidableEq, Repr

namespace Header

/-- The token of a direction at the front of a text, in whatever ASCII case, where no word runs
on. -/
def readToken? (t : Text) : Option (Text × Text) :=
  if (Direction.ofToken? (t.take 2)).isSome && Text.endsWord (t.drop 2) then
    some (t.take 2, t.drop 2)
  else none

/-- A header at a line start. -/
def read? (t : Text) : Option (Header × Text) := do
  let (word, rest) ← Line.headerWord? (Text.trimLeft t)
  if (Text.blanks rest).isEmpty then none
  let (token, after) ← readToken? (Text.trimLeft rest)
  return (⟨Text.blanks t ++ word ++ Text.blanks rest, token⟩, after)

/-- The first header of a text, and what stands after it. -/
def findFrom (lineStart : Bool) : Text → Option (Header × Text)
  | [] => none
  | c :: cs =>
    match (if lineStart then read? (c :: cs) else none) with
    | some found => some found
    | none =>
      (findFrom (c == '\n') cs).map fun (h, after) => ({ h with before := c :: h.before }, after)

def find? (t : Text) : Option (Header × Text) := findFrom true t

theorem eq_of_headerWord? {t word rest : Text} (h : Line.headerWord? t = some (word, rest)) :
    t = word ++ rest := by
  obtain ⟨w, -, hw⟩ := List.exists_of_findSome?_eq_some h
  simp only [Option.map_eq_some_iff, Prod.mk.injEq, Keyword.after?, Option.ite_none_right_eq_some,
    Option.some.injEq] at hw
  obtain ⟨r, ⟨-, rfl⟩, rfl, rfl⟩ := hw
  exact (List.take_append_drop _ _).symm

theorem eq_of_read? {t after : Text} {h : Header} (hr : read? t = some (h, after)) :
    t = h.before ++ h.token ++ after := by
  simp only [read?, Option.bind_eq_bind, Option.bind_eq_some_iff, Prod.exists] at hr
  obtain ⟨word, rest, hword, hr⟩ := hr
  split at hr
  · cases hr
  · simp only [Option.bind_eq_some_iff, Prod.exists, Option.pure_def, Option.some.injEq,
      Prod.mk.injEq, readToken?, Option.ite_none_right_eq_some] at hr
    obtain ⟨token, after', ⟨-, rfl, rfl⟩, rfl, rfl⟩ := hr
    calc t = Text.blanks t ++ Text.trimLeft t := (Text.blanks_append_trimLeft t).symm
      _ = Text.blanks t ++ (word ++ (Text.blanks rest ++ Text.trimLeft rest)) := by
        rw [eq_of_headerWord? hword, Text.blanks_append_trimLeft]
      _ = _ := by simp

theorem eq_of_findFrom {t after : Text} {lineStart : Bool} {h : Header}
    (hf : findFrom lineStart t = some (h, after)) : t = h.before ++ h.token ++ after := by
  induction t generalizing lineStart h with
  | nil => simp [findFrom] at hf
  | cons c cs ih =>
    rw [findFrom] at hf
    split at hf
    · next found hr =>
      cases hf
      split at hr
      · exact eq_of_read? hr
      · cases hr
    · simp only [Option.map_eq_some_iff, Prod.mk.injEq, Prod.exists] at hf
      obtain ⟨h', after', hf, rfl, rfl⟩ := hf
      simp [ih hf]

theorem eq_of_find? {t after : Text} {h : Header} (hf : find? t = some (h, after)) :
    t = h.before ++ h.token ++ after :=
  eq_of_findFrom hf

/-- The direction that the header of a text names; from left to right when there is no header. -/
def direction (t : Text) : Direction :=
  match find? t with
  | some (h, _) => (Direction.ofToken? h.token).getD .leftToRight
  | none => .leftToRight

/-- A text with another direction in its first header. -/
def setDirection (d : Direction) (t : Text) : Text :=
  match find? t with
  | some (h, after) => h.before ++ d.token ++ after
  | none => t

end Header
end Chartwright
