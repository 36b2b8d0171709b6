import Chartwright.Line.Kind
/-!
The opening line of a subgraph: the word `subgraph`, an identifier, and perhaps a title between
square brackets.

Main statement: the parts of an opening, written one after the other, are the start of the line
(`Opening.eq_of_read?`).
-/
namespace Chartwright

/-- A title between square brackets, and the blanks before it. -/
structure TitlePart where
  gap : Text
  title : Text
deriving DecidableEq, Repr

structure Opening where
  indent : Text
  gap : Text
  id : Text
  title : Option TitlePart
deriving DecidableEq, Repr

namespace TitlePart

def written (p : TitlePart) : Text := p.gap ++ ['['] ++ p.title ++ [']']

/-- Blanks and a title, which ends at the first closing bracket. -/
def read? (t : Text) : Option (TitlePart × Text) := do
  let inside ← Text.after? ['['] (Text.trimLeft t)
  let (title, rest) ← Text.cut? [']'] inside
  return (⟨Text.blanks t, title⟩, rest)

theorem eq_of_read? {t rest : Text} {p : TitlePart} (h : read? t = some (p, rest)) :
    t = p.written ++ rest := by
  simp only [read?, Option.bind_eq_bind, Option.bind_eq_some_iff, Prod.exists, Option.pure_def,
    Option.some.injEq, Prod.mk.injEq] at h
  obtain ⟨inside, hopen, title, r, hcut, rfl, rfl⟩ := h
  calc t = Text.blanks t ++ Text.trimLeft t := (Text.blanks_append_trimLeft t).symm
    _ = _ := by
      rw [Text.after?_eq_some_iff.1 hopen, Text.eq_append_of_cut? hcut]
      simp [written]

end TitlePart

namespace Opening

/-- The opening up to its identifier. -/
def head (o : Opening) : Text := o.indent ++ "subgraph".toList ++ o.gap ++ o.id

def titlePart (o : Opening) : Text := (o.title.map (·.written)).getD []

/-- What the subgraph is called: its title, or its identifier when it has none. -/
def caption (o : Opening) : Text := (o.title.map (·.title)).getD o.id

/-- The title that follows an identifier, if there is one, and the rest. -/
def readTitle (t : Text) : Option TitlePart × Text :=
  match TitlePart.read? t with
  | some (title, rest) => (some title, rest)
  | none => (none, t)

def read? (line : Line) : Option (Opening × Text) := do
  let rest ← Text.after? "subgraph".toList (Text.trimLeft line)
  let (id, after) ← Identifier.read? (Text.trimLeft rest)
  if (Text.blanks rest).isEmpty then none
  let (title, after) := readTitle after
  return (⟨Text.blanks line, Text.blanks rest, id, title⟩, after)

/-- A line with another title: put in place of the one it has, or right after the identifier. -/
def retitle (o : Opening) (title line : Text) : Text :=
  match o.title with
  | some p =>
    let start := o.head.length + p.gap.length + 1
    Span.splice ⟨start, start + p.title.length⟩ title line
  | none => Span.splice ⟨o.head.length, o.head.length⟩ (['['] ++ title ++ [']']) line

theorem eq_of_readTitle (t : Text) :
    t = ((readTitle t).1.map (·.written)).getD [] ++ (readTitle t).2 := by
  unfold readTitle
  split
  · next h => simpa using TitlePart.eq_of_read? h
  · rfl

theorem eq_of_read? {line : Line} {rest : Text} {o : Opening} (h : read? line = some (o, rest)) :
    line = o.head ++ o.titlePart ++ rest := by
  simp only [read?, Option.bind_eq_bind, Option.bind_eq_some_iff, Prod.exists] at h
  obtain ⟨r, hword, id, after, hid, h⟩ := h
  split at h
  · cases h
  · simp only [Option.pure_def, Option.some.injEq, Prod.mk.injEq] at h
    obtain ⟨rfl, rfl⟩ := h
    calc line = Text.blanks line ++ Text.trimLeft line := (Text.blanks_append_trimLeft line).symm
      _ = Text.blanks line ++ ("subgraph".toList ++ (Text.blanks r ++ (id ++ after))) := by
        rw [Text.after?_eq_some_iff.1 hword]
        conv => lhs; rw [← Text.blanks_append_trimLeft r, Identifier.eq_append_of_read? hid]
      _ = _ := by
        conv => lhs; rw [eq_of_readTitle after]
        simp [head, titlePart]

end Opening
end Chartwright
