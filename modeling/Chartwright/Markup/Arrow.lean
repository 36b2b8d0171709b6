import Chartwright.Text.Basic
/-!
Arrows: the glyphs that join two nodes. Many spellings are read, four are written.

A thick arrow is two or more equality signs, a dotted one a dash, dots and perhaps dashes, a plain
one two or more dashes; each ends in a point. At one place at most one of the three can be read, so
a spelling is never ambiguous.
-/
namespace Chartwright

/-- The kinds of arrow. -/
inductive Arrow where
  | plain | long | dotted | thick
deriving DecidableEq, Repr

namespace Arrow

/-- All kinds, in the order they are offered. -/
def all : List Arrow := [plain, long, dotted, thick]

/-- The spelling that is written. -/
def glyph : Arrow → Text
  | plain => "-->".toList
  | long => "--->".toList
  | dotted => "-.->".toList
  | thick => "==>".toList

def named? (glyph : Text) : Option Arrow := all.find? (·.glyph = glyph)

/-- A run of at least `least` characters `c` at the front of a text, and the rest. -/
def run? (c : Char) (least : Nat) (t : Text) : Option (Text × Text) :=
  if least ≤ (t.takeWhile (· = c)).length then some (t.takeWhile (· = c), t.dropWhile (· = c))
  else none

/-- The point of an arrow with the given shaft. -/
def pointed? (shaft : Text) : Text → Option (Text × Text)
  | '>' :: rest => some (shaft ++ ['>'], rest)
  | _ => none

def readThick? (t : Text) : Option (Text × Text) := do
  let (shaft, rest) ← run? '=' 2 t
  pointed? shaft rest

def readDotted? (t : Text) : Option (Text × Text) := do
  let rest ← Text.after? ['-'] t
  let (dots, rest) ← run? '.' 1 rest
  let (dashes, rest) ← run? '-' 0 rest
  pointed? (['-'] ++ dots ++ dashes) rest

def readPlain? (t : Text) : Option (Text × Text) := do
  let (shaft, rest) ← run? '-' 2 t
  pointed? shaft rest

/-- The arrow at the front of a text, as it is spelled, and the rest. -/
def read? (t : Text) : Option (Text × Text) := readThick? t <|> readDotted? t <|> readPlain? t

/-- The kind that a spelling stands for. -/
def ofSpelling (spelling : Text) : Arrow :=
  if spelling.head? = some '=' then thick
  else if spelling.contains '.' then dotted
  else if spelling.count '-' = 2 then plain
  else long

/-- An arrow can be read somewhere in a text. -/
def occursIn : Text → Bool
  | [] => false
  | c :: cs => (read? (c :: cs)).isSome || occursIn cs

theorem ofSpelling_glyph (a : Arrow) : ofSpelling a.glyph = a := by cases a <;> decide

theorem named?_glyph (a : Arrow) : named? a.glyph = some a := by cases a <;> decide

theorem read?_glyph (a : Arrow) : read? a.glyph = some (a.glyph, []) := by cases a <;> decide

theorem eq_append_of_run? {c : Char} {least : Nat} {t taken rest : Text}
    (h : run? c least t = some (taken, rest)) : t = taken ++ rest := by
  simp only [run?, Option.ite_none_right_eq_some, Option.some.injEq, Prod.mk.injEq] at h
  obtain ⟨-, rfl, rfl⟩ := h
  exact List.takeWhile_append_dropWhile.symm

theorem eq_append_of_pointed? {shaft t taken rest : Text}
    (h : pointed? shaft t = some (taken, rest)) : shaft ++ t = taken ++ rest := by
  unfold pointed? at h
  split at h
  · cases h; simp
  · cases h

/-- An arrow is read off the front without loss. -/
theorem eq_append_of_read? {t taken rest : Text} (h : read? t = some (taken, rest)) :
    t = taken ++ rest := by
  simp only [read?, Option.orElse_eq_orElse, Option.orElse_eq_or, Option.or_eq_some_iff] at h
  rcases h with h | ⟨-, h | ⟨-, h⟩⟩
  · simp only [readThick?, Option.bind_eq_bind, Option.bind_eq_some_iff, Prod.exists] at h
    obtain ⟨a, b, hr, hp⟩ := h
    rw [eq_append_of_run? hr, eq_append_of_pointed? hp]
  · simp only [readDotted?, Option.bind_eq_bind, Option.bind_eq_some_iff, Prod.exists] at h
    obtain ⟨r, ha, d, r', hd, e, r'', he, hp⟩ := h
    rw [Text.after?_eq_some_iff.1 ha, eq_append_of_run? hd, eq_append_of_run? he,
      ← eq_append_of_pointed? hp]
    simp
  · simp only [readPlain?, Option.bind_eq_bind, Option.bind_eq_some_iff, Prod.exists] at h
    obtain ⟨a, b, hr, hp⟩ := h
    rw [eq_append_of_run? hr, eq_append_of_pointed? hp]

end Arrow
end Chartwright
