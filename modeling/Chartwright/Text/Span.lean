import Chartwright.Text.Basic
/-!
Spans of a text, and what is done with them: cutting a span out, putting a new text in its place,
hiding it behind a filler, and collecting the spans at which a reader succeeds.

Main statement: hiding keeps the length and every character outside the spans (`length_hide`,
`getElem?_hide`).
-/
namespace Chartwright

/-- The offsets from `start` up to, and without, `stop`. -/
structure Span where
  start : Nat
  stop : Nat
deriving DecidableEq, Repr

namespace Span

/-- An offset lies in a span. -/
def contains (s : Span) (i : Nat) : Bool := s.start ≤ i && i < s.stop

/-- The part of a text in a span. -/
def cut (s : Span) (t : Text) : Text := (t.take s.stop).drop s.start

/-- A text with the part in a span replaced. -/
def splice (s : Span) (new t : Text) : Text := t.take s.start ++ new ++ t.drop s.stop

theorem splice_append (front part new back : Text) :
    (⟨front.length, front.length + part.length⟩ : Span).splice new (front ++ (part ++ back)) =
      front ++ (new ++ back) := by
  rw [splice, List.take_left, ← List.append_assoc front part, ← List.length_append, List.drop_left,
    List.append_assoc]

end Span

namespace Text

/-- A text with every character in one of the spans replaced by `filler`. -/
def hide (filler : Char) (spans : List Span) (t : Text) : Text :=
  t.mapIdx fun i c => if spans.any (·.contains i) then filler else c

@[simp] theorem length_hide (filler : Char) (spans : List Span) (t : Text) :
    (hide filler spans t).length = t.length := by
  simp [hide]

theorem getElem?_hide (filler : Char) (spans : List Span) (t : Text) (i : Nat) :
    (hide filler spans t)[i]? = t[i]?.map fun c =>
      if spans.any (·.contains i) then filler else c := by
  simp [hide]

@[simp] theorem hide_nil (filler : Char) (t : Text) : hide filler [] t = t := by
  apply List.ext_getElem?
  simp [getElem?_hide]

/-- The places where `read` succeeds, leftmost first, each found after the end of the one before.
The reader is given the character before the place, and returns what it found with its width; `skip`
counts the characters that the last find still covers. -/
def occurrencesFrom {α : Type} (read : Option Char → Text → Option (α × Nat)) (before : Option Char)
    (skip offset : Nat) : Text → List (Nat × α)
  | [] => []
  | c :: cs =>
    match skip with
    | k + 1 => occurrencesFrom read (some c) k (offset + 1) cs
    | 0 =>
      match read before (c :: cs) with
      | some (found, width) =>
        (offset, found) :: occurrencesFrom read (some c) (width - 1) (offset + 1) cs
      | none => occurrencesFrom read (some c) 0 (offset + 1) cs

/-- The places where `read` succeeds, with their offsets, from left to right and without overlap. -/
def occurrences {α : Type} (read : Option Char → Text → Option (α × Nat)) (t : Text) :
    List (Nat × α) :=
  occurrencesFrom read none 0 0 t

/-- The leftmost place where `read` succeeds, with its offset. -/
def firstFrom {α : Type} (read : Option Char → Text → Option α) (before : Option Char) :
    Text → Option (Nat × α)
  | [] => (read before []).map (0, ·)
  | c :: cs =>
    match read before (c :: cs) with
    | some found => some (0, found)
    | none => (firstFrom read (some c) cs).map fun (offset, found) => (offset + 1, found)

/-- The leftmost place in the whole text where `read` succeeds, its end included. -/
def first? {α : Type} (read : Option Char → Text → Option α) (t : Text) : Option (Nat × α) :=
  firstFrom read none t

end Text
end Chartwright
