import Chartwright.Text.Span
/-!
Identifiers, the names of nodes and subgraphs: an ASCII letter or low line, then ASCII letters,
digits and low lines. An identifier stands as a whole token where no identifier character touches
it.

Main statement: reading takes the longest identifier and leaves the rest untouched
(`eq_append_of_read?`, `apart_rest_of_read?`).
-/
namespace Chartwright.Identifier

/-- A character that an identifier may start with. -/
def isStart (c : Char) : Bool := c.isAlpha || c == '_'

/-- A character that an identifier may hold. -/
def isChar (c : Char) : Bool := c.isAlphanum || c == '_'

/-- A text that is one identifier. -/
def valid : Text → Bool
  | [] => false
  | c :: cs => isStart c && cs.all isChar

/-- The longest identifier at the front of a text, and the rest. -/
def read? : Text → Option (Text × Text)
  | [] => none
  | c :: cs => if isStart c then some (c :: cs.takeWhile isChar, cs.dropWhile isChar) else none

/-- No identifier runs across a place: the character on its other side, if there is one, belongs to
none. -/
def apart (neighbour : Option Char) : Bool := !neighbour.any isChar

/-- The identifier that starts at a place and is not the tail of a longer token. -/
def token? (before : Option Char) (t : Text) : Option (Text × Text) :=
  if apart before then read? t else none

/-- All identifiers of a text that stand as whole tokens, with their offsets. -/
def tokens (t : Text) : List (Nat × Text) :=
  Text.occurrences (fun before t => (token? before t).map fun (name, _) => (name, name.length)) t

/-- The text `name` stands at a place as a whole token. -/
def standsAt (name : Text) (before : Option Char) (t : Text) : Bool :=
  apart before &&
    match Text.after? name t with
    | some rest => apart rest.head?
    | none => false

/-- The offset of the first place where `name` stands as a whole token; `name` may be any text. -/
def mention? (name t : Text) : Option Nat :=
  (Text.first? (fun before t => if standsAt name before t then some () else none) t).map (·.1)

theorem isChar_of_isStart {c : Char} (h : isStart c = true) : isChar c = true := by
  simp only [isStart, isChar, Char.isAlphanum, Bool.or_eq_true] at h ⊢
  exact h.imp_left Or.inl

theorem eq_append_of_read? {t name rest : Text} (h : read? t = some (name, rest)) :
    t = name ++ rest := by
  cases t with
  | nil => simp [read?] at h
  | cons c cs =>
    simp only [read?, Option.ite_none_right_eq_some, Option.some.injEq, Prod.mk.injEq] at h
    obtain ⟨-, rfl, rfl⟩ := h
    simp

theorem valid_of_read? {t name rest : Text} (h : read? t = some (name, rest)) :
    valid name = true := by
  cases t with
  | nil => simp [read?] at h
  | cons c cs =>
    simp only [read?, Option.ite_none_right_eq_some, Option.some.injEq, Prod.mk.injEq] at h
    obtain ⟨start, rfl, rfl⟩ := h
    simp [valid, start, List.all_takeWhile]

/-- What follows a whole identifier does not prolong it. -/
theorem apart_rest_of_read? {t name rest : Text} (h : read? t = some (name, rest)) :
    apart rest.head? = true := by
  cases t with
  | nil => simp [read?] at h
  | cons c cs =>
    simp only [read?, Option.ite_none_right_eq_some, Option.some.injEq, Prod.mk.injEq] at h
    obtain ⟨-, -, rfl⟩ := h
    have := List.head?_dropWhile_not isChar cs
    cases hd : (cs.dropWhile isChar).head? with
    | none => rfl
    | some d =>
      rw [hd] at this
      simpa [apart] using this

end Chartwright.Identifier
