/-!
Texts as lists of characters: reading a fixed word off the front, cutting at the first occurrence of
a word, cutting into the pieces between separators, and joining pieces again.

Main statements: reading a word off the front inverts writing it there (`after?_eq_some_iff`), a cut
loses nothing (`eq_append_of_cut?`), and joining the pieces between separators gives back the text
(`join_pieces`).
-/
namespace Chartwright

/-- A text is a sequence of Unicode scalar values; every offset and length counts these. -/
abbrev Text := List Char

namespace Text

/-- What follows `word` at the front of a text. -/
def after? : (word : Text) → Text → Option Text
  | [], t => some t
  | _ :: _, [] => none
  | w :: ws, c :: cs => if w = c then after? ws cs else none

theorem after?_eq_some_iff {word t rest : Text} : after? word t = some rest ↔ t = word ++ rest := by
  induction word generalizing t with
  | nil => simp [after?]
  | cons w ws ih =>
    cases t with
    | nil => simp [after?]
    | cons c cs =>
      by_cases h : w = c
      · simp [after?, h, ih]
      · simp [after?, h, Ne.symm h]

/-- A text starts with `word`. -/
def startsWith (word t : Text) : Bool := (after? word t).isSome

/-- What stands before and after the first occurrence of `word`. -/
def cut? (word : Text) : Text → Option (Text × Text)
  | [] => (after? word []).map ([], ·)
  | c :: cs =>
    match after? word (c :: cs) with
    | some rest => some ([], rest)
    | none => (cut? word cs).map fun (before, rest) => (c :: before, rest)

theorem eq_append_of_cut? {word t before rest : Text} (h : cut? word t = some (before, rest)) :
    t = before ++ word ++ rest := by
  induction t generalizing before with
  | nil =>
    simp only [cut?, Option.map_eq_some_iff, Prod.mk.injEq] at h
    obtain ⟨r, hr, rfl, rfl⟩ := h
    simpa using after?_eq_some_iff.1 hr
  | cons c cs ih =>
    rw [cut?] at h
    split at h
    · next r hr =>
      cases h
      simpa using after?_eq_some_iff.1 hr
    · simp only [Option.map_eq_some_iff, Prod.mk.injEq, Prod.exists] at h
      obtain ⟨b, r, hb, rfl, rfl⟩ := h
      simp [ih hb]

/-- A text without the one line feed that may end it. -/
def withoutLineFeed (t : Text) : Text := if t.getLast? = some '\n' then t.dropLast else t

/-- The pieces between the elements at which `stops` holds, always at least one. -/
def piecesBy {α : Type} (stops : α → Bool) : List α → List (List α)
  | [] => [[]]
  | c :: cs =>
    if stops c then [] :: piecesBy stops cs
    else
      match piecesBy stops cs with
      | [] => [[c]]
      | p :: ps => (c :: p) :: ps

/-- The pieces between the occurrences of `sep`. -/
def pieces (sep : Char) (t : Text) : List Text := piecesBy (· == sep) t

theorem piecesBy_ne_nil {α : Type} (stops : α → Bool) (t : List α) : piecesBy stops t ≠ [] := by
  cases t with
  | nil => simp [piecesBy]
  | cons c cs =>
    rw [piecesBy]
    split
    · simp
    · split <;> simp

/-- The pieces written one after the other with `sep` between them. -/
def join (sep : Text) : List Text → Text
  | [] => []
  | [p] => p
  | p :: q :: ps => p ++ sep ++ join sep (q :: ps)

theorem join_pieces (sep : Char) (t : Text) : join [sep] (pieces sep t) = t := by
  unfold pieces
  induction t with
  | nil => rfl
  | cons c cs ih =>
    cases hp : piecesBy (· == sep) cs with
    | nil => exact absurd hp (piecesBy_ne_nil _ cs)
    | cons p ps =>
      rw [hp] at ih
      rw [piecesBy, hp]
      split
      · next h => simp [join, ih, beq_iff_eq.1 h]
      · cases ps with
        | nil => simpa [join] using ih
        | cons q qs => simpa [join] using ih

end Text

/-- The elements whose key has not occurred before, in order of first occurrence. -/
def distinctBy {α β : Type} [DecidableEq β] (key : α → β) : List α → List α
  | [] => []
  | x :: xs => x :: (distinctBy key xs).filter fun y => key y ≠ key x

/-- The elements without repeats, in order of first occurrence. -/
def distinct {α : Type} [DecidableEq α] (xs : List α) : List α := distinctBy id xs

theorem mem_distinctBy {α β : Type} [DecidableEq β] {key : α → β} {x : α} {xs : List α}
    (h : x ∈ distinctBy key xs) : x ∈ xs := by
  induction xs with
  | nil => exact h
  | cons y ys ih =>
    simp only [distinctBy, List.mem_cons, List.mem_filter] at h ⊢
    exact h.imp_right fun h => ih h.1

end Chartwright
