import Chartwright.Buffer.Entities
import Chartwright.Proofs.Line.StyleText
/-!
A text whose identifiers cannot be listed.

The identifiers in use include those that styles are set for, and a style cannot be read when a
width or a radius in it has too many digits. One such line is enough: no identifier of the whole
text is listed (`ids_of_long_radius`).
-/
namespace Chartwright

/-- A row of `n` digits. -/
def Integer.nines (n : Nat) : Text := List.replicate n '9'

namespace Integer

theorem eq_of_mem_nines {n : Nat} {c : Char} (h : c ∈ nines n) : c = '9' :=
  (List.mem_replicate.1 h).2

theorem nines_ne_nil {n : Nat} (h : 0 < n) : nines n ≠ [] := by
  cases n with
  | zero => omega
  | succ n => simp [nines, List.replicate_succ]

theorem tight_nines {n : Nat} (h : 0 < n) : Text.Tight (nines n) := by
  refine Text.tight_of_forall (nines_ne_nil h) fun c hc => ?_
  rw [eq_of_mem_nines hc]
  decide

/-- Too many digits are refused whatever integer they denote. -/
theorem leading_nines {n : Nat} (long : digitLimit < n) :
    leading (nines n) = .error (.reading n) := by
  have hdigits : ∀ c ∈ nines n, Text.isDigit c = true := by
    intro c hc
    rw [eq_of_mem_nines hc]
    decide
  have htake : (nines n).takeWhile Text.isDigit = nines n := by
    simpa using Text.takeWhile_append hdigits (Text.stops_nil _)
  have hminus : readMinus (nines n) = (false, nines n) := by
    cases n with
    | zero => rfl
    | succ n => rfl
  have hne : (nines n).isEmpty = false := List.isEmpty_eq_false_iff.2 (nines_ne_nil (by omega))
  have hlength : (nines n).length = n := List.length_replicate
  simp only [leading, hminus, htake, hne, ofDigits, hlength, if_pos long]
  rfl

end Integer

namespace StyleLine

variable {id : Text} {n : Nat}

/-- A radius of `n` digits, as a pair of a key and a value. -/
def radiusPair (n : Nat) : Text := "rx:".toList ++ Integer.nines n

/-- The line that sets it. -/
def radiusLine (id : Text) (n : Nat) : Line :=
  "style".toList ++ ([' '] ++ (id ++ ([' '] ++ radiusPair n)))

theorem head?_radiusLine : (radiusLine id n).head? = some 's' := rfl

theorem radiusLine_ne {t : Text} (h : t.head? ≠ some 's') : radiusLine id n ≠ t := by
  intro same
  exact h (same ▸ head?_radiusLine)

theorem mem_radiusPair {c : Char} (h : c ∈ radiusPair n) : c ∈ "rx:9".toList := by
  rcases List.mem_append.1 h with h | h
  · exact List.mem_append_left ['9'] h
  · rw [Integer.eq_of_mem_nines h]
    decide

theorem lineFeed_not_mem_radiusLine (hid : Identifier.valid id = true) :
    '\n' ∉ radiusLine id n := by
  have hword : '\n' ∉ id := Identifier.not_mem_of_valid hid (by decide)
  have hpair : '\n' ∉ radiusPair n := fun h => absurd (mem_radiusPair h) (by decide)
  simp only [radiusLine, List.mem_append, not_or]
  exact ⟨by decide, by decide, hword, by decide, hpair⟩

theorem stops_radiusPair : Text.Stops Text.isBlank (radiusPair n) :=
  Text.stops_cons.2 (by decide)

theorem parts?_radiusLine (hid : Identifier.valid id = true) :
    parts? (radiusLine id n) = some (id, radiusPair n) := by
  have hline : '\n' ∉ radiusPair n := fun h => absurd (mem_radiusPair h) (by decide)
  have hindent : ∀ c ∈ ([] : Text), Text.isBlank c = true := by simp
  exact parts?_append hindent hid hline (List.cons_ne_nil _ _) stops_radiusPair

theorem addPair_radiusPair (long : Integer.digitLimit < n) :
    Style.empty.addPair (radiusPair n) = .error (.reading n) := by
  have hset : Style.empty.set "rx".toList (Integer.nines n) = .error (.reading n) := by
    have hpixels : Style.readPixels Style.defaultRadius (Integer.nines n) =
        .error (.reading n) := by
      rw [Style.readPixels, Integer.leading_nines long]
      rfl
    rw [Style.set, if_neg (by decide), if_neg (by decide), if_neg (by decide), if_neg (by decide),
      if_pos rfl, hpixels]
    rfl
  have hkey : Text.Tight "rx".toList := Text.tight_of_all (by decide) (by decide)
  rw [← hset]
  exact Style.addPair_append hkey (by decide) (Integer.tight_nines (by omega)) Style.empty

theorem read_radiusLine (hid : Identifier.valid id = true) (long : Integer.digitLimit < n) :
    read (radiusLine id n) = .error (.reading n) := by
  have hpieces : Text.pieces ',' (radiusPair n) = [radiusPair n] := by
    apply Text.piecesBy_of_forall
    intro c hc
    rw [beq_eq_false_iff_ne]
    rintro rfl
    exact absurd (mem_radiusPair hc) (by decide)
  simp only [read, parts?_radiusLine hid, Style.read, hpieces, List.foldlM_cons,
    addPair_radiusPair long]
  rfl

end StyleLine

namespace Buffer

theorem ofText_radiusLine {id : Text} (hid : Identifier.valid id = true) (n : Nat) :
    ofText (StyleLine.radiusLine id n) = [StyleLine.radiusLine id n] := by
  apply Text.piecesBy_of_forall
  intro c hc
  rw [beq_eq_false_iff_ne]
  rintro rfl
  exact StyleLine.lineFeed_not_mem_radiusLine hid hc

theorem styles_of_long_radius {id : Text} {n : Nat} (hid : Identifier.valid id = true)
    (long : Integer.digitLimit < n) :
    (ofText (StyleLine.radiusLine id n)).styles = .error (.reading n) := by
  simp only [styles, ofText_radiusLine hid, List.mapM_cons, StyleLine.read_radiusLine hid long]
  rfl

theorem ids_of_long_radius {id : Text} {n : Nat} (hid : Identifier.valid id = true)
    (long : Integer.digitLimit < n) :
    (ofText (StyleLine.radiusLine id n)).ids = .error (.reading n) := by
  rw [ids, styles_of_long_radius hid long]
  rfl

end Buffer
end Chartwright
