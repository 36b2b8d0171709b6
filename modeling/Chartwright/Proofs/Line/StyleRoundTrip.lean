import Chartwright.Proofs.Line.StyleText
/-!
The round trip of a style over its line.

A style is written as one line and read off it again. Its texts come back whatever they hold, commas
and line feeds aside, but a number comes back only if it is not zero, for which the number of a node
without a style is taken. A number with too many digits is neither written nor read
(`read_write_iff`).
-/
namespace Chartwright

namespace Style

theorem readBack_of_long {n : Int} (h : ¬ Integer.Short n) (fallback : Int) :
    readBack fallback n = .error (.reading (Nat.toDigits 10 n.natAbs).length) := by
  have hstops : Text.Stops Text.isDigit "px".toList := Text.stops_cons.2 (by decide)
  rw [readBack_eq, Integer.leading_decimal_of_long h hstops]
  rfl

/-- One such number spoils the whole style. -/
theorem reread_of_not_brief {s : Style} (h : ∃ n ∈ s.numbers, ¬ Integer.Short n) :
    ∃ n ∈ s.numbers, s.reread = .error (.reading (Nat.toDigits 10 n.natAbs).length) := by
  obtain ⟨fill, stroke, width, color, rx⟩ := s
  by_cases hwidth : ∃ n ∈ width.toList, ¬ Integer.Short n
  · obtain ⟨n, hn, hlong⟩ := hwidth
    obtain rfl : width = some n := Option.mem_toList.1 hn
    refine ⟨n, by simp [numbers], ?_⟩
    rw [reread, Option.mapM_some, readBack_of_long hlong]
    rfl
  · -- the width is read back, so the radius is what is too long
    obtain ⟨n, hn, hlong⟩ : ∃ n ∈ rx.toList, ¬ Integer.Short n := by
      obtain ⟨n, hn, hlong⟩ := h
      exact ⟨n, (List.mem_append.1 hn).resolve_left fun hmem => hwidth ⟨n, hmem, hlong⟩, hlong⟩
    obtain rfl : rx = some n := Option.mem_toList.1 hn
    have hshort : ∃ w, width.mapM (readBack defaultWidth) = .ok w := by
      cases width with
      | none => exact ⟨none, rfl⟩
      | some m =>
        have hm : Integer.Short m := Classical.not_not.1 fun hm => hwidth ⟨m, by simp, hm⟩
        exact ⟨some (if m = 0 then defaultWidth else m), by
          rw [Option.mapM_some, readBack_of_short hm]
          rfl⟩
    obtain ⟨w, hw⟩ := hshort
    refine ⟨n, by simp [numbers], ?_⟩
    rw [reread, hw, Option.mapM_some, readBack_of_long hlong]
    rfl

end Style

namespace StyleLine

/-- A style that sets something is written and read back if and only if every number in it is
neither zero nor too long. With numbers that are not too long it is read back up to the zeros. With
one that is too long no line is written, and nothing would be read off it. -/
theorem read_write_iff {indent id : Text} {s : Style}
    (hindent : ∀ c ∈ indent, Text.isBlank c = true) (hid : Identifier.valid id = true)
    (hvalue : ∀ t ∈ s.texts, Style.Value t) (hne : s ≠ .empty) :
    ((write indent id s >>= read) = .ok (some ⟨id, s⟩) ↔ ∀ n ∈ s.numbers, n ≠ 0 ∧ Integer.Short n) ∧
    ((∀ n ∈ s.numbers, Integer.Short n) →
      (write indent id s >>= read) = .ok (some ⟨id, s.withoutZeros⟩)) ∧
    ((∃ n ∈ s.numbers, ¬ Integer.Short n) →
      write indent id s = .error .writing ∧
      ∃ n ∈ s.numbers, read (text indent id s) =
        .error (.reading (Nat.toDigits 10 n.natAbs).length)) := by
  have hread := read_text_eq hindent hid hvalue hne
  have hshort : (∀ n ∈ s.numbers, Integer.Short n) →
      (write indent id s >>= read) = .ok (some ⟨id, s.withoutZeros⟩) := by
    intro h
    rw [write_of_brief indent id h]
    change read (text indent id s) = _
    rw [hread, Style.reread_of_short h]
    rfl
  have hlong : (∃ n ∈ s.numbers, ¬ Integer.Short n) →
      write indent id s = .error .writing := fun ⟨n, hn, hlong⟩ =>
    write_of_not_brief indent id fun hbrief => hlong (hbrief n hn)
  refine ⟨⟨fun hback n hn => ?_, fun h => ?_⟩, hshort, fun h => ⟨hlong h, ?_⟩⟩
  · have hall : ∀ n ∈ s.numbers, Integer.Short n := by
      intro m hm
      refine Classical.byContradiction fun hmlong => ?_
      rw [hlong ⟨m, hm, hmlong⟩] at hback
      cases hback
    have hzeros := (hshort hall).symm.trans hback
    simp only [Except.ok.injEq, Option.some.injEq, StyleLine.mk.injEq, true_and] at hzeros
    exact ⟨Style.withoutZeros_eq_self_iff.1 hzeros n hn, hall n hn⟩
  · rw [hshort fun n hn => (h n hn).2, Style.withoutZeros_eq_self_iff.2 fun n hn => (h n hn).1]
  · obtain ⟨n, hn, hreread⟩ := Style.reread_of_not_brief h
    exact ⟨n, hn, by rw [hread, hreread]; rfl⟩

/-- Colons, inner blanks and a negative radius come back. -/
theorem read_write_of_colons :
    (write "\t ".toList "A".toList { fill := some "rx: 3".toList, rx := some (-7) } >>= read) =
      .ok (some ⟨"A".toList, { fill := some "rx: 3".toList, rx := some (-7) }⟩) := by
  have hvalue : Style.Value "rx: 3".toList :=
    ⟨⟨by decide, Text.stops_cons.2 (by decide), Text.stops_cons.2 (by decide)⟩, by decide, by
      decide⟩
  refine (read_write_iff (List.all_eq_true.1 (by decide)) (by decide) ?_ (by decide)).1.2 ?_
  · exact List.forall_mem_singleton.2 hvalue
  · exact List.forall_mem_singleton.2 ⟨by decide, Style.short_of_small (by decide)⟩

/-- A zero does not: the radius of a node without a style is read for it. -/
theorem read_write_ne_of_zero :
    (write [] "A".toList { rx := some 0 } >>= read) = .ok (some ⟨"A".toList, { rx := some 5 }⟩) ∧
    (write [] "A".toList { rx := some 0 } >>= read) ≠
      .ok (some ⟨"A".toList, { rx := some 0 }⟩) := by
  have hread : (write [] "A".toList { rx := some 0 } >>= read) =
      .ok (some ⟨"A".toList, { rx := some 5 }⟩) := by rfl
  refine ⟨hread, fun h => ?_⟩
  rw [hread] at h
  cases h

end StyleLine
end Chartwright
