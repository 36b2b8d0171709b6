import Chartwright.Line.Link
import Chartwright.Proofs.Line.Held
/-!
The parts of a link that is read.

Its source is read first and its target behind the connector (`Link.parts_of_read?`), so both are
identifiers, and its label holds no bar (`Link.valid_of_read?`). The leftmost link of a text is read
where it stands and none further left (`Link.exists_of_first?`).
-/
namespace Chartwright

theorem EdgeLabel.not_mem_of_read? {t rest : Text} {l : EdgeLabel} (h : read? t = some (l, rest)) :
    '|' ∉ l.text := by
  simp only [read?, Option.bind_eq_bind, Option.bind_eq_some_iff, Prod.exists, Option.pure_def,
    Option.some.injEq, Prod.mk.injEq] at h
  obtain ⟨inside, -, label, r, hcut, rfl, -⟩ := h
  exact Text.not_mem_of_cut? hcut

theorem Connector.bar_not_mem_of_read? {t rest : Text} {k : Connector}
    (h : read? t = some (k, rest)) {l : EdgeLabel} (hl : k.label = some l) : '|' ∉ l.text := by
  simp only [read?, Option.bind_eq_bind, Option.bind_eq_some_iff, Prod.exists, Option.pure_def,
    Option.some.injEq, Prod.mk.injEq] at h
  obtain ⟨arrow, r, -, rfl, -⟩ := h
  simp only [readLabel] at hl
  split at hl
  · next found rest' hread =>
    cases hl
    exact EdgeLabel.not_mem_of_read? hread
  · cases hl

namespace Link

theorem exists_of_afterSource? {t inline : Text} {α : Type} {next : Text → Option α} {a : α}
    (h : afterSource? next t = some (inline, a)) : ∃ s, next s = some a := by
  have inside : ∀ {t inline : Text}, readInline? next t = some (inline, a) →
      ∃ s, next s = some a := by
    intro t
    induction t with
    | nil =>
      intro inline h
      cases h
    | cons c cs ih =>
      intro inline h
      simp only [readInline?, Option.ite_none_left_eq_some] at h
      obtain ⟨-, h⟩ := h
      split at h
      · next found ended =>
        cases h
        split at ended
        · exact ⟨_, ended⟩
        · cases ended
      · obtain ⟨⟨i, f⟩, hi, heq⟩ := Option.map_eq_some_iff.1 h
        cases heq
        exact ih hi
  unfold afterSource? at h
  split at h
  · obtain ⟨⟨i, f⟩, hi, heq⟩ := Option.map_eq_some_iff.1 h
    cases heq
    exact inside hi
  · obtain ⟨f, hf, heq⟩ := Option.map_eq_some_iff.1 h
    cases heq
    exact ⟨t, hf⟩

/-- The source of a link is read first, and its target behind the connector. -/
theorem parts_of_read? {t rest : Text} {l : Link} (h : read? t = some (l, rest)) :
    (∃ s, Identifier.read? t = some (l.source, s)) ∧
      ∃ s s', t = l.source ++ l.inline ++ s ∧ Connector.read? s = some (l.connector, s') ∧
        Identifier.read? s' = some (l.target, rest) := by
  have ht := eq_of_read? h
  simp only [read?, Option.bind_eq_bind, Option.bind_eq_some_iff, Prod.exists, Option.pure_def,
    Option.some.injEq, Prod.mk.injEq] at h
  obtain ⟨source, r, hs, inline, k, target, r', ha, rfl, rfl⟩ := h
  obtain ⟨s, hs'⟩ := exists_of_afterSource? ha
  simp only [readTail?, Option.bind_eq_bind, Option.bind_eq_some_iff, Prod.exists, Option.pure_def,
    Option.some.injEq, Prod.mk.injEq] at hs'
  obtain ⟨k', s', hk, target', rest', htarget, rfl, rfl, rfl⟩ := hs'
  refine ⟨⟨r, hs⟩, s, s', ?_, hk, htarget⟩
  rw [ht, Connector.eq_of_read? hk, Identifier.eq_append_of_read? htarget]
  simp [written]

/-- What a link joins are identifiers, and its label holds no bar. -/
theorem valid_of_read? {t rest : Text} {l : Link} (h : read? t = some (l, rest)) :
    Identifier.valid l.source = true ∧ Identifier.valid l.target = true ∧
      ∀ label, l.connector.label = some label → '|' ∉ label.text := by
  obtain ⟨⟨_, hsource⟩, _, _, -, hconnector, htarget⟩ := parts_of_read? h
  exact ⟨Identifier.valid_of_read? hsource, Identifier.valid_of_read? htarget,
    fun _ => Connector.bar_not_mem_of_read? hconnector⟩

/-- The leftmost link is read where it stands, and none is read further left. -/
theorem exists_of_first? {t : Text} {column : Nat} {l : Link} (h : first? t = some (column, l)) :
    ∃ front rest, t = front ++ (l.written ++ rest) ∧ column = front.length ∧
      Identifier.apart (Text.endOf none front) = true ∧ read? (l.written ++ rest) = some (l, rest) ∧
      ∀ x y, t = x ++ y → x.length < column → Identifier.apart (Text.endOf none x) = true →
        read? y = none := by
  obtain ⟨front, y, ht, hcolumn, hfound, hleft⟩ := Text.exists_of_firstFrom h
  obtain ⟨happart, hmap⟩ := Option.ite_none_right_eq_some.1 hfound
  obtain ⟨⟨l', rest⟩, hread, heq⟩ := Option.map_eq_some_iff.1 hmap
  cases heq
  obtain rfl := eq_of_read? hread
  refine ⟨front, rest, ht, hcolumn, happart, hread, fun x z hz hlt hbefore => ?_⟩
  have hnone := hleft x z hz hlt
  rwa [if_pos hbefore, Option.map_eq_none_iff] at hnone

end Link
end Chartwright
