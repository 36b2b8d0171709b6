import Chartwright.Edit.Node
import Chartwright.Proofs.Line.ReadFrom
/-!
The characters of what is made of a line.

The parts of a chain are cut from its line, so they hold no line feed if the line holds none. The
same is true of a line that is rebuilt without a node and of a declaration that is restored, so what
a deletion writes are lines again.
-/
namespace Chartwright

namespace Span

theorem mem_of_mem_cut {s : Span} {t : Text} {c : Char} (h : c ∈ s.cut t) : c ∈ t :=
  List.mem_of_mem_take (List.mem_of_mem_drop h)

end Span

namespace Chain

/-- The parts of a chain are cut from its line. -/
structure CutFrom (k : Chain) (line : Line) : Prop where
  indent : ∀ c ∈ k.indent, c ∈ line
  text : ∀ s ∈ k.segments, ∀ c ∈ s.text, c ∈ line
  tokens : ∀ s ∈ k.segments, ∀ token ∈ s.tokens, ∀ c ∈ token, c ∈ line
  connectors : ∀ connector ∈ k.connectors, ∀ c ∈ connector, c ∈ line

theorem cutFrom_of_chain? {line : Line} {k : Chain} (h : Line.chain? line = some k) :
    k.CutFrom line := by
  simp only [Line.chain?, Option.ite_none_left_eq_some, Option.some.injEq] at h
  obtain ⟨-, rfl⟩ := h
  -- whether a text is cut, trimmed or split, its characters are those of the line
  refine ⟨fun c hc => (List.takeWhile_sublist _).subset hc, ?_, ?_, ?_⟩
  · intro s hs c hc
    obtain ⟨span, -, rfl⟩ := List.mem_map.1 hs
    exact Span.mem_of_mem_cut (Text.mem_of_mem_trim hc)
  · intro s hs token htoken c hc
    obtain ⟨span, -, rfl⟩ := List.mem_map.1 hs
    obtain ⟨piece, hpiece, rfl⟩ := List.mem_map.1 (List.mem_filter.1 htoken).1
    obtain ⟨⟨d, m⟩, hd, rfl⟩ := List.mem_map.1 (Text.mem_of_mem_trim hc)
    exact Span.mem_of_mem_cut (List.of_mem_zip (Text.mem_of_mem_piecesBy hpiece hd).1).1
  · intro connector hconnector c hc
    obtain ⟨span, -, rfl⟩ := List.mem_map.1 hconnector
    exact Span.mem_of_mem_cut hc

/-- A rebuilt chain holds nothing but its segments and connectors. -/
theorem mem_of_mem_interleave {ss ks : List Text} {c : Char} (h : c ∈ interleave ss ks) :
    (∃ s ∈ ss, c ∈ s) ∨ ∃ k ∈ ks, c ∈ k := by
  induction ss generalizing ks with
  | nil => cases h
  | cons s ss ih =>
    cases ks with
    | nil => exact .inl ⟨s, List.mem_cons_self, h⟩
    | cons k ks =>
      rw [interleave, List.mem_append, List.mem_append] at h
      rcases h with (h | h) | h
      · exact .inl ⟨s, List.mem_cons_self, h⟩
      · exact .inr ⟨k, List.mem_cons_self, h⟩
      · rcases ih h with ⟨s', hs, hc⟩ | ⟨k', hk, hc⟩
        · exact .inl ⟨s', List.mem_cons_of_mem s hs, hc⟩
        · exact .inr ⟨k', List.mem_cons_of_mem k hk, hc⟩

end Chain

namespace Declaration

theorem not_mem_written_of_declarations {line : Line} {d : Declaration}
    (h : d ∈ Line.declarations line) (hline : '\n' ∉ line) : '\n' ∉ d.written := by
  obtain ⟨-, read, hread, -, rfl⟩ := Line.mem_declarations.1 h
  obtain ⟨_, _, hat, -⟩ := exists_readAt hread
  have hid : '\n' ∉ read.id := Identifier.not_mem_of_valid hat.valid (by decide)
  have hopener : '\n' ∉ read.bracket.opener := by cases read.bracket <;> decide
  have hcloser : '\n' ∉ read.bracket.closer := by cases read.bracket <;> decide
  simp only [written, withLabelOf, List.mem_append, not_or]
  exact ⟨⟨⟨hid, hopener⟩, fun hc => hline (Span.mem_of_mem_cut hc)⟩, hcloser⟩

end Declaration

namespace Buffer

variable {id : Text} {line : Line} {k : Chain}

theorem not_mem_chainWithout? {rebuilt : Line} (hk : k.CutFrom line) (hline : '\n' ∉ line)
    (h : chainWithout? id k = some rebuilt) : '\n' ∉ rebuilt := by
  rw [chainWithout?, Option.ite_none_right_eq_some, Option.some.injEq] at h
  obtain ⟨-, rfl⟩ := h
  intro hmem
  rcases List.mem_append.1 hmem with hmem | hmem
  · exact hline (hk.indent _ hmem)
  · rcases Chain.mem_of_mem_interleave hmem with ⟨text, htext, hmem⟩ | ⟨connector, hconnector, hmem⟩
    · obtain ⟨s, hs, rfl⟩ := List.mem_map.1 htext
      rw [segmentWithout] at hmem
      split at hmem
      · exact hline (hk.text s hs _ hmem)
      · rcases Text.mem_of_mem_join hmem with hmem | ⟨token, htoken, hmem⟩
        · exact absurd hmem (by decide)
        · exact hline (hk.tokens s hs token (List.mem_filter.1 htoken).1 _ hmem)
    · exact hline (hk.connectors connector hconnector _ hmem)

theorem not_mem_orphanedBy {b : Buffer} {i : Nat} (hk : k.CutFrom line) (hline : '\n' ∉ line) :
    ∀ restored ∈ b.orphanedBy id i k, '\n' ∉ restored := by
  intro restored h
  obtain ⟨token, htoken, h⟩ := List.mem_flatMap.1 h
  obtain ⟨s, hs, htoken⟩ := List.mem_flatMap.1 htoken
  obtain ⟨d, hd, rfl⟩ := List.mem_map.1 h
  have hwritten := Declaration.not_mem_written_of_declarations (List.mem_filter.1 hd).1
    fun hmem => hline (hk.tokens s hs token (List.mem_filter.1 htoken).1 _ hmem)
  rw [List.mem_append, not_or]
  exact ⟨by decide, hwritten⟩

/-- What a deletion makes of a line are lines. -/
theorem not_mem_lineWithout (b : Buffer) (id : Text) (hline : '\n' ∉ line) (i : Nat) :
    (∀ kept ∈ (b.lineWithout id line i).1, '\n' ∉ kept) ∧
      ∀ restored ∈ (b.lineWithout id line i).2, '\n' ∉ restored := by
  unfold lineWithout
  split
  · simp
  · split
    · simpa using hline
    · cases hchain : Line.chain? line with
      | none => simpa using hline
      | some k =>
        have hk := Chain.cutFrom_of_chain? hchain
        cases hrebuilt : chainWithout? id k with
        | some rebuilt => simpa [hrebuilt] using not_mem_chainWithout? hk hline hrebuilt
        | none => simpa [hrebuilt] using not_mem_orphanedBy hk hline

end Buffer
end Chartwright
