import Chartwright.Buffer.NextId
import Chartwright.Proofs.Buffer.EdgeEnds
import Chartwright.Proofs.Buffer.Nesting
/-!
The identifiers in use, line by line.

They are recovered by four scans. Told without these, an identifier is in use if it is declared, if
a line mentions it that has an arrow or belongs to a closed subgraph, if it names such a subgraph,
or if a style is set for it (`mem_ids_iff`). A line without an arrow that belongs to no closed
subgraph puts nothing in use by mentioning it.
-/
namespace Chartwright

namespace Buffer

variable {b : Buffer} {used : List Text} {id : Text} {k : Nat}

/-- What line `k` mentions is in use: the line has an arrow, or its innermost opening is closed and
names an identifier. -/
def Counts (b : Buffer) (k : Nat) : Prop :=
  Line.hasArrow (b.line k) = true ∨
    ∃ i j, Innermost b i k ∧ Matches b i j ∧ (Opening.read? (b.line i)).isSome = true

/-- How an identifier comes to be in use. -/
inductive InUse (b : Buffer) (id : Text) : Prop where
  | declared {entry : Text × Bracket × Text} (h : entry ∈ b.declared) (name : entry.1 = id)
  | mentioned {k : Nat} (inside : k < b.length) (counts : Counts b k)
    (h : id ∈ Line.identifiers (b.line k))
  | grouped {g : Subgraph} (h : g ∈ b.subgraphs) (name : g.id = id)
  | styled {s : StyleLine} (h : s ∈ b.filterMap styleOn?) (name : s.id = id)

/-! ## The four scans -/

theorem inUse_of_mem_nodes {n : Node} (h : n ∈ b.nodes) : InUse b n.id := by
  rcases List.mem_append.1 (mem_distinctBy h) with h | h
  · obtain ⟨i, line, hi, d, hd, rfl⟩ := mem_declaredNodes.1 h
    exact .declared (mem_declared.2 ⟨line, List.mem_of_getElem? hi, d, hd, rfl⟩) rfl
  · obtain ⟨i, line, hi, harrow, name, hname, rfl⟩ := mem_referredNodes.1 h
    obtain rfl := line_eq_of_getElem? hi
    exact .mentioned (List.getElem?_eq_some_iff.1 hi).1 (.inl harrow) hname

theorem inUse_of_mem_members {g : Subgraph} (hg : g ∈ b.subgraphs) (h : id ∈ g.members) :
    InUse b id := by
  obtain ⟨o, rest, hread, -⟩ := read?_opening hg
  rw [members_eq hg, mem_distinct_iff] at h
  obtain ⟨k, hk, hname⟩ := List.mem_flatMap.1 h
  obtain ⟨hinside, hinnermost⟩ := mem_linesOf_iff.1 hk
  exact .mentioned hinside
    (.inr ⟨_, _, hinnermost, matches_of_mem_subgraphs hg, by rw [hread]; rfl⟩) hname

theorem exists_mem_members {i j : Nat} (hinside : k < b.length) (hinnermost : Innermost b i k)
    (hmatch : Matches b i j) (hread : (Opening.read? (b.line i)).isSome = true)
    (h : id ∈ Line.identifiers (b.line k)) :
    ∃ g ∈ b.subgraphs, id ∈ g.members := by
  obtain ⟨⟨o, rest⟩, hread⟩ := Option.isSome_iff_exists.1 hread
  have hgroup : group? b i j = some ⟨o.id, o.caption, distinct (membersOf b i), i, j⟩ := by
    rw [group?, hread, Option.map_some]
  have hmember : id ∈ membersOf b i :=
    List.mem_flatMap.2 ⟨k, mem_linesOf_iff.2 ⟨hinside, hinnermost⟩, h⟩
  exact ⟨_, mem_subgraphs_iff.2 ⟨i, j, hmatch, hgroup⟩, mem_distinct hmember⟩

/-- The identifiers that are listed are those in use. -/
theorem mem_ids_iff (h : b.ids = .ok used) : id ∈ used ↔ InUse b id := by
  obtain ⟨found, hfound, rfl⟩ := Except.exists_of_map_eq_ok h
  have hstyles : found = distinctBy (·.id) (b.filterMap styleOn?) := by
    rw [styles_eq (exists_read_of_styles hfound)] at hfound
    exact (Except.ok.inj hfound).symm
  simp only [mem_distinct_iff, List.mem_append, List.mem_map, List.mem_flatMap, List.mem_cons]
  constructor
  · rintro ((⟨n, hn, rfl⟩ | ⟨g, hg, rfl | hmember⟩) | ⟨s, hs, rfl⟩)
    · exact inUse_of_mem_nodes hn
    · exact .grouped hg rfl
    · exact inUse_of_mem_members hg hmember
    · exact .styled (mem_distinctBy (hstyles ▸ hs)) rfl
  · rintro (⟨hentry, rfl⟩ | ⟨hinside, hcounts, hmention⟩ | ⟨hg, rfl⟩ | ⟨hs, rfl⟩)
    · obtain ⟨line, hline, d, hd, rfl⟩ := mem_declared.1 hentry
      obtain ⟨i, hi⟩ := List.mem_iff_getElem?.1 hline
      have hnode : (⟨d.id, d.label, d.bracket.shape, i⟩ : Node) ∈ b.declaredNodes ++
          b.referredNodes :=
        List.mem_append_left _ (mem_declaredNodes.2 ⟨i, line, hi, d, hd, rfl⟩)
      exact .inl (.inl (exists_mem_distinctBy hnode))
    · rcases hcounts with harrow | ⟨i, j, hinnermost, hmatch, hread⟩
      · exact .inl (.inl (exists_mem_nodes_of_identifiers hinside harrow hmention))
      · obtain ⟨g, hg, hmember⟩ := exists_mem_members hinside hinnermost hmatch hread hmention
        exact .inl (.inr ⟨g, hg, .inr hmember⟩)
    · exact .inl (.inr ⟨_, hg, .inl rfl⟩)
    · exact .inr (hstyles ▸ exists_mem_distinctBy hs)

end Buffer
end Chartwright
