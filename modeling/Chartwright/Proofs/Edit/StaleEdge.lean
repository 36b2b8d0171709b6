import Chartwright.Edit.Command
import Chartwright.Proofs.Buffer.Lines
import Chartwright.Proofs.Line.EdgeOn
/-!
Which edges the edits of an edge act on.

An edit of an edge looks for a link between the ends of the edge on the line of the edge, and
changes nothing if that line shows none (`run_of_not_joins`). The scan looks for the same link, but
finds no edge on a directive and none that starts with a keyword. So the edits act on scanned edges
alone as long as the line of the edge is no directive and its source no keyword, and not beyond that
(`edits_scanned_iff`).
-/
namespace Chartwright

/-- The edge that a command edits. -/
def Command.edge? : Command → Option Edge
  | .deleteEdge e | .relabelEdge e _ | .rearrowEdge e _ => some e
  | _ => none

namespace Buffer

variable {b : Buffer} {e : Edge}

/-- The line of an edge shows a link from its source to its target. -/
def Joins (b : Buffer) (e : Edge) : Prop :=
  ∃ line column l, b.lineAt? e.line = some line ∧ Line.link? line = some (column, l) ∧
    l.source = e.source ∧ l.target = e.target

/-- Among the edges of a buffer is one with the ends and the line of this one. -/
def Scans (b : Buffer) (e : Edge) : Prop :=
  ∃ f ∈ b.edges, f.source = e.source ∧ f.target = e.target ∧ f.line = e.line

theorem lineAt?_eq_some_iff {i : Int} {line : Line} :
    b.lineAt? i = some line ↔ ∃ n : Nat, i = n ∧ b[n]? = some line := by
  rw [lineAt?, Option.ite_none_right_eq_some]
  constructor
  · rintro ⟨hi, hline⟩
    exact ⟨i.toNat, (Int.toNat_of_nonneg hi).symm, hline⟩
  · rintro ⟨n, rfl, hline⟩
    exact ⟨Int.natCast_nonneg n, hline⟩

theorem linkOf?_eq_some_iff {column : Nat} {l : Link} : b.linkOf? e = some (column, l) ↔
    ∃ line, b.lineAt? e.line = some line ∧ Line.link? line = some (column, l) ∧
      l.source = e.source ∧ l.target = e.target := by
  simp only [linkOf?, Option.bind_eq_bind, Option.bind_eq_some_iff, Prod.exists,
    Option.ite_none_right_eq_some, Option.some.injEq, Prod.mk.injEq, Bool.and_eq_true,
    decide_eq_true_eq]
  constructor
  · rintro ⟨line, hline, column, l, hlink, hends, rfl, rfl⟩
    exact ⟨line, hline, hlink, hends⟩
  · rintro ⟨line, hline, hlink, hends⟩
    exact ⟨line, hline, column, l, hlink, hends, rfl, rfl⟩

theorem linkOf?_eq_none (h : ¬ b.Joins e) : b.linkOf? e = none := by
  refine Option.eq_none_iff_forall_ne_some.2 fun (column, l) hfound => h ?_
  obtain ⟨line, hline⟩ := linkOf?_eq_some_iff.1 hfound
  exact ⟨line, column, l, hline⟩

/-- The scan finds what joins the ends of an edge, except on directives and with a keyword in
front. -/
theorem scans_iff : b.Scans e ↔
    b.Joins e ∧ Line.isDirective (b.line e.line.toNat) = false ∧
      Keyword.isKeyword e.source = false := by
  constructor
  · rintro ⟨f, hf, hsource, htarget, hline⟩
    obtain ⟨i, line, hi, hedge⟩ := mem_edges.1 hf
    obtain ⟨hplain, column, l, hlink, hname, rfl⟩ := edgeOn?_eq_some_iff.1 hedge
    have hplace : e.line = i := hline.symm
    refine ⟨⟨line, column, l, lineAt?_eq_some_iff.2 ⟨i, hplace, hi⟩, hlink, hsource, htarget⟩, ?_,
      hsource ▸ hname⟩
    rwa [hplace, Int.toNat_natCast, line_eq_of_getElem? hi]
  · rintro ⟨⟨line, column, l, hline, hlink, hsource, htarget⟩, hplain, hname⟩
    obtain ⟨i, hplace, hi⟩ := lineAt?_eq_some_iff.1 hline
    rw [hplace, Int.toNat_natCast, line_eq_of_getElem? hi] at hplain
    have hedge : edgeOn? line i = some (l.edge i) :=
      edgeOn?_eq_some_iff.2 ⟨hplain, column, l, hlink, hsource ▸ hname, rfl⟩
    exact ⟨l.edge i, mem_edges.2 ⟨i, line, hi, hedge⟩, hsource, htarget, hplace.symm⟩

/-- Without the line of a joined edge a text is another one. -/
theorem toText_deleteEdge_ne {t : Text} (h : (ofText t).Joins e) :
    ((ofText t).deleteEdge e).toText ≠ t := by
  obtain ⟨line, column, l, hline, hlink, hends⟩ := h
  have hfound : (ofText t).linkOf? e = some (column, l) :=
    linkOf?_eq_some_iff.2 ⟨line, hline, hlink, hends⟩
  obtain ⟨i, hplace, hi⟩ := lineAt?_eq_some_iff.1 hline
  have hlt : i < (ofText t).length := (List.getElem?_eq_some_iff.1 hi).1
  rw [deleteEdge, hfound, hplace, Int.toNat_natCast]
  intro same
  by_cases hnil : (ofText t).eraseIdx i = []
  · -- the only line of the text is not empty, for it shows a link
    rw [hnil] at same
    obtain rfl : t = [] := same.symm
    have hempty : ofText [] = [[]] := rfl
    rw [hempty] at hi hlt
    obtain rfl : i = 0 := by simpa using hlt
    obtain rfl : [] = line := Option.some.inj hi
    cases hlink
  · have hlines : ofText t = (ofText t).eraseIdx i := by
      conv => lhs; rw [← same]
      exact ofText_toText hnil fun line hmem =>
        not_mem_of_mem_ofText (List.mem_of_mem_eraseIdx hmem)
    have hlength := congrArg List.length hlines
    rw [List.length_eraseIdx_of_lt hlt] at hlength
    omega

end Buffer

namespace Command

open Buffer

variable {t t' : Text} {e : Edge} {c : Command}

/-- An edge that is out of date leaves the text as it is, whatever is to be done with it. -/
theorem run_of_not_joins (hc : c.edge? = some e) (h : ¬ (ofText t).Joins e) : c.run t = .ok t := by
  have hnone := linkOf?_eq_none h
  cases c with
  | deleteEdge f | relabelEdge f label =>
    cases hc
    simp [run, onLines, Buffer.deleteEdge, Buffer.relabelEdge, hnone]
  | rearrowEdge f arrow =>
    cases hc
    simp [run, onLinesNamed, rearrowEdge?, hnone]
  | _ => cases hc

/-- An edit of an edge that changes the text has found the edge joined on its line. The edits of an
edge act on it only where the scan finds it if and only if its line, where it joins the ends, is no
directive and its source no keyword. -/
theorem edits_scanned_iff (t : Text) (e : Edge) :
    (∀ c t', c.edge? = some e → run t c = .ok t' → t' ≠ t → (ofText t).Joins e) ∧
    ((∀ c t', c.edge? = some e → run t c = .ok t' → t' ≠ t → (ofText t).Scans e) ↔
      ((ofText t).Joins e →
        Line.isDirective ((ofText t).line e.line.toNat) = false ∧
          Keyword.isKeyword e.source = false)) := by
  have hjoins : ∀ c t', c.edge? = some e → run t c = .ok t' → t' ≠ t → (ofText t).Joins e := by
    intro c t' hc hrun changed
    refine Classical.byContradiction fun hstale => ?_
    rw [run_of_not_joins hc hstale, Except.ok.injEq] at hrun
    exact changed hrun.symm
  refine ⟨hjoins, fun hlaw hjoined => ?_, fun hplain c t' hc hrun changed => ?_⟩
  · exact (scans_iff.1 (hlaw (.deleteEdge e) _ rfl rfl (toText_deleteEdge_ne hjoined))).2
  · have hjoined := hjoins c t' hc hrun changed
    exact scans_iff.2 ⟨hjoined, hplain hjoined⟩

/-- An edge that was commented out, and one whose source is a keyword, are found by no scan and
edited all the same. -/
theorem edits_unscanned :
    (ofText "%% A --> B".toList).edges = [] ∧ (ofText "end --> B".toList).edges = [] ∧
    run "%% A --> B".toList (.deleteEdge ⟨['A'], ['B'], [], .plain, 0⟩) = .ok [] ∧
    run "%% A --> B".toList (.relabelEdge ⟨['A'], ['B'], [], .plain, 0⟩ ['l']) =
      .ok "%% A -->|l| B".toList ∧
    run "%% A --> B".toList (.rearrowEdge ⟨['A'], ['B'], [], .plain, 0⟩ "==>".toList) =
      .ok "%% A ==> B".toList ∧
    run "end --> B".toList (.deleteEdge ⟨"end".toList, ['B'], [], .plain, 0⟩) = .ok [] :=
  ⟨by decide, by decide, rfl, rfl, rfl, rfl⟩

end Command
end Chartwright
