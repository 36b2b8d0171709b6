import Chartwright.Edit.Command
import Chartwright.Proofs.Buffer.Joined
import Chartwright.Proofs.Buffer.View
import Chartwright.Proofs.Line.OpeningText
/-!
What another title for a subgraph changes.

The first line that opens a subgraph under the identifier is given the title. It opens under the
identifier still and shows nothing else, so the scan for subgraphs runs as before, but for the title
of what is opened on that line (`Subgraph.Nesting.retitle_stepOn`, `Buffer.subgraphs_retitle`). The
subgraph that is meant by the identifier is the first one that is closed. If the first line that
opens one is never closed, then another line is rewritten than the one of the subgraph, and nothing
shows (`Buffer.retitleSubgraph_isRetitled`, `Buffer.keeps_title_of_unclosed`).
-/
namespace Chartwright

/-! ## The scan with another title -/

namespace Line.View

variable {i k : Nat} {title : Text} {v : View}

/-- The view of line `k` with another title, if it is line `i`. -/
def retitle (i : Nat) (title : Text) (v : View) (k : Nat) : View :=
  if k = i then { v with heading := v.heading.map fun (id, _) => (id, title) } else v

@[simp] theorem retitle_declared : (v.retitle i title k).declared = v.declared := by
  rw [retitle]; split <;> rfl

@[simp] theorem retitle_refers : (v.retitle i title k).refers = v.refers := by
  rw [retitle]; split <;> rfl

@[simp] theorem retitle_identifiers : (v.retitle i title k).identifiers = v.identifiers := by
  rw [retitle]; split <;> rfl

@[simp] theorem retitle_edge : (v.retitle i title k).edge = v.edge := by rw [retitle]; split <;> rfl

@[simp] theorem retitle_style : (v.retitle i title k).style = v.style := by
  rw [retitle]; split <;> rfl

@[simp] theorem retitle_opens : (v.retitle i title k).opens = v.opens := by
  rw [retitle]; split <;> rfl

@[simp] theorem retitle_closes : (v.retitle i title k).closes = v.closes := by
  rw [retitle]; split <;> rfl

end Line.View

namespace Subgraph

variable {i : Nat} {title : Text}

/-- A subgraph with another title, if it opens on line `i`. -/
def retitle (i : Nat) (title : Text) (g : Subgraph) : Subgraph :=
  if g.opening = i then { g with title := title } else g

/-- An open subgraph with another title, if it opens on line `i`. -/
def Frame.retitle (i : Nat) (title : Text) (f : Frame) : Frame :=
  if f.opening = i then { f with head := f.head.map fun (id, _) => (id, title) } else f

/-- What the scan has found, with another title for what opens on line `i`. -/
def Nesting.retitle (i : Nat) (title : Text) (s : Nesting) : Nesting where
  frames := s.frames.map (Frame.retitle i title)
  closed := s.closed.map (Subgraph.retitle i title)

theorem Frame.close?_retitle (f : Frame) (j : Nat) :
    (f.retitle i title).close? j = (f.close? j).map (Subgraph.retitle i title) := by
  obtain ⟨head, opening, members⟩ := f
  simp only [Frame.retitle, Frame.close?, Option.map_map]
  cases head with
  | none => split <;> rfl
  | some head => split <;> simp [Subgraph.retitle, *]

theorem Frame.retitle_add (f : Frame) (names : List Text) :
    Frame.retitle i title { f with members := f.members ++ names } =
      { f.retitle i title with members := (f.retitle i title).members ++ names } := by
  simp only [Frame.retitle]
  split <;> rfl

/-- One line of the scan, with the title in its view. -/
theorem Nesting.retitle_stepOn (s : Nesting) (v : Line.View) (k : Nat) :
    (s.stepOn (v, k)).retitle i title = (s.retitle i title).stepOn (v.retitle i title k, k) := by
  obtain ⟨frames, closed⟩ := s
  simp only [Nesting.stepOn, Line.View.retitle_opens, Line.View.retitle_closes,
    Line.View.retitle_identifiers]
  cases v.opens with
  | true =>
    have hframe : Frame.retitle i title ⟨v.heading, k, []⟩ =
        ⟨(v.retitle i title k).heading, k, []⟩ := by
      simp only [Frame.retitle, Line.View.retitle]
      split <;> rfl
    simp [Nesting.retitle, hframe]
  | false =>
    cases frames with
    | nil => cases v.closes <;> rfl
    | cons f rest =>
      cases v.closes with
      | true =>
        simp only [Nesting.retitle, Bool.false_eq_true, if_false, if_true, List.map_cons,
          List.map_append, Frame.close?_retitle]
        cases f.close? k <;> rfl
      | false => simp [Nesting.retitle, Frame.retitle_add]

end Subgraph

namespace Buffer

variable {b b' : Buffer} {id title : Text} {g : Subgraph} {i : Nat} {line' rest : Line}
  {o : Opening}

/-! ## The entities of the buffer -/

theorem views_set (hview : Line.view line' = (Line.view (b.line i)).retitle i title i) :
    views (b.set i line') = b.views.map fun p => (p.1.retitle i title p.2, p.2) := by
  rw [views, views, List.map_set, hview]
  refine List.ext_getElem? fun k => ?_
  rw [List.getElem?_zipIdx, List.getElem?_map, List.getElem?_zipIdx, List.getElem?_set,
    List.getElem?_map]
  by_cases hk : i = k
  · subst hk
    by_cases hlt : i < b.length
    · simp [hlt, Buffer.line]
    · simp [hlt]
  · have hother : ∀ v : Line.View, v.retitle i title k = v := fun v => if_neg (Ne.symm hk)
    simp [hk, hother, Function.comp_def]

section Titled

variable (hviews : b'.views = b.views.map fun p => (p.1.retitle i title p.2, p.2))

include hviews

/-- The subgraph that opens on the line has the title, and the others are as before. -/
theorem subgraphs_retitle : b'.subgraphs = b.subgraphs.map (Subgraph.retitle i title) := by
  have hfold : b.views.foldl (fun s p => s.stepOn (p.1.retitle i title p.2, p.2))
      (Subgraph.Nesting.retitle i title {}) =
      (b.views.foldl Subgraph.Nesting.stepOn {}).retitle i title :=
    List.foldl_hom _ fun s p => (s.retitle_stepOn p.1 p.2).symm
  rw [subgraphs_eq, subgraphs_eq b, hviews, List.foldl_map, List.map_reverse]
  exact congrArg (fun s : Subgraph.Nesting => s.closed.reverse) hfold

theorem nodes_retitle : b'.nodes = b.nodes := by
  have hdeclared : b'.declaredNodes = b.declaredNodes := by
    rw [declaredNodes_eq, declaredNodes_eq b, hviews, List.flatMap_map]
    exact List.flatMap_congr fun p _ => by rw [Line.View.retitle_declared]
  have hreferred : b'.referredNodes = b.referredNodes := by
    rw [referredNodes_eq, referredNodes_eq b, hviews, List.flatMap_map]
    exact List.flatMap_congr fun p _ => by rw [Line.View.retitle_refers]
  rw [nodes, nodes, hdeclared, hreferred]

theorem edges_retitle : b'.edges = b.edges := by
  rw [edges_eq, edges_eq b, hviews, List.filterMap_map]
  exact List.filterMap_congr fun p _ => by rw [Function.comp_apply, Line.View.retitle_edge]

theorem styles_retitle : b'.styles = b.styles := by
  have hread : ∀ c : Buffer, (c.map Line.view).mapM Line.View.style = c.views.mapM fun p =>
      p.1.style := by
    intro c
    conv => lhs; rw [← List.zipIdx_map_fst 0 (c.map Line.view), List.mapM_map]
    rfl
  rw [styles_eq_mapM, styles_eq_mapM b, hread, hread, hviews, List.mapM_map]
  simp only [Function.comp_def, Line.View.retitle_style]

end Titled

/-! ## The line that is rewritten -/

/-- A line opens a subgraph under an identifier. -/
def opensAs (id : Text) (line : Line) : Bool := (Opening.read? line).any fun (o, _) => o.id = id

/-- A line before line `n` opens a subgraph under an identifier. -/
def openedBefore (b : Buffer) (id : Text) (n : Nat) : Bool := (b.take n).any (opensAs id)

theorem opensAs_iff {line : Line} :
    opensAs id line = true ↔ ∃ o rest, Opening.read? line = some (o, rest) ∧ o.id = id := by
  rw [opensAs, Option.any_eq_true]
  simp

theorem opensAs_opening (hg : g ∈ b.subgraphs) : opensAs g.id (b.line g.opening) = true := by
  obtain ⟨o, rest, hread, hid, -⟩ := read?_opening hg
  exact opensAs_iff.2 ⟨o, rest, hread, hid.symm⟩

theorem openedBefore_eq_true_iff {n : Nat} (hn : n ≤ b.length) :
    b.openedBefore id n = true ↔ ∃ i < n, opensAs id (b.line i) = true := by
  rw [openedBefore, List.any_eq_true]
  constructor
  · rintro ⟨line, hmem, hopens⟩
    obtain ⟨i, hi⟩ := List.mem_iff_getElem?.1 hmem
    rw [List.getElem?_take, Option.ite_none_right_eq_some] at hi
    exact ⟨i, hi.1, by rwa [Buffer.line, hi.2]⟩
  · rintro ⟨i, hi, hopens⟩
    have hlt := Nat.lt_of_lt_of_le hi hn
    rw [Buffer.line, List.getElem?_eq_getElem hlt] at hopens
    exact ⟨b[i], List.mem_take_iff_getElem.2 ⟨i, by omega, rfl⟩, hopens⟩

/-- The first line that opens a subgraph under the identifier is given the title. -/
theorem retitleSubgraph_eq {n : Nat} (hn : n < b.length) (h : opensAs id (b.line n) = true)
    (title : Text) :
    ∃ i ≤ n, ∃ o rest, Opening.read? (b.line i) = some (o, rest) ∧ o.id = id ∧
      b.openedBefore id i = false ∧
        b.retitleSubgraph id title = b.set i (o.retitle title (b.line i)) := by
  have hiff : ∀ line, (((Opening.read? line).map (·.1)).filter fun o => o.id = id) = none ↔
      opensAs id line = false := by
    intro line
    rw [opensAs]
    cases Opening.read? line with
    | none => simp
    | some found => simp [Option.filter]
  have hline := getElem?_eq_line hn
  rw [retitleSubgraph]
  cases hfirst : b.first? fun line => ((Opening.read? line).map (·.1)).filter fun o =>
    o.id = id with
  | none =>
    rw [first?, List.findSome?_eq_none_iff] at hfirst
    have hnone := hfirst (b.line n, n) (List.mem_zipIdx_iff_getElem?.2 hline)
    rw [Option.map_eq_none_iff, hiff, h] at hnone
    cases hnone
  | some found =>
    obtain ⟨i, o⟩ := found
    obtain ⟨front, line, back, rfl, rfl, hfront, hread⟩ := first?_eq_some_iff.1 hfirst
    obtain ⟨hread, hid⟩ := Option.filter_eq_some_iff.1 hread
    obtain ⟨⟨o', rest⟩, hopening, rfl⟩ := Option.map_eq_some_iff.1 hread
    have hnone : ∀ line ∈ front, opensAs id line = false :=
      fun line hmem => (hiff line).1 (hfront line hmem)
    refine ⟨front.length,
      Nat.le_of_not_lt fun hlt => ?_, o', rest, ?_, of_decide_eq_true hid, ?_, rfl⟩
    · rw [List.getElem?_append_left hlt] at hline
      rw [hnone _ (List.mem_of_getElem? hline)] at h
      cases h
    · rw [line_append_cons, hopening]
    · rw [openedBefore, List.take_left, List.any_eq_false]
      simpa using hnone

/-! ## The edit -/

/-- What a buffer is after a title has been given to the subgraph `g`, which is meant by an
identifier. Nodes, edges and styles are as before. So are the other subgraphs, and `g` but for the
title. It has the title unless an earlier line opens a subgraph under the identifier, which then is
never closed: in that case `g` is as before too. -/
structure IsRetitled (id title : Text) (g : Subgraph) (b b' : Buffer) : Prop where
  nodes : b'.nodes = b.nodes
  edges : b'.edges = b.edges
  styles : b'.styles = b.styles
  retitled : b.openedBefore id g.opening = false →
    b'.subgraphs = b.subgraphs.map fun h => if h = g then { h with title := title } else h
  missed : b.openedBefore id g.opening = true → b'.subgraphs = b.subgraphs
  unclosed : ∀ i < g.opening, opensAs id (b.line i) = true → ∀ j, ¬ Matches b i j
  found : b'.subgraph? id = some { g with title := title } ↔ b.openedBefore id g.opening = false ∨
      g.title = title

theorem not_matches_of_opensAs (hg : b.subgraph? id = some g) (hi : i < g.opening)
    (h : opensAs id (b.line i) = true) (j : Nat) : ¬ Matches b i j := by
  intro hmatch
  obtain ⟨-, -, hfirst⟩ := subgraph?_eq_some_iff.1 hg
  obtain ⟨o, rest, hread, hid⟩ := opensAs_iff.1 h
  obtain ⟨k, hk, rfl, -⟩ := exists_mem_subgraphs_iff.2 ⟨hmatch, by rw [hread]; rfl⟩
  obtain ⟨o', rest', hread', hkid, -⟩ := read?_opening hk
  rw [hread] at hread'
  cases hread'
  exact absurd (hfirst k hk (hkid.trans hid)) (Nat.not_le.2 hi)

theorem subgraph?_retitled (hg : b.subgraph? id = some g)
    (hsame : b'.subgraphs = b.subgraphs.map fun h =>
    if h = g then { h with title := title } else h) :
    b'.subgraph? id = some { g with title := title } := by
  obtain ⟨hmem, hid, hfirst⟩ := subgraph?_eq_some_iff.1 hg
  rw [subgraph?_eq_some_iff, hsame]
  refine ⟨List.mem_map.2 ⟨g, hmem, if_pos rfl⟩, hid, fun k hk hkid => ?_⟩
  obtain ⟨h, hh, rfl⟩ := List.mem_map.1 hk
  by_cases heq : h = g
  · rw [if_pos heq, heq]
  · rw [if_neg heq] at hkid ⊢
    exact hfirst h hh hkid

theorem views_retitle (hread : Opening.read? (b.line i) = some (o, rest)) (htitle : ']' ∉ title) :
    views (b.set i (o.retitle title (b.line i))) = b.views.map fun p =>
      (p.1.retitle i title p.2, p.2) := by
  obtain ⟨o', hread', hid', hcaption⟩ := Opening.read?_retitle hread htitle
  refine views_set ?_
  rw [Line.view_of_opening hread, Line.view_of_opening hread', hid', hcaption, Line.View.retitle,
    if_pos rfl]
  rfl

theorem map_retitle_opening (hg : g ∈ b.subgraphs) (title : Text) :
    b.subgraphs.map (Subgraph.retitle g.opening title) =
      b.subgraphs.map fun h => if h = g then { h with title := title } else h := by
  refine List.map_congr_left fun h hh => ?_
  have hiff : h.opening = g.opening ↔ h = g := ⟨eq_of_opening hh hg, congrArg _⟩
  simp only [Subgraph.retitle, hiff]

theorem map_retitle_unmatched (h : ∀ j, ¬ Matches b i j) (title : Text) :
    b.subgraphs.map (Subgraph.retitle i title) = b.subgraphs := by
  have hother : ∀ g ∈ b.subgraphs, Subgraph.retitle i title g = g := by
    intro g hg
    refine if_neg ?_
    rintro rfl
    exact h _ (matches_of_mem_subgraphs hg)
  rw [List.map_congr_left hother, List.map_id']

/-- The line that is rewritten is that of the subgraph, or none opens on it that is closed. -/
theorem isRetitled_retitleSubgraph (hg : b.subgraph? id = some g) (htitle : ']' ∉ title) :
    IsRetitled id title g b (b.retitleSubgraph id title) := by
  have hunclosed := fun i hi => not_matches_of_opensAs (i := i) hg hi
  obtain ⟨hmem, rfl, -⟩ := subgraph?_eq_some_iff.1 hg
  have hlt := lt_length_of_opens (matches_of_mem_subgraphs hmem).opens
  obtain ⟨i, hle, o, rest, hread, hid, hnone, hedit⟩ :=
    retitleSubgraph_eq hlt (opensAs_opening hmem) title
  have hopens : opensAs g.id (b.line i) = true := opensAs_iff.2 ⟨o, rest, hread, hid⟩
  have hviews := views_retitle hread htitle
  have hsubgraphs := subgraphs_retitle hviews
  rw [hedit]
  have hretitled : b.openedBefore g.id g.opening = false →
      subgraphs (b.set i (o.retitle title (b.line i))) =
      b.subgraphs.map fun h => if h = g then { h with title := title } else h := by
    intro hbefore
    obtain rfl : i = g.opening := by
      refine Nat.le_antisymm hle (Nat.le_of_not_lt fun hearlier => ?_)
      rw [(openedBefore_eq_true_iff (Nat.le_of_lt hlt)).2 ⟨i, hearlier, hopens⟩] at hbefore
      cases hbefore
    exact hsubgraphs.trans (map_retitle_opening hmem title)
  have hmissed : b.openedBefore g.id g.opening = true →
      subgraphs (b.set i (o.retitle title (b.line i))) = b.subgraphs := by
    intro hbefore
    have hearlier : i < g.opening := by
      refine Nat.lt_of_le_of_ne hle ?_
      rintro rfl
      rw [hnone] at hbefore
      cases hbefore
    exact hsubgraphs.trans (map_retitle_unmatched (hunclosed i hearlier hopens) title)
  refine ⟨nodes_retitle hviews, edges_retitle hviews, styles_retitle hviews, hretitled, hmissed,
    hunclosed, ?_⟩
  cases hbefore : b.openedBefore g.id g.opening with
  | false => simp [subgraph?_retitled hg (hretitled hbefore)]
  | true =>
    have hsame : subgraph? (b.set i (o.retitle title (b.line i))) g.id = some g := by
      rw [subgraph?, hmissed hbefore]
      exact hg
    rw [hsame, Option.some.injEq]
    constructor
    · exact fun heq => .inr (congrArg Subgraph.title heq)
    · rintro (hfalse | rfl)
      · cases hfalse
      · rfl

theorem lineFeed_not_mem_retitleSubgraph (h : ∀ line ∈ b, '\n' ∉ line) (htitle : '\n' ∉ title) :
    ∀ line ∈ b.retitleSubgraph id title, '\n' ∉ line := by
  unfold retitleSubgraph
  split
  · exact h
  · next i o hfirst =>
    obtain ⟨front, line, back, rfl, rfl, -, hread⟩ := first?_eq_some_iff.1 hfirst
    obtain ⟨⟨o', rest⟩, hopening, rfl⟩ :=
      Option.map_eq_some_iff.1 (Option.filter_eq_some_iff.1 hread).1
    intro l hl
    rcases List.mem_or_eq_of_mem_set hl with hl | rfl
    · exact h l hl
    · rw [line_append_cons]
      exact Opening.lineFeed_not_mem_retitle hopening
        (h line (List.mem_append_right _ List.mem_cons_self)) htitle

/-- A title without a closing bracket is given to the first line that opens a subgraph under the
identifier. So the subgraph has it if and only if its line is the first, or it had it before;
nothing else changes. -/
theorem retitleSubgraph_isRetitled {t : Text} (hg : (ofText t).subgraph? id = some g)
    (htitle : ']' ∉ title) (hline : '\n' ∉ title) :
    ∃ t', Command.run t (.retitleSubgraph id title) = .ok t' ∧
      IsRetitled id title g (ofText t) (ofText t') := by
  have hlines : ∀ line ∈ (ofText t).retitleSubgraph id title, '\n' ∉ line :=
    lineFeed_not_mem_retitleSubgraph (fun line hline => not_mem_of_mem_ofText hline) hline
  refine ⟨_, rfl, ?_⟩
  have hretitled := isRetitled_retitleSubgraph hg htitle
  obtain ⟨hnodes, hedges, hsubgraphs, hstyles⟩ := alike_ofText_toText hlines
  rw [Command.onLines]
  refine ⟨hnodes.trans hretitled.nodes, hedges.trans hretitled.edges,
    hstyles.trans hretitled.styles,
    fun h => hsubgraphs.trans (hretitled.retitled h), fun h =>
      hsubgraphs.trans (hretitled.missed h), hretitled.unclosed, ?_⟩
  rw [subgraph?, hsubgraphs]
  exact hretitled.found

/-- The subgraph has half a title behind its identifier, a later one is opened under the same
identifier, and it lies in one that is never closed. -/
theorem retitleSubgraph_isRetitled_of_half :
    let t := "subgraph U\nsubgraph G [x\nA --> B[b]\nend\nsubgraph G [g]\nend".toList
    let g := Subgraph.mk "G".toList "G".toList ["A".toList, "B".toList] 1 3
    (ofText t).subgraph? "G".toList = some g ∧ ']' ∉ "a --> b".toList ∧ '\n' ∉ "a --> b".toList ∧
      ∃ t', Command.run t (.retitleSubgraph "G".toList "a --> b".toList) = .ok t' ∧
        IsRetitled "G".toList "a --> b".toList g (ofText t) (ofText t') := by
  intro t g
  have hg : (ofText t).subgraph? "G".toList = some g := by decide +kernel
  exact ⟨hg, by decide, by decide, retitleSubgraph_isRetitled hg (by decide) (by decide)⟩

/-- The title goes to a line that opens a subgraph which is never closed, and the one that is meant
keeps its own. -/
theorem keeps_title_of_unclosed :
    let t := "subgraph G\nsubgraph G\nend".toList
    ∃ t', Command.run t (.retitleSubgraph "G".toList "x".toList) = .ok t' ∧
      t' = "subgraph G[x]\nsubgraph G\nend".toList ∧
      (ofText t).subgraph? "G".toList = some ⟨"G".toList, "G".toList, [], 1, 2⟩ ∧
      (ofText t').subgraph? "G".toList = some ⟨"G".toList, "G".toList, [], 1, 2⟩ := by
  intro t
  exact ⟨"subgraph G[x]\nsubgraph G\nend".toList, by decide +kernel, rfl, by decide +kernel, by
    decide +kernel⟩

end Buffer
end Chartwright
