import Chartwright.Proofs.Edit.RemoveMember
import Mathlib.Data.Nat.Find
/-!
What nodes are shown as when one of them is moved into a subgraph or out of it.

A line that holds the node alone tells nothing of other nodes, so these are shown as before. The
node is shown as it is first declared. Only one line that declares it is moved, and it counts before
and after the edit unless it passes, or is passed by, the first of the other lines that declare the
node (`IsFirst`, `or_firstBelow_iff`).
-/
namespace Chartwright

namespace Line

variable {line line' : Line} {node other : Text}

/-- The label and the shape with which a line declares a node, if it does. -/
def declaredAs? (node : Text) (line : Line) : Option (Text × Shape) :=
  ((declares line).find? fun e => e.1 = node).map (·.2)

/-- What a line that holds an arrow shows a node as, if it names it. -/
def referredAs? (node : Text) (line : Line) : Option (Text × Shape) :=
  ((refers line).find? fun e => e.1 = node).map (·.2)

theorem declaredAs?_of_view (h : view line' = view line) (node : Text) :
    declaredAs? node line' = declaredAs? node line := by
  have hsame : (declarations line').map Declaration.content =
      (declarations line).map Declaration.content :=
    congrArg View.declared h
  rw [declaredAs?, declaredAs?, declares_eq_map, declares_eq_map, hsame]

theorem HoldsAlone.referredAs? (h : HoldsAlone node line) (hother : other ≠ node) :
    line.referredAs? other = none := by
  rw [Line.referredAs?, Option.map_eq_none_iff, List.find?_eq_none]
  intro e he
  simpa [h.eq_of_mem_refers he] using Ne.symm hother

theorem declaredAs?_of_trim_eq (hnode : Identifier.valid node = true)
    (hname : Keyword.isKeyword node = false) (h : Text.trim line = node) (other : Text) :
    declaredAs? other line = none := by
  rw [declaredAs?, declares_of_trim_eq hnode hname h]
  rfl

theorem referredAs?_of_trim_eq (hnode : Identifier.valid node = true) (h : Text.trim line = node)
    (other : Text) : referredAs? other line = none := by
  rw [referredAs?, refers_of_trim_eq hnode h]
  rfl

theorem declaredAs?_of_isStandalone (h : Buffer.isStandalone node line = true) :
    (∃ shown, declaredAs? node line = some shown) ∧
      ∀ other ≠ node, declaredAs? other line = none := by
  obtain ⟨d, hd, rfl, -⟩ := isStandalone_iff.1 h
  refine ⟨⟨(d.label, d.bracket.shape), by simp [declaredAs?, declares, hd]⟩, fun other hother => ?_⟩
  simp [declaredAs?, declares, hd, Ne.symm hother]

end Line

namespace Buffer

variable {b b' : Buffer} {bare : List Nat} {id node other : Text} {line : Line} {g : Subgraph}
  {i k n p : Nat}

/-! ## What is shown, line by line -/

theorem shownAs?_eq_findSome? (b : Buffer) (id : Text) :
    b.shownAs? id = (b.findSome? (Line.declaredAs? id)).or (b.findSome? (Line.referredAs? id)) := by
  rw [shownAs?_eq, Option.map_or, List.find?_flatMap, List.find?_flatMap, List.map_findSome?,
    List.map_findSome?]
  rfl

theorem findSome?_without {α : Type} {f : Line → Option α} {doomed : List Nat}
    (h : ∀ k ∈ doomed, f (b.line k) = none) : (b.without doomed).findSome? f = b.findSome? f := by
  rw [← List.head?_filterMap, ← List.head?_filterMap, List.filterMap_eq_flatMap_toList,
    List.filterMap_eq_flatMap_toList, flatMap_without fun k hk _ => by
    rw [h k hk, Option.toList_none]]

theorem PutIn.findSome?_eq {α : Type} {f : Line → Option α} (h : PutIn line b b')
    (hnone : f line = none) : b'.findSome? f = b.findSome? f := by
  rw [← List.head?_filterMap, ← List.head?_filterMap, h.filterMap_eq hnone]

/-! ## The first line that counts -/

section First

variable {α : Type} {F : Nat → Option α}

/-- What is read first on the lines before line `n`, other than line `i`. -/
def firstBelow (F : Nat → Option α) (i n : Nat) : Option α :=
  ((List.range n).filter fun k => k ≠ i).findSome? F

/-- Of the lines other than `i`, line `k` is the first off which something is read. -/
structure IsFirst (F : Nat → Option α) (i k : Nat) : Prop where
  other : k ≠ i
  read : F k ≠ none
  earlier : ∀ m < k, m ≠ i → F m = none

theorem IsFirst.unique (h : IsFirst F i k) (h' : IsFirst F i n) : k = n := by
  rcases Nat.lt_trichotomy k n with hlt | heq | hgt
  · exact absurd (h'.earlier k hlt h.other) h.read
  · exact heq
  · exact absurd (h.earlier n hgt h'.other) h'.read

theorem exists_isFirst (h : ∃ k ≠ i, F k ≠ none) : ∃ k, IsFirst F i k := by
  classical
  obtain ⟨hother, hread⟩ := Nat.find_spec h
  refine ⟨Nat.find h, hother, hread, fun m hm hmi => ?_⟩
  exact Decidable.of_not_not fun hne => Nat.find_min h hm ⟨hmi, hne⟩

theorem firstBelow_succ (F : Nat → Option α) (i n : Nat) :
    firstBelow F i (n + 1) = (firstBelow F i n).or (if n = i then none else F n) := by
  rw [firstBelow, List.range_succ, List.filter_append, List.findSome?_append, firstBelow]
  split
  · next h => simp [h]
  · next h => simp [h]

theorem IsFirst.firstBelow_eq (h : IsFirst F i k) (n : Nat) :
    firstBelow F i n = if k < n then F k else none := by
  induction n with
  | zero => rfl
  | succ n ih =>
    rw [firstBelow_succ, ih]
    rcases Nat.lt_trichotomy k n with hlt | rfl | hgt
    · obtain ⟨x, hx⟩ := Option.ne_none_iff_exists'.1 h.read
      rw [if_pos hlt, if_pos (Nat.lt_succ_of_lt hlt), hx, Option.some_or]
    · rw [if_neg (Nat.lt_irrefl k), if_neg h.other, if_pos (Nat.lt_succ_self k), Option.none_or]
    · have hnone : (if n = i then none else F n) = none :=
        ite_eq_left_iff.2 fun hne => h.earlier n hgt hne
      rw [if_neg (Nat.not_lt_of_gt hgt), if_neg (Nat.not_lt_of_ge hgt), hnone, Option.none_or]

theorem firstBelow_eq_none (h : ∀ k ≠ i, F k = none) (n : Nat) : firstBelow F i n = none := by
  rw [firstBelow, List.findSome?_eq_none_iff]
  exact fun k hk => h k (of_decide_eq_true (List.mem_filter.1 hk).2)

/-- What is read first is the same with line `i` in its place and with it before line `p`, unless
the first of the other lines lies between and tells something else. -/
theorem or_firstBelow_iff (F : Nat → Option α) (i p : Nat) :
    (firstBelow F i p).or (F i) = (firstBelow F i i).or (F i) ↔ ∀ k, IsFirst F i k →
      (i < k ∧ k < p) ∨ (p ≤ k ∧ k < i) → F k = F i := by
  by_cases hread : ∃ k ≠ i, F k ≠ none
  · obtain ⟨k, hk⟩ := exists_isFirst hread
    obtain ⟨x, hx⟩ := Option.ne_none_iff_exists'.1 hk.read
    have hor : (F k).or (F i) = F k := by rw [hx, Option.some_or]
    have hother := hk.other
    have hiff : (∀ n, IsFirst F i n → (i < n ∧ n < p) ∨ (p ≤ n ∧ n < i) → F n = F i) ↔
        ((i < k ∧ k < p) ∨ (p ≤ k ∧ k < i) → F k = F i) :=
      ⟨fun h => h k hk, fun h n hn => hk.unique hn ▸ h⟩
    rw [hk.firstBelow_eq, hk.firstBelow_eq, hiff]
    by_cases hbefore : k < i
    · by_cases hplace : k < p
      · rw [if_pos hplace, if_pos hbefore]
        exact iff_of_true rfl fun hbetween => by omega
      · rw [if_neg hplace, if_pos hbefore, hor, Option.none_or]
        exact ⟨fun heq _ => heq.symm, fun h => (h (.inr ⟨Nat.le_of_not_lt hplace, hbefore⟩)).symm⟩
    · by_cases hplace : k < p
      · rw [if_pos hplace, if_neg hbefore, hor, Option.none_or]
        exact ⟨fun heq _ => heq, fun h => h (.inl ⟨by omega, hplace⟩)⟩
      · rw [if_neg hplace, if_neg hbefore]
        exact iff_of_true rfl fun hbetween => by omega
  · have hnone : ∀ k ≠ i, F k = none :=
      fun k hk => Decidable.of_not_not fun hne => hread ⟨k, hk, hne⟩
    rw [firstBelow_eq_none hnone, firstBelow_eq_none hnone]
    exact iff_of_true rfl fun k hk => absurd (hnone k hk.other) hk.read

end First

/-! ## A line that is moved -/

theorem without_take_eq_map (hn : n ≤ b.length) (doomed : List Nat) :
    without doomed (b.take n) = ((List.range n).filter fun k => k ∉ doomed).map b.line := by
  rw [without_eq_map, List.length_take_of_le hn]
  refine List.map_congr_left fun k hk => ?_
  rw [Buffer.line, Buffer.line,
    List.getElem?_take_of_lt (List.mem_range.1 (List.mem_filter.1 hk).1)]

theorem findSome?_without_take {α : Type} {f : Line → Option α} {doomed : List Nat}
    (hn : n ≤ b.length) (h : ∀ k ∈ doomed, k ≠ i → f (b.line k) = none) (hi : i ∈ doomed ∨ n ≤ i) :
    (without doomed (b.take n)).findSome? f = firstBelow (fun k => f (b.line k)) i n := by
  rw [without_take_eq_map hn, List.findSome?_map, firstBelow, ← List.head?_filterMap,
    ← List.head?_filterMap, List.filterMap_filter, List.filterMap_filter]
  refine congrArg List.head? (List.filterMap_congr fun k hk => ?_)
  have hlt := List.mem_range.1 hk
  by_cases hki : k = i
  · have hgone : k ∈ doomed := hki ▸ hi.resolve_right (by omega)
    simp [hki ▸ hgone, hki]
  · by_cases hgone : k ∈ doomed
    · simp [hki, hgone, h k hgone hki]
    · simp [hki, hgone]

theorem findSome?_append_cons {α : Type} {f : Line → Option α} {x : α} (h : f line = some x)
    (front back : Buffer) :
    (front ++ line :: back).findSome? f = (front.findSome? f).or (some x) := by
  rw [List.findSome?_append, List.findSome?_cons, h]

theorem findSome?_eq_or_firstBelow {α : Type} {f : Line → Option α} {x : α} (hi : i < b.length)
    (h : f (b.line i) = some x) :
    b.findSome? f = (firstBelow (fun k => f (b.line k)) i i).or (some x) := by
  have hsplit : b.take i ++ b.line i :: b.drop (i + 1) = b := by
    rw [List.append_cons, ← take_succ_eq hi, List.take_append_drop]
  have htake :=
    findSome?_without_take (f := f) (Nat.le_of_lt hi) (List.forall_mem_nil _) (.inr (Nat.le_refl i))
  rw [without_nil] at htake
  calc b.findSome? f = (b.take i ++ b.line i :: b.drop (i + 1)).findSome? f := by rw [hsplit]
    _ = (firstBelow (fun k => f (b.line k)) i i).or (some x) := by
      rw [findSome?_append_cons h, htake]

theorem findSome?_moved {α : Type} {f : Line → Option α} {x : α} (hp : p ≤ b.length)
    (hbare : ∀ k ∈ bare, f (b.line k) = none) (h : f line = some x) :
    ((b.without (i :: bare)).insertAt (numberWithout (i :: bare) p) [line]).findSome? f =
      (firstBelow (fun k => f (b.line k)) i p).or (some x) := by
  have hgone : ∀ k ∈ i :: bare, k ≠ i → f (b.line k) = none := fun k hk hki =>
    hbare k ((List.mem_cons.1 hk).resolve_left hki)
  have htake := findSome?_without_take hp hgone (.inl List.mem_cons_self)
  rw [insertAt, take_without hp, List.append_assoc, List.singleton_append,
    findSome?_append_cons h, htake]

/-- What a buffer shows after an edit that moves line `i` before line `p`, if it moves one: other
nodes as before, and the node too, unless the first of the other lines that declare it lies between
and declares it otherwise. -/
structure IsRegrouped (node : Text) (move : Option (Nat × Nat)) (b b' : Buffer) : Prop where
  others : ∀ other ≠ node, b'.shownAs? other = b.shownAs? other
  same : b'.shownAs? node = b.shownAs? node ↔ ∀ i p, move = some (i, p) →
    ∀ k, IsFirst (fun k => Line.declaredAs? node (b.line k)) i k → (i < k ∧ k < p) ∨
      (p ≤ k ∧ k < i) → Line.declaredAs? node (b.line k) = Line.declaredAs? node (b.line i)

theorem IsRegrouped.of_shownAs? (h : ∀ id, b'.shownAs? id = b.shownAs? id) :
    IsRegrouped node none b b' :=
  ⟨fun other _ => h other, iff_of_true (h node) fun _ _ hmove => by cases hmove⟩

section Named

variable (hnode : Identifier.valid node = true) (hname : Keyword.isKeyword node = false)

include hnode hname

theorem isRegrouped_of_moved (hi : i < b.length) (hstands : isStandalone node (b.line i) = true)
    (hbare : ∀ k ∈ bare, Text.trim (b.line k) = node) (hp : p ≤ b.length)
    (hview : Line.view line = Line.view (b.line i)) :
    IsRegrouped node (some (i, p)) b
      ((b.without (i :: bare)).insertAt (numberWithout (i :: bare) p) [line]) := by
  have hput := putIn_insertAt line (b.without (i :: bare)) (numberWithout (i :: bare) p)
  have halone := Line.holdsAlone_of_isStandalone hstands
  obtain ⟨⟨shown, hshown⟩, hnot⟩ := Line.declaredAs?_of_isStandalone hstands
  constructor
  case others =>
    intro other hother
    have hdeclared : ∀ k ∈ i :: bare, Line.declaredAs? other (b.line k) = none :=
      List.forall_mem_cons.2 ⟨hnot other hother, fun k hk =>
        Line.declaredAs?_of_trim_eq hnode hname (hbare k hk) other⟩
    have hreferred : ∀ k ∈ i :: bare, Line.referredAs? other (b.line k) = none :=
      List.forall_mem_cons.2 ⟨halone.referredAs? hother, fun k hk =>
        Line.referredAs?_of_trim_eq hnode (hbare k hk) other⟩
    rw [shownAs?_eq_findSome?, shownAs?_eq_findSome?,
      hput.findSome?_eq ((Line.declaredAs?_of_view hview other).trans
      (hnot other hother)), hput.findSome?_eq ((halone.of_view hview).referredAs? hother),
        findSome?_without hdeclared,
      findSome?_without hreferred]
  case same =>
    have hnone : ∀ k ∈ bare, Line.declaredAs? node (b.line k) = none := fun k hk =>
      Line.declaredAs?_of_trim_eq hnode hname (hbare k hk) node
    have hold := findSome?_eq_or_firstBelow hi hshown
    have hnew :=
      findSome?_moved (i := i) hp hnone ((Line.declaredAs?_of_view hview node).trans hshown)
    have hiff := or_firstBelow_iff (fun k => Line.declaredAs? node (b.line k)) i p
    have hcount : ∀ found rest : Option (Text × Shape),
        (found.or (some shown)).or rest = found.or (some shown) := by
      intro found rest
      cases found <;> rfl
    rw [hshown] at hiff
    rw [shownAs?_eq_findSome?, shownAs?_eq_findSome?, hold, hnew, hcount, hcount, hiff]
    constructor
    · rintro hall j q ⟨⟩ k hk hbetween
      exact (hall k hk hbetween).trans hshown.symm
    · exact fun hall k hk hbetween => (hall i p rfl k hk hbetween).trans hshown

/-! ## The edits -/

theorem isRegrouped_of_mention (hput : PutIn line b b') (htrim : Text.trim line = node) :
    IsRegrouped node none b b' := by
  refine .of_shownAs? fun id => hput.shownAs?_eq ?_ ?_ id
  · exact Line.declares_of_trim_eq hnode hname htrim
  · exact Line.refers_of_trim_eq hnode htrim

theorem isRegrouped_without (hbare : ∀ k ∈ bare, Text.trim (b.line k) = node) :
    IsRegrouped node none b (b.without bare) := by
  refine .of_shownAs? fun id => ?_
  rw [shownAs?_eq_findSome?, shownAs?_eq_findSome?,
    findSome?_without fun k hk => Line.declaredAs?_of_trim_eq hnode hname (hbare k hk) id,
    findSome?_without fun k hk => Line.referredAs?_of_trim_eq hnode (hbare k hk) id]

end Named

/-- The line that is moved when a node is added to a subgraph, and the number of the line before
which it is put. -/
def moveIn? (b : Buffer) (id node : Text) : Option (Nat × Nat) :=
  match b.subgraph? id with
  | none => none
  | some g =>
    if g.members.contains node then none
    else
      match (b.standalone node).filter fun i => !g.spans i with
      | [i] => some (i, g.closing)
      | _ => none

/-- The line that is moved when a node is removed from a subgraph, and the number of the line before
which it is put. -/
def moveOut? (b : Buffer) (id node : Text) : Option (Nat × Nat) :=
  match b.subgraph? id with
  | none => none
  | some g =>
    if g.members.contains node then
      match b.standaloneInside g node with
      | [i] => some (i, g.closing + 1)
      | _ => none
    else none

section Edits

variable (hnode : Identifier.valid node = true) (hname : Keyword.isKeyword node = false)
  (hlines : ∀ line ∈ b, '\n' ∉ line)

include hnode hname hlines

theorem isRegrouped_addMember (id : Text) :
    IsRegrouped node (b.moveIn? id node) b (b.addMember id node) := by
  cases hg : b.subgraph? id with
  | none =>
    rw [moveIn?, addMember, hg]
    exact .of_shownAs? fun _ => rfl
  | some g =>
    by_cases hmem : node ∈ g.members
    · have hin : g.members.contains node = true := List.contains_iff_mem.2 hmem
      rw [moveIn?, addMember, hg]
      dsimp only
      rw [if_pos hin, if_pos hin]
      exact .of_shownAs? fun _ => rfl
    have hout : ¬ g.members.contains node = true := mt List.contains_iff_mem.1 hmem
    have hblank := fun c hc => (blank_of_mem_inside hlines g.opening c hc).1
    rw [moveIn?, hg]
    dsimp only
    rw [if_neg hout]
    rcases addMember_eq hg hmem with ⟨i, hsole, hedit⟩ | ⟨hnone, hedit⟩
    · have hmoved : i ∈ (b.standalone node).filter fun i => !g.spans i :=
        hsole ▸ List.mem_singleton_self i
      obtain ⟨hi, hstands⟩ := mem_numbers_iff.1 (List.mem_filter.1 hmoved).1
      have hplace : g.closing ≤ b.length := Nat.le_of_lt (stack_closing (mem_of_subgraph? hg)).1
      rw [hedit, hsole, eraseIdx_eq_without]
      exact isRegrouped_of_moved hnode hname hi hstands (List.forall_mem_nil _) hplace
        (Line.view_reindent hblank (Line.not_isDirective_of_isStandalone hstands))
    · rw [hedit]
      split
      · next i hsole => exact absurd hsole (hnone i)
      · exact isRegrouped_of_mention hnode hname (putIn_insertAt _ b g.closing)
          (Line.trim_bare hblank hnode)

theorem isRegrouped_removeMember (id : Text) :
    IsRegrouped node (b.moveOut? id node) b (b.removeMember id node) := by
  cases hg : b.subgraph? id with
  | none =>
    rw [moveOut?, removeMember, hg]
    exact .of_shownAs? fun _ => rfl
  | some g =>
    by_cases hmem : node ∈ g.members
    · have hin : g.members.contains node = true := List.contains_iff_mem.2 hmem
      have hblank := fun c hc => (blank_of_mem_indent hlines g.closing c hc).1
      have hbare : ∀ k ∈ b.bareInside g node, Text.trim (b.line k) = node :=
        fun k hk => (mem_bareInside.1 hk).2.2
      rw [moveOut?, hg]
      dsimp only
      rw [if_pos hin]
      rcases removeMember_eq hg hmem with ⟨i, hsole, hedit⟩ | ⟨hnone, hedit⟩
      · obtain ⟨-, hi, hstands⟩ := standalone_of_sole hsole
        have hplace : g.closing + 1 ≤ b.length := (stack_closing (mem_of_subgraph? hg)).1
        rw [hedit, hsole, released_of_sole hsole]
        exact isRegrouped_of_moved hnode hname hi hstands hbare hplace
          (Line.view_reindent hblank (Line.not_isDirective_of_isStandalone hstands))
      · rw [hedit, released_of_not_sole hnone]
        split
        · next i hsole => exact absurd hsole (hnone i)
        · exact isRegrouped_without hnode hname hbare
    · have hout : g.members.contains node = false :=
        Bool.eq_false_iff.2 (mt List.contains_iff_mem.1 hmem)
      rw [moveOut?, removeMember, hg]
      dsimp only
      rw [hout, if_neg Bool.false_ne_true, Bool.not_false, if_pos rfl]
      exact .of_shownAs? fun _ => rfl

end Edits

theorem IsRegrouped.of_alike {move : Option (Nat × Nat)} (h : IsRegrouped node move b b')
    {b'' : Buffer} (halike : Alike b' b'') : IsRegrouped node move b b'' := by
  have hshown : ∀ id, b''.shownAs? id = b'.shownAs? id := fun id => by
    rw [shownAs?, shownAs?, halike.nodes]
  exact ⟨fun other hother =>
    (hshown other).trans (h.others other hother), by rw [hshown]; exact h.same⟩

theorem lineFeed_not_mem_addMember (hlines : ∀ line ∈ b, '\n' ∉ line) (hnode : '\n' ∉ node) :
    ∀ line ∈ b.addMember id node, '\n' ∉ line := by
  intro line hline
  cases hg : b.subgraph? id with
  | none =>
    rw [addMember, hg] at hline
    exact hlines line hline
  | some g =>
    by_cases hmem : node ∈ g.members
    · rw [addMember, hg] at hline
      dsimp only at hline
      rw [if_pos (List.contains_iff_mem.2 hmem)] at hline
      exact hlines line hline
    have hindent : '\n' ∉ Line.indent (b.line g.opening) ++ indentUnit := fun hfeed =>
      (blank_of_mem_inside hlines g.opening _ hfeed).2 rfl
    rcases addMember_eq hg hmem with ⟨i, -, hedit⟩ | ⟨-, hedit⟩
    · rcases mem_insertAt.1 (hedit ▸ hline) with hold | hnew
      · exact hlines line (List.mem_of_mem_eraseIdx hold)
      · rw [List.mem_singleton.1 hnew, List.mem_append, not_or]
        exact ⟨hindent, fun hfeed => lineFeed_not_mem_line hlines i (Text.mem_of_mem_trim hfeed)⟩
    · rcases mem_insertAt.1 (hedit ▸ hline) with hold | hnew
      · exact hlines line hold
      · rw [List.mem_singleton.1 hnew, List.mem_append, not_or]
        exact ⟨hindent, hnode⟩

/-- Adding a node to a subgraph and removing it from one leave all other nodes as they are shown,
and the node too, unless its declaration is moved past the first of the others, which tells
something else. -/
theorem regroup_isRegrouped (t id : Text) (hnode : Identifier.valid node = true)
    (hname : Keyword.isKeyword node = false) :
    (∃ t', Command.run t (.addMember id node) = .ok t' ∧
      IsRegrouped node ((ofText t).moveIn? id node) (ofText t) (ofText t')) ∧
    ∃ t', Command.run t (.removeMember id node) = .ok t' ∧
      IsRegrouped node ((ofText t).moveOut? id node) (ofText t) (ofText t') := by
  have hlines : ∀ line ∈ ofText t, '\n' ∉ line := fun line hline => not_mem_of_mem_ofText hline
  have hfeed : '\n' ∉ node := Identifier.not_mem_of_valid hnode (by decide)
  refine ⟨⟨_, rfl, ?_⟩, _, rfl, ?_⟩
  · have hadded : ∀ line ∈ (ofText t).addMember id node, '\n' ∉ line :=
      lineFeed_not_mem_addMember hlines hfeed
    exact (isRegrouped_addMember hnode hname hlines id).of_alike (alike_ofText_toText hadded)
  · have hremoved : ∀ line ∈ (ofText t).removeMember id node, '\n' ∉ line :=
      lineFeed_not_mem_removeMember hlines
    exact (isRegrouped_removeMember hnode hname hlines id).of_alike (alike_ofText_toText hremoved)

/-- The declaration on the first line is moved in behind another one, and one inside is moved
out. -/
theorem regroup_isRegrouped_of_several :
    let t :=
  "A[one]\nsubgraph G\nB((b))\nB --> C[c]\nsubgraph H\nA(two)\nend\nB{x} --- D\nend".toList
    Identifier.valid "A".toList = true ∧ Keyword.isKeyword "A".toList = false ∧
      (ofText t).moveIn? "G".toList "A".toList = some (0, 8) ∧
      (∃ t', Command.run t (.addMember "G".toList "A".toList) = .ok t' ∧
        IsRegrouped "A".toList ((ofText t).moveIn? "G".toList "A".toList) (ofText t) (ofText t')) ∧
      ∃ t', Command.run t (.removeMember "G".toList "A".toList) = .ok t' ∧
        IsRegrouped "A".toList ((ofText t).moveOut? "G".toList "A".toList) (ofText t)
          (ofText t') := by
  intro t
  exact ⟨by decide, by decide, by decide +kernel,
    regroup_isRegrouped t "G".toList (by decide) (by decide)⟩

/-- A node is shown by another of its declarations after its first one has been moved into a
subgraph, or out of it. -/
theorem redraws_node_declared_twice :
    let outside := "A[one]\nsubgraph G\nsubgraph H\nA(two)\nend\nend".toList
    let inside := "subgraph G\nA[one]\nA(two) --> B\nend".toList
    (∃ t', Command.run outside (.addMember "G".toList "A".toList) = .ok t' ∧
      (ofText outside).shownAs? "A".toList = some ("one".toList, .rectangle) ∧
      (ofText t').shownAs? "A".toList = some ("two".toList, .rounded)) ∧
    ∃ t', Command.run inside (.removeMember "G".toList "A".toList) = .ok t' ∧
      (ofText inside).shownAs? "A".toList = some ("one".toList, .rectangle) ∧
      (ofText t').shownAs? "A".toList = some ("two".toList, .rounded) := by
  intro outside inside
  refine ⟨⟨"subgraph G\nsubgraph H\nA(two)\nend\n    A[one]\nend".toList, ?_⟩,
    "subgraph G\nA(two) --> B\nend\nA[one]".toList, ?_⟩
  · exact ⟨by decide +kernel, by decide +kernel, by decide +kernel⟩
  · exact ⟨by decide +kernel, by decide +kernel, by decide +kernel⟩

end Buffer
end Chartwright
