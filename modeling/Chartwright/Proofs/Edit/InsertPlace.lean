import Chartwright.Edit.Node
import Chartwright.Proofs.Buffer.Nesting
import Chartwright.Proofs.Line.StrandWithout
/-!
Where a line that links a new node from an anchor is put in.

It goes right behind a line that mentions the anchor, or on the last line of a subgraph that has the
anchor as a member (`placeAfter_cases`). No `end` mentions an anchor, so what is open behind a
mention is what is open around it (`head?_stack_take_succ`), and the line that is put in has the
innermost opening of the mention (`innermost_placeAfter`) or of the subgraph
(`head?_stack_placeAfter`).
-/
namespace Chartwright

/-! ## A word between blanks -/

namespace Identifier

/-- Between characters that are in no identifier only one identifier stands as a whole token. -/
theorem eq_of_standsAt {name word u v x y : Text} (hname : valid name = true)
    (hword : valid word = true) (hu : ∀ c ∈ u, isChar c = false) (hv : ∀ c ∈ v, isChar c = false)
    (hsplit : x ++ y = u ++ (word ++ v)) (h : standsAt name (Text.endOf none x) y = true) :
    name = word := by
  rw [standsAt, Bool.and_eq_true] at h
  obtain ⟨hapart, hbehind⟩ := h
  obtain ⟨rest, hrest, hstops⟩ : ∃ rest, y = name ++ rest ∧ apart rest.head? = true := by
    split at hbehind
    · next rest hafter => exact ⟨rest, Text.after?_eq_some_iff.1 hafter, hbehind⟩
    · cases hbehind
  obtain ⟨c, cs, hc⟩ := List.exists_cons_of_ne_nil (ne_nil_of_valid hname)
  have hy : c ∈ y := by simp [hrest, hc]
  have hchar : isChar c = true := isChar_of_valid hname c (hc ▸ List.mem_cons_self)
  have hwhole : y = word ++ v → name = word := by
    intro heq
    have hrun : (name ++ rest).takeWhile isChar = (word ++ v).takeWhile isChar := by
      rw [← hrest, heq]
    have hborder : Text.Stops isChar v := fun d hd => hv d (List.mem_of_mem_head? hd)
    rwa [Text.takeWhile_append (isChar_of_valid hname) (apart_head?_iff.1 hstops),
      Text.takeWhile_append (isChar_of_valid hword) hborder] at hrun
  rcases List.append_eq_append_iff.1 hsplit with ⟨m, rfl, hback⟩ | ⟨m, rfl, hback⟩
  · -- the token starts before the word
    cases m with
    | nil => exact hwhole hback
    | cons d ds =>
      have hd : c = d := by
        rw [hrest, hc] at hback
        exact (List.cons.inj hback).1
      rw [hd, hu d (by simp)] at hchar
      cases hchar
  · rcases List.append_eq_append_iff.1 hback with ⟨k, rfl, rfl⟩ | ⟨k, rfl, rfl⟩
    · -- it starts behind the word
      rw [hv c (List.mem_append_right k hy)] at hchar
      cases hchar
    · -- it starts in the word, and so with it
      by_cases hm : m = []
      · subst hm
        exact hwhole rfl
      · obtain ⟨d, hd, hend⟩ := Text.endOf_of_ne_nil (Text.endOf none u) hm
        rw [Text.endOf_append, hend, apart, Option.any_some,
          isChar_of_valid hword d (List.mem_append_left k hd)] at hapart
        cases hapart

end Identifier

namespace Line

/-- A line with the word `end` alone mentions nothing else. -/
theorem mention?_of_closesSubgraph {name : Text} {line : Line}
    (hname : Identifier.valid name = true) (hkeyword : Keyword.isKeyword name = false)
    (h : closesSubgraph line = true) : mention? name line = none := by
  obtain ⟨run, hrun, hblank⟩ := exists_of_closesSubgraph h
  have hline : line = Text.blanks line ++ ("end".toList ++ run) := by
    rw [← hrun, Text.blanks_append_trimLeft]
  have hmasked : maskLabels line = line := by
    rw [maskLabels, declarations_of_isDirective (isDirective_of_closesSubgraph h), List.map_nil,
      Text.hide_nil]
  rw [mention?, hmasked, Identifier.mention?, Option.map_eq_none_iff]
  cases hfirst : Text.first?
    (fun before t => if Identifier.standsAt name before t then some () else none) line with
  | none => rfl
  | some found =>
    obtain ⟨x, y, hsplit, -, hread, -⟩ := Text.exists_of_firstFrom hfirst
    have hstands : Identifier.standsAt name (Text.endOf none x) y = true := by
      by_contra hnot
      rw [if_neg hnot] at hread
      cases hread
    have hend : name = "end".toList := Identifier.eq_of_standsAt hname (by decide)
      (fun c hc => Identifier.not_isChar_of_isBlank (Text.isBlank_of_mem_blanks hc))
      (fun c hc => Identifier.not_isChar_of_isBlank (hblank c hc)) (hsplit.symm.trans hline) hstands
    rw [hend] at hkeyword
    exact absurd hkeyword (by decide)

end Line

namespace Buffer

variable {b : Buffer} {id name : Text} {mentioned : List Nat} {g : Subgraph} {i k last : Nat}

/-! ## The subgraph of the anchor -/

theorem mem_numbers_iff {p : Line → Bool} :
    i ∈ b.numbers p ↔ i < b.length ∧ p (b.line i) = true := by
  rw [numbers, List.mem_map]
  constructor
  · rintro ⟨⟨line, j⟩, hmem, rfl⟩
    obtain ⟨hentry, hline⟩ := List.mem_filter.1 hmem
    have hj := List.mem_zipIdx_iff_getElem?.1 hentry
    rw [line_eq_of_getElem? hj]
    exact ⟨(List.getElem?_eq_some_iff.1 hj).1, hline⟩
  · rintro ⟨hi, hline⟩
    exact ⟨(b.line i, i),
      List.mem_filter.2 ⟨List.mem_zipIdx_iff_getElem?.2 (getElem?_eq_line hi), hline⟩, rfl⟩

theorem mem_mentions_iff :
    i ∈ b.mentions name ↔
      i < b.length ∧ Line.isHeader (b.line i) = false ∧
        (Line.mention? name (b.line i)).isSome = true := by
  rw [mentions, mem_numbers_iff, Bool.and_eq_true, Bool.not_eq_true']

theorem laterInside_eq (numbers : List Nat) (g h : Subgraph) :
    laterInside numbers g h = g ∨ laterInside numbers g h = h := by
  rw [laterInside]
  split
  · split
    · exact .inr rfl
    · exact .inl rfl
  · exact .inr rfl
  · exact .inl rfl

theorem foldl_laterInside_mem (numbers : List Nat) (g : Subgraph) (gs : List Subgraph) :
    gs.foldl (laterInside numbers) g ∈ g :: gs := by
  induction gs generalizing g with
  | nil => exact List.mem_cons_self
  | cons h gs ih =>
    rw [List.foldl_cons]
    rcases List.mem_cons.1 (ih (laterInside numbers g h)) with heq | hmem
    · rw [heq]
      rcases laterInside_eq numbers g h with hfirst | hsecond
      · rw [hfirst]
        exact List.mem_cons_self
      · rw [hsecond]
        exact List.mem_cons_of_mem g List.mem_cons_self
    · exact List.mem_cons_of_mem g (List.mem_cons_of_mem h hmem)

theorem mem_innermostFirst : g ∈ innermostFirst (b.subgraphs.filter (·.members.contains id)) ↔
    g ∈ b.subgraphs ∧ id ∈ g.members := by
  rw [innermostFirst, List.mem_mergeSort, List.mem_filter, List.contains_iff_mem]

theorem mem_of_enclosing? (h : b.enclosing? id mentioned = some g) :
    g ∈ b.subgraphs ∧ id ∈ g.members := by
  apply mem_innermostFirst.1
  rw [enclosing?] at h
  split at h
  · cases h
  · next first rest heq =>
    rw [heq]
    split at h
    · next hfind =>
      cases h
      exact List.mem_of_find?_eq_some hfind
    · cases h
      exact foldl_laterInside_mem mentioned first rest

/-- A node that is in no subgraph is a member of none. -/
theorem enclosing?_eq_none_iff :
    b.enclosing? id mentioned = none ↔ ∀ g ∈ b.subgraphs, id ∉ g.members := by
  constructor
  · intro h g hg hmem
    rw [enclosing?] at h
    split at h
    · next hnil =>
      have hin := mem_innermostFirst.2 ⟨hg, hmem⟩
      rw [hnil] at hin
      cases hin
    · split at h <;> cases h
  · intro h
    cases hfound : b.enclosing? id mentioned with
    | none => rfl
    | some g =>
      obtain ⟨hg, hmem⟩ := mem_of_enclosing? hfound
      exact absurd hmem (h g hg)

/-! ## The place -/

theorem mem_of_lastInside? (h : lastInside? g mentioned = some i) : i ∈ mentioned :=
  (List.mem_filter.1 (List.mem_of_getLast? h)).1

/-- The three places where the line can go. -/
theorem placeAfter_cases (b : Buffer) (id : Text) (mentioned : List Nat) (last : Nat) :
    (b.enclosing? id mentioned = none ∧ (b.placeAfter id mentioned last).1 = last + 1) ∨
      ∃ g, b.enclosing? id mentioned = some g ∧
        ((∃ i, lastInside? g mentioned = some i ∧ (b.placeAfter id mentioned last).1 = i + 1) ∨
          (lastInside? g mentioned = none ∧ (b.placeAfter id mentioned last).1 = g.closing)) := by
  rw [placeAfter]
  cases b.enclosing? id mentioned with
  | none => exact .inl ⟨rfl, rfl⟩
  | some g =>
    refine .inr ⟨g, rfl, ?_⟩
    dsimp only
    cases lastInside? g mentioned with
    | none => exact .inr ⟨rfl, rfl⟩
    | some i => exact .inl ⟨i, rfl, rfl⟩

theorem stack_closing (h : g ∈ b.subgraphs) :
    g.closing < b.length ∧ (stack (b.take g.closing)).head? = some g.opening := by
  have hmatch := matches_of_mem_subgraphs h
  exact ⟨lt_length_of_closes hmatch.closes, (matches_iff.1 hmatch).2⟩

theorem placeAfter_le_length (hlast : (b.mentions id).getLast? = some last) :
    (b.placeAfter id (b.mentions id) last).1 ≤ b.length := by
  rcases placeAfter_cases b id (b.mentions id) last with
    ⟨-, hplace⟩ | ⟨g, hfound, ⟨i, hi, hplace⟩ | ⟨-, hplace⟩⟩
  · rw [hplace]
    exact (mem_mentions_iff.1 (List.mem_of_getLast? hlast)).1
  · rw [hplace]
    exact (mem_mentions_iff.1 (mem_of_lastInside? hi)).1
  · rw [hplace]
    exact Nat.le_of_lt (stack_closing (mem_of_enclosing? hfound).1).1

/-- Behind a line that closes nothing the innermost opening is on top of the stack. -/
theorem head?_stack_take_succ (hk : k < b.length) (h : Line.closesSubgraph (b.line k) = false) :
    (stack (b.take (k + 1))).head? = some i ↔ Innermost b i k := by
  have hlength : (b.take k).length = k := by
    rw [List.length_take, Nat.min_eq_left (Nat.le_of_lt hk)]
  rw [innermost_iff hk, take_succ_eq hk, innermost?]
  cases hopens : Line.opensSubgraph (b.line k) with
  | true => rw [stack_of_opens hopens, hlength, if_pos rfl, List.head?_cons]
  | false => rw [stack_of_plain hopens h, if_neg Bool.false_ne_true]

/-- The same behind a line that mentions an identifier, since that is no `end`. -/
theorem head?_stack_mention (hid : Identifier.valid id = true)
    (hname : Keyword.isKeyword id = false) (hk : k ∈ b.mentions id) :
    (stack (b.take (k + 1))).head? = some i ↔ Innermost b i k := by
  obtain ⟨hlt, -, hmention⟩ := mem_mentions_iff.1 hk
  apply head?_stack_take_succ hlt
  rw [Bool.eq_false_iff]
  intro hcloses
  rw [Line.mention?_of_closesSubgraph hid hname hcloses] at hmention
  cases hmention

/-- Without a subgraph of the anchor the line goes into the subgraph around the last mention. -/
theorem innermost_placeAfter (hid : Identifier.valid id = true)
    (hname : Keyword.isKeyword id = false) (hlast : (b.mentions id).getLast? = some last)
    (h : ∀ g ∈ b.subgraphs, id ∉ g.members) :
    (stack (b.take (b.placeAfter id (b.mentions id) last).1)).head? = some i ↔
      Innermost b i last := by
  rcases placeAfter_cases b id (b.mentions id) last with ⟨-, hplace⟩ | ⟨g, hfound, -⟩
  · rw [hplace]
    exact head?_stack_mention hid hname (List.mem_of_getLast? hlast)
  · obtain ⟨hg, hmem⟩ := mem_of_enclosing? hfound
    exact absurd hmem (h g hg)

/-- The line goes into the subgraph of the anchor, if no other is open around the last mention
inside of it. -/
theorem head?_stack_placeAfter (hid : Identifier.valid id = true)
    (hname : Keyword.isKeyword id = false) (hfound : b.enclosing? id (b.mentions id) = some g)
    (h : ∀ k, lastInside? g (b.mentions id) = some k → Innermost b g.opening k) (last : Nat) :
    (stack (b.take (b.placeAfter id (b.mentions id) last).1)).head? = some g.opening := by
  rcases placeAfter_cases b id (b.mentions id) last with
    ⟨hnone, -⟩ | ⟨other, hother, ⟨k, hk, hplace⟩ | ⟨-, hplace⟩⟩
  · rw [hfound] at hnone
    cases hnone
  · obtain rfl : g = other := Option.some.inj (hfound.symm.trans hother)
    rw [hplace]
    exact (head?_stack_mention hid hname (mem_of_lastInside? hk)).2 (h k hk)
  · obtain rfl : g = other := Option.some.inj (hfound.symm.trans hother)
    rw [hplace]
    exact (stack_closing (mem_of_enclosing? hfound).1).2

end Buffer
end Chartwright
