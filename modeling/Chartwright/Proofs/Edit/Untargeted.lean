import Chartwright.Proofs.Edit.DeleteNode
/-!
What a deletion does to the lines it does not target.

A line is targeted if it sets the style of the node or if a token on it stands for the node. Other
lines are kept as they are and in their order, with one exception: a line of links that mentions the
name at all, be it in a label, is taken apart and put together again. That loses the blanks at its
end, and a line on which a group lists nothing is dropped as if the deletion had emptied the group
(`frays`). Nothing else that is not targeted changes (`deleteNode_untargeted`).
-/
namespace Chartwright

namespace Line

/-- The tokens of all groups on a line, from left to right. -/
def tokens (line : Line) : List Text := (chain? line).elim [] fun k => k.segments.flatMap (·.tokens)

/-- A group on the line lists nothing, as behind an arrow that has no target yet. -/
def isHalfTyped (line : Line) : Bool := (chain? line).any fun k => k.segments.any (·.tokens.isEmpty)

end Line

namespace Buffer

variable {b : Buffer} {id : Text} {line : Line}

/-- The line sets the style of the node, or a token on it stands for the node. -/
def targets (id : Text) (line : Line) : Bool :=
  StyleLine.isFor id line || (Line.tokens line).any (isTokenOf id)

/-- A deletion takes the line apart: it is a line of links, and it mentions the node somewhere,
labels included. -/
def takesApart (id : Text) (line : Line) : Bool :=
  !Line.isDirective line && Line.hasArrow line && (Identifier.mention? id line).isSome &&
    (Line.chain? line).isSome

/-- A deletion takes the line apart and does not put it together as it was. -/
def frays (id : Text) (line : Line) : Bool :=
  takesApart id line && (Line.isHalfTyped line || decide (Text.trimRight line ≠ line))

/-! ## One line -/

theorem not_isFor_of_not_targets (h : targets id line = false) : StyleLine.isFor id line = false :=
  (Bool.or_eq_false_iff.1 h).1

theorem lineWithout_of_not_takesApart (htargets : targets id line = false)
    (h : takesApart id line = false) (i : Nat) : b.lineWithout id line i = ([line], []) := by
  rw [lineWithout, not_isFor_of_not_targets htargets, if_neg (by simp)]
  split
  · rfl
  · next hmentions =>
    cases hchain : Line.chain? line with
    | none => rfl
    | some k =>
      -- every condition of taking the line apart is met
      simp only [Bool.or_eq_true, Bool.not_eq_true', Option.isNone_iff_eq_none, not_or,
        Bool.not_eq_true, Bool.not_eq_false] at hmentions
      obtain ⟨⟨hdirective, harrow⟩, hmention⟩ := hmentions
      have hsome : (Identifier.mention? id line).isSome = true :=
        Option.isSome_iff_ne_none.2 hmention
      rw [takesApart, hdirective, harrow, hsome, hchain] at h
      cases h

theorem exists_chain_of_takesApart (h : takesApart id line = true) :
    ∃ k, Line.chain? line = some k ∧
      (Line.isDirective line || !Line.hasArrow line || (Identifier.mention? id line).isNone) =
        false := by
  simp only [takesApart, Bool.and_eq_true, Bool.not_eq_true'] at h
  obtain ⟨⟨⟨hdirective, harrow⟩, hmention⟩, hchain⟩ := h
  obtain ⟨k, hk⟩ := Option.isSome_iff_exists.1 hchain
  refine ⟨k, hk, ?_⟩
  rw [hdirective, harrow, Option.isNone_eq_false_iff.2 hmention]
  rfl

/-- No token on the line stands for the node, so each group keeps the tokens it lists. -/
theorem isTokenOf_of_not_targets (h : targets id line = false) {k : Chain}
    (hk : Line.chain? line = some k) {s : Segment} (hs : s ∈ k.segments) :
    ∀ token ∈ s.tokens, isTokenOf id token = false := by
  intro token htoken
  have hnone := List.any_eq_false.1 (Bool.or_eq_false_iff.1 h).2
  refine Bool.eq_false_iff.2 (hnone token ?_)
  rw [Line.tokens, hk]
  exact List.mem_flatMap.2 ⟨s, hs, htoken⟩

theorem lineWithout_of_takesApart (htargets : targets id line = false)
    (h : takesApart id line = true) (hlists : Line.isHalfTyped line = false) (i : Nat) :
    b.lineWithout id line i = ([Text.trimRight line], []) := by
  obtain ⟨k, hk, hmentions⟩ := exists_chain_of_takesApart h
  have huntouched : Untouched id line := by
    intro k' hk' s hs
    obtain rfl : k' = k := Option.some.inj (hk'.symm.trans hk)
    refine ⟨fun hnil => ?_, isTokenOf_of_not_targets htargets hk hs⟩
    rw [Line.isHalfTyped, hk, Option.any_some] at hlists
    have hsome := List.any_eq_false.1 hlists s hs
    rw [hnil] at hsome
    exact hsome rfl
  simp only [lineWithout, not_isFor_of_not_targets htargets, hmentions, hk,
    chainWithout?_of_untouched huntouched hk, Bool.false_eq_true, if_false]

/-- A line on which a group lists nothing is dropped. -/
theorem lineWithout_of_isHalfTyped (htargets : targets id line = false)
    (h : takesApart id line = true) (hlists : Line.isHalfTyped line = true) (i : Nat) :
    ∃ k, Line.chain? line = some k ∧ b.lineWithout id line i = ([], b.orphanedBy id i k) := by
  obtain ⟨k, hk, hmentions⟩ := exists_chain_of_takesApart h
  have hnone : chainWithout? id k = none := by
    rw [Line.isHalfTyped, hk, Option.any_some] at hlists
    obtain ⟨s, hs, hempty⟩ := List.any_eq_true.1 hlists
    rw [chainWithout?, if_neg]
    intro hall
    have hleft := List.all_eq_true.1 hall s hs
    rw [tokensLeft, List.isEmpty_iff.1 hempty] at hleft
    cases hleft
  refine ⟨k, hk, ?_⟩
  simp only [lineWithout, not_isFor_of_not_targets htargets, hmentions, hk, hnone,
    Bool.false_eq_true, if_false]

/-- A line that is not targeted is kept as it is if and only if it does not fray. -/
theorem lineWithout_eq_self_iff (htargets : targets id line = false) (i : Nat) :
    b.lineWithout id line i = ([line], []) ↔ frays id line = false := by
  by_cases happart : takesApart id line = true
  · rw [frays, happart, Bool.true_and]
    cases hlists : Line.isHalfTyped line with
    | true =>
      obtain ⟨k, -, hdropped⟩ := lineWithout_of_isHalfTyped (b := b) htargets happart hlists i
      rw [hdropped]
      constructor <;> intro h <;> cases h
    | false =>
      rw [lineWithout_of_takesApart htargets happart hlists, Bool.false_or]
      simp
  · rw [Bool.not_eq_true] at happart
    rw [lineWithout_of_not_takesApart htargets happart, frays, happart]
    simp

/-! ## All lines -/

/-- The lines that a deletion keeps or writes anew. -/
def kept (b : Buffer) (id : Text) : List Line :=
  b.zipIdx.flatMap fun p => (b.lineWithout id p.1 p.2).1

/-- The lines that a deletion adds for declarations whose lines it drops. -/
def restored (b : Buffer) (id : Text) : List Line :=
  b.zipIdx.flatMap fun p => (b.lineWithout id p.1 p.2).2

theorem deleteNode_eq (b : Buffer) (id : Text) :
    b.deleteNode id = insertAfterHeader (b.restored id) (b.kept id) := by
  rw [deleteNode, List.flatMap_map, List.flatMap_map, restored, kept]

theorem sublist_insertAfterHeader (new b : List Line) : b.Sublist (insertAfterHeader new b) := by
  unfold insertAfterHeader
  split
  · next i _ =>
    calc b = b.take (i + 1) ++ b.drop (i + 1) := (List.take_append_drop ..).symm
      List.Sublist _ (b.take (i + 1) ++ new ++ b.drop (i + 1)) :=
        (List.sublist_append_left ..).append (List.Sublist.refl _)
  · exact List.sublist_append_right ..

theorem insertAfterHeader_nil (b : Buffer) : insertAfterHeader [] b = b := by
  unfold insertAfterHeader
  split
  · rw [insertAt, List.append_nil, List.take_append_drop]
  · rfl

theorem filter_sublist_flatMap {p : Line → Bool} {outcome : Line → Nat → List Line}
    {lines : List Line} (n : Nat)
    (h : ∀ line ∈ lines, p line = true → ∀ i, outcome line i = [line]) :
    (lines.filter p).Sublist ((lines.zipIdx n).flatMap fun q => outcome q.1 q.2) := by
  induction lines generalizing n with
  | nil => exact List.Sublist.refl _
  | cons line rest ih =>
    have hrest := ih (n + 1) fun other hother => h other (List.mem_cons_of_mem _ hother)
    rw [List.zipIdx_cons, List.flatMap_cons]
    by_cases hp : p line = true
    · rw [List.filter_cons_of_pos hp, h line List.mem_cons_self hp n]
      exact hrest.cons_cons line
    · rw [List.filter_cons_of_neg hp]
      exact hrest.trans (List.sublist_append_right ..)

theorem sublist_deleteNode (b : Buffer) (id : Text) :
    (b.filter fun line => !targets id line && !frays id line).Sublist (b.deleteNode id) := by
  rw [deleteNode_eq]
  have hkept : ∀ line ∈ b, (!targets id line && !frays id line) = true →
      ∀ i, (b.lineWithout id line i).1 = [line] := by
    intro line _ hline i
    rw [Bool.and_eq_true, Bool.not_eq_true', Bool.not_eq_true'] at hline
    rw [(lineWithout_eq_self_iff hline.1 i).2 hline.2]
  exact (filter_sublist_flatMap 0 hkept).trans (sublist_insertAfterHeader ..)

theorem deleteNode_eq_self (h : ∀ p ∈ b.zipIdx, b.lineWithout id p.1 p.2 = ([p.1], [])) :
    b.deleteNode id = b := by
  let keeps (line : Line) : List Line × List Line := ([line], [])
  have houtcome : (b.zipIdx.map fun p => b.lineWithout id p.1 p.2) = b.map keeps := by
    calc _ = b.zipIdx.map (keeps ·.1) := List.map_congr_left h
      _ = (b.zipIdx.map Prod.fst).map keeps := by rw [List.map_map]; rfl
      _ = b.map keeps := by rw [List.zipIdx_map_fst]
  have hkept : (b.map keeps).flatMap (·.1) = b := by
    rw [List.flatMap_map]; exact List.flatMap_singleton' b
  have hrestored : (b.map keeps).flatMap (·.2) = [] := by
    refine List.flatMap_eq_nil_iff.2 fun outcome h => ?_
    obtain ⟨line, -, rfl⟩ := List.mem_map.1 h
    rfl
  simp only [deleteNode, houtcome, hkept, hrestored, insertAfterHeader_nil]

/-- A deletion keeps a line that it does not target if and only if the line does not fray. Of one
that does it drops the blanks at the end, or all but the declarations to restore if a group on it
lists nothing. All lines that are neither targeted nor frayed are lines of the new text, in their
order, and a text of such lines comes back as it was. -/
theorem deleteNode_untargeted (t id : Text) :
    (∀ i line, (ofText t)[i]? = some line → targets id line = false →
      ((ofText t).lineWithout id line i = ([line], []) ↔ frays id line = false) ∧
      (frays id line = true → Line.isHalfTyped line = false →
        (ofText t).lineWithout id line i = ([Text.trimRight line], [])) ∧
      (frays id line = true → Line.isHalfTyped line = true → ∃ k, Line.chain? line = some k ∧
        (ofText t).lineWithout id line i = ([], (ofText t).orphanedBy id i k))) ∧
    ((ofText t).filter fun line => !targets id line && !frays id line).Sublist
      (ofText (Command.onLines (·.deleteNode id) t)) ∧
    ((∀ line ∈ ofText t, targets id line = false ∧ frays id line = false) →
      Command.onLines (·.deleteNode id) t = t) := by
  refine ⟨fun i line _ htargets => ⟨lineWithout_eq_self_iff htargets i, fun hfrays hlists => ?_,
    fun hfrays hlists => ?_⟩, ?_, fun h => ?_⟩
  · exact lineWithout_of_takesApart htargets (Bool.and_eq_true_iff.1 hfrays).1 hlists i
  · exact lineWithout_of_isHalfTyped htargets (Bool.and_eq_true_iff.1 hfrays).1 hlists i
  · have hsublist := sublist_deleteNode (ofText t) id
    by_cases hnil : (ofText t).deleteNode id = []
    -- without a line in the result there is none to keep
    · rw [hnil, List.sublist_nil] at hsublist
      rw [hsublist]
      exact List.nil_sublist _
    · have hlines : ∀ line ∈ ofText t, '\n' ∉ line := fun line h => not_mem_of_mem_ofText h
      rwa [Command.onLines, ofText_toText hnil (not_mem_deleteNode hlines)]
  · rw [Command.onLines, deleteNode_eq_self, toText_ofText]
    intro p hp
    obtain ⟨htargets, hfrays⟩ := h p.1 (List.fst_mem_of_mem_zipIdx hp)
    exact (lineWithout_eq_self_iff htargets p.2).2 hfrays

/-- Deleting a node that only labels mention. -/
theorem deleteNode_untargeted_of_labels :
    Command.onLines (·.deleteNode "A".toList) "B[A x] --> C\nD[A]".toList =
      "B[A x] --> C\nD[A]".toList :=
  (deleteNode_untargeted "B[A x] --> C\nD[A]".toList "A".toList).2.2 (by decide +kernel)

/-- A deletion changes the text although it targets none of its lines. -/
def AltersUntargeted (t id : Text) : Prop :=
  (∀ line ∈ ofText t, targets id line = false) ∧ Command.onLines (·.deleteNode id) t ≠ t

instance (t id : Text) : Decidable (AltersUntargeted t id) := inferInstanceAs (Decidable (_ ∧ _))

/-- A mention in a label costs a line the blank or the carriage return at its end, and a half-typed
line is dropped. -/
theorem altersUntargeted_of_mention :
    AltersUntargeted "B[A x] --> C ".toList "A".toList ∧
    AltersUntargeted "B[A x] --> C\r\nD".toList "A".toList ∧
    AltersUntargeted "B[A x] -->".toList "A".toList ∧
    AltersUntargeted "B -->|A| C &\t".toList "A".toList ∧
    AltersUntargeted "B -->|A|".toList "A".toList := by
  decide +kernel

end Buffer
end Chartwright
