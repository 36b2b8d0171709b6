import Chartwright.Proofs.Buffer.PlainLines
import Chartwright.Proofs.Edit.InsertNode
import Chartwright.Proofs.Line.LoneNode
/-!
A node that is added to a subgraph.

The line that is put in before the closing line of the subgraph holds the node alone: it neither
opens nor closes anything, links nothing, and names the node (`Line.HoldsAlone`). So it belongs to
the subgraph and makes the node its last member (`subgraph?_insertAt`). A declaration that is moved
in stood alone on its line outside of the subgraph, so taking that line away before changes the
numbers of the lines only (`subgraph?_without`). Since the line behind the new indent shows what it
showed (`Line.view_reindent`), the declaration is the same as before (`addMember_isAdded`).
-/
namespace Chartwright

namespace Buffer

variable {b b' : Buffer} {id name : Text} {line : Line} {g g' : Subgraph} {i k p : Nat}

/-! ## The subgraph without a line outside, and with one line more -/

/-- Without a line outside of a subgraph. -/
theorem subgraph?_without (hplain : Plain b [p]) (hg : b.subgraph? id = some g)
    (hout : g.spans p = false) :
    (b.without [p]).subgraph? id =
      some
        { g with
          opening := numberWithout [p] g.opening
          closing := numberWithout [p] g.closing } := by
  rw [subgraph?_without_plain hplain hg, keptGroup_of_not_spans hplain (mem_of_subgraph? hg)]
  exact List.forall_mem_singleton.2 hout

/-- What stands on the last of rising lines that hold anything comes last. -/
theorem flatMap_last {lines : List Nat} {read : Nat → List Text} (hrise : lines.Pairwise (· < ·))
    (hp : p ∈ lines) (hlater : ∀ k ∈ lines, p < k → read k = []) :
    lines.flatMap read = (lines.filter fun k => k ∉ [p]).flatMap read ++ read p := by
  obtain ⟨before, behind, rfl⟩ := List.append_of_mem hp
  obtain ⟨-, hbehind, hbefore⟩ := List.pairwise_append.1 hrise
  obtain ⟨hbehind, -⟩ := List.pairwise_cons.1 hbehind
  have hkeep : before.filter (fun k => k ∉ [p]) = before := by
    refine List.filter_eq_self.2 fun k hk => ?_
    simpa using Nat.ne_of_lt (hbefore k hk p List.mem_cons_self)
  have hnone : ∀ {ks : List Nat}, (∀ k ∈ ks, read k = []) → ks.flatMap read = [] := by
    intro ks hks
    exact List.flatMap_eq_nil_iff.2 hks
  have hend : ∀ k ∈ behind, read k = [] := fun k hk =>
    hlater k (List.mem_append_right _ (List.mem_cons_of_mem p hk)) (hbehind k hk)
  rw [List.filter_append, hkeep, List.filter_cons_of_neg (by simp), List.flatMap_append,
    List.flatMap_append, List.flatMap_cons, hnone hend, hnone fun k hk =>
      hend k (List.mem_filter.1 hk).1, List.append_nil, List.append_nil]

/-- The node on the last line of a subgraph is its last member, unless it is one without the
line. -/
theorem members_eq_of_last (hg : g ∈ b.subgraphs) (hline : Line.HoldsAlone name (b.line p))
    (hinner : innermost? b p = some g.opening) (hlast : g.closing = p + 1)
    (hnew : name ∉ (keptGroup b [p] g).members) :
    g.members = (keptGroup b [p] g).members ++ [name] := by
  have hmatch := matches_of_mem_subgraphs hg
  have hp : p ∈ linesOf b g.opening := by
    have hclosing := lt_length_of_closes hmatch.closes
    exact List.mem_filter.2 ⟨List.mem_range.2 (by omega), decide_eq_true hinner⟩
  have hlater : ∀ k ∈ linesOf b g.opening, p < k → Line.identifiers (b.line k) = [] := by
    intro k hk hbehind
    obtain ⟨hk, hinner⟩ := List.mem_filter.1 hk
    have hspans := spans_of_innermost? hg (List.mem_range.1 hk) (of_decide_eq_true hinner)
    rw [Subgraph.spans, Bool.and_eq_true, decide_eq_true_eq, decide_eq_true_eq] at hspans
    -- behind the last line there is only the one that closes
    obtain rfl : k = g.closing := by omega
    exact Line.identifiers_of_isDirective (Line.isDirective_of_closesSubgraph hmatch.closes)
  have hall : membersOf b g.opening = keptMembersOf b [p] g.opening ++ [name] := by
    have hrise : (linesOf b g.opening).Pairwise (· < ·) := List.pairwise_lt_range.filter _
    have hplain := plain_singleton hline.opens hline.closes
    rw [membersOf, flatMap_last hrise hp hlater, keptMembersOf_plain hplain, hline.identifiers]
  have hfresh : name ∉ keptMembersOf b [p] g.opening := fun hmem => hnew (mem_distinct hmem)
  rw [members_eq hg, hall, distinct_concat hfresh]
  rfl

/-- A subgraph whose `end` takes the number of a line that is gone closes behind it, and opens
before it. -/
theorem numbers_of_last (hg : g ∈ b.subgraphs) (hcloses : Line.closesSubgraph (b.line p) = false)
    (hlast : numberWithout [p] g.closing = p) :
    g.closing = p + 1 ∧ numberWithout [p] g.opening = g.opening := by
  have hmatch := matches_of_mem_subgraphs hg
  have hordered := hmatch.ordered
  have hne : g.closing ≠ p := by
    rintro rfl
    rw [hmatch.closes] at hcloses
    cases hcloses
  rw [numberWithout_singleton] at hlast ⊢
  split_ifs at hlast ⊢ <;> omega

/-- A line that names a node makes it the last member of the subgraph before whose closing line it
is put in. -/
theorem subgraph?_insertAt (hline : Line.HoldsAlone name line) (hg : b.subgraph? id = some g)
    (hnew : name ∉ g.members) :
    (b.insertAt g.closing [line]).subgraph? id =
      some { g with members := g.members ++ [name], closing := g.closing + 1 } := by
  obtain ⟨hmem, hid, hfirst⟩ := subgraph?_eq_some_iff.1 hg
  obtain ⟨hlt, htop⟩ := stack_closing hmem
  have hle := Nat.le_of_lt hlt
  have hself := line_insertAt_self hle line
  have htake : (b.insertAt g.closing [line]).take g.closing = b.take g.closing := by
    rw [insertAt, List.append_assoc,
      List.take_left' (by rw [List.length_take, Nat.min_eq_left hle])]
  have hwithout := without_insertAt_singleton hle line
  generalize b.insertAt g.closing [line] = b' at hself htake hwithout ⊢
  have hline' : Line.HoldsAlone name (b'.line g.closing) := hself ▸ hline
  have hsubgraphs := subgraphs_without_plain (plain_singleton hline'.opens hline'.closes)
  rw [hwithout] at hsubgraphs
  -- the subgraph is one of the new buffer's without the line
  obtain ⟨g', hg', hkept⟩ := List.mem_map.1 (hsubgraphs ▸ hmem)
  obtain ⟨hclosing, hfront⟩ := numbers_of_last hg' hline'.closes (congrArg Subgraph.closing hkept)
  have hopening : g'.opening = g.opening := hfront.symm.trans (congrArg Subgraph.opening hkept)
  have hinner : innermost? b' g.closing = some g'.opening := by
    rw [innermost?, hline'.opens, if_neg Bool.false_ne_true, htake, htop, hopening]
  have hmembers : g'.members = g.members ++ [name] := by
    rw [members_eq_of_last hg' hline' hinner hclosing (by rwa [hkept]), hkept]
  have hid' : g'.id = g.id := (congrArg Subgraph.id hkept :)
  have htitle : g'.title = g.title := (congrArg Subgraph.title hkept :)
  have hsame : g' = { g with members := g.members ++ [name], closing := g.closing + 1 } := by
    rw [← hid', ← htitle, ← hmembers, ← hopening, ← hclosing]
  rw [← hsame, subgraph?_eq_some_iff]
  refine ⟨hg', hid'.trans hid, fun h hh hhid => ?_⟩
  have hearlier := hfirst (keptGroup b' [g.closing] h) (hsubgraphs ▸ List.mem_map_of_mem hh) hhid
  have hnumber : (keptGroup b' [g.closing] h).opening = _ :=
    numberWithout_singleton g.closing h.opening
  rw [hnumber] at hearlier
  split_ifs at hearlier <;> omega

/-! ## The edit -/

/-- What a buffer is after a node has been added to a subgraph: the node is its last member, and
links are as before. The only declaration of the node that stands alone outside of the subgraph is
moved to the last line of the subgraph, and all others stand inside; without one, or with several,
that line only mentions the node. -/
structure IsAdded (node : Text) (g g' : Subgraph) (b b' : Buffer) : Prop where
  title : g'.title = g.title
  members : g'.members = g.members ++ [node]
  edges : b'.edges.map Edge.unplaced = b.edges.map Edge.unplaced
  relocated : ∀ i, (b.standalone node).filter (fun i => !g.spans i) = [i] →
    b'.eraseIdx (g'.closing - 1) = b.eraseIdx i ∧
      (Line.declarations (b'.line (g'.closing - 1))).map Declaration.content =
        (Line.declarations (b.line i)).map Declaration.content ∧
      b'.declared.Perm b.declared ∧ ∀ k ∈ b'.standalone node, g'.spans k = true
  mentioned : (∀ i, (b.standalone node).filter (fun i => !g.spans i) ≠ [i]) →
    b'.eraseIdx (g'.closing - 1) = b ∧ Text.trim (b'.line (g'.closing - 1)) = node ∧
      b'.declared = b.declared

variable {node : Text}

theorem putIn_eraseIdx (hi : i < b.length) : PutIn (b.line i) (b.eraseIdx i) b := by
  refine ⟨b.take i, b.drop (i + 1), List.eraseIdx_eq_take_drop_succ b i, ?_⟩
  rw [Buffer.line, List.getElem?_eq_getElem hi, Option.getD_some, ← List.drop_eq_getElem_cons hi,
    List.take_append_drop]

theorem PutIn.perm_declared (hput : PutIn line b b') :
    b'.declared.Perm ((Line.declarations line).map Declaration.content ++ b.declared) := by
  obtain ⟨front, back, rfl, rfl⟩ := hput
  have hline : declared (line :: back) = (Line.declarations line).map Declaration.content ++
      declared back :=
    List.flatMap_cons
  rw [declared_append, declared_append, hline]
  exact List.perm_append_comm_assoc ..

theorem links_insertAt (hp : p ≤ b.length) (hline : edgeOn? line 0 = none) :
    links (b.insertAt p [line]) = b.links := by
  have hnone : ∀ k ∈ [p], k < (b.insertAt p [line]).length →
      edgeOn? (Buffer.line (b.insertAt p [line]) k) 0 = none := by
    intro k hk _
    rw [List.mem_singleton.1 hk, line_insertAt_self hp]
    exact hline
  have hlinks := links_without hnone
  rw [without_insertAt_singleton hp] at hlinks
  exact hlinks.symm

/-- All declarations that stand alone are inside once the only one outside is gone. -/
theorem spans_of_moved (hsole : (b.standalone node).filter (fun i => !g.spans i) = [i])
    (hordered : g.opening ≤ g.closing)
    (hg' : g'.opening = numberWithout [i] g.opening ∧ g'.closing = numberWithout [i] g.closing + 1)
    (hb' : b'.without [numberWithout [i] g.closing] = b.without [i]) :
    ∀ k ∈ b'.standalone node, g'.spans k = true := by
  intro k hk
  obtain ⟨hlt, hline⟩ := mem_numbers_iff.1 hk
  have hle := numberWithout_le [i] hordered
  rw [Subgraph.spans, Bool.and_eq_true, decide_eq_true_eq, decide_eq_true_eq, hg'.1, hg'.2]
  by_cases hkp : k = numberWithout [i] g.closing
  · omega
  · -- any other line of the new buffer is one of the old
    have hnot : k ∉ [numberWithout [i] g.closing] := by simpa using hkp
    have hlt' := numberWithout_lt hnot hlt
    rw [← length_without, hb'] at hlt'
    obtain ⟨m, hm, hmi, hnumber, hsame⟩ := exists_of_line_without hlt'
    rw [← hb', line_without hlt hnot] at hsame
    have hspans : g.spans m = true := by
      refine Bool.of_not_eq_false fun hout => hmi ?_
      rw [← hsole]
      exact List.mem_filter.2 ⟨mem_numbers_iff.2 ⟨hm, hsame ▸ hline⟩, by rw [hout]; rfl⟩
    rw [Subgraph.spans, Bool.and_eq_true, decide_eq_true_eq, decide_eq_true_eq] at hspans
    have hfirst := numberWithout_le [i] hspans.1
    have hlast := numberWithout_le [i] hspans.2
    rw [numberWithout_singleton (numberWithout [i] g.closing)] at hnumber
    split_ifs at hnumber <;> omega

/-- The only declaration outside is moved in. -/
theorem isAdded_of_moved {indent : Text} (hindent : ∀ c ∈ indent, Text.isBlank c = true)
    (hg : b.subgraph? id = some g) (hnew : node ∉ g.members)
    (hsole : (b.standalone node).filter (fun i => !g.spans i) = [i]) :
    ∃ g',
      subgraph? (insertAt (numberWithout [i] g.closing) [indent ++ Text.trim (b.line i)]
      (b.eraseIdx i)) id = some g' ∧
        IsAdded node g g' b
        (insertAt (numberWithout [i] g.closing) [indent ++ Text.trim (b.line i)]
        (b.eraseIdx i)) := by
  have hmem : i ∈ (b.standalone node).filter fun i => !g.spans i := by
    rw [hsole]; exact List.mem_singleton_self i
  obtain ⟨hstands, hout⟩ := List.mem_filter.1 hmem
  obtain ⟨hi, hstands⟩ := mem_numbers_iff.1 hstands
  rw [Bool.not_eq_true'] at hout
  have hold := Line.holdsAlone_of_isStandalone hstands
  have hview := Line.view_reindent hindent (Line.not_isDirective_of_isStandalone hstands)
  have hline := hold.of_view hview
  have hremoved := subgraph?_without (plain_singleton hold.opens hold.closes) hg hout
  rw [← eraseIdx_eq_without] at hremoved
  have hfound := subgraph?_insertAt hline hremoved hnew
  have hle : numberWithout [i] g.closing ≤ (b.eraseIdx i).length :=
    Nat.le_of_lt (stack_closing (mem_of_subgraph? hremoved)).1
  have hordered : g.opening ≤ g.closing :=
    Nat.le_of_lt (matches_of_mem_subgraphs (mem_of_subgraph? hg)).ordered
  have hself := line_insertAt_self hle (indent ++ Text.trim (b.line i))
  have hwithout := without_insertAt_singleton hle (indent ++ Text.trim (b.line i))
  refine ⟨_, hfound, rfl, rfl, ?_, ?_, fun hnone => absurd hsole (hnone i)⟩
  · rw [map_unplaced_edges, map_unplaced_edges, links_insertAt hle hline.edge, eraseIdx_eq_without]
    exact links_without fun k hk _ => List.mem_singleton.1 hk ▸ hold.edge
  · intro j hj
    obtain rfl : i = j := (List.cons.inj (hsole.symm.trans hj)).1
    rw [Nat.add_sub_cancel, hself, eraseIdx_eq_without, hwithout]
    refine ⟨rfl, congrArg Line.View.declared hview, ?_, ?_⟩
    · have hout := PutIn.perm_declared (putIn_eraseIdx hi)
      have hin :=
        PutIn.perm_declared (putIn_insertAt (indent ++ Text.trim (b.line i)) (b.eraseIdx i)
        (numberWithout [i] g.closing))
      rw [show (Line.declarations (indent ++ Text.trim (b.line i))).map Declaration.content =
        (Line.declarations (b.line i)).map Declaration.content from congrArg Line.View.declared
          hview] at hin
      exact hin.trans hout.symm
    · exact spans_of_moved hsole hordered ⟨rfl, rfl⟩ (by rw [hwithout, eraseIdx_eq_without])

theorem isAdded_of_mentioned {indent : Text} (hindent : ∀ c ∈ indent, Text.isBlank c = true)
    (hg : b.subgraph? id = some g) (hnode : Identifier.valid node = true)
    (hname : Keyword.isKeyword node = false) (hnew : node ∉ g.members)
    (hnone : ∀ i, (b.standalone node).filter (fun i => !g.spans i) ≠ [i]) :
    ∃ g', subgraph? (b.insertAt g.closing [indent ++ node]) id = some g' ∧
      IsAdded node g g' b (b.insertAt g.closing [indent ++ node]) := by
  have htrim := Line.trim_bare hindent hnode
  have hline := Line.holdsAlone_of_trim_eq hnode hname htrim
  have hle : g.closing ≤ b.length := Nat.le_of_lt (stack_closing (mem_of_subgraph? hg)).1
  refine ⟨_, subgraph?_insertAt hline hg hnew, rfl, rfl, ?_, fun i hi =>
    absurd hi (hnone i), fun _ => ?_⟩
  · rw [map_unplaced_edges, map_unplaced_edges, links_insertAt hle hline.edge]
  · have hdeclares := Line.declared_of_trim_eq hnode hname htrim
    rw [Nat.add_sub_cancel, line_insertAt_self hle, eraseIdx_eq_without,
      without_insertAt_singleton hle, htrim]
    exact ⟨rfl, rfl, (putIn_insertAt (indent ++ node) b g.closing).flatMap_eq hdeclares⟩

/-- The edit, when the subgraph does not have the node as a member. -/
theorem addMember_eq (hg : b.subgraph? id = some g) (hnew : node ∉ g.members) :
    (∃ i, (b.standalone node).filter (fun i => !g.spans i) = [i] ∧ b.addMember id node =
      insertAt (numberWithout [i] g.closing)
        [Line.indent (b.line g.opening) ++ indentUnit ++ Text.trim (b.line i)] (b.eraseIdx i)) ∨
    ((∀ i, (b.standalone node).filter (fun i => !g.spans i) ≠ [i]) ∧ b.addMember id node =
      b.insertAt g.closing [Line.indent (b.line g.opening) ++ indentUnit ++ node]) := by
  rw [addMember, hg]
  dsimp only
  rw [if_neg (by simpa using hnew)]
  split
  · next i hsole =>
    have hplace : (if i < g.closing then g.closing - 1 else g.closing) =
        numberWithout [i] g.closing := by
      rw [numberWithout_singleton]
      split_ifs <;> omega
    rw [hplace]
    exact .inl ⟨i, hsole, rfl⟩
  · next hnone => exact .inr ⟨fun i hi => hnone i hi, rfl⟩

/-- A node that is added to a subgraph is its last member; its declaration is moved in when it
stands alone on one line outside of the subgraph. -/
theorem addMember_isAdded {t : Text} (hg : (ofText t).subgraph? id = some g)
    (hnode : Identifier.valid node = true) (hname : Keyword.isKeyword node = false)
    (hnew : node ∉ g.members) :
    ∃ t', Command.run t (.addMember id node) = .ok t' ∧
      ∃ g', (ofText t').subgraph? id = some g' ∧ IsAdded node g g' (ofText t) (ofText t') := by
  have hlines : ∀ line ∈ ofText t, '\n' ∉ line := fun line hline => not_mem_of_mem_ofText hline
  have hinside := blank_of_mem_inside hlines g.opening
  have hblank := fun c hc => (hinside c hc).1
  have hindent : '\n' ∉ Line.indent ((ofText t).line g.opening) ++ indentUnit :=
    fun hmem => (hinside _ hmem).2 rfl
  refine ⟨_, rfl, ?_⟩
  rw [Command.onLines]
  rcases addMember_eq hg hnew with ⟨i, hsole, hedit⟩ | ⟨hnone, hedit⟩
  · have hline : '\n' ∉ Line.indent ((ofText t).line g.opening) ++ indentUnit ++
        Text.trim ((ofText t).line i) := by
      rw [List.mem_append, not_or]
      exact ⟨hindent, fun hmem => lineFeed_not_mem_line hlines i (Text.mem_of_mem_trim hmem)⟩
    rw [hedit, ofText_toText_insertAt
        (fun line hl => hlines line (List.mem_of_mem_eraseIdx hl)) hline]
    exact isAdded_of_moved hblank hg hnew hsole
  · have hline : '\n' ∉ Line.indent ((ofText t).line g.opening) ++ indentUnit ++ node := by
      rw [List.mem_append, not_or]
      exact ⟨hindent, Identifier.not_mem_of_valid hnode (by decide)⟩
    rw [hedit, ofText_toText_insertAt hlines hline]
    exact isAdded_of_mentioned hblank hg hnode hname hnew hnone

/-- A declaration behind the subgraph, which has another one under the same identifier inside, is
moved in. -/
theorem addMember_isAdded_of_outside :
    let t := "subgraph G [g]\n\tC\nsubgraph G\nend\nend\nB[two] %% b\nB[two]\nsubgraph U".toList
    let g := Subgraph.mk "G".toList "g".toList ["C".toList] 0 4
    (ofText t).subgraph? "G".toList = some g ∧ "B".toList ∉ g.members ∧
      ∃ t', Command.run t (.addMember "G".toList "B".toList) = .ok t' ∧
        ∃ g', (ofText t').subgraph? "G".toList = some g' ∧
          IsAdded "B".toList g g' (ofText t) (ofText t') := by
  intro t g
  have hg : (ofText t).subgraph? "G".toList = some g := by decide +kernel
  have hnew : "B".toList ∉ g.members := by decide
  exact ⟨hg, hnew, addMember_isAdded hg (by decide) (by decide) hnew⟩

end Buffer
end Chartwright
