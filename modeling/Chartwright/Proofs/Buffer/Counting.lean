import Chartwright.Buffer.Summary
import Chartwright.Proofs.Buffer.EdgeEnds
import Chartwright.Proofs.Buffer.LongInteger
import Mathlib.Algebra.GroupWithZero.Nat
import Mathlib.Data.List.Find
import Mathlib.Data.List.Nodup
/-!
What a summary says of its buffer.

Edges are counted one after the other into a table of the nodes, and an edge may name ends that are
no nodes. What one edge adds is told by how many edges there are so far (`Connections.count_map`),
so in the end each node has the numbers of edges that lead to it and away from it
(`Connections.table_eq`). The list of the most connected nodes is cut before the nodes without edges
are dropped from it. Since it is sorted by then, nothing is lost (`Ranking.filter_take`), and since
the sorting is stable, nodes with the same number of edges stay in order
(`Ranking.pairwise_mergeSort`). So the summary agrees with the scans (`Summary.ofText_describes`),
unless the styles cannot be read; then there is none.
-/
namespace Chartwright

namespace Assoc

variable {κ α : Type} [DecidableEq κ]

theorem sum_put (key : κ) (value : Nat) (entries : List (κ × Nat)) :
    ((put key value entries).map (·.2)).sum + (find? key entries).getD 0 =
      (entries.map (·.2)).sum + value := by
  induction entries with
  | nil => simp [put, find?]
  | cons entry rest ih =>
    obtain ⟨k, v⟩ := entry
    by_cases hk : k = key
    · simp [put, find?, hk]
      omega
    · have hfind : find? key ((k, v) :: rest) = find? key rest := by simp [find?, hk]
      rw [put, if_neg hk, hfind, List.map_cons, List.map_cons, List.sum_cons, List.sum_cons]
      omega

theorem adjust_cons_self (key : κ) (f : α → α) (value : α) (rest : List (κ × α)) :
    adjust key f ((key, value) :: rest) = (key, f value) :: rest := by
  simp [adjust, find?, put]

theorem adjust_cons_of_ne {key k : κ} (h : k ≠ key) (f : α → α) (value : α) (rest : List (κ × α)) :
    adjust key f ((k, value) :: rest) = (k, value) :: adjust key f rest := by
  have hfind : find? key ((k, value) :: rest) = find? key rest := by simp [find?, h]
  rw [adjust, adjust, hfind]
  cases find? key rest with
  | none => rfl
  | some v => simp only [put, if_neg h]

/-- In a table of different keys a change concerns the entry of one key. -/
theorem adjust_map {β : Type} {key : β → κ} {xs : List β} (h : (xs.map key).Nodup) (k : κ)
    (f : α → α) (value : β → α) :
    adjust k f (xs.map fun x => (key x, value x)) =
      xs.map fun x => (key x, if key x = k then f (value x) else value x) := by
  induction xs with
  | nil => rfl
  | cons x rest ih =>
    obtain ⟨hx, hrest⟩ := List.nodup_cons.1 h
    by_cases hk : key x = k
    · subst hk
      rw [List.map_cons, List.map_cons, adjust_cons_self, if_pos rfl]
      congr 1
      apply List.map_congr_left
      intro y hy
      have hne : key y ≠ key x := fun e => hx (e ▸ List.mem_map_of_mem hy)
      rw [if_neg hne]
    · rw [List.map_cons, List.map_cons, adjust_cons_of_ne hk, ih hrest, if_neg hk]

theorem foldl_put {β : Type} {key : β → κ} {value : β → α} {xs : List β} {entries : List (κ × α)}
    (h : (entries.map (·.1) ++ xs.map key).Nodup) :
    xs.foldl (fun entries x => put (key x) (value x) entries) entries =
      entries ++ xs.map fun x => (key x, value x) := by
  induction xs generalizing entries with
  | nil => simp
  | cons x rest ih =>
    have hnew : key x ∉ entries.map (·.1) := fun hmem =>
      (List.nodup_append.1 h).2.2 _ hmem _ List.mem_cons_self rfl
    rw [List.foldl_cons, put_of_not_mem _ hnew, ih (by simpa using h), List.append_assoc]
    rfl

end Assoc

/-! ## Tallies -/

namespace Summary

section Tally

variable {α : Type} [DecidableEq α]

/-- One more occurrence of a key. -/
def tallyOne (counts : List (α × Nat)) (k : α) : List (α × Nat) :=
  Assoc.put k ((Assoc.find? k counts).getD 0 + 1) counts

theorem sum_tallyOne (counts : List (α × Nat)) (k : α) :
    ((tallyOne counts k).map (·.2)).sum = (counts.map (·.2)).sum + 1 := by
  have hput := Assoc.sum_put k ((Assoc.find? k counts).getD 0 + 1) counts
  rw [tallyOne]
  omega

theorem find?_tallyOne (counts : List (α × Nat)) (k j : α) :
    (Assoc.find? j (tallyOne counts k)).getD 0 =
      (Assoc.find? j counts).getD 0 + if k = j then 1 else 0 := by
  by_cases h : k = j
  · subst h
    rw [tallyOne, Assoc.find?_put_self, if_pos rfl, Option.getD_some]
  · rw [tallyOne, Assoc.find?_put_of_ne (Ne.symm h), if_neg h, Nat.add_zero]

theorem sum_foldl_tallyOne (keys : List α) (counts : List (α × Nat)) :
    ((keys.foldl tallyOne counts).map (·.2)).sum = (counts.map (·.2)).sum + keys.length := by
  induction keys generalizing counts with
  | nil => rfl
  | cons k rest ih =>
    rw [List.foldl_cons, ih, sum_tallyOne, List.length_cons]
    omega

theorem find?_foldl_tallyOne (keys : List α) (counts : List (α × Nat)) (j : α) :
    (Assoc.find? j (keys.foldl tallyOne counts)).getD 0 =
      (Assoc.find? j counts).getD 0 + keys.count j := by
  induction keys generalizing counts with
  | nil => rfl
  | cons k rest ih =>
    rw [List.foldl_cons, ih, find?_tallyOne, List.count_cons]
    simp only [beq_iff_eq]
    omega

theorem sum_tally (keys : List α) : ((tally keys).map (·.2)).sum = keys.length :=
  (sum_foldl_tallyOne keys []).trans (Nat.zero_add _)

theorem find?_tally (keys : List α) (j : α) : (Assoc.find? j (tally keys)).getD 0 = keys.count j :=
  (find?_foldl_tallyOne keys [] j).trans (Nat.zero_add _)

end Tally

end Summary

/-! ## Connections -/

namespace Connections

/-- The connections of a node by some edges. An edge from the node to itself counts once in each
direction. -/
def byEdges (edges : List Edge) (n : Node) : Connections where
  id := n.id
  label := n.label
  incoming := edges.countP (·.target = n.id)
  outgoing := edges.countP (·.source = n.id)

variable {nodes : List Node}

theorem addIncoming_if (p : Prop) [Decidable p] (c : Connections) :
    (if p then c.addIncoming else c) = { c with incoming := c.incoming + if p then 1 else 0 } := by
  split <;> rfl

theorem addOutgoing_if (p : Prop) [Decidable p] (c : Connections) :
    (if p then c.addOutgoing else c) = { c with outgoing := c.outgoing + if p then 1 else 0 } := by
  split <;> rfl

/-- What one more edge adds to the table. -/
theorem count_map (h : (nodes.map (·.id)).Nodup) (done : List Edge) (e : Edge) :
    count (nodes.map fun n => (n.id, byEdges done n)) e = nodes.map fun n =>
      (n.id, byEdges (done ++ [e]) n) := by
  rw [count, Assoc.adjust_map h, Assoc.adjust_map h]
  apply List.map_congr_left
  intro n _
  have hin : (done ++ [e]).countP (·.target = n.id) =
      done.countP (·.target = n.id) + if n.id = e.target then 1 else 0 := by
    simp [List.countP_append, List.countP_singleton, eq_comm]
  have hout : (done ++ [e]).countP (·.source = n.id) =
      done.countP (·.source = n.id) + if n.id = e.source then 1 else 0 := by
    simp [List.countP_append, List.countP_singleton, eq_comm]
  simp only [addIncoming_if, addOutgoing_if, byEdges, hin, hout]

theorem foldl_count_map (h : (nodes.map (·.id)).Nodup) (done edges : List Edge) :
    edges.foldl count (nodes.map fun n => (n.id, byEdges done n)) =
      nodes.map fun n => (n.id, byEdges (done ++ edges) n) := by
  induction edges generalizing done with
  | nil => rw [List.append_nil]; rfl
  | cons e rest ih => rw [List.foldl_cons, count_map h, ih, List.append_assoc]; rfl

/-- The entry of each node in the table, in the order of the nodes. -/
theorem table_eq (h : (nodes.map (·.id)).Nodup) (edges : List Edge) :
    table nodes edges = nodes.map fun n => (n.id, byEdges edges n) := by
  have hstart : nodes.foldl (fun table n => Assoc.put n.id (ofNode n) table) [] =
      nodes.map fun n => (n.id, byEdges [] n) := Assoc.foldl_put h
  rw [table, hstart, foldl_count_map h, List.nil_append]

end Connections

/-! ## Ranking -/

namespace Ranking

variable {α : Type} {xs : List α} {weight : α → Nat} {x y : α}

/-- In a list sorted by falling weight those of weight zero come last. -/
theorem filter_take (h : xs.Pairwise fun x y => weight y ≤ weight x) (n : Nat) :
    (xs.take n).filter (fun x => 0 < weight x) = (xs.filter fun x => 0 < weight x).take n := by
  induction xs generalizing n with
  | nil => simp
  | cons x rest ih =>
    obtain ⟨hx, hrest⟩ := List.pairwise_cons.1 h
    cases n with
    | zero => simp
    | succ n =>
      by_cases hpos : 0 < weight x
      · simp [hpos, ih hrest]
      · have hnone : ∀ y ∈ x :: rest, ¬ 0 < weight y := by
          intro y hy
          rcases List.mem_cons.1 hy with rfl | hy
          · exact hpos
          · have := hx y hy
            omega
        have hall : (x :: rest).filter (fun x => 0 < weight x) = [] := by
          simpa [List.filter_eq_nil_iff] using hnone
        rw [hall, List.take_nil, List.filter_eq_nil_iff]
        intro y hy
        simpa using hnone y (List.mem_of_mem_take hy)

theorem sublist_or_sublist (hx : x ∈ xs) (hy : y ∈ xs) (hne : x ≠ y) :
    [x, y].Sublist xs ∨ [y, x].Sublist xs := by
  induction xs with
  | nil => cases hx
  | cons z rest ih =>
    rcases List.mem_cons.1 hx with hfirst | hxrest
    · have hrest : y ∈ rest := (List.mem_cons.1 hy).resolve_left fun e => hne (hfirst.trans e.symm)
      exact .inl (hfirst ▸ List.Sublist.cons_cons _ (List.singleton_sublist.2 hrest))
    · rcases List.mem_cons.1 hy with hfirst | hyrest
      · exact .inr (hfirst ▸ List.Sublist.cons_cons _ (List.singleton_sublist.2 hxrest))
      · exact (ih hxrest hyrest).imp (List.Sublist.cons _) (List.Sublist.cons _)

/-- And without repeats only one of them does. -/
theorem not_sublist_swap (h : xs.Nodup) (hxy : [x, y].Sublist xs) : ¬ [y, x].Sublist xs := by
  induction xs with
  | nil => cases hxy
  | cons z rest ih =>
    obtain ⟨hz, hrest⟩ := List.nodup_cons.1 h
    intro hyx
    cases hxy with
    | cons _ hxy =>
      cases hyx with
      | cons _ hyx => exact ih hrest hxy hyx
      | cons_cons _ hyx => exact hz (hxy.subset (by simp))
    | cons_cons _ hxy =>
      cases hyx with
      | cons _ hyx => exact hz (hyx.subset (by simp))
      | cons_cons _ hyx => exact hz (hyx.subset (by simp))

/-- Sorting by falling weight keeps elements of the same weight in order. -/
theorem pairwise_mergeSort (weight : α → Nat) (h : xs.Nodup) :
    (xs.mergeSort fun x y => decide (weight y ≤ weight x)).Pairwise fun x y =>
      weight y < weight x ∨ weight y = weight x ∧ [x, y].Sublist xs := by
  have htrans : ∀ a b c : α, decide (weight b ≤ weight a) = true →
      decide (weight c ≤ weight b) = true → decide (weight c ≤ weight a) = true := by
    intro a b c hab hbc
    exact decide_eq_true (Nat.le_trans (of_decide_eq_true hbc) (of_decide_eq_true hab))
  have htotal : ∀ a b : α, (decide (weight b ≤ weight a) || decide (weight a ≤ weight b)) =
      true := by
    intro a b
    simpa using Nat.le_total _ _
  have hperm := List.mergeSort_perm xs fun x y => decide (weight y ≤ weight x)
  have hnodup := hperm.nodup_iff.2 h
  have hsorted := List.pairwise_mergeSort htrans htotal xs
  refine List.pairwise_iff_forall_sublist.2 fun {x y} hxy => ?_
  have hle : weight y ≤ weight x :=
    of_decide_eq_true (List.pairwise_iff_forall_sublist.1 hsorted hxy)
  rcases Nat.lt_or_eq_of_le hle with hlt | heq
  · exact .inl hlt
  · refine .inr ⟨heq, ?_⟩
    have hne : x ≠ y := by simpa using hxy.nodup hnodup
    have hx : x ∈ xs := hperm.mem_iff.1 (hxy.subset (by simp))
    have hy : y ∈ xs := hperm.mem_iff.1 (hxy.subset (by simp))
    -- the other order would have been kept
    refine (sublist_or_sublist hx hy hne).resolve_right fun hyx => ?_
    have hkept :=
      List.pair_sublist_mergeSort htrans htotal (decide_eq_true (Nat.le_of_eq heq.symm)) hyx
    exact not_sublist_swap hnodup hxy hkept

end Ranking

/-! ## Summaries -/

namespace Buffer

/-- The number of edges that lead to a name. -/
def incoming (b : Buffer) (id : Text) : Nat := b.edges.countP (·.target = id)

/-- The number of edges that lead away from a name. -/
def outgoing (b : Buffer) (id : Text) : Nat := b.edges.countP (·.source = id)

def degree (b : Buffer) (id : Text) : Nat := b.incoming id + b.outgoing id

/-- A name that no edge leads to or away from. -/
def isOrphan (b : Buffer) (id : Text) : Bool := b.incoming id = 0 && b.outgoing id = 0

/-- A node with its connections, as the scans of the buffer show them. -/
def connections (b : Buffer) (n : Node) : Connections :=
  ⟨n.id, n.label, b.incoming n.id, b.outgoing n.id⟩

/-- The nodes that are no orphans, by falling degree. -/
def ranking (b : Buffer) : List Connections :=
  ((b.nodes.map b.connections).mergeSort fun x y => decide (y.total ≤ x.total)).filter fun c =>
    0 < c.total

variable {b : Buffer}

theorem map_id_connections (b : Buffer) :
    (b.nodes.map b.connections).map (·.id) = b.nodes.map (·.id) := by
  rw [List.map_map]
  rfl

theorem nodup_map_id_nodes (b : Buffer) : (b.nodes.map (·.id)).Nodup := nodup_map_distinctBy ..

theorem nodup_connections (b : Buffer) : (b.nodes.map b.connections).Nodup := by
  refine List.Nodup.of_map (·.id) ?_
  rw [map_id_connections]
  exact b.nodup_map_id_nodes

theorem map_table (b : Buffer) :
    (Connections.table b.nodes b.edges).map (·.2) = b.nodes.map b.connections := by
  rw [Connections.table_eq b.nodup_map_id_nodes, List.map_map]
  rfl

theorem total_pos_iff (n : Node) : 0 < (b.connections n).total ↔ b.isOrphan n.id = false := by
  simp only [connections, Connections.total, isOrphan, Bool.and_eq_false_iff,
    decide_eq_false_iff_not]
  omega

theorem mem_ranking {c : Connections} :
    c ∈ b.ranking ↔ ∃ n ∈ b.nodes, c = b.connections n ∧ 0 < c.total := by
  rw [ranking, List.mem_filter, List.mem_mergeSort, List.mem_map, decide_eq_true_eq]
  constructor
  · rintro ⟨⟨n, hn, rfl⟩, hpos⟩
    exact ⟨n, hn, rfl, hpos⟩
  · rintro ⟨n, hn, rfl, hpos⟩
    exact ⟨⟨n, hn, rfl⟩, hpos⟩

theorem length_ranking (b : Buffer) :
    b.ranking.length = (b.nodes.filter fun n => !b.isOrphan n.id).length := by
  have hperm :=
    List.mergeSort_perm (b.nodes.map b.connections) fun x y => decide (y.total ≤ x.total)
  rw [ranking, (hperm.filter _).length_eq, List.filter_map, List.length_map]
  congr 1
  apply List.filter_congr
  intro n _
  rw [Function.comp_apply, Bool.eq_iff_iff, decide_eq_true_eq, total_pos_iff, Bool.not_eq_true']

theorem pairwise_ranking (b : Buffer) : b.ranking.Pairwise fun c d =>
    d.total < c.total ∨ d.total = c.total ∧ [c.id, d.id].Sublist (b.nodes.map (·.id)) := by
  refine ((Ranking.pairwise_mergeSort Connections.total b.nodup_connections).filter _).imp
    fun {c d} hcd => hcd.imp_right ?_
  rintro ⟨heq, hsub⟩
  exact ⟨heq, b.map_id_connections ▸ hsub.map Connections.id⟩

end Buffer

namespace Summary

/-- What a summary says of a buffer, when it lists `top` of the most connected nodes or all if there
are fewer. -/
structure Describes (s : Summary) (b : Buffer) (top : Nat) : Prop where
  nodes : s.nodes = b.nodes.length
  edges : s.edges = b.edges.length
  shapes : (s.byShape.map (·.2)).sum = s.nodes ∧
    ∀ shape, (Assoc.find? shape s.byShape).getD 0 = (b.nodes.map (·.shape)).count shape
  arrows : (s.byArrow.map (·.2)).sum = s.edges ∧
    ∀ arrow, (Assoc.find? arrow s.byArrow).getD 0 = (b.edges.map (·.arrow)).count arrow
  orphans : s.orphans = (b.nodes.filter fun n => b.isOrphan n.id).map (·.id)
  listed : ∀ c ∈ s.mostConnected, ∃ n ∈ b.nodes, c = b.connections n
  length : s.mostConnected.length = min top (b.nodes.filter fun n => !b.isOrphan n.id).length
  ranked : s.mostConnected.Pairwise fun c d =>
    d.total < c.total ∨ d.total = c.total ∧ [c.id, d.id].Sublist (b.nodes.map (·.id))
  complete : ∀ n ∈ b.nodes, n.id ∉ s.mostConnected.map (·.id) →
      ∀ c ∈ s.mostConnected, b.degree n.id ≤ c.total

variable {t : Text} {top : Nat} {s : Summary}

theorem mostConnected_eq (b : Buffer) (top : Nat) :
    ((leading top (((Connections.table b.nodes b.edges).map (·.2)).mergeSort fun x y =>
      decide (y.total ≤ x.total))).filter fun c => 0 < c.total) = b.ranking.take top := by
  have hsorted := (Ranking.pairwise_mergeSort Connections.total b.nodup_connections).imp
    fun {c d} hcd => hcd.elim Nat.le_of_lt fun h => Nat.le_of_eq h.1
  rw [leading, if_pos (Int.natCast_nonneg top), Int.toNat_natCast, Buffer.map_table]
  exact Ranking.filter_take hsorted top

theorem orphans_eq (b : Buffer) :
    (((Connections.table b.nodes b.edges).map (·.2)).filter fun c => c.total = 0).map (·.id) =
      (b.nodes.filter fun n => b.isOrphan n.id).map (·.id) := by
  rw [Buffer.map_table, List.filter_map, List.map_map]
  have hsame : b.nodes.filter ((fun c : Connections => decide (c.total = 0)) ∘ b.connections) =
      b.nodes.filter fun n => b.isOrphan n.id := by
    apply List.filter_congr
    intro n _
    have hpos := Buffer.total_pos_iff (b := b) n
    cases horphan : b.isOrphan n.id <;> simp [horphan] at hpos ⊢ <;> omega
  rw [hsame]
  rfl

theorem degree_le_of_not_mem {b : Buffer} {n : Node} (hn : n ∈ b.nodes)
    (hout : n.id ∉ (b.ranking.take top).map (·.id)) {c : Connections}
    (hc : c ∈ b.ranking.take top) : b.degree n.id ≤ c.total := by
  rcases Nat.eq_zero_or_pos (b.degree n.id) with hzero | hpos
  · rw [hzero]
    exact Nat.zero_le _
  · have hmem : b.connections n ∈ b.ranking := Buffer.mem_ranking.2 ⟨n, hn, rfl, hpos⟩
    rw [← List.take_append_drop top b.ranking] at hmem
    have hlater : b.connections n ∈ b.ranking.drop top :=
      (List.mem_append.1 hmem).resolve_left fun h => hout (List.mem_map_of_mem h)
    have hpairs := b.pairwise_ranking
    rw [← List.take_append_drop top b.ranking, List.pairwise_append] at hpairs
    exact (hpairs.2.2 c hc _ hlater).elim Nat.le_of_lt fun h => Nat.le_of_eq h.1

theorem describes_of_ofText (h : ofText top t = .ok s) : s.Describes (Buffer.ofText t) top := by
  obtain ⟨styles, -, rfl⟩ : ∃ styles, (Buffer.ofText t).styles = .ok styles ∧ s = _ := by
    cases hstyles : (Buffer.ofText t).styles with
    | error e =>
      simp only [ofText, hstyles] at h
      cases h
    | ok styles =>
      simp only [ofText, hstyles] at h
      exact ⟨styles, rfl, (Except.ok.inj h).symm⟩
  have hmost := mostConnected_eq (Buffer.ofText t) top
  constructor
  case nodes => rfl
  case edges => rfl
  case shapes => exact ⟨(sum_tally _).trans (List.length_map ..), find?_tally _⟩
  case arrows => exact ⟨(sum_tally _).trans (List.length_map ..), find?_tally _⟩
  case orphans => exact orphans_eq _
  case listed =>
    intro c hc
    rw [hmost] at hc
    obtain ⟨n, hn, hcn, -⟩ := Buffer.mem_ranking.1 (List.mem_of_mem_take hc)
    exact ⟨n, hn, hcn⟩
  case length => rw [hmost, List.length_take, Buffer.length_ranking]
  case ranked =>
    rw [hmost]
    exact (Buffer.pairwise_ranking _).sublist (List.take_sublist ..)
  case complete =>
    rw [hmost]
    intro n hn hout c hc
    exact degree_le_of_not_mem hn hout hc

/-- A summary can be made unless the styles cannot be read, and it agrees with the scans. The
connections of a node are the edges that lead to it and away from it, one to itself counted in both
directions. -/
theorem ofText_describes (t : Text) (top : Nat) :
    (∀ long, ofText top t = .error long ↔ (Buffer.ofText t).styles = .error long) ∧
    (∀ s, ofText top t = .ok s → s.Describes (Buffer.ofText t) top) ∧
    (Connections.table (Buffer.ofText t).nodes (Buffer.ofText t).edges).map (·.2) =
      (Buffer.ofText t).nodes.map (Buffer.ofText t).connections := by
  refine ⟨fun long => ?_, fun s => describes_of_ofText, Buffer.map_table _⟩
  rw [ofText]
  cases (Buffer.ofText t).styles with
  | error e =>
    exact ⟨fun h => congrArg Except.error (Except.error.inj h), fun h =>
      congrArg Except.error (Except.error.inj h)⟩
  | ok styles => exact ⟨nofun, nofun⟩

/-- Of three nodes, of which one is linked to itself, only the first of the ranking is listed. -/
theorem ofText_describes_of_loop :
    ∃ s, ofText (1 : Nat) "A --> B\nB --> B\nC[c]".toList = .ok s ∧
      s.Describes (Buffer.ofText "A --> B\nB --> B\nC[c]".toList) 1 ∧
      s.orphans = ["C".toList] ∧ s.mostConnected.length = 1 := by
  have hstyles : (Buffer.ofText "A --> B\nB --> B\nC[c]".toList).styles = .ok [] := by decide
  obtain ⟨s, hs⟩ : ∃ s, ofText (1 : Nat) "A --> B\nB --> B\nC[c]".toList = .ok s := by
    rw [ofText, hstyles]
    exact ⟨_, rfl⟩
  have hdescribes := (ofText_describes "A --> B\nB --> B\nC[c]".toList 1).2.1 s hs
  exact ⟨s, hs, hdescribes, hdescribes.orphans.trans (by decide),
    hdescribes.length.trans (by decide)⟩

/-- Without the styles there is no summary of the nodes and edges either. -/
theorem ofText_error_of_long_integer :
    ofText defaultTop (StyleLine.radiusLine "A".toList 4301) = .error (.reading 4301) := by
  rw [ofText, Buffer.styles_of_long_radius (by decide) (by decide)]
  rfl

end Summary
end Chartwright
