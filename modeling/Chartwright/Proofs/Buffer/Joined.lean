import Chartwright.Proofs.Buffer.Nesting
import Chartwright.Proofs.Buffer.Shown
import Mathlib.Data.List.Forall2
import Mathlib.Order.Monotone.Basic
/-!
The subgraphs of a buffer with one more line.

A line that neither opens nor closes a subgraph adds its identifiers to the subgraph on top of the
stack, the host, and moves the lines behind it (`moved`). The scan is run on both buffers side by
side: behind the line its states differ by this alone (`gains_nesting`), a step keeps them so
(`Subgraph.Nesting.Gains.step`), and in the end the subgraphs do (`forall₂_gains`).
-/
namespace Chartwright

namespace Subgraph

variable {move move' : Nat → Nat} {host : Option Nat} {names : List Text}

/-- A subgraph on moved lines. It has further members if it is the host, which is told by its
opening. -/
structure Gains (move : Nat → Nat) (host : Option Nat) (names : List Text) (g g' : Subgraph) :
    Prop where
  id : g'.id = g.id
  title : g'.title = g.title
  opening : g'.opening = move g.opening
  closing : g'.closing = move g.closing
  members : ∀ name, name ∈ g'.members ↔ name ∈ g.members ∨ (host = some g.opening ∧ name ∈ names)

theorem Gains.trans {other : Option Nat} {g g' g'' : Subgraph} (h : Gains move host names g g')
    (h' : Gains move' other [] g' g'') : Gains (move' ∘ move) host names g g'' where
  id := h'.id.trans h.id
  title := h'.title.trans h.title
  opening := by rw [h'.opening, h.opening, Function.comp_apply]
  closing := by rw [h'.closing, h.closing, Function.comp_apply]
  members name := by
    rw [h'.members, h.members]
    simp

theorem Gains.congr {others : List Text} {g g' : Subgraph} (h : Gains move host names g g')
    (hsame : ∀ name, name ∈ names ↔ name ∈ others) : Gains move host others g g' where
  id := h.id
  title := h.title
  opening := h.opening
  closing := h.closing
  members name := by rw [h.members, hsame]

/-! ## The scan on both buffers -/

/-- An open subgraph on moved lines. -/
structure Frame.Gains (move : Nat → Nat) (host : Option Nat) (names : List Text) (f f' : Frame) :
    Prop where
  head : f'.head = f.head
  opening : f'.opening = move f.opening
  members : ∀ name, name ∈ f'.members ↔ name ∈ f.members ∨ (host = some f.opening ∧ name ∈ names)

namespace Frame.Gains

variable {f f' : Frame}

theorem ofLine {i : Nat} (hhost : host ≠ some i) (line : Line) :
    Gains move host names (Frame.ofLine line i) (Frame.ofLine line (move i)) where
  head := rfl
  opening := rfl
  members name := by simp [Frame.ofLine, hhost]

theorem add (h : Gains move host names f f') (more : List Text) :
    Gains move host names { f with members := f.members ++ more }
      { f' with members := f'.members ++ more } where
  head := h.head
  opening := h.opening
  members name := by
    show name ∈ f'.members ++ more ↔ name ∈ f.members ++ more ∨ _
    rw [List.mem_append, List.mem_append, h.members]
    exact or_right_comm

theorem close? (h : Gains move host names f f') (i : Nat) :
    List.Forall₂ (Subgraph.Gains move host names) (f.close? i).toList
      (f'.close? (move i)).toList := by
  rw [Frame.close?, Frame.close?, h.head]
  cases f.head with
  | none => exact .nil
  | some head =>
    refine .cons ⟨rfl, rfl, h.opening, rfl, fun name => ?_⟩ .nil
    show name ∈ distinct f'.members ↔ name ∈ distinct f.members ∨ _
    rw [mem_distinct_iff, mem_distinct_iff]
    exact h.members name

end Frame.Gains

/-- What the scan has found on both buffers. -/
structure Nesting.Gains (move : Nat → Nat) (host : Option Nat) (names : List Text)
    (s s' : Nesting) : Prop where
  frames : List.Forall₂ (Frame.Gains move host names) s.frames s'.frames
  closed : List.Forall₂ (Subgraph.Gains move host names) s.closed s'.closed

/-- One more line, which is not the one that the host opens on. -/
theorem Nesting.Gains.step {s s' : Nesting} (h : Gains move host names s s') {i : Nat}
    (hhost : host ≠ some i) (line : Line) :
    Gains move host names (s.step (line, i)) (s'.step (line, move i)) := by
  obtain ⟨frames, closed⟩ := s
  obtain ⟨frames', closed'⟩ := s'
  obtain ⟨hframes, hclosed⟩ := h
  simp only at hframes hclosed
  rw [Nesting.step, Nesting.step]
  split
  · exact ⟨.cons (.ofLine hhost line) hframes, hclosed⟩
  · split
    · cases hframes with
      | nil => exact ⟨.nil, hclosed⟩
      | cons hf hrest => exact ⟨hrest, List.rel_append (hf.close? i) hclosed⟩
    · cases hframes with
      | nil => exact ⟨.nil, hclosed⟩
      | cons hf hrest => exact ⟨.cons (hf.add _) hrest, hclosed⟩

end Subgraph

namespace Buffer

/-- The number that a line has once one more line has been put in as line `n`. -/
def moved (n i : Nat) : Nat := if i < n then i else i + 1

theorem strictMono_moved (n : Nat) : StrictMono (moved n) := by
  intro i j hij
  simp only [moved]
  split <;> split <;> omega

variable {b front back : Buffer} {line : Line}

theorem line_moved (front : Buffer) (line : Line) (back : Buffer) (i : Nat) :
    Buffer.line (front ++ line :: back) (moved front.length i) = Buffer.line (front ++ back) i := by
  rw [moved, Buffer.line, Buffer.line]
  split
  · next hlt => rw [List.getElem?_append_left hlt, List.getElem?_append_left hlt]
  · next hge =>
    rw [List.getElem?_append_right (by omega), List.getElem?_append_right (by omega),
      Nat.succ_sub (Nat.not_lt.1 hge), List.getElem?_cons_succ]

/-- What is open or closed before the line stays where it is, and what is on top of the stack
gains. -/
theorem gains_nesting (hopens : Line.opensSubgraph line = false)
    (hcloses : Line.closesSubgraph line = false) (b : Buffer) :
    Subgraph.Nesting.Gains (moved b.length) b.stack.head? line.identifiers b.nesting
      (nesting (b ++ [line])) := by
  have hstays : ∀ i < b.length, i = moved b.length i := fun i hi => (if_pos hi).symm
  obtain ⟨hbound, hfalls⟩ := pairwise_stack b
  have hclosed : ∀ g ∈ b.nesting.closed,
      Subgraph.Gains (moved b.length) b.stack.head? line.identifiers g g := by
    intro g hg
    have hmatch := matches_of_mem_subgraphs (show g ∈ b.subgraphs from List.mem_reverse.2 hg)
    have hopening := lt_length_of_opens hmatch.opens
    have hclosing := lt_length_of_closes hmatch.closes
    refine ⟨rfl, rfl, hstays _ hopening, hstays _ hclosing, fun name => ?_⟩
    -- an opening on the stack matches no line
    have hhost : b.stack.head? ≠ some g.opening := by
      intro htop
      have hmem : g.opening ∈ stack (b.take b.length) := by
        rw [List.take_length]
        exact List.mem_of_mem_head? htop
      exact ((mem_stack_iff (Nat.le_refl _)).1 hmem).2.2 g.closing hclosing hmatch
    simp [hhost]
  rw [nesting_concat, Subgraph.Nesting.step, hopens, hcloses, if_neg Bool.false_ne_true,
    if_neg Bool.false_ne_true]
  rw [stack] at hbound hfalls hclosed ⊢
  cases hframes : b.nesting.frames with
  | nil =>
    rw [hframes] at hclosed
    exact ⟨by rw [hframes]; exact .nil, List.forall₂_same.2 hclosed⟩
  | cons f rest =>
    rw [hframes] at hbound hfalls hclosed
    obtain ⟨hfirst, hlater⟩ := List.forall_mem_cons.1 hbound
    obtain ⟨hbelow, -⟩ := List.pairwise_cons.1 hfalls
    refine ⟨?_, List.forall₂_same.2 hclosed⟩
    rw [hframes]
    refine .cons ⟨rfl, hstays _ hfirst, fun name => ?_⟩ (List.forall₂_same.2 fun g hg => ?_)
    · simp
    · have hopening : g.opening ∈ rest.map (·.opening) := List.mem_map_of_mem hg
      refine ⟨rfl, hstays _ (hlater _ hopening), fun name => ?_⟩
      have hne : f.opening ≠ g.opening := Nat.ne_of_gt (hbelow _ hopening)
      simp [hne]

/-- One more line that neither opens nor closes. -/
theorem forall₂_gains (hopens : Line.opensSubgraph line = false)
    (hcloses : Line.closesSubgraph line = false) (front back : Buffer) :
    List.Forall₂ (Subgraph.Gains (moved front.length) front.stack.head? line.identifiers)
      (front ++ back).subgraphs (front ++ line :: back).subgraphs := by
  have hhost : ∀ i, front.length ≤ i → front.stack.head? ≠ some i := by
    intro i hi htop
    exact absurd ((pairwise_stack front).1 i (List.mem_of_mem_head? htop)) (Nat.not_lt.2 hi)
  have hrun : ∀ (rest : Buffer) (i : Nat) (s s' : Subgraph.Nesting), front.length ≤ i →
      Subgraph.Nesting.Gains (moved front.length) front.stack.head? line.identifiers s s' →
      Subgraph.Nesting.Gains (moved front.length) front.stack.head? line.identifiers
        ((rest.zipIdx i).foldl Subgraph.Nesting.step s)
          ((rest.zipIdx (i + 1)).foldl Subgraph.Nesting.step s') := by
    intro rest
    induction rest with
    | nil => exact fun _ _ _ _ h => h
    | cons l rest ih =>
      intro i s s' hi h
      have hstep := h.step (hhost i hi) l
      rw [moved, if_neg (Nat.not_lt.2 hi)] at hstep
      exact ih (i + 1) _ _ (Nat.le_succ_of_le hi) hstep
  have hfinal := hrun back front.length _ _ (Nat.le_refl _) (gains_nesting hopens hcloses front)
  rw [← nesting_append, nesting_concat] at hfinal
  have hsplit : nesting (front ++ line :: back) =
      (back.zipIdx (front.length + 1)).foldl Subgraph.Nesting.step
        (front.nesting.step (line, front.length)) :=
    nesting_append front (line :: back)
  rw [← hsplit] at hfinal
  exact List.rel_reverse hfinal.closed

theorem forall₂_gains_insertAt (hopens : Line.opensSubgraph line = false)
    (hcloses : Line.closesSubgraph line = false) (b : Buffer) (i : Nat) :
    List.Forall₂ (Subgraph.Gains (moved (b.take i).length)
      (stack (b.take i)).head? line.identifiers) b.subgraphs (subgraphs (b.insertAt i [line])) := by
  have hgains := forall₂_gains hopens hcloses (b.take i) (b.drop i)
  rwa [List.take_append_drop, List.append_cons] at hgains

theorem line_insertAt (b : Buffer) (i : Nat) (line : Line) (k : Nat) :
    Buffer.line (b.insertAt i [line]) (moved (b.take i).length k) = b.line k := by
  have hline := line_moved (b.take i) line (b.drop i) k
  rwa [List.take_append_drop, List.append_cons] at hline

theorem forall₂_gains_trans {move move' : Nat → Nat} {host other : Option Nat} {names : List Text}
    {gs gs' gs'' : List Subgraph} (h : List.Forall₂ (Subgraph.Gains move host names) gs gs')
    (h' : List.Forall₂ (Subgraph.Gains move' other []) gs' gs'') :
    List.Forall₂ (Subgraph.Gains (move' ∘ move) host names) gs gs'' := by
  induction h generalizing gs'' with
  | nil =>
    cases h'
    exact .nil
  | cons hfirst _ ih =>
    cases h' with
    | cons hnext hrest => exact .cons (hfirst.trans hnext) (ih hrest)

/-! ## Which subgraph it is -/

theorem exists_of_mem_right {R : Subgraph → Subgraph → Prop} {gs gs' : List Subgraph}
    (h : List.Forall₂ R gs gs') :
    ∀ g' ∈ gs', ∃ g ∈ gs, R g g' := by
  induction h with
  | nil => exact List.forall_mem_nil _
  | @cons g g' gs gs' hfirst _ ih =>
    refine List.forall_mem_cons.2 ⟨⟨g, List.mem_cons_self, hfirst⟩, fun k hk => ?_⟩
    obtain ⟨l, hl, hrest⟩ := ih k hk
    exact ⟨l, List.mem_cons_of_mem g hl, hrest⟩

theorem eq_of_opening {g h : Subgraph} (hg : g ∈ b.subgraphs) (hh : h ∈ b.subgraphs)
    (heq : g.opening = h.opening) : g = h := by
  obtain ⟨hmatch, hgroup⟩ := mem_subgraphs_iff_matches.1 hg
  obtain ⟨hmatch', hgroup'⟩ := mem_subgraphs_iff_matches.1 hh
  have hclosing : g.closing = h.closing := hmatch.eq_right (heq ▸ hmatch')
  rw [← heq, ← hclosing, hgroup] at hgroup'
  exact Option.some.inj hgroup'

/-- The subgraph that opens first, of one that has been found and another. -/
def earlier? (best : Option Subgraph) (g : Subgraph) : Option Subgraph :=
  match best with
  | none => some g
  | some f => if g.opening < f.opening then some g else some f

/-- What is found opens before all others. -/
theorem foldl_earlier? (f : Subgraph) (gs : List Subgraph) :
    ∃ k ∈ f :: gs, gs.foldl earlier? (some f) = some k ∧ ∀ h ∈ f :: gs, k.opening ≤ h.opening := by
  induction gs generalizing f with
  | nil => exact ⟨f, List.mem_cons_self, rfl, List.forall_mem_singleton.2 (Nat.le_refl _)⟩
  | cons g gs ih =>
    rw [List.foldl_cons, earlier?]
    split
    · next hlt =>
      obtain ⟨k, hk, hfold, hfirst⟩ := ih g
      refine ⟨k, List.mem_cons_of_mem f hk, hfold, List.forall_mem_cons.2 ⟨?_, hfirst⟩⟩
      exact Nat.le_trans (hfirst g List.mem_cons_self) (Nat.le_of_lt hlt)
    · next hge =>
      obtain ⟨k, hk, hfold, hfirst⟩ := ih f
      obtain ⟨hf, hgs⟩ := List.forall_mem_cons.1 hfirst
      refine ⟨k, ?_, hfold, List.forall_mem_cons.2 ⟨hf, List.forall_mem_cons.2 ⟨?_, hgs⟩⟩⟩
      · exact (List.mem_cons.1 hk).elim (fun heq => heq ▸ List.mem_cons_self) fun hmem =>
          List.mem_cons_of_mem f (List.mem_cons_of_mem g hmem)
      · exact Nat.le_trans hf (Nat.not_lt.1 hge)

/-- Of the subgraphs with an identifier the one that opens first is meant. -/
theorem subgraph?_eq_some_iff {id : Text} {g : Subgraph} : b.subgraph? id = some g ↔
    g ∈ b.subgraphs ∧ g.id = id ∧ ∀ h ∈ b.subgraphs, h.id = id → g.opening ≤ h.opening := by
  have hmem : ∀ h, h ∈ b.subgraphs.filter (fun h => h.id = id) ↔ h ∈ b.subgraphs ∧ h.id = id :=
    fun h => by
    rw [List.mem_filter, decide_eq_true_eq]
  have hfold : b.subgraph? id = (b.subgraphs.filter fun h => h.id = id).foldl earlier? none := rfl
  rw [hfold]
  cases hgs : b.subgraphs.filter fun h => h.id = id with
  | nil =>
    constructor
    · intro h
      cases h
    · rintro ⟨hg, hid, -⟩
      have hin := (hmem g).2 ⟨hg, hid⟩
      rw [hgs] at hin
      cases hin
  | cons f gs =>
    obtain ⟨k, hk, hfound, hfirst⟩ := foldl_earlier? f gs
    rw [← hgs] at hk hfirst
    obtain ⟨hk, hkid⟩ := (hmem k).1 hk
    rw [List.foldl_cons, earlier?, hfound, Option.some.injEq]
    constructor
    · rintro rfl
      exact ⟨hk, hkid, fun h hh hid => hfirst h ((hmem h).2 ⟨hh, hid⟩)⟩
    · rintro ⟨hg, hid, hearliest⟩
      exact eq_of_opening hk hg
        (Nat.le_antisymm (hfirst g ((hmem g).2 ⟨hg, hid⟩)) (hearliest k hk hkid))

theorem mem_of_subgraph? {id : Text} {g : Subgraph} (h : b.subgraph? id = some g) :
    g ∈ b.subgraphs :=
  (subgraph?_eq_some_iff.1 h).1

end Buffer
end Chartwright
