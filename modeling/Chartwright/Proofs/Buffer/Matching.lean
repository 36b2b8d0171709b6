import Chartwright.Proofs.Line.View
import Mathlib.Data.List.Basic
import Mathlib.Data.List.Induction
/-!
Opening lines and the `end` lines that close them.

An opening line and a closing line match if the lines between them are balanced (`Matches`), and an
opening encloses the lines from itself to the one that it matches, or to the end of the buffer if it
matches none (`Encloses`). Both are said without the stack that the scan for subgraphs keeps. That
stack holds the openings that match no line so far, innermost first (`mem_stack_iff`), a closing
line matches the innermost one (`matches_iff`), and the innermost opening around a line is the line
itself or the top of the stack before it (`innermost_iff`).
-/
namespace Chartwright

namespace Buffer

/-- Lines on which every opening is closed and nothing else is. -/
inductive Balanced : List Line → Prop where
  | nil : Balanced []
  | plain {line : Line} {rest : List Line} (opens : Line.opensSubgraph line = false)
    (closes : Line.closesSubgraph line = false) (later : Balanced rest) : Balanced (line :: rest)
  | group {first last : Line} {inner rest : List Line} (opens : Line.opensSubgraph first = true)
    (closes : Line.closesSubgraph last = true) (inside : Balanced inner) (later : Balanced rest) :
    Balanced (first :: (inner ++ last :: rest))

/-- Line `i` opens, line `j` closes, and the lines between them are balanced. -/
structure Matches (b : Buffer) (i j : Nat) : Prop where
  opens : Line.opensSubgraph (b.line i) = true
  closes : Line.closesSubgraph (b.line j) = true
  ordered : i < j
  balanced : Balanced ((b.take j).drop (i + 1))

/-- Line `i` opens, and line `k` is it or stands behind it, and not behind the line that it
matches. -/
def Encloses (b : Buffer) (i k : Nat) : Prop :=
  Line.opensSubgraph (b.line i) = true ∧ i ≤ k ∧ ∀ j, Matches b i j → k ≤ j

/-- The last opening that encloses line `k`. -/
def Innermost (b : Buffer) (i k : Nat) : Prop := Encloses b i k ∧ ∀ i', Encloses b i' k → i' ≤ i

theorem Balanced.append {x y : List Line} (hx : Balanced x) (hy : Balanced y) :
    Balanced (x ++ y) := by
  induction hx with
  | nil => exact hy
  | plain opens closes _ ih => exact .plain opens closes ih
  | group opens closes inside _ _ ih =>
    rw [List.cons_append, List.append_assoc, List.cons_append]
    exact .group opens closes inside ih

/-! ## The stack -/

/-- What the scan for subgraphs has found on the lines of a buffer. -/
def nesting (b : Buffer) : Subgraph.Nesting := b.zipIdx.foldl Subgraph.Nesting.step {}

/-- The numbers of the openings on the stack at the end of a buffer, innermost first. -/
def stack (b : Buffer) : List Nat := b.nesting.frames.map (·.opening)

variable {b x : Buffer} {line : Line} {i j k n : Nat}

theorem nesting_append (x y : Buffer) :
    nesting (x ++ y) = (y.zipIdx x.length).foldl Subgraph.Nesting.step x.nesting := by
  rw [nesting, List.zipIdx_append, List.foldl_append, Nat.zero_add]
  rfl

theorem nesting_concat (b : Buffer) (line : Line) :
    nesting (b ++ [line]) = b.nesting.step (line, b.length) :=
  nesting_append b [line]

theorem stack_of_opens (h : Line.opensSubgraph line = true) :
    stack (b ++ [line]) = b.length :: b.stack := by
  rw [stack, nesting_concat, Subgraph.Nesting.step, if_pos h]
  rfl

theorem stack_of_closes (h : Line.closesSubgraph line = true) :
    stack (b ++ [line]) = b.stack.tail := by
  rw [stack, stack, nesting_concat, Subgraph.Nesting.step,
    if_neg (by simp [Line.not_opensSubgraph_of_closesSubgraph h]), if_pos h]
  cases hframes : b.nesting.frames with
  | nil => simp [hframes]
  | cons => rfl

theorem stack_of_plain (hopens : Line.opensSubgraph line = false)
    (hcloses : Line.closesSubgraph line = false) : stack (b ++ [line]) = b.stack := by
  rw [stack, stack, nesting_concat, Subgraph.Nesting.step, if_neg (by simp [hopens]),
    if_neg (by simp [hcloses])]
  cases hframes : b.nesting.frames with
  | nil => simp [hframes]
  | cons => rfl

theorem stack_append_of_balanced {w : List Line} (h : Balanced w) (x : Buffer) :
    stack (x ++ w) = stack x := by
  induction h generalizing x with
  | nil => rw [List.append_nil]
  | plain opens closes _ ih => rw [List.append_cons, ih, stack_of_plain opens closes]
  | @group first last inner rest opens closes _ _ hinner hrest =>
    have hsplit : x ++ first :: (inner ++ last :: rest) =
        x ++ [first] ++ inner ++ [last] ++ rest := by simp
    rw [hsplit, hrest, stack_of_closes closes, hinner, stack_of_opens opens, List.tail_cons]

/-- Behind the opening on top of the stack the lines are balanced, and before it the rest of the
stack was there. -/
theorem exists_balanced_of_stack {st : List Nat} (h : b.stack = i :: st) :
    ∃ front opening back, b = front ++ opening :: back ∧ front.length = i ∧
      Line.opensSubgraph opening = true ∧ Balanced back ∧ stack front = st := by
  induction hn : b.length using Nat.strongRecOn generalizing b i st with
  | ind n ih =>
    rcases List.eq_nil_or_concat' b with rfl | ⟨x, line, rfl⟩
    · cases h
    rw [List.length_append, List.length_singleton] at hn
    cases hopens : Line.opensSubgraph line with
    | true =>
      rw [stack_of_opens hopens, List.cons.injEq] at h
      exact ⟨x, line, [], rfl, h.1, hopens, .nil, h.2⟩
    | false =>
      cases hcloses : Line.closesSubgraph line with
      | false =>
        rw [stack_of_plain hopens hcloses] at h
        obtain ⟨front, opening, back, rfl, hi, hopening, hback, hst⟩ := ih x.length (by omega) h rfl
        exact ⟨front, opening, back ++ [line], by simp, hi, hopening,
          hback.append (.plain hopens hcloses .nil), hst⟩
      | true =>
        -- the line closes an inner group, behind which the lines go on to be balanced
        rw [stack_of_closes hcloses] at h
        obtain ⟨inner, hinner⟩ : ∃ inner, stack x = inner :: i :: st := by
          cases hx : stack x with
          | nil => rw [hx] at h; cases h
          | cons inner rest => exact ⟨inner, by rw [hx, List.tail_cons] at h; rw [h]⟩
        obtain ⟨y, first, inside, rfl, -, hfirst, hinside, hy⟩ := ih x.length (by omega) hinner rfl
        obtain ⟨front, opening, back, rfl, hi, hopening, hback, hst⟩ :=
          ih y.length (by rw [List.length_append, List.length_cons] at hn; omega) hy rfl
        refine ⟨front, opening, back ++ first :: (inside ++ [line]), by simp, hi, hopening, ?_, hst⟩
        exact hback.append (.group hfirst hcloses hinside .nil)

/-- The numbers on the stack fall, and all are those of lines. -/
theorem pairwise_stack (b : Buffer) : (∀ i ∈ b.stack, i < b.length) ∧ b.stack.Pairwise (· > ·) := by
  induction b using List.reverseRecOn with
  | nil => exact ⟨List.forall_mem_nil _, .nil⟩
  | append_singleton x line ih =>
    have hlater : ∀ i ∈ stack x, i < (x ++ [line]).length := by
      intro i hi
      have := ih.1 i hi
      rw [List.length_append]
      omega
    cases hopens : Line.opensSubgraph line with
    | true =>
      rw [stack_of_opens hopens]
      exact ⟨List.forall_mem_cons.2 ⟨by simp, hlater⟩, .cons ih.1 ih.2⟩
    | false =>
      cases hcloses : Line.closesSubgraph line with
      | true =>
        rw [stack_of_closes hcloses]
        exact ⟨fun i hi => hlater i (List.mem_of_mem_tail hi), ih.2.tail⟩
      | false =>
        rw [stack_of_plain hopens hcloses]
        exact ⟨hlater, ih.2⟩

/-! ## Matching lines -/

theorem line_append_cons (x : Buffer) (line : Line) (y : Buffer) :
    Buffer.line (x ++ line :: y) x.length = line := by
  simp [Buffer.line]

theorem take_succ_eq (h : n < b.length) : b.take (n + 1) = b.take n ++ [b.line n] := by
  rw [List.take_succ_eq_append_getElem h, Buffer.line, List.getElem?_eq_getElem h]
  rfl

theorem lt_length_of_opens (h : Line.opensSubgraph (b.line i) = true) : i < b.length := by
  refine Nat.lt_of_not_le fun hle => ?_
  rw [Buffer.line, List.getElem?_eq_none hle] at h
  cases h

theorem lt_length_of_closes (h : Line.closesSubgraph (b.line i) = true) : i < b.length := by
  refine Nat.lt_of_not_le fun hle => ?_
  rw [Buffer.line, List.getElem?_eq_none hle] at h
  cases h

/-- A closing line matches the opening on top of the stack. -/
theorem matches_iff :
    Matches b i j ↔ Line.closesSubgraph (b.line j) = true ∧ (stack (b.take j)).head? = some i := by
  constructor
  · intro h
    have hi := lt_length_of_opens h.opens
    have hsplit : b.take j = b.take i ++ [b.line i] ++ (b.take j).drop (i + 1) := by
      rw [← take_succ_eq hi, ← List.take_append_drop (i + 1) (b.take j), List.take_take,
        Nat.min_eq_left h.ordered, List.drop_append_of_le_length (by rw [List.length_take]; omega)]
      simp
    refine ⟨h.closes, ?_⟩
    rw [hsplit, stack_append_of_balanced h.balanced, stack_of_opens h.opens, List.length_take,
      Nat.min_eq_left (Nat.le_of_lt hi)]
    rfl
  · rintro ⟨hcloses, htop⟩
    have hj := lt_length_of_closes hcloses
    obtain ⟨st, hst⟩ : ∃ st, stack (b.take j) = i :: st := by
      cases hs : stack (b.take j) with
      | nil => rw [hs] at htop; cases htop
      | cons top st => exact ⟨st, by rw [hs] at htop; rw [Option.some.inj htop]⟩
    obtain ⟨front, opening, back, hb, rfl, hopens, hback, -⟩ := exists_balanced_of_stack hst
    have hlength : front.length < j := by
      have := congrArg List.length hb
      rw [List.length_take, List.length_append, List.length_cons] at this
      omega
    have hline : b.line front.length = opening := by
      have := line_append_cons front opening back
      rw [← hb] at this
      rwa [Buffer.line, List.getElem?_take_of_lt hlength] at this
    refine ⟨hline ▸ hopens, hcloses, hlength, ?_⟩
    rw [hb, List.append_cons, List.drop_left' (by simp)]
    exact hback

/-- What a closing line leaves on the stack are the openings that do not match it: the numbers fall,
so none of those below the top is the top. -/
theorem mem_tail_stack_iff (hcloses : Line.closesSubgraph (b.line n) = true) :
    i ∈ (stack (b.take n)).tail ↔ i ∈ stack (b.take n) ∧ ¬ Matches b i n := by
  rw [matches_iff, hcloses]
  have hfalls := (pairwise_stack (b.take n)).2
  cases hstack : stack (b.take n) with
  | nil => simp
  | cons top st =>
    rw [hstack] at hfalls
    have hne := (List.pairwise_cons.1 hfalls).1
    simp only [List.tail_cons, List.mem_cons, List.head?_cons, Option.some.injEq, true_and]
    constructor
    · exact fun hi => ⟨.inr hi, Nat.ne_of_gt (hne i hi)⟩
    · rintro ⟨rfl | hi, htop⟩
      · exact absurd rfl htop
      · exact hi

/-- The stack holds the openings that match no line so far. -/
theorem mem_stack_iff (h : n ≤ b.length) :
    i ∈ stack (b.take n) ↔ i < n ∧ Line.opensSubgraph (b.line i) = true ∧
      ∀ j < n, ¬ Matches b i j := by
  induction n with
  | zero => simp [stack, nesting]
  | succ n ih =>
    have ih := ih (Nat.le_of_succ_le h)
    have hlength : (b.take n).length = n := by
      rw [List.length_take, Nat.min_eq_left (Nat.le_of_succ_le h)]
    have hlast : ∀ {p : Nat → Prop}, (∀ j < n + 1, p j) ↔ (∀ j < n, p j) ∧ p n := fun {p} => by
      simp only [Nat.lt_succ_iff_lt_or_eq, or_imp, forall_and, forall_eq]
    rw [take_succ_eq h, hlast]
    cases hopens : Line.opensSubgraph (b.line n) with
    | true =>
      have hmatch : ∀ i, ¬ Matches b i n := fun i hi => by
        rw [Line.not_opensSubgraph_of_closesSubgraph hi.closes] at hopens
        cases hopens
      rw [stack_of_opens hopens, hlength, List.mem_cons, ih]
      constructor
      · rintro (rfl | ⟨hi, hline, hnone⟩)
        · exact ⟨Nat.lt_succ_self i, hopens, fun j hj hij => Nat.lt_asymm hj hij.ordered, hmatch i⟩
        · exact ⟨Nat.lt_succ_of_lt hi, hline, hnone, hmatch i⟩
      · rintro ⟨hi, hline, hnone, -⟩
        rcases Nat.lt_succ_iff_lt_or_eq.1 hi with hi | rfl
        · exact .inr ⟨hi, hline, hnone⟩
        · exact .inl rfl
    | false =>
      have hbefore : Line.opensSubgraph (b.line i) = true → (i < n + 1 ↔ i < n) := by
        intro hline
        rw [Nat.lt_succ_iff_lt_or_eq, or_iff_left]
        rintro rfl
        rw [hline] at hopens
        cases hopens
      cases hcloses : Line.closesSubgraph (b.line n) with
      | false =>
        have hmatch : ¬ Matches b i n := fun hi => by
          rw [hi.closes] at hcloses
          cases hcloses
        rw [stack_of_plain hopens hcloses, ih]
        exact ⟨fun ⟨hi, hline, hnone⟩ => ⟨(hbefore hline).2 hi, hline, hnone, hmatch⟩,
          fun ⟨hi, hline, hnone, _⟩ => ⟨(hbefore hline).1 hi, hline, hnone⟩⟩
      | true =>
        rw [stack_of_closes hcloses, mem_tail_stack_iff hcloses, ih]
        exact ⟨fun ⟨⟨hi, hline, hnone⟩, hmatch⟩ => ⟨(hbefore hline).2 hi, hline, hnone, hmatch⟩,
          fun ⟨hi, hline, hnone, hmatch⟩ => ⟨⟨(hbefore hline).1 hi, hline, hnone⟩, hmatch⟩⟩

theorem encloses_iff (h : k < b.length) :
    Encloses b i k ↔ (i = k ∧ Line.opensSubgraph (b.line k) = true) ∨ i ∈ stack (b.take k) := by
  rw [mem_stack_iff (Nat.le_of_lt h), Encloses]
  constructor
  · rintro ⟨hline, hik, hnone⟩
    rcases Nat.eq_or_lt_of_le hik with rfl | hlt
    · exact .inl ⟨rfl, hline⟩
    · exact .inr ⟨hlt, hline, fun j hj hij => absurd (hnone j hij) (Nat.not_le.2 hj)⟩
  · rintro (⟨rfl, hline⟩ | ⟨hlt, hline, hnone⟩)
    · exact ⟨hline, Nat.le_refl i, fun j hij => Nat.le_of_lt hij.ordered⟩
    · exact ⟨hline, Nat.le_of_lt hlt, fun j hij => Nat.le_of_not_lt fun hj => hnone j hj hij⟩

/-- The opening that a line belongs to: the line itself, or the top of the stack before it. -/
def innermost? (b : Buffer) (k : Nat) : Option Nat :=
  if Line.opensSubgraph (b.line k) then some k else (stack (b.take k)).head?

theorem head?_eq_some_iff_of_falls {ns : List Nat} (h : ns.Pairwise (· > ·)) :
    ns.head? = some i ↔ i ∈ ns ∧ ∀ n ∈ ns, n ≤ i := by
  cases ns with
  | nil => simp
  | cons top rest =>
    have hbelow := (List.pairwise_cons.1 h).1
    simp only [List.mem_cons, List.head?_cons, Option.some.injEq]
    constructor
    · rintro rfl
      exact ⟨.inl rfl, fun n hn => hn.elim Nat.le_of_eq fun hmem => Nat.le_of_lt (hbelow n hmem)⟩
    · rintro ⟨rfl | hi, hlast⟩
      · rfl
      · exact absurd (hlast top (.inl rfl)) (Nat.not_le.2 (hbelow i hi))

theorem innermost_iff (h : k < b.length) : Innermost b i k ↔ innermost? b k = some i := by
  have hlength : (b.take k).length = k := by rw [List.length_take, Nat.min_eq_left (Nat.le_of_lt h)]
  obtain ⟨hbound, hfalls⟩ := pairwise_stack (b.take k)
  rw [hlength] at hbound
  simp only [Innermost, encloses_iff h, innermost?]
  cases hopens : Line.opensSubgraph (b.line k) with
  | true =>
    simp only [if_true, and_true, Option.some.injEq]
    constructor
    · rintro ⟨rfl | hi, hlast⟩
      · rfl
      · exact absurd (hlast k (.inl rfl)) (Nat.not_le.2 (hbound i hi))
    · rintro rfl
      exact ⟨.inl rfl, fun i' hi' => hi'.elim Nat.le_of_eq fun hmem =>
        Nat.le_of_lt (hbound i' hmem)⟩
  | false =>
    simp only [Bool.false_eq_true, and_false, false_or, if_false]
    exact (head?_eq_some_iff_of_falls hfalls).symm

theorem Matches.ne {i' j' : Nat} (h : Matches b i j) (h' : Matches b i' j') : i' ≠ j := by
  rintro rfl
  have hopens := h'.opens
  rw [Line.not_opensSubgraph_of_closesSubgraph h.closes] at hopens
  cases hopens

/-- Of two pairs of matching lines the one that closes first lies before the other or inside of
it. -/
theorem Matches.disjoint_or_nested {i' j' : Nat} (h : Matches b i j) (h' : Matches b i' j')
    (hlt : j < j') : j < i' ∨ i' < i := by
  have hj := lt_length_of_closes h.closes
  have hj' := lt_length_of_closes h'.closes
  rcases Nat.lt_or_ge j i' with hbehind | hle
  · exact .inl hbehind
  right
  -- line `j` closes, so the later pair has been opened before it, and is still open there
  have hmem' : i' ∈ stack (b.take j') := List.mem_of_mem_head? (matches_iff.1 h').2
  obtain ⟨-, hopens, hnone⟩ := (mem_stack_iff (Nat.le_of_lt hj')).1 hmem'
  have hmem : i' ∈ stack (b.take j) := (mem_stack_iff (Nat.le_of_lt hj)).2
    ⟨Nat.lt_of_le_of_ne hle (h.ne h'), hopens, fun k hk => hnone k (Nat.lt_trans hk hlt)⟩
  have htop := ((head?_eq_some_iff_of_falls (pairwise_stack (b.take j)).2).1 (matches_iff.1 h).2).2
  exact Nat.lt_of_le_of_ne (htop i' hmem) fun heq => hnone j hlt (heq ▸ h)

theorem Matches.eq_left {i' : Nat} (h : Matches b i j) (h' : Matches b i' j) : i = i' :=
  Option.some.inj ((matches_iff.1 h).2.symm.trans (matches_iff.1 h').2)

theorem Matches.eq_right {j' : Nat} (h : Matches b i j) (h' : Matches b i j') : j = j' := by
  have hsame : ∀ {j j'}, Matches b i j → Matches b i j' → ¬ j < j' := by
    intro j j' h h' hlt
    rcases h.disjoint_or_nested h' hlt with hbefore | hinside
    · exact absurd h.ordered (Nat.lt_asymm hbefore)
    · exact absurd hinside (Nat.lt_irrefl i)
  exact Nat.le_antisymm (Nat.not_lt.1 (hsame h' h)) (Nat.not_lt.1 (hsame h h'))

end Buffer
end Chartwright
