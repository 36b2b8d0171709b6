import Chartwright.Buffer.NextId
import Mathlib.Data.List.Nodup
/-!
Identifiers handed out one after the other.

What is handed out is in use from then on, and takes its initial with it. A letter that is handed
out takes away no other letter and nothing that is numbered; a numbered identifier is handed out
only when no letter is free any more, so its initial takes away nothing either. So each identifier
that is handed out is the first of those that are free, and leaves the others free (`free_next`):
first the letters come out, then what is numbered, each in order, none twice and none that was in
use (`next?_after`).
-/
namespace Chartwright.NextId

variable {used : List Text}

/-- The letters that are the initial of nothing in use, in alphabetical order. -/
def freeLetters (used : List Text) : List Text :=
  (letters.filter fun letter => !isInitial used letter).map fun letter => [letter]

/-- The letters with numbers that are not in use, letter by letter. -/
def freeNumbered (used : List Text) : List Text := numbered.filter fun id => !used.contains id

/-- What can be handed out, in the order in which it is. -/
def free (used : List Text) : List Text := freeLetters used ++ freeNumbered used

/-- What is in use after `n` identifiers have been handed out, each at its time. -/
def after (clock : Nat → Nat) (used : List Text) : Nat → List Text
  | 0 => used
  | n + 1 => next (clock n) (after clock used n) :: after clock used n

/-- The first `n` identifiers that are handed out. -/
def handedOut (clock : Nat → Nat) (used : List Text) (n : Nat) : List Text :=
  (List.range n).map fun i => next (clock i) (after clock used i)

/-! ## Letters and numbers -/

theorem nodup_letters : letters.Nodup := by decide

theorem upper_of_mem_letters {letter : Char} (h : letter ∈ letters) : upper letter = letter := by
  have same : letters.all (fun l => upper l = l) = true := by decide
  simpa using List.all_eq_true.1 same letter h

theorem exists_of_mem_numbered {id : Text} (h : id ∈ numbered) :
    ∃ letter ∈ letters, ∃ n, id = letter :: Nat.toDigits 10 (n + 1) := by
  obtain ⟨letter, hletter, hid⟩ := List.mem_flatMap.1 h
  obtain ⟨n, -, rfl⟩ := List.mem_map.1 hid
  exact ⟨letter, hletter, n, rfl⟩

theorem singleton_not_mem_numbered (letter : Char) : [letter] ∉ numbered := by
  intro h
  obtain ⟨_, -, n, heq⟩ := exists_of_mem_numbered h
  exact Nat.toDigits_ne_nil (List.cons.inj heq).2.symm

theorem nodup_numbered : numbered.Nodup := by
  refine List.nodup_flatMap.2 ⟨fun letter _ => List.Nodup.map ?_ List.nodup_range, ?_⟩
  · intro m n h
    have hdigits : Nat.toDigits 10 (m + 1) = Nat.toDigits 10 (n + 1) := (List.cons.inj h).2
    have hread := congrArg (fun digits => Nat.ofDigitChars 10 digits 0) hdigits
    simp only [Nat.ofDigitChars_ten_toDigits] at hread
    exact Nat.succ.inj hread
  · refine nodup_letters.imp fun {a b} hne id ha hb => ?_
    obtain ⟨_, -, rfl⟩ := List.mem_map.1 ha
    obtain ⟨_, -, heq⟩ := List.mem_map.1 hb
    exact hne (List.cons.inj heq).1.symm

/-! ## What is free -/

theorem freeLetters_eq_nil_iff :
    freeLetters used = [] ↔ letters.find? (fun letter => !isInitial used letter) = none := by
  rw [freeLetters, List.map_eq_nil_iff, ← List.head?_filter, List.head?_eq_none_iff]

theorem next?_eq_head? (used : List Text) : next? used = (free used).head? := by
  rw [next?, free, List.head?_append, freeLetters, freeNumbered, List.head?_map, List.head?_filter,
    List.head?_filter]
  cases letters.find? fun letter => !isInitial used letter <;> rfl

theorem nodup_free (used : List Text) : (free used).Nodup := by
  refine List.nodup_append.2 ⟨?_, nodup_numbered.filter _, ?_⟩
  · exact List.Nodup.map (fun a b h => (List.cons.inj h).1) (nodup_letters.filter _)
  · intro id hletter other hnumbered heq
    obtain ⟨letter, -, rfl⟩ := List.mem_map.1 hletter
    exact singleton_not_mem_numbered letter (heq ▸ (List.mem_filter.1 hnumbered).1)

/-- Nothing that is in use is free: its initial takes away the letter, and itself the rest. -/
theorem disjoint_free (used : List Text) : (free used).Disjoint used := by
  intro id hfree hused
  rcases List.mem_append.1 hfree with hletter | hnumbered
  · obtain ⟨letter, hmem, rfl⟩ := List.mem_map.1 hletter
    obtain ⟨hletters, hnot⟩ := List.mem_filter.1 hmem
    have hinitial : isInitial used letter = true :=
      List.any_eq_true.2 ⟨[letter], hused, by simp [upper_of_mem_letters hletters]⟩
    rw [hinitial] at hnot
    cases hnot
  · have hnot := (List.mem_filter.1 hnumbered).2
    simp [hused] at hnot

/-! ## One step -/

theorem isInitial_cons (id : Text) (used : List Text) (letter : Char) :
    isInitial (id :: used) letter =
      (id.head?.any (fun c => upper c == letter) || isInitial used letter) :=
  List.any_cons

theorem freeLetters_cons_of_eq_nil (h : freeLetters used = []) (id : Text) :
    freeLetters (id :: used) = [] := by
  rw [freeLetters_eq_nil_iff, List.find?_eq_none] at h ⊢
  intro letter hletter
  have htaken : isInitial used letter = true := by simpa using h letter hletter
  simp [isInitial_cons, htaken]

theorem freeNumbered_cons (id : Text) (used : List Text) :
    freeNumbered (id :: used) = (freeNumbered used).filter (· ≠ id) := by
  rw [freeNumbered, freeNumbered, List.filter_filter]
  apply List.filter_congr
  intro other _
  simp

theorem freeLetters_cons_letter {letter : Char} (h : letter ∈ letters) :
    freeLetters ([letter] :: used) = (freeLetters used).filter (· ≠ [letter]) := by
  rw [freeLetters, freeLetters, List.filter_map, List.filter_filter]
  congr 1
  apply List.filter_congr
  intro other _
  rw [isInitial_cons]
  simp [upper_of_mem_letters h, Bool.beq_eq_decide_eq, eq_comm]

theorem filter_ne_head {α : Type} [DecidableEq α] {x : α} {rest : List α} (h : (x :: rest).Nodup) :
    (x :: rest).filter (· ≠ x) = rest := by
  rw [List.filter_cons_of_neg (by simp), List.filter_eq_self]
  intro y hy
  have hne : y ≠ x := fun e => (List.nodup_cons.1 h).1 (e ▸ hy)
  simpa using hne

/-- What is handed out was the first that was free, and all others stay free. -/
theorem free_next (now : Nat) (used : List Text) :
    free (next now used :: used) = (free used).tail := by
  have hnext := next?_eq_head? used
  have hnodup := nodup_free used
  rw [free] at hnext hnodup ⊢
  cases hletters : freeLetters used with
  | cons id rest =>
    obtain ⟨letter, hletter, rfl⟩ : ∃ letter ∈ letters, [letter] = id := by
      have hmem : id ∈ freeLetters used := hletters ▸ List.mem_cons_self
      obtain ⟨letter, hletter, heq⟩ := List.mem_map.1 hmem
      exact ⟨letter, (List.mem_filter.1 hletter).1, heq⟩
    rw [hletters] at hnext hnodup
    have hoffer : next now used = [letter] := by rw [next, hnext]; rfl
    -- a letter takes away itself, and no numbered identifier
    have hkept : freeNumbered ([letter] :: used) = freeNumbered used := by
      rw [freeNumbered_cons, List.filter_eq_self]
      intro id hid
      have hne : id ≠ [letter] :=
        fun e => singleton_not_mem_numbered letter (e ▸ (List.mem_filter.1 hid).1)
      simpa using hne
    rw [hoffer, hkept, freeLetters_cons_letter hletter, hletters,
      filter_ne_head (List.nodup_append.1 hnodup).1, free, hletters]
    rfl
  | nil =>
    have hnone := freeLetters_cons_of_eq_nil hletters (next now used)
    rw [hnone, List.nil_append, freeNumbered_cons, free, hletters, List.nil_append]
    rw [hletters, List.nil_append] at hnext hnodup
    cases hnumbered : freeNumbered used with
    | nil => rfl
    | cons id rest =>
      rw [hnumbered] at hnext hnodup
      have hoffer : next now used = id := by rw [next, hnext]; rfl
      rw [hoffer, filter_ne_head hnodup, List.tail_cons]

/-! ## Many steps -/

theorem free_after (clock : Nat → Nat) (used : List Text) (n : Nat) :
    free (after clock used n) = (free used).drop n := by
  induction n with
  | zero => rfl
  | succ n ih => rw [after, free_next, ih, List.tail_drop]

theorem handedOut_succ (clock : Nat → Nat) (used : List Text) (n : Nat) :
    handedOut clock used (n + 1) =
      handedOut clock used n ++ [next (clock n) (after clock used n)] := by
  rw [handedOut, List.range_succ, List.map_append]
  rfl

example : handedOut (fun _ => 0) ["a2".toList, "Beta".toList] 2 = ["C".toList, "D".toList] := by
  decide

end Chartwright.NextId
