import Chartwright.Buffer.Basic
import Chartwright.Proofs.Text.Runs
/-!
The lines of a text.

There is at least one, and none of them holds a line feed. Lines without line feeds are the lines of
the text that they are joined to, unless there is none (`ofText_toText`). More of them make another
text (`toText_ne_of_perm`).
-/
namespace Chartwright

theorem Text.length_join_lineFeed {ts : List Text} (h : ts ≠ []) :
    (join ['\n'] ts).length + 1 = ts.flatten.length + ts.length := by
  induction ts with
  | nil => exact absurd rfl h
  | cons t rest ih =>
    cases rest with
    | nil => simp [join]
    | cons u rest =>
      have := ih (List.cons_ne_nil u rest)
      simp only [join, List.length_append, List.length_cons, List.length_nil,
        List.flatten_cons] at this ⊢
      omega

namespace Buffer

theorem ofText_ne_nil (t : Text) : ofText t ≠ [] := Text.piecesBy_ne_nil _ t

theorem not_mem_of_mem_ofText {t : Text} {line : Line} (h : line ∈ ofText t) : '\n' ∉ line := by
  intro hmem
  have hstops := (Text.mem_of_mem_piecesBy h hmem).2
  simp at hstops

theorem lineFeed_not_mem_line {b : Buffer} (h : ∀ line ∈ b, '\n' ∉ line) (i : Nat) :
    '\n' ∉ b.line i := by
  rw [Buffer.line]
  cases hi : b[i]? with
  | none => exact List.not_mem_nil
  | some line => exact h line (List.mem_of_getElem? hi)

/-- The lines of a text are read back when none of them holds a line feed. -/
theorem ofText_toText {b : Buffer} (hne : b ≠ []) (h : ∀ line ∈ b, '\n' ∉ line) :
    ofText (toText b) = b :=
  Text.pieces_join hne h

theorem perm_insertAt (b : Buffer) (i : Nat) (new : List Line) :
    (b.insertAt i new).Perm (b ++ new) := by
  conv => rhs; rw [← List.take_append_drop i b, List.append_assoc]
  rw [insertAt, List.append_assoc]
  exact List.perm_append_comm.append_left _

theorem mem_insertAt {b : Buffer} {i : Nat} {new : List Line} {line : Line} :
    line ∈ b.insertAt i new ↔ line ∈ b ∨ line ∈ new := by
  rw [(perm_insertAt b i new).mem_iff, List.mem_append]

theorem ofText_toText_insertAt {b : Buffer} {i : Nat} {line : Line}
    (hlines : ∀ line ∈ b, '\n' ∉ line) (hline : '\n' ∉ line) :
    ofText (b.insertAt i [line]).toText = b.insertAt i [line] := by
  refine ofText_toText (List.ne_nil_of_mem (mem_insertAt.2 (.inr (List.mem_singleton_self line))))
    fun l hl => ?_
  rcases mem_insertAt.1 hl with hl | hl
  · exact hlines l hl
  · rwa [List.mem_singleton.1 hl]

/-- A line put in further behind moves on when another is put in before it. -/
theorem insertAt_insertAt {b : Buffer} {i j : Nat} (hij : i ≤ j) (hi : i ≤ b.length)
    (line other : Line) :
    (b.insertAt j [other]).insertAt i [line] = (b.insertAt i [line]).insertAt (j + 1) [other] := by
  obtain ⟨front, back, rfl, rfl⟩ : ∃ front back, b = front ++ back ∧ front.length = i :=
    ⟨b.take i, b.drop i, (List.take_append_drop i b).symm, by
      rw [List.length_take, Nat.min_eq_left hi]⟩
  obtain ⟨k, rfl⟩ := Nat.exists_eq_add_of_le hij
  have hfront : ∀ (x : Buffer) new,
      insertAt front.length new (front ++ x) = front ++ (new ++ x) := by
    intro x new
    rw [insertAt, List.take_left, List.drop_left, List.append_assoc]
  have hbehind : ∀ (x : Buffer) k new, insertAt (front.length + k) new (front ++ x) =
      front ++ insertAt k new x := by
    intro x k new
    rw [insertAt, List.take_length_add_append, List.drop_length_add_append, insertAt,
      List.append_assoc, List.append_assoc, List.append_assoc]
  rw [hfront, hbehind, hfront, Nat.add_assoc, hbehind]
  rfl

/-- With further lines, wherever they are, a text is another one. -/
theorem toText_ne_of_perm {t : Text} {b new : List Line} (hnew : new ≠ [])
    (h : b.Perm (ofText t ++ new)) : toText b ≠ t := by
  intro same
  have hpos := List.length_pos_iff.2 hnew
  have hne : b ≠ [] := by
    rintro rfl
    exact hnew (List.append_eq_nil_iff.1 h.nil_eq.symm).2
  have hold := Text.length_join_lineFeed (ofText_ne_nil t)
  have hlonger := Text.length_join_lineFeed hne
  have hcount := h.length_eq
  have hflat := h.flatten.length_eq
  have hlength := congrArg List.length (same.trans (toText_ofText t).symm)
  rw [List.length_append] at hcount
  rw [List.flatten_append, List.length_append] at hflat
  rw [toText, toText] at hlength
  omega

variable {b : Buffer}

/-- What is read first on the lines of a buffer is read on one line and on none before it. -/
theorem first?_eq_some_iff {α : Type} {read : Line → Option α} {i : Nat} {x : α} :
    b.first? read = some (i, x) ↔ ∃ front l back, b = front ++ l :: back ∧ front.length = i ∧
      (∀ line ∈ front, read line = none) ∧ read l = some x := by
  rw [first?, List.findSome?_eq_some_iff]
  constructor
  · rintro ⟨entries, entry, rest, hsplit, hread, hnone⟩
    obtain ⟨front, tail, rfl, rfl, htail⟩ := List.zipIdx_eq_append_iff.1 hsplit
    obtain ⟨l, back, rfl, rfl, -⟩ := List.zipIdx_eq_cons_iff.1 htail.symm
    obtain ⟨y, hy, heq⟩ := Option.map_eq_some_iff.1 hread
    obtain ⟨rfl, rfl⟩ := Prod.mk.inj heq
    refine ⟨front, l, back, rfl, (Nat.zero_add _).symm, fun line hline => ?_, hy⟩
    obtain ⟨j, hj⟩ := List.mem_iff_getElem?.1 hline
    have hmem : (line, j) ∈ front.zipIdx := List.mem_zipIdx_iff_getElem?.2 hj
    simpa using hnone (line, j) hmem
  · rintro ⟨front, l, back, rfl, rfl, hnone, hl⟩
    refine ⟨front.zipIdx, (l, front.length), back.zipIdx (front.length + 1), ?_, by simp [hl],
      fun entry hentry => ?_⟩
    · rw [List.zipIdx_append, List.zipIdx_cons, Nat.zero_add]
    · show (read entry.1).map _ = none
      rw [hnone entry.1 (List.fst_mem_of_mem_zipIdx hentry)]
      rfl

theorem line_of_first? {α : Type} {read : Line → Option α} {i : Nat} {x : α}
    (h : b.first? read = some (i, x)) :
    i < b.length ∧ read (b.line i) = some x ∧ ∀ j < i, read (b.line j) = none := by
  obtain ⟨front, l, back, rfl, rfl, hnone, hl⟩ := first?_eq_some_iff.1 h
  have hline : Buffer.line (front ++ l :: back) front.length = l := by simp [Buffer.line]
  refine ⟨by simp, by rwa [hline], fun j hj => ?_⟩
  rw [Buffer.line, List.getElem?_append_left hj]
  exact hnone _ (line_mem hj)

theorem first?_eq_none_iff {α : Type} {read : Line → Option α} :
    b.first? read = none ↔ ∀ line ∈ b, read line = none := by
  rw [first?, List.findSome?_eq_none_iff]
  constructor
  · intro h line hline
    obtain ⟨i, hi⟩ := List.mem_iff_getElem?.1 hline
    exact Option.map_eq_none_iff.1 (h (line, i) (List.mem_zipIdx_iff_getElem?.2 hi))
  · intro h entry hentry
    exact Option.map_eq_none_iff.2 (h entry.1 (List.fst_mem_of_mem_zipIdx hentry))

end Buffer
end Chartwright
