import Chartwright.Proofs.Text.Scan
/-!
Scans that do not run over a border.

A find may begin in one part of a text and end in the next. As long as none does (`Confined`), the
two parts are scanned one by one (`spansOf_append_of_confined`). If one does, there is a first one,
and the part before it is scanned by itself (`exists_of_not_confined`). What is behind the border
matters only to finds that run over it (`Confined.of_crossing`).
-/
namespace Chartwright.Text

/-- What is found at a place depends only on the characters that the find covers. -/
structure IsLocal (read : Text → Option (Span × Nat)) : Prop where
  extend : ∀ {s found} (y : Text), read s = some found → read (s ++ y) = some found
  cut : ∀ {s y found}, read (s ++ y) = some found → found.2 ≤ s.length → read s = some found

/-- No find of a scan over a text, of which `skip` characters are covered already, runs into the
text `y` behind it. -/
def Confined (read : Text → Option (Span × Nat)) (y : Text) : (skip : Nat) → Text → Prop
  | _, [] => True
  | k + 1, _ :: cs => Confined read y k cs
  | 0, c :: cs =>
    match read (c :: cs ++ y) with
    | none => Confined read y 0 cs
    | some found => found.2 ≤ cs.length + 1 ∧ Confined read y (found.2 - 1) cs

theorem mem_spansOf_of_read {read : Text → Option (Span × Nat)} {t : Text} {found : Span × Nat}
    (hne : t ≠ []) (h : read t = some found) : found.1 ∈ spansOf read t := by
  cases t with
  | nil => exact absurd rfl hne
  | cons c cs => simp [spansOf, occurrences, occurrencesFrom, h]

section Confined

variable {read : Text → Option (Span × Nat)} {x y : Text} {skip : Nat}

theorem confined_cons_of_none {c : Char} (h : read (c :: x ++ y) = none) :
    Confined read y 0 (c :: x) ↔ Confined read y 0 x := by
  rw [Confined, h]

theorem confined_cons_of_some {c : Char} {found : Span × Nat}
    (h : read (c :: x ++ y) = some found) :
    Confined read y 0 (c :: x) ↔ found.2 ≤ x.length + 1 ∧ Confined read y (found.2 - 1) x := by
  rw [Confined, h]

theorem IsLocal.eq_none (hread : IsLocal read) (h : read (x ++ y) = none) : read x = none := by
  cases hx : read x with
  | none => rfl
  | some found =>
    rw [hread.extend y hx] at h
    cases h

theorem occurrencesFrom_append_of_confined (hread : IsLocal read) (h : Confined read y skip x)
    (hskip : skip ≤ x.length) (before : Option Char) (offset : Nat) :
    occurrencesFrom (fun _ t => read t) before skip offset (x ++ y) =
      occurrencesFrom (fun _ t => read t) before skip offset x ++
        occurrencesFrom (fun _ t => read t) (endOf before x) 0 (offset + x.length) y := by
  induction x generalizing before skip offset with
  | nil =>
    obtain rfl : skip = 0 := by simpa using hskip
    rfl
  | cons c cs ih =>
    have hlength : offset + (c :: cs).length = offset + 1 + cs.length := by
      rw [List.length_cons]
      omega
    rw [hlength]
    cases skip with
    | succ k => exact ih h (by simpa using hskip) (some c) (offset + 1)
    | zero =>
      cases hr : read (c :: cs ++ y) with
      | none =>
        have hshort : read (c :: cs) = none := hread.eq_none hr
        rw [confined_cons_of_none hr] at h
        rw [List.cons_append] at hr
        simp only [List.cons_append, occurrencesFrom, hr, hshort]
        exact ih h (Nat.zero_le _) (some c) (offset + 1)
      | some found =>
        rw [confined_cons_of_some hr] at h
        obtain ⟨hwidth, hrest⟩ := h
        have hshort : read (c :: cs) = some found := hread.cut hr hwidth
        have hskip : found.2 - 1 ≤ cs.length := by omega
        rw [List.cons_append] at hr
        simp only [List.cons_append, occurrencesFrom, hr, hshort,
          ih hrest hskip (some c) (offset + 1)]
        rfl

/-- A text whose finds end in it is scanned by itself, and so is what follows. -/
theorem spansOf_append_of_confined (hread : IsLocal read) (h : Confined read y 0 x) :
    spansOf read (x ++ y) = spansOf read x ++ (spansOf read y).map (Span.shift x.length) := by
  have hy := map_occurrencesFrom read (endOf none x) (0 + x.length) y
  rw [spansOf, occurrences, occurrencesFrom_append_of_confined hread h (Nat.zero_le _),
    List.map_append, hy, Nat.zero_add]
  rfl

/-- Finds that end before a border do so whatever has been cut off behind it. -/
theorem Confined.cut (hread : IsLocal read) {z : Text} (h : Confined read (y ++ z) skip x) :
    Confined read y skip x := by
  induction x generalizing skip with
  | nil => cases skip <;> exact trivial
  | cons c cs ih =>
    cases skip with
    | succ k => exact ih h
    | zero =>
      cases hr : read (c :: cs ++ (y ++ z)) with
      | none =>
        rw [confined_cons_of_none hr] at h
        rw [← List.append_assoc] at hr
        exact (confined_cons_of_none (hread.eq_none hr)).2 (ih h)
      | some found =>
        rw [confined_cons_of_some hr] at h
        have hshort : read (c :: cs) = some found := hread.cut hr h.1
        exact (confined_cons_of_some (hread.extend y hshort)).2 ⟨h.1, ih h.2⟩

/-- Two parts in a row, the first of which is confined with the second behind it. -/
theorem Confined.append {z : Text} (hx : Confined read (y ++ z) skip x) (hskip : skip ≤ x.length)
    (hy : Confined read z 0 y) : Confined read z skip (x ++ y) := by
  induction x generalizing skip with
  | nil =>
    obtain rfl : skip = 0 := by simpa using hskip
    exact hy
  | cons c cs ih =>
    cases skip with
    | succ k => exact ih hx (by simpa using hskip)
    | zero =>
      cases hr : read (c :: cs ++ (y ++ z)) with
      | none =>
        rw [confined_cons_of_none hr] at hx
        rw [← List.append_assoc] at hr
        exact (confined_cons_of_none hr).2 (ih hx (Nat.zero_le _))
      | some found =>
        rw [confined_cons_of_some hr] at hx
        have hlength : found.2 ≤ (cs ++ y).length + 1 := by
          rw [List.length_append]
          omega
        rw [← List.append_assoc] at hr
        exact (confined_cons_of_some hr).2 ⟨hlength, ih hx.2 (by omega)⟩

theorem confined_of_none (h : ∀ s, s <:+ x → s ≠ [] → read (s ++ y) = none) :
    Confined read y 0 x := by
  induction x with
  | nil => exact trivial
  | cons c cs ih =>
    refine (confined_cons_of_none (h _ List.suffix_rfl (by simp))).2 (ih fun s hs hne => ?_)
    exact h s (hs.trans (List.suffix_cons c cs)) hne

/-- The first find that runs over the border. -/
theorem exists_of_not_confined (hskip : skip ≤ x.length) (h : ¬ Confined read y skip x) :
    ∃ front back found, x = front ++ back ∧ skip ≤ front.length ∧
      Confined read (back ++ y) skip front ∧ read (back ++ y) = some found ∧
        back.length < found.2 := by
  induction x generalizing skip with
  | nil => exact absurd (by cases skip <;> exact trivial) h
  | cons c cs ih =>
    -- a crossing find further right, seen from here
    have hlater : ∀ {k}, k ≤ cs.length → ¬ Confined read y k cs →
        ∃ front back found, c :: cs = c :: front ++ back ∧ k ≤ front.length ∧
          Confined read (back ++ y) k front ∧ read (back ++ y) = some found ∧
            back.length < found.2 := by
      intro k hk hnot
      obtain ⟨front, back, found, hcs, hfront⟩ := ih hk hnot
      exact ⟨front, back, found, by rw [hcs]; rfl, hfront⟩
    cases skip with
    | succ k =>
      obtain ⟨front, back, found, heq, hlength, hfront, hcross⟩ := hlater (by simpa using hskip) h
      exact ⟨c :: front, back, found, heq, by simpa using hlength, hfront, hcross⟩
    | zero =>
      cases hr : read (c :: cs ++ y) with
      | none =>
        rw [confined_cons_of_none hr] at h
        obtain ⟨front, back, found, heq, -, hfront, hcross⟩ := hlater (Nat.zero_le _) h
        rw [heq, List.append_assoc] at hr
        exact ⟨c :: front, back, found, heq, Nat.zero_le _,
          (confined_cons_of_none hr).2 hfront, hcross⟩
      | some found =>
        by_cases hwidth : found.2 ≤ cs.length + 1
        · have hnot : ¬ Confined read y (found.2 - 1) cs :=
            fun hc => h ((confined_cons_of_some hr).2 ⟨hwidth, hc⟩)
          obtain ⟨front, back, later, heq, hlength, hfront, hcross⟩ := hlater (by omega) hnot
          rw [heq, List.append_assoc] at hr
          exact ⟨c :: front, back, later, heq, Nat.zero_le _,
            (confined_cons_of_some hr).2 ⟨by omega, hfront⟩, hcross⟩
        · exact ⟨[], c :: cs, found, rfl, Nat.zero_le _, trivial, hr, by
            simpa using Nat.lt_of_not_le hwidth⟩

/-- Another text behind the border makes no difference if it lets no find run over that did not run
over before. -/
theorem Confined.of_crossing (hread : IsLocal read) {z : Text} (h : Confined read y skip x)
    (hcross : ∀ s, s <:+ x → ∀ found, read (s ++ z) = some found → s.length < found.2 →
      ∃ other, read (s ++ y) = some other ∧ s.length < other.2) :
    Confined read z skip x := by
  induction x generalizing skip with
  | nil => cases skip <;> exact trivial
  | cons c cs ih =>
    have hcross' : ∀ s, s <:+ cs → ∀ found, read (s ++ z) = some found → s.length < found.2 →
        ∃ other, read (s ++ y) = some other ∧ s.length < other.2 :=
      fun s hs => hcross s (hs.trans (List.suffix_cons c cs))
    cases skip with
    | succ k => exact ih h hcross'
    | zero =>
      cases hr : read (c :: cs ++ z) with
      | none =>
        rw [confined_cons_of_none hr]
        cases hy : read (c :: cs ++ y) with
        | none => exact ih ((confined_cons_of_none hy).1 h) hcross'
        | some found =>
          -- a find that ends before the border would be found here too
          have hshort := hread.cut hy ((confined_cons_of_some hy).1 h).1
          rw [hread.extend z hshort] at hr
          cases hr
      | some found =>
        have hwidth : found.2 ≤ cs.length + 1 := by
          refine Nat.le_of_not_lt fun hlt => ?_
          obtain ⟨other, hother, hlong⟩ := hcross _ List.suffix_rfl found hr (by simpa using hlt)
          have hle := ((confined_cons_of_some hother).1 h).1
          rw [List.length_cons] at hlong
          omega
        have hy : read (c :: cs ++ y) = some found := hread.extend y (hread.cut hr hwidth)
        exact (confined_cons_of_some hr).2 ⟨hwidth, ih ((confined_cons_of_some hy).1 h).2 hcross'⟩

end Confined

end Chartwright.Text
