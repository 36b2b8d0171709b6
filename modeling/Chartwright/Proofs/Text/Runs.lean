import Chartwright.Text.Blank
/-!
Reading the front of texts that are put together.

A run of characters (blanks, an identifier, a piece between separators) is read back exactly when it
is written in front of a text that does not prolong it. What may follow a run is told by the first
character of the rest alone: it has none, or one at which the run stops.
-/
namespace Chartwright

namespace Text

/-- The first character of a text, if it has one, stops a run of characters with `p`. -/
def Stops (p : Char → Bool) (t : Text) : Prop := ∀ c ∈ t.head?, p c = false

@[simp] theorem stops_nil (p : Char → Bool) : Stops p [] := by simp [Stops]

@[simp] theorem stops_cons {p : Char → Bool} {c : Char} {t : Text} :
    Stops p (c :: t) ↔ p c = false := by
  simp [Stops]

theorem getElem?_length_append {x y : Text} (n : Nat) (h : n = x.length) :
    (x ++ y)[n]? = y.head? := by
  rw [h, List.getElem?_append_right (Nat.le_refl _), Nat.sub_self, List.head?_eq_getElem?]

section Run

variable {p : Char → Bool} {run rest : Text}

theorem takeWhile_eq_nil_of_stops (h : Stops p rest) : rest.takeWhile p = [] := by
  cases rest with
  | nil => rfl
  | cons c cs => simp [stops_cons.1 h]

theorem dropWhile_eq_self_of_stops (h : Stops p rest) : rest.dropWhile p = rest := by
  cases rest with
  | nil => rfl
  | cons c cs => simp [stops_cons.1 h]

theorem takeWhile_append (hrun : ∀ c ∈ run, p c = true) (h : Stops p rest) :
    (run ++ rest).takeWhile p = run := by
  rw [List.takeWhile_append_of_pos hrun, takeWhile_eq_nil_of_stops h, List.append_nil]

theorem dropWhile_append (hrun : ∀ c ∈ run, p c = true) (h : Stops p rest) :
    (run ++ rest).dropWhile p = rest := by
  rw [List.dropWhile_append_of_pos hrun, dropWhile_eq_self_of_stops h]

theorem takeWhile_append_of_stops (t : Text) (h : Stops p rest) :
    (t ++ rest).takeWhile p = t.takeWhile p := by
  induction t with
  | nil => exact takeWhile_eq_nil_of_stops h
  | cons c cs ih => simp [List.takeWhile_cons, ih]

theorem takeWhile_append_of_all_eq_false {t : Text} (h : t.all p = false) (rest : Text) :
    (t ++ rest).takeWhile p = t.takeWhile p := by
  have hshort : (t.takeWhile p).length ≠ t.length := by
    intro hlength
    have hself : t.takeWhile p = t := (List.takeWhile_prefix p).eq_of_length hlength
    rw [← hself, List.all_takeWhile] at h
    cases h
  rw [List.takeWhile_append, if_neg hshort]

theorem dropWhile_append_of_stops (t : Text) (h : Stops p rest) :
    (t ++ rest).dropWhile p = t.dropWhile p ++ rest := by
  induction t with
  | nil => exact dropWhile_eq_self_of_stops h
  | cons c cs ih =>
    simp only [List.cons_append, List.dropWhile_cons, ih]
    split <;> rfl

end Run

theorem eq_of_append_cons_eq {c : Char} {x y r r' : Text} (hx : c ∉ x) (hy : c ∉ y)
    (h : x ++ c :: r = y ++ c :: r') : x = y ∧ r = r' := by
  -- what stands before the first `c` is a run of other characters
  have hfront : ∀ {z : Text} (q : Text), c ∉ z → (z ++ c :: q).takeWhile (· != c) = z := by
    intro z q hz
    refine takeWhile_append (fun d hd => ?_) (stops_cons.2 (by simp))
    rw [bne_iff_ne]
    intro e
    exact hz (e ▸ hd)
  have hxy : x = y := by rw [← hfront r hx, h, hfront r' hy]
  subst hxy
  exact ⟨rfl, by simpa using h⟩

/-- A word is found at the front of a text, or not, whatever follows that no part of the word can go
on with. -/
theorem after?_append_of_stops {word rest : Text} (t : Text) (h : ∀ w ∈ word, Stops (· == w) rest) :
    after? word (t ++ rest) = (after? word t).map (· ++ rest) := by
  induction word generalizing t with
  | nil => rfl
  | cons w ws ih =>
    cases t with
    | nil =>
      have hw := h w List.mem_cons_self
      cases rest with
      | nil => rfl
      | cons c cs =>
        rw [stops_cons, beq_eq_false_iff_ne] at hw
        simp [after?, Ne.symm hw]
    | cons c cs =>
      simp only [List.cons_append, after?]
      split
      · exact ih cs fun v hv => h v (List.mem_cons_of_mem _ hv)
      · rfl

theorem after?_append_of_le {word t : Text} (h : word.length ≤ t.length) (y : Text) :
    after? word (t ++ y) = (after? word t).map (· ++ y) := by
  induction word generalizing t with
  | nil => rfl
  | cons w ws ih =>
    cases t with
    | nil => simp at h
    | cons c cs =>
      rw [List.cons_append, after?, after?]
      split
      · exact ih (Nat.le_of_succ_le_succ h)
      · rfl

theorem after?_of_stops {c : Char} {t : Text} (h : Stops (· == c) t) : after? [c] t = none := by
  cases t with
  | nil => rfl
  | cons d ds =>
    rw [stops_cons, beq_eq_false_iff_ne] at h
    simp [after?, Ne.symm h]

@[simp] theorem after?_append (word rest : Text) : after? word (word ++ rest) = some rest :=
  after?_eq_some_iff.2 rfl

theorem trimLeft_of_stops {t : Text} (h : Stops isBlank t) : trimLeft t = t :=
  dropWhile_eq_self_of_stops h

theorem trimLeft_append {run rest : Text} (hrun : ∀ c ∈ run, isBlank c = true)
    (h : Stops isBlank rest) : trimLeft (run ++ rest) = rest :=
  dropWhile_append hrun h

theorem blanks_append {run rest : Text} (hrun : ∀ c ∈ run, isBlank c = true)
    (h : Stops isBlank rest) : blanks (run ++ rest) = run :=
  takeWhile_append hrun h

theorem exists_eq_append_of_le {t : Text} {n : Nat} (h : n ≤ t.length) :
    ∃ x y, t = x ++ y ∧ x.length = n :=
  ⟨t.take n, t.drop n, (List.take_append_drop ..).symm, List.length_take_of_le h⟩

theorem trimRight_append {t run : Text} (hrun : ∀ c ∈ run, isBlank c = true)
    (h : Stops isBlank t.reverse) : trimRight (t ++ run) = t := by
  have hback : ∀ c ∈ run.reverse, isBlank c = true := fun c hc => hrun c (List.mem_reverse.1 hc)
  rw [trimRight, List.reverse_append, dropWhile_append hback h, List.reverse_reverse]

theorem trim_of_stops {t : Text} (h : Stops isBlank t) (hback : Stops isBlank t.reverse) :
    trim t = t := by
  have hright : trimRight (t ++ []) = t := trimRight_append (by simp) hback
  rw [trim, trimLeft_of_stops h]
  simpa using hright

theorem stops_append_of_ne_nil {p : Char → Bool} {x : Text} (hne : x ≠ []) (h : Stops p x)
    (y : Text) : Stops p (x ++ y) := by
  cases x with
  | nil => exact absurd rfl hne
  | cons c cs => exact stops_cons.2 (stops_cons.1 h)

/-- A text that is trimmed, and not empty. -/
structure Tight (t : Text) : Prop where
  ne_nil : t ≠ []
  front : Stops isBlank t
  back : Stops isBlank t.reverse

theorem isBlank_of_mem_nil : ∀ c ∈ ([] : Text), isBlank c = true := List.forall_mem_nil _

theorem isBlank_of_mem_space : ∀ c ∈ [' '], isBlank c = true :=
  List.forall_mem_singleton.2 (by decide)

theorem forall_mem_of_all {p : Char → Bool} {t : Text} (h : (t.all fun c => !p c) = true) :
    ∀ c ∈ t, p c = false := by
  simpa using h

theorem tight_of_forall {t : Text} (hne : t ≠ []) (h : ∀ c ∈ t, isBlank c = false) : Tight t where
  ne_nil := hne
  front := fun c hc => h c (List.mem_of_mem_head? hc)
  back := fun c hc => h c (List.mem_reverse.1 (List.mem_of_mem_head? hc))

theorem tight_of_all {t : Text} (hne : t ≠ []) (h : (t.all fun c => !isBlank c) = true) : Tight t :=
  tight_of_forall hne (forall_mem_of_all h)

theorem Tight.trim_append {t x y : Text} (h : Tight t) (hx : ∀ c ∈ x, isBlank c = true)
    (hy : ∀ c ∈ y, isBlank c = true) : trim (x ++ (t ++ y)) = t := by
  rw [trim, trimLeft_append hx (stops_append_of_ne_nil h.ne_nil h.front y),
    trimRight_append hy h.back]

theorem stops_reverse_append {y : Text} (x : Text) (hne : y ≠ [])
    (hy : ∀ c ∈ y, isBlank c = false) : Stops isBlank (x ++ y).reverse := by
  rw [List.reverse_append]
  refine stops_append_of_ne_nil (by simpa using hne) (fun c hc => ?_) _
  exact hy c (List.mem_reverse.1 (List.mem_of_mem_head? hc))

theorem tight_trim {t : Text} (h : trim t ≠ []) : Tight (trim t) where
  ne_nil := h
  front := by
    -- what trimming the end leaves is a front of a text without blanks at its front
    have hfront : Stops isBlank (trimLeft t) := by
      intro c hc
      have hnot := List.head?_dropWhile_not isBlank t
      rw [show (t.dropWhile isBlank).head? = some c from hc] at hnot
      simpa using hnot
    have hprefix : trim t <+: trimLeft t := by
      rw [trim, trimRight, ← List.reverse_suffix, List.reverse_reverse]
      exact List.dropWhile_suffix _
    obtain ⟨rest, hrest⟩ := hprefix
    intro c hc
    apply hfront c
    rw [← hrest, List.head?_append, Option.mem_def.1 hc]
    rfl
  back := by
    intro c hc
    rw [trim, trimRight, List.reverse_reverse] at hc
    have hnot := List.head?_dropWhile_not isBlank (trimLeft t).reverse
    rw [Option.mem_def.1 hc] at hnot
    simpa using hnot

theorem mem_of_mem_trimRight {t : Text} {c : Char} (h : c ∈ trimRight t) : c ∈ t := by
  rw [trimRight, List.mem_reverse] at h
  exact List.mem_reverse.1 ((List.dropWhile_sublist _).subset h)

theorem mem_of_mem_trim {t : Text} {c : Char} (h : c ∈ trim t) : c ∈ t :=
  (List.dropWhile_sublist _).subset (mem_of_mem_trimRight h)

/-- A word that does not begin before the end of `t` is first found there. -/
theorem cut?_append {word t : Text} (rest : Text) (h : cut? word (t ++ word) = some (t, [])) :
    cut? word (t ++ word ++ rest) = some (t, rest) := by
  induction t with
  | nil =>
    cases word with
    | nil => cases rest <;> simp [cut?, after?]
    | cons w ws =>
      have : after? (w :: ws) (w :: (ws ++ rest)) = some rest := after?_append (w :: ws) rest
      simp [cut?, this]
  | cons c cs ih =>
    simp only [List.cons_append, cut?] at h ⊢
    cases hc : after? word (c :: (cs ++ word)) with
    | some found =>
      rw [hc] at h
      simp at h
    | none =>
      rw [hc] at h
      obtain ⟨found, hfound, heq⟩ := Option.map_eq_some_iff.1 h
      obtain ⟨before, after⟩ := found
      simp only [Prod.mk.injEq, List.cons.injEq, true_and] at heq
      obtain ⟨rfl, rfl⟩ := heq
      -- the word cannot begin at `c` with more text behind it either, for it fits in what stands
      -- before
      have hlong : after? word (c :: (before ++ word ++ rest)) = none := by
        rw [Option.eq_none_iff_forall_ne_some]
        intro r hr
        have hfull := after?_eq_some_iff.1 hr
        have hlen : word.length ≤ (c :: (before ++ word)).length := by
          simp only [List.length_cons, List.length_append]
          omega
        have hword : word <+: c :: (before ++ word ++ rest) := ⟨r, hfull.symm⟩
        have hfront : c :: (before ++ word) <+: c :: (before ++ word ++ rest) := ⟨rest, by simp⟩
        have hpre : word <+: c :: (before ++ word) :=
          List.prefix_of_prefix_length_le hword hfront hlen
        obtain ⟨r', hr'⟩ := hpre
        rw [after?_eq_some_iff.2 hr'.symm] at hc
        cases hc
      rw [hlong, ih hfound]
      simp

theorem after?_of_ne {c d : Char} {word t : Text} (h : c ≠ d) :
    after? (c :: word) (d :: t) = none := by
  rw [after?, if_neg h]

theorem cut?_nil_of_ne {word : Text} (hne : word ≠ []) : cut? word [] = none := by
  obtain ⟨w, ws, rfl⟩ := List.exists_cons_of_ne_nil hne
  rfl

theorem cut?_append_of_disjoint {word x : Text} (hne : word ≠ []) (h : ∀ c ∈ word, c ∉ x)
    (v : Text) : cut? word (x ++ v) = (cut? word v).map fun found => (x ++ found.1, found.2) := by
  obtain ⟨w, ws, rfl⟩ := List.exists_cons_of_ne_nil hne
  induction x with
  | nil => simp
  | cons c cs ih =>
    have hw : w ≠ c := fun heq => h w List.mem_cons_self (heq ▸ List.mem_cons_self)
    rw [List.cons_append, cut?, after?_of_ne hw, ih fun d hd hmem =>
        h d hd (List.mem_cons_of_mem c hmem),
      Option.map_map]
    rfl

/-- A word is first found before a stretch without its characters, or else behind it. -/
theorem cut?_append_or {word x : Text} (hne : word ≠ []) (hx : x ≠ []) (h : ∀ c ∈ word, c ∉ x)
    (r v : Text) :
    cut? word (r ++ (x ++ v)) = ((cut? word r).map fun found => (found.1, found.2 ++ (x ++ v))).or
      ((cut? word v).map fun found => (r ++ (x ++ found.1), found.2)) := by
  have hafter : ∀ t, after? word (t ++ (x ++ v)) = (after? word t).map (· ++ (x ++ v)) := by
    intro t
    refine after?_append_of_stops t fun w hw => ?_
    obtain ⟨c, cs, rfl⟩ := List.exists_cons_of_ne_nil hx
    refine stops_cons.2 ?_
    rw [beq_eq_false_iff_ne]
    rintro rfl
    exact h _ hw List.mem_cons_self
  induction r with
  | nil =>
    obtain ⟨w, ws, rfl⟩ := List.exists_cons_of_ne_nil hne
    rw [List.nil_append, cut?_append_of_disjoint hne h v]
    rfl
  | cons c cs ih =>
    have hhere := hafter (c :: cs)
    rw [List.cons_append] at hhere
    rw [List.cons_append, cut?, cut?, hhere, ih]
    cases after? word (c :: cs) with
    | some rest => rfl
    | none =>
      cases cut? word cs with
      | some found => rfl
      | none =>
        simp only [Option.map_none, Option.none_or, Option.map_map]
        rfl

theorem cut?_append_of_not_mem {c : Char} {t : Text} (h : c ∉ t) (rest : Text) :
    cut? [c] (t ++ rest) = (cut? [c] rest).map fun found => (t ++ found.1, found.2) :=
  cut?_append_of_disjoint (List.cons_ne_nil c []) (List.forall_mem_singleton.2 h) rest

theorem cut?_of_not_mem {c : Char} {t : Text} (rest : Text) (h : c ∉ t) :
    cut? [c] (t ++ [c] ++ rest) = some (t, rest) := by
  rw [List.append_assoc, cut?_append_of_not_mem h]
  simp [cut?, after?]

/-! ## Pieces between separators -/

section Pieces

variable {α : Type} {stops : α → Bool}

theorem piecesBy_append (piece rest : List α) (h : ∀ c ∈ piece, stops c = false) :
    ∃ p ps, piecesBy stops rest = p :: ps ∧
      piecesBy stops (piece ++ rest) = (piece ++ p) :: ps := by
  induction piece with
  | nil =>
    cases hp : piecesBy stops rest with
    | nil => exact absurd hp (piecesBy_ne_nil _ _)
    | cons p ps => exact ⟨p, ps, rfl, hp⟩
  | cons c cs ih =>
    obtain ⟨p, ps, hrest, hcs⟩ := ih fun d hd => h d (List.mem_cons_of_mem _ hd)
    refine ⟨p, ps, hrest, ?_⟩
    simp [piecesBy, h c List.mem_cons_self, hcs]

theorem piecesBy_of_forall {piece : List α} (h : ∀ c ∈ piece, stops c = false) :
    piecesBy stops piece = [piece] := by
  obtain ⟨p, ps, hrest, hpiece⟩ := piecesBy_append piece [] h
  cases hrest
  simpa using hpiece

theorem piecesBy_append_cons {piece : List α} {sep : α} (rest : List α)
    (h : ∀ c ∈ piece, stops c = false) (hsep : stops sep = true) :
    piecesBy stops (piece ++ sep :: rest) = piece :: piecesBy stops rest := by
  obtain ⟨p, ps, hrest, hpiece⟩ := piecesBy_append piece (sep :: rest) h
  rw [piecesBy, if_pos hsep] at hrest
  cases hrest
  simpa using hpiece

/-- A piece holds characters of the text, and no separator. -/
theorem mem_of_mem_piecesBy {t piece : List α} (hpiece : piece ∈ piecesBy stops t) {c : α}
    (h : c ∈ piece) : c ∈ t ∧ stops c = false := by
  induction t generalizing piece with
  | nil =>
    rw [piecesBy, List.mem_singleton] at hpiece
    rw [hpiece] at h
    cases h
  | cons d ds ih =>
    have hlater : ∀ {piece}, piece ∈ piecesBy stops ds → c ∈ piece →
        c ∈ d :: ds ∧ stops c = false :=
      fun hpiece hc => (ih hpiece hc).imp_left (List.mem_cons_of_mem d)
    -- a separator ends a piece that is empty so far, and any other character goes to the first
    -- piece behind it
    rw [piecesBy] at hpiece
    split at hpiece
    · rcases List.mem_cons.1 hpiece with rfl | hpiece
      · cases h
      · exact hlater hpiece h
    · next hd =>
      cases hrest : piecesBy stops ds with
      | nil => exact absurd hrest (piecesBy_ne_nil stops ds)
      | cons p ps =>
        rw [hrest] at hpiece
        rcases List.mem_cons.1 hpiece with rfl | hpiece
        · rcases List.mem_cons.1 h with rfl | h
          · exact ⟨List.mem_cons_self, Bool.eq_false_iff.2 hd⟩
          · exact hlater (hrest ▸ List.mem_cons_self) h
        · exact hlater (hrest ▸ List.mem_cons_of_mem p hpiece) h

end Pieces

theorem mem_of_mem_join {sep : Text} {ps : List Text} {c : Char} (h : c ∈ join sep ps) :
    c ∈ sep ∨ ∃ p ∈ ps, c ∈ p := by
  induction ps with
  | nil => cases h
  | cons p rest ih =>
    cases rest with
    | nil => exact .inr ⟨p, List.mem_cons_self, h⟩
    | cons q qs =>
      rw [join, List.mem_append, List.mem_append] at h
      rcases h with (h | h) | h
      · exact .inr ⟨p, List.mem_cons_self, h⟩
      · exact .inl h
      · rcases ih h with hsep | ⟨r, hr, hc⟩
        · exact .inl hsep
        · exact .inr ⟨r, List.mem_cons_of_mem p hr, hc⟩

/-- Pieces without a separator are found again when they are joined. -/
theorem pieces_join {sep : Char} {ps : List Text} (hne : ps ≠ []) (h : ∀ p ∈ ps, sep ∉ p) :
    pieces sep (join [sep] ps) = ps := by
  have apart : ∀ p ∈ ps, ∀ c ∈ p, (c == sep) = false := by
    intro p hp c hc
    rw [beq_eq_false_iff_ne]
    intro e
    exact h p hp (e ▸ hc)
  unfold pieces
  induction ps with
  | nil => exact absurd rfl hne
  | cons p rest ih =>
    have hp := apart p List.mem_cons_self
    cases rest with
    | nil => exact piecesBy_of_forall hp
    | cons q qs =>
      have hrest := ih (by simp) (fun r hr => h r (List.mem_cons_of_mem _ hr))
        (fun r hr => apart r (List.mem_cons_of_mem _ hr))
      rw [join, List.append_assoc]
      exact (piecesBy_append_cons _ hp (by simp)).trans (congrArg _ hrest)

end Text

end Chartwright
