import Chartwright.Proofs.Line.Held
/-!
Declarations around a barrier.

A barrier is a stretch of arrows and blanks on a masked line. No name, no opener and no closer
touches it, so a line is read the same before and behind it, whatever it consists of. Only the label
of a declaration can run over a barrier, and then one barrier in place of another changes the length
of that label. So if no label that is filled runs over it, the labels before the barrier stay where
they are and those behind it move by the difference of the lengths (`Declaration.around_readFrom`).
-/
namespace Chartwright

/-- A stretch of characters that are in no name, no closer and no opener, the point of a flag apart,
which does not come first. -/
structure Barrier (x : Text) : Prop where
  loose : ∀ c ∈ x, Line.isFirm c = false
  head : ∃ c cs, x = c :: cs ∧ c ≠ '>'

namespace Line

variable {c : Char}

theorem not_isChar_of_loose (h : isFirm c = false) : Identifier.isChar c = false := by
  rw [Bool.eq_false_iff]
  intro hchar
  rw [isFirm_of_isChar hchar] at h
  cases h

theorem isFirm_of_mem_closer {b : Bracket} (h : c ∈ b.closer) : isFirm c = true := by
  have hall : ∀ b ∈ Bracket.all, b.closer.all isFirm = true := by decide
  exact List.all_eq_true.1 (hall b (by cases b <;> decide)) c h

theorem not_inOpener_of_loose (h : isFirm c = false) (hpoint : c ≠ '>') :
    Bracket.inOpener c = false := by
  have hall : ∀ b ∈ Bracket.all, (b.opener.all fun c => isFirm c || c == '>') = true := by decide
  rw [Bool.eq_false_iff]
  intro hopener
  obtain ⟨b, hb, hmem⟩ := List.any_eq_true.1 hopener
  have hc := List.all_eq_true.1 (hall b hb) c (by simpa using hmem)
  rw [h, Bool.false_or, beq_iff_eq] at hc
  exact hpoint hc

end Line

namespace Barrier

variable {x y : Text}

theorem ne_nil (h : Barrier x) : x ≠ [] := by
  obtain ⟨c, cs, rfl, -⟩ := h.head
  exact List.cons_ne_nil c cs

theorem stops (h : Barrier x) {p : Char → Bool}
    (hp : ∀ c, Line.isFirm c = false → c ≠ '>' → p c = false) (y : Text) :
    Text.Stops p (x ++ y) := by
  obtain ⟨c, cs, rfl, hc⟩ := h.head
  exact Text.stops_cons.2 (hp c (h.loose c List.mem_cons_self) hc)

theorem stops_isChar (h : Barrier x) (y : Text) : Text.Stops Identifier.isChar (x ++ y) :=
  h.stops (fun _ hc _ => Line.not_isChar_of_loose hc) y

theorem not_mem_of_mem_closer (h : Barrier x) {b : Bracket} : ∀ c ∈ b.closer, c ∉ x := by
  intro c hc hmem
  have hloose := h.loose c hmem
  rw [Line.isFirm_of_mem_closer hc] at hloose
  cases hloose

theorem apart_endOf (h : Barrier x) (before : Option Char) :
    Identifier.apart (Text.endOf before x) = true := by
  obtain ⟨c, hc, hend⟩ := Text.endOf_of_ne_nil before h.ne_nil
  rw [hend, Identifier.apart, Option.any_some, Line.not_isChar_of_loose (h.loose c hc)]
  rfl

theorem spaces {n : Nat} (hn : n ≠ 0) : Barrier (List.replicate n ' ') := by
  obtain ⟨n, rfl⟩ := Nat.exists_eq_succ_of_ne_zero hn
  refine ⟨fun c hc => ?_, ' ', List.replicate n ' ', rfl, by decide⟩
  rw [List.eq_of_mem_replicate hc]
  decide

theorem arrow_append (h : Arrow.Spelling x) (hy : ∀ c ∈ y, Line.isFirm c = false) :
    Barrier (x ++ y) := by
  obtain ⟨c, cs, hhead, hc⟩ := h.head
  refine ⟨fun d hd => ?_, c, cs ++ y, by rw [hhead]; rfl, by rcases hc with rfl | rfl <;> decide⟩
  exact (List.mem_append.1 hd).elim (Line.isFirm_eq_false_of_spelling h d) (hy d)

end Barrier

/-! ## Cutting at a closer -/

/-! ## Reading around a barrier -/

namespace Declaration

variable {before : Option Char} {x x' : Text}

/-- The spans that are filled of what has been read. -/
def labels (ds : List Declaration) : List Span :=
  (ds.filter fun d => !Keyword.isKeyword d.id).map (·.labelSpan)

theorem labels_cons (d : Declaration) (ds : List Declaration) :
    labels (d :: ds) = if Keyword.isKeyword d.id then labels ds else d.labelSpan :: labels ds := by
  cases hkeyword : Keyword.isKeyword d.id <;> simp [labels, hkeyword]

theorem labels_shift (k : Nat) (ds : List Declaration) :
    labels (ds.map (shift k)) = (labels ds).map (Span.shift k) := by
  induction ds with
  | nil => rfl
  | cons d ds ih =>
    rw [List.map_cons, labels_cons, labels_cons, ih]
    have hid : (d.shift k).id = d.id := rfl
    rw [hid]
    split
    · rfl
    · rw [List.map_cons, labelSpan_shift]

theorem opening?_append_barrier (hx : Barrier x) (before : Option Char) (u v : Text) :
    opening? before (u ++ (x ++ v)) = (opening? before u).map fun (id, b, rest) =>
      (id, b, rest ++ (x ++ v)) := by
  have hopener : Text.Stops Bracket.inOpener (x ++ v) :=
    hx.stops (fun _ => Line.not_inOpener_of_loose) v
  exact opening?_append (Identifier.read?_append_of_stops (hx.stops_isChar v) u) hopener before

theorem labels_readFrom_behind (hx : Barrier x) (before : Option Char) (skip offset : Nat)
    (v : Text) :
    labels (readFrom (Text.endOf before x) skip offset v) =
      (labels (readFrom none skip 0 v)).map (Span.shift offset) := by
  have hnone : readFrom (Text.endOf before x) skip offset v = readFrom none skip offset v := by
    cases skip with
    | zero => exact readFrom_before (hx.apart_endOf before) offset v
    | succ k => cases v <;> rfl
  rw [hnone, readFrom_offset, labels_shift]

theorem labels_readFrom_barrier (hx : Barrier x) (before : Option Char) (offset : Nat) (v : Text) :
    labels (readFrom before 0 offset (x ++ v)) =
      (labels (readFrom none 0 0 v)).map (Span.shift (offset + x.length)) := by
  rw [readFrom_of_none, labels_readFrom_behind hx]
  intro front s hs hne
  obtain ⟨c, cs, rfl⟩ := List.exists_cons_of_ne_nil hne
  have hloose := hx.loose c (hs ▸ List.mem_append_right front List.mem_cons_self)
  exact opening?_of_not_isStart
    (Identifier.not_isStart_of_not_isChar (Line.not_isChar_of_loose hloose))

/-- The spans of two readings of a line with one of two stretches at `place`: the same before it,
and the same behind it if counted from the end of the stretch. -/
def Around (place m n : Nat) (spans spans' : List Span) : Prop :=
  ∃ front back : List Span, (∀ s ∈ front, s.stop ≤ place) ∧
    spans = front ++ back.map (Span.shift (place + m)) ∧
      spans' = front ++ back.map (Span.shift (place + n))

theorem Around.behind (place m n : Nat) (back : List Span) :
    Around place m n (back.map (Span.shift (place + m))) (back.map (Span.shift (place + n))) :=
  ⟨[], back, List.forall_mem_nil _, rfl, rfl⟩

theorem Around.cons {place m n : Nat} {spans spans' : List Span} {s : Span} (hs : s.stop ≤ place)
    (h : Around place m n spans spans') : Around place m n (s :: spans) (s :: spans') := by
  obtain ⟨front, back, hfront, rfl, rfl⟩ := h
  exact ⟨s :: front, back, List.forall_mem_cons.2 ⟨hs, hfront⟩, rfl, rfl⟩

theorem labels_readFrom_over (hx : Barrier x) {u v : Text} {c : Char} {width k : Nat}
    (hwidth : width = (c :: u).length + x.length + k) (offset : Nat) :
    labels (readFrom (some c) (width - 1) (offset + 1) (u ++ (x ++ v))) =
      (labels (readFrom none k 0 v)).map (Span.shift (offset + (c :: u).length + x.length)) := by
  have hskip : width - 1 = (u ++ x).length + k := by
    rw [hwidth, List.length_append, List.length_cons]
    omega
  have hplace : offset + 1 + (u ++ x).length = offset + (c :: u).length + x.length := by
    rw [List.length_append, List.length_cons]
    omega
  rw [hskip, ← List.append_assoc, readFrom_skip, Text.endOf_append,
    labels_readFrom_behind hx, hplace]

/-! A declaration that opens before a barrier closes before it too, or behind it with the barrier in
its label. -/

section Opened

variable {t id rest label after : Text} {b : Bracket}

theorem stop_le_of_cut? (h : t = id ++ (b.opener ++ rest))
    (hcut : Text.cut? b.closer rest = some (label, after)) (offset : Nat) :
    (⟨id, b, label, offset⟩ : Declaration).written.length ≤ t.length ∧
      (⟨id, b, label, offset⟩ : Declaration).labelSpan.stop ≤ offset + t.length := by
  have hrest := Text.eq_append_of_cut? hcut
  simp only [h, hrest, written, labelSpan, labelStop, labelStart, openerStart, List.length_append]
  omega

theorem contains_labelSpan_over (h : t = id ++ (b.opener ++ rest)) (hx : x ≠ []) (label : Text)
    (offset : Nat) :
    (⟨id, b, rest ++ (x ++ label), offset⟩ : Declaration).labelSpan.contains (offset + t.length) =
      true := by
  have hpos := List.length_pos_iff.2 hx
  simp only [h, Span.contains, labelSpan, labelStop, labelStart, openerStart, List.length_append,
    Bool.and_eq_true, decide_eq_true_eq]
  omega

theorem length_written_over (h : t = id ++ (b.opener ++ rest)) (x label : Text) (offset : Nat) :
    (⟨id, b, rest ++ (x ++ label), offset⟩ : Declaration).written.length =
      t.length + x.length + (label ++ b.closer).length := by
  simp only [h, written, List.length_append]
  omega

end Opened

/-- With another barrier the labels before it stay, and those behind it move by the difference, if
none of them lies around it. -/
theorem around_readFrom (hx : Barrier x) (hx' : Barrier x') {u v : Text} {skip offset : Nat}
    (hskip : skip ≤ u.length)
    (houtside : ∀ s ∈ labels (readFrom before skip offset (u ++ (x ++ v))),
    s.contains (offset + u.length) = false) :
    Around (offset + u.length) x.length x'.length
      (labels (readFrom before skip offset (u ++ (x ++ v))))
      (labels (readFrom before skip offset (u ++ (x' ++ v)))) := by
  induction u generalizing before skip offset with
  | nil =>
    obtain rfl : skip = 0 := by simpa using hskip
    rw [List.nil_append, List.nil_append, labels_readFrom_barrier hx, labels_readFrom_barrier hx']
    exact .behind ..
  | cons c cs ih =>
    have hlength : offset + (c :: cs).length = offset + 1 + cs.length := by
      rw [List.length_cons]
      omega
    cases skip with
    | succ k =>
      rw [hlength] at houtside ⊢
      exact ih (by simpa using hskip) houtside
    | zero =>
      have hopening := opening?_append_barrier hx before (c :: cs) v
      have hopening' := opening?_append_barrier hx' before (c :: cs) v
      rw [List.cons_append] at hopening hopening'
      rw [List.cons_append, readFrom, hopening] at houtside ⊢
      rw [List.cons_append, readFrom, hopening']
      cases hhere : opening? before (c :: cs) with
      | none =>
        rw [hhere] at houtside
        rw [hlength] at houtside ⊢
        exact ih (Nat.zero_le _) houtside
      | some found =>
        obtain ⟨id, b, rest⟩ := found
        have hself := opening?_eq_some hhere
        rw [hhere] at houtside
        simp only [Option.map_some,
          Text.cut?_append_or b.closer_ne_nil hx.ne_nil hx.not_mem_of_mem_closer,
          Text.cut?_append_or b.closer_ne_nil hx'.ne_nil hx'.not_mem_of_mem_closer] at houtside ⊢
        cases hcut : Text.cut? b.closer rest with
        | some closed =>
          obtain ⟨label, after⟩ := closed
          obtain ⟨hwidth, hstop⟩ := stop_le_of_cut? hself hcut offset
          have hskip : (⟨id, b, label, offset⟩ : Declaration).written.length - 1 ≤ cs.length := by
            rw [List.length_cons] at hwidth
            omega
          rw [hcut] at houtside
          simp only [Option.map_some, Option.some_or, labels_cons, hlength] at houtside hstop ⊢
          split
          · next hkeyword =>
            rw [if_pos hkeyword] at houtside
            exact ih hskip houtside
          · next hkeyword =>
            rw [if_neg hkeyword] at houtside
            exact .cons hstop (ih hskip (List.forall_mem_cons.1 houtside).2)
        | none =>
          cases hbehind : Text.cut? b.closer v with
          | none =>
            exact .behind _ _ _ []
          | some closed =>
            -- its label lies around the barrier, so it is none of those that count
            obtain ⟨label, after⟩ := closed
            rw [hcut, hbehind] at houtside
            simp only [Option.map_some, Option.map_none, Option.none_or, labels_cons] at houtside ⊢
            have hkeyword : Keyword.isKeyword id = true := by
              refine Classical.byContradiction fun hname => ?_
              rw [if_neg hname] at houtside
              have hout := houtside _ List.mem_cons_self
              rw [contains_labelSpan_over hself hx.ne_nil] at hout
              cases hout
            rw [if_pos hkeyword, if_pos hkeyword,
              labels_readFrom_over hx (length_written_over hself x label offset),
              labels_readFrom_over hx' (length_written_over hself x' label offset)]
            exact .behind ..

end Declaration
end Chartwright
