import Chartwright.Proofs.Line.Slot
import Chartwright.Proofs.Line.TrailingBlanks
import Mathlib.Data.List.Basic
/-!
Links beside a box.

A box is a filled label between its brackets. Neither the kind of the brackets nor the length of the
filler matters to a reader of links: names, arrows and blanks end at a box, an inline declaration
that reaches it ends behind its closer, and a label of an arrow that runs over it holds it whole. So
two lines that differ only in a box behind a name show links with the same ends
(`Link.firstEnds?_reboxed`), and only a label that holds the box differs, by the box.
-/
namespace Chartwright

namespace Text

/-! ## The results of two readers -/

theorem rel_refl {α : Type} {r : α → α → Prop} (hr : ∀ a, r a a) (x : Option α) :
    Option.Rel r x x := by
  cases x with
  | none => exact .none
  | some a => exact .some (hr a)

theorem rel_or {α : Type} {r : α → α → Prop} {x x' y y' : Option α} (hx : Option.Rel r x x')
    (hy : Option.Rel r y y') : Option.Rel r (x.or y) (x'.or y') := by
  cases hx with
  | none => simpa using hy
  | some h => exact .some h

/-! ## Boxes -/

/-- A stretch of filler. -/
def filler (n : Nat) : Text := List.replicate n '\x00'

/-- A text that ends with a character of an identifier, or an empty one. -/
def EndsName (p : Text) : Prop := ∀ c ∈ p.getLast?, Identifier.isChar c = true

theorem EndsName.suffix {p r : Text} (h : EndsName p) (hr : r <:+ p) : EndsName r := by
  obtain ⟨x, rfl⟩ := hr
  intro c hc
  apply h c
  rw [List.getLast?_append, Option.mem_def.1 hc]
  rfl

end Text

namespace Bracket

/-- A filled label between its brackets. -/
def box (b : Bracket) (n : Nat) : Text := b.opener ++ (Text.filler n ++ b.closer)

variable (b : Bracket) (n : Nat)

theorem exists_box_eq : ∃ c cs, b.box n = c :: cs ∧ c ∈ ['(', '[', '{', '>'] := by
  cases b
  all_goals exact ⟨_, _, rfl, by decide⟩

theorem stops_box {p : Char → Bool} (h : ['(', '[', '{', '>'].all (fun c => !p c) = true)
    (q : Text) : Text.Stops p (b.box n ++ q) := by
  obtain ⟨c, cs, hc, hmem⟩ := b.exists_box_eq n
  rw [hc]
  exact Text.stops_cons.2 (Text.forall_mem_of_all h c hmem)

/-- No character of a box is one of an identifier, a bar or a line feed. -/
theorem forall_mem_box {p : Char → Bool}
    (h : ['(', '[', '{', '>', '/', '\\', '\x00', ')', ']', '}'].all (fun c => !p c) = true) :
    ∀ c ∈ b.box n, p c = false := by
  have hall : (b.opener ++ b.closer).all ['(', '[', '{', '>', '/', '\\', '\x00', ')', ']',
      '}'].contains = true := by
    cases b <;> decide
  have hchars : ∀ c ∈ b.opener ++ b.closer,
      c ∈ ['(', '[', '{', '>', '/', '\\', '\x00', ')', ']', '}'] :=
    fun c hc => List.contains_iff_mem.1 (List.all_eq_true.1 hall c hc)
  intro c hc
  apply Text.forall_mem_of_all h c
  rw [box, List.mem_append, List.mem_append] at hc
  rcases hc with hc | hc | hc
  · exact hchars c (List.mem_append_left _ hc)
  · rw [List.eq_of_mem_replicate hc]
    decide
  · exact hchars c (List.mem_append_right _ hc)

theorem stops_isExtension_filler (t : Text) :
    Text.Stops b.isExtension (Text.filler n ++ (b.closer ++ t)) := by
  cases n with
  | zero => cases b <;> exact Text.stops_cons.2 (by decide)
  | succ n => cases b <;> exact Text.stops_cons.2 (by decide)

theorem read?_box (q : Text) :
    read? (b.box n ++ q) = some (b, Text.filler n ++ (b.closer ++ q)) := by
  rw [box, List.append_assoc, List.append_assoc]
  exact read?_opener_append.2 (b.stops_isExtension_filler n q)

/-- Behind a character of an identifier an opener is read before a box as it is without. -/
theorem read?_append_box {p : Text} (hp : Text.EndsName p) (hne : p ≠ []) (q : Text) :
    read? (p ++ (b.box n ++ q)) = (read? p).map fun found =>
      (found.1, found.2 ++ (b.box n ++ q)) := by
  rcases Nat.lt_or_ge p.length 2 with hshort | hlong
  · obtain ⟨c, rfl⟩ : ∃ c, p = [c] := List.length_eq_one_iff.1 (by
      have := List.length_pos_iff.2 hne
      omega)
    have hchar : Identifier.isChar c = true := hp c rfl
    have hopening : isOpening c = false := by
      rw [Bool.eq_false_iff]
      intro hopens
      simp only [isOpening, Bool.or_eq_true, beq_iff_eq] at hopens
      rcases hopens with ((rfl | rfl) | rfl) | rfl <;> exact absurd hchar (by decide)
    rw [List.singleton_append, read?_of_stops (Text.stops_cons.2 hopening),
      read?_of_stops (Text.stops_cons.2 hopening)]
    rfl
  · exact read?_append_of_le hlong _

end Bracket

theorem Arrow.read?_append_box (b : Bracket) (n : Nat) {p : Text} (hp : Text.EndsName p)
    (q : Text) :
    read? (p ++ (b.box n ++ q)) = (read? p).map fun found =>
      (found.1, found.2 ++ (b.box n ++ q)) := by
  rcases List.eq_nil_or_concat' p with rfl | ⟨front, c, rfl⟩
  · obtain ⟨c, cs, hc, hmem⟩ := b.exists_box_eq n
    have hne : c ≠ '-' ∧ c ≠ '=' := by
      constructor <;> (rintro rfl; exact absurd hmem (by decide))
    rw [List.nil_append, hc, List.cons_append, read?_of_ne hne.1 hne.2]
    rfl
  · -- no arrow reaches over the last character
    have hchar : Identifier.isChar c = true := hp c (by simp)
    have hstops : ∀ t,
        Text.Stops (fun c => c == '-' || c == '=' || c == '.' || c == '>') (c :: t) := by
      intro t
      apply Text.stops_cons.2
      simp [Identifier.ne_of_isChar hchar (show Identifier.isChar '-' = false by decide),
        Identifier.ne_of_isChar hchar (show Identifier.isChar '=' = false by decide),
        Identifier.ne_of_isChar hchar (show Identifier.isChar '.' = false by decide),
        Identifier.ne_of_isChar hchar (show Identifier.isChar '>' = false by decide)]
    rw [List.append_assoc, List.singleton_append, read?_append_of_stops (hstops _),
      read?_append_of_stops (hstops []), Option.map_map]
    congr 1
    funext found
    simp

namespace Text

variable {b b' : Bracket} {m n : Nat}

/-- Two texts that differ at most in a box that does not stand behind the mark of an arrow. -/
inductive Reboxed (b b' : Bracket) (m n : Nat) : Text → Text → Prop
  | same (t : Text) : Reboxed b b' m n t t
  | across (p q : Text) (hp : EndsName p) :
    Reboxed b b' m n (p ++ (b.box m ++ q)) (p ++ (b'.box n ++ q))

/-- The same was read, and the rests differ at most in a box. -/
def RestReboxed {α : Type} (b b' : Bracket) (m n : Nat) (found found' : α × Text) : Prop :=
  found.1 = found'.1 ∧ Reboxed b b' m n found.2 found'.2

namespace Reboxed

variable {t t' : Text}

theorem map {f : Text → Text} (hsuffix : ∀ p, f p <:+ p)
    (hf : ∀ (b : Bracket) n p q, EndsName p → f (p ++ (b.box n ++ q)) = f p ++ (b.box n ++ q))
    (h : Reboxed b b' m n t t') : Reboxed b b' m n (f t) (f t') := by
  cases h with
  | same t => exact same _
  | across p q hp =>
    rw [hf b m p q hp, hf b' n p q hp]
    exact across _ q (hp.suffix (hsuffix p))

theorem rel {α : Type} {read : Text → Option (α × Text)}
    (hsuffix : ∀ p a rest, read p = some (a, rest) → rest <:+ p)
    (hread : ∀ (b : Bracket) n p q, EndsName p →
      read (p ++ (b.box n ++ q)) = (read p).map fun found => (found.1, found.2 ++ (b.box n ++ q)))
    (h : Reboxed b b' m n t t') : Option.Rel (RestReboxed b b' m n) (read t) (read t') := by
  cases h with
  | same t => exact rel_refl (fun found => ⟨rfl, same _⟩) _
  | across p q hp =>
    rw [hread b m p q hp, hread b' n p q hp]
    cases hp' : read p with
    | none => exact .none
    | some found => exact .some ⟨rfl, across _ q (hp.suffix (hsuffix p found.1 found.2 hp'))⟩

theorem trimLeft (h : Reboxed b b' m n t t') :
    Reboxed b b' m n (Text.trimLeft t) (Text.trimLeft t') :=
  h.map (fun _ => List.dropWhile_suffix _) fun b n p q _ =>
    dropWhile_append_of_stops p (b.stops_box n (by decide) q)

theorem arrow (h : Reboxed b b' m n t t') :
    Option.Rel (RestReboxed b b' m n) (Arrow.read? t) (Arrow.read? t') :=
  h.rel (fun _ taken _ hread => ⟨taken, (Arrow.eq_append_of_read? hread).symm⟩)
    fun b n _ q hp => Arrow.read?_append_box b n hp q

theorem identifier (h : Reboxed b b' m n t t') :
    Option.Rel (RestReboxed b b' m n) (Identifier.read? t) (Identifier.read? t') :=
  h.rel (fun _ name _ hread => ⟨name, (Identifier.eq_append_of_read? hread).symm⟩)
    fun b n p q _ => Identifier.read?_append_of_stops (b.stops_box n (by decide) q) p

theorem readClass (h : Reboxed b b' m n t t') :
    Reboxed b b' m n (Link.readClass t).2 (Link.readClass t').2 :=
  h.map (f := fun t => (Link.readClass t).2) (fun p =>
    ⟨(Link.readClass p).1, (Link.eq_of_readClass p).symm⟩)
    fun b n _ q _ => Link.readClass_append (b.stops_box n (by decide) q)

theorem bar (h : Reboxed b b' m n t t') :
    Option.Rel (Reboxed b b' m n) (after? ['|'] t) (after? ['|'] t') := by
  cases h with
  | same t => exact rel_refl same _
  | across p q hp =>
    have hafter : ∀ (b : Bracket) n, after? ['|'] (p ++ (b.box n ++ q)) =
        (after? ['|'] p).map (· ++ (b.box n ++ q)) := fun b n =>
      after?_append_of_stops p (List.forall_mem_singleton.2 (b.stops_box n (by decide) q))
    rw [hafter, hafter]
    cases hbar : after? ['|'] p with
    | none => exact .none
    | some rest => exact .some (across _ q (hp.suffix ⟨['|'], (after?_eq_some_iff.1 hbar).symm⟩))

/-- What is cut off at a bar differs at most as the texts do. -/
theorem cut (h : Reboxed b b' m n t t') :
    Option.Rel (fun found found' =>
      Reboxed b b' m n found.1 found'.1 ∧ Reboxed b b' m n found.2 found'.2)
      (cut? ['|'] t) (cut? ['|'] t') := by
  cases h with
  | same t => exact rel_refl (fun found => ⟨same _, same _⟩) _
  | across p q hp =>
    by_cases hbar : '|' ∈ p
    · obtain ⟨before, after, rfl, hbefore⟩ := List.eq_append_cons_of_mem hbar
      have hcut : ∀ x, cut? ['|'] (before ++ '|' :: after ++ x) = some (before, after ++ x) := by
        intro x
        have := cut?_of_not_mem (after ++ x) hbefore
        simpa using this
      rw [hcut, hcut]
      exact .some ⟨same _, across _ q (hp.suffix ⟨before ++ ['|'], by simp⟩)⟩
    · have hcut : ∀ (b : Bracket) n, cut? ['|'] (p ++ (b.box n ++ q)) =
          (cut? ['|'] q).map fun found => (p ++ (b.box n ++ found.1), found.2) := by
        intro b n
        have hfree : '|' ∉ p ++ b.box n := by
          rw [List.mem_append, not_or]
          refine ⟨hbar, fun hmem => ?_⟩
          have hnot := b.forall_mem_box n (p := (· == '|')) (by decide) '|' hmem
          simp at hnot
        have := cut?_append_of_not_mem hfree q
        simpa using this
      rw [hcut, hcut]
      cases cut? ['|'] q with
      | none => exact .none
      | some found => exact .some ⟨across p _ hp, same _⟩

end Reboxed
end Text

/-! ## Links -/

namespace Connector

variable {b b' : Bracket} {m n : Nat} {t t' : Text}

/-- Two connectors that differ at most in a box in the label. -/
structure Reboxed (b b' : Bracket) (m n : Nat) (k k' : Connector) : Prop where
  arrow : k.arrow = k'.arrow
  text : Text.Reboxed b b' m n ((k.label.map (·.text)).getD []) ((k'.label.map (·.text)).getD [])

theorem readLabel_reboxed (h : Text.Reboxed b b' m n t t') :
    Text.Reboxed b b' m n (((readLabel t).1.map (·.text)).getD [])
      (((readLabel t').1.map (·.text)).getD []) ∧
        Text.Reboxed b b' m n (readLabel t).2 (readLabel t').2 := by
  have hbar := h.trimLeft.bar
  unfold readLabel EdgeLabel.read?
  simp only [Option.bind_eq_bind]
  generalize Text.after? ['|'] (Text.trimLeft t) = inside at hbar ⊢
  generalize Text.after? ['|'] (Text.trimLeft t') = inside' at hbar ⊢
  cases hbar with
  | none => exact ⟨.same [], h⟩
  | @some inside inside' hinside =>
    have hcut := hinside.cut
    simp only [Option.bind_some]
    generalize Text.cut? ['|'] inside = found at hcut ⊢
    generalize Text.cut? ['|'] inside' = found' at hcut ⊢
    cases hcut with
    | none => exact ⟨.same [], h⟩
    | some hfound => exact hfound

end Connector

namespace Link

variable {b b' : Bracket} {m n : Nat} {t t' : Text}

/-- Two connectors with the same target. -/
def TailReboxed (b b' : Bracket) (m n : Nat) (e e' : Connector × Text) : Prop :=
  e.1.Reboxed b b' m n e'.1 ∧ e.2 = e'.2

theorem TailReboxed.refl (e : Connector × Text) : TailReboxed b b' m n e e := ⟨⟨rfl, .same _⟩, rfl⟩

theorem tail?_reboxed (h : Text.Reboxed b b' m n t t') :
    Option.Rel (TailReboxed b b' m n) (tail? t) (tail? t') := by
  have harrow := h.trimLeft.arrow
  unfold tail? readTail? Connector.read?
  simp only [Option.bind_eq_bind]
  generalize Arrow.read? (Text.trimLeft t) = arrow at harrow ⊢
  generalize Arrow.read? (Text.trimLeft t') = arrow' at harrow ⊢
  cases harrow with
  | none => exact .none
  | @some found found' hrest =>
    obtain ⟨spelling, rest⟩ := found
    obtain ⟨spelling', rest'⟩ := found'
    obtain ⟨rfl, hrest⟩ := hrest
    obtain ⟨hlabel, hrest⟩ := Connector.readLabel_reboxed hrest
    have htarget := hrest.trimLeft.identifier
    simp only [Option.bind_some, Option.pure_def]
    generalize Identifier.read? (Text.trimLeft (Connector.readLabel rest).2) = target at htarget ⊢
    generalize Identifier.read? (Text.trimLeft (Connector.readLabel rest').2) = target' at htarget ⊢
    cases htarget with
    | none => exact .none
    | some htarget => exact .some ⟨⟨rfl, hlabel⟩, htarget.1⟩

theorem inline?_filler (b : Bracket) (n : Nat) (q : Text) :
    inline? (Text.filler n ++ (b.closer ++ q)) = (tail? (readClass q).2).or (inline? q) := by
  rw [inline?_append, inline?_closer]
  intro c hc
  rw [List.eq_of_mem_replicate hc]
  decide

theorem inline?_box (b : Bracket) (n : Nat) (q : Text) :
    inline? (b.box n ++ q) = (tail? (readClass q).2).or (inline? q) := by
  have hall : b.opener.all (fun c => c != '\n' && !Bracket.isClosing c) = true := by
    cases b <;> decide
  have hopener : ∀ c ∈ b.opener, c ≠ '\n' ∧ Bracket.isClosing c = false := by
    intro c hc
    simpa using List.all_eq_true.1 hall c hc
  rw [Bracket.box, List.append_assoc, List.append_assoc, inline?_append hopener, inline?_filler]

/-- An inline declaration that starts before a box ends before it, or behind it all the same. -/
theorem inline?_reboxed (h : Text.Reboxed b b' m n t t') :
    Option.Rel (TailReboxed b b' m n) (inline? t) (inline? t') := by
  cases h with
  | same t => exact Text.rel_refl .refl _
  | across p q hp =>
    induction p with
    | nil =>
      rw [List.nil_append, List.nil_append, inline?_box, inline?_box]
      exact Text.rel_refl .refl _
    | cons d ds ih =>
      have hds : Text.EndsName ds := hp.suffix (List.suffix_cons d ds)
      by_cases hline : d = '\n'
      · subst hline
        exact .none
      · have hclass := (Text.Reboxed.across ds q hds : Text.Reboxed b b' m n _ _).readClass
        rw [List.cons_append, List.cons_append, inline?_cons hline, inline?_cons hline]
        refine Text.rel_or ?_ (ih hds)
        split
        · exact tail?_reboxed hclass
        · exact .none

/-- The same source, and connectors with the same target. -/
def EndsReboxed (b b' : Bracket) (m n : Nat) (e e' : Text × Connector × Text) : Prop :=
  e.1 = e'.1 ∧ TailReboxed b b' m n e.2 e'.2

/-- A link that starts before a box has the same ends. -/
theorem ends?_reboxed {p : Text} (hp : Text.EndsName p) (q : Text) :
    Option.Rel (EndsReboxed b b' m n) (ends? (p ++ (b.box m ++ q)))
      (ends? (p ++ (b'.box n ++ q))) := by
  have hname :=
    fun (b : Bracket) n => Identifier.read?_append_of_stops (b.stops_box n (by decide) q) p
  rw [ends?_eq, ends?_eq, hname, hname]
  cases hread : Identifier.read? p with
  | none => exact .none
  | some found =>
    obtain ⟨name, rest⟩ := found
    have hrest : Text.EndsName rest := hp.suffix ⟨name, (Identifier.eq_append_of_read? hread).symm⟩
    have hmap : ∀ {x y}, Option.Rel (TailReboxed b b' m n) x y →
        Option.Rel (EndsReboxed b b' m n) (x.map fun e => (name, e)) (y.map fun e =>
          (name, e)) := by
      intro x y h
      cases h with
      | none => exact .none
      | some h => exact .some ⟨rfl, h⟩
    simp only [Option.map_some, Option.bind_some]
    by_cases hnil : rest = []
    · -- the box is that of the source
      subst hnil
      simp only [List.nil_append, Bracket.read?_box, inline?_filler]
      exact hmap (Text.rel_refl .refl _)
    · rw [b.read?_append_box m hrest hnil, b'.read?_append_box n hrest hnil]
      cases hopened : Bracket.read? rest with
      | none => exact hmap (tail?_reboxed (.across rest q hrest))
      | some opened =>
        have hinside : Text.EndsName opened.2 :=
          hrest.suffix ⟨opened.1.opener, (Bracket.eq_append_of_read? hopened).symm⟩
        exact hmap (inline?_reboxed (.across opened.2 q hinside))

/-- From any place before a box on, a link with the same ends is found first. -/
theorem firstEnds?_reboxed {p : Text} (hp : Text.EndsName p) (q : Text) (before : Option Char) :
    Option.Rel (EndsReboxed b b' m n) (firstEnds? before (p ++ (b.box m ++ q)))
      (firstEnds? before (p ++ (b'.box n ++ q))) := by
  induction p generalizing before with
  | nil =>
    -- no link starts in the box
    have hbehind : ∀ (b : Bracket) n, firstEnds? before (b.box n ++ q) = firstEnds? none q := by
      intro b n
      have hchar := b.forall_mem_box n (p := Identifier.isChar) (by decide)
      rw [firstEnds?_append_of_not_isStart fun c hc =>
          Identifier.not_isStart_of_not_isChar (hchar c hc)]
      apply firstEnds?_before
      obtain ⟨c, cs, hbox, -⟩ := b.exists_box_eq n
      obtain ⟨d, hd, hend⟩ := Text.endOf_of_ne_nil before (x := b.box n) (by simp [hbox])
      rw [hend, Identifier.apart, Option.any_some, hchar d hd]
      rfl
    rw [List.nil_append, List.nil_append, hbehind, hbehind]
    exact Text.rel_refl (fun e => ⟨rfl, .refl _⟩) _
  | cons c cs ih =>
    have hhere : Option.Rel (EndsReboxed b b' m n) (ends? (c :: cs ++ (b.box m ++ q)))
        (ends? (c :: cs ++ (b'.box n ++ q))) := ends?_reboxed hp q
    rw [List.cons_append, List.cons_append] at hhere ⊢
    rw [firstEnds?_cons, firstEnds?_cons]
    refine Text.rel_or ?_ (ih (hp.suffix (List.suffix_cons c cs)) (some c))
    split
    · exact hhere
    · exact .none

end Link
end Chartwright
