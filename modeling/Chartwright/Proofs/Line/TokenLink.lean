import Chartwright.Proofs.Line.LinkEnds
import Chartwright.Proofs.Line.Row
/-!
The link that starts at a node.

With its label filled a node shows words and a few marks, so neither an ampersand nor a connector. A
link starts at the node if a connector follows it, or if it has a label and an inline declaration
from there ends somewhere (`Token.ends?_filled`). An inline declaration from further left ends at
the connector behind the node if the node has a label (`Token.inline?_filled`).
-/
namespace Chartwright

theorem Bracket.read?_filled (b : Bracket) (n : Nat) (t : Text) :
    read? (b.opener ++ (List.replicate n '\x00' ++ (b.closer ++ t))) =
      some (b, List.replicate n '\x00' ++ (b.closer ++ t)) := by
  refine read?_opener_append.2 ?_
  cases n with
  | zero => cases b <;> exact Text.stops_cons.2 (by decide)
  | succ n => cases b <;> exact Text.stops_cons.2 (by decide)

namespace Token

variable (e : Token) {t : Text}

/-- A class suffix stands behind brackets only, so the name of the node is read right before what
follows. -/
def Anchored : Prop := e.label = none → e.suffix = []

/-! ## What a node shows -/

/-- What follows the name of a node does not prolong it. -/
theorem stops_isChar_brackets (f : Text → Text) (ht : Text.Stops Identifier.isChar t) :
    Text.Stops Identifier.isChar (e.brackets f ++ (e.suffix ++ t)) := by
  cases hlabel : e.label with
  | none =>
    have hbrackets : e.brackets f = [] := by simp [brackets, hlabel]
    rw [hbrackets, List.nil_append]
    rcases Line.suffix_eq e.suffix_read with hnil | ⟨word, -, heq, -⟩
    · rwa [hnil]
    · rw [heq]
      exact Text.stops_cons.2 (by decide)
  | some label =>
    obtain ⟨b, text⟩ := label
    have hbrackets : e.brackets f = b.opener ++ (f text ++ b.closer) := by simp [brackets, hlabel]
    rw [hbrackets, List.append_assoc]
    exact b.stops_isChar_opener _

/-- The characters that can stand around the words of a filled node. -/
def marks : List Char := ['(', '[', '{', '>', ')', ']', '}', '/', '\\', ':', '\x00']

theorem mem_filled {c : Char} (h : c ∈ e.filled) : Text.isWord c = true ∨ c ∈ marks := by
  rcases List.mem_append.1 h with h | h
  · exact .inl (Text.isWord_of_isChar (Identifier.isChar_of_valid e.id_valid c h))
  · rcases List.mem_append.1 h with h | h
    · unfold brackets at h
      split at h
      · cases h
      · next b text hlabel =>
        rcases List.mem_append.1 h with h | h
        · apply Or.inr
          cases b <;> simp [Bracket.opener] at h <;> simp [marks, h]
          all_goals rcases h with rfl | rfl <;> simp
        · rcases List.mem_append.1 h with h | h
          · exact .inr (by simp [marks, (List.mem_replicate.1 h).2])
          · apply Or.inr
            cases b <;> simp [Bracket.closer] at h <;> simp [marks, h]
            all_goals rcases h with rfl | rfl <;> simp
    · rcases Line.mem_suffix e.suffix_read h with rfl | h
      · exact .inr (by simp [marks])
      · exact .inl h

theorem forall_mem_filled {p : Char → Bool} (hword : ∀ c, Text.isWord c = true → p c = true)
    (hmarks : marks.all p = true) : ∀ c ∈ e.filled, p c = true := by
  intro c hc
  rcases e.mem_filled hc with h | h
  · exact hword c h
  · exact List.all_eq_true.1 hmarks c h

theorem isQuiet_of_mem_filled : ∀ c ∈ e.filled, Connector.isQuiet c = true :=
  e.forall_mem_filled (fun _ => Connector.isQuiet_of_isWord) (by decide)

theorem and_not_mem_filled : '&' ∉ e.filled := by
  intro hmem
  have hword : ∀ c, Text.isWord c = true → (c != '&') = true := fun c hc => by
    simpa using Text.ne_of_isWord hc (by decide)
  exact absurd (e.forall_mem_filled hword (by decide) '&' hmem) (by decide)

theorem not_isStart_of_mem_brackets :
    ∀ c ∈ e.brackets (fun text => List.replicate text.length '\x00'),
      Identifier.isStart c = false := by
  unfold brackets
  split
  · simp
  · next b text _ =>
    intro c hc
    simp only [List.mem_append] at hc
    rcases hc with hc | hc | hc
    · cases b <;> simp [Bracket.opener] at hc <;> rcases hc with rfl | rfl <;> decide
    · rw [(List.mem_replicate.1 hc).2]
      decide
    · cases b <;> simp [Bracket.closer] at hc <;> rcases hc with rfl | rfl <;> decide

theorem read?_filled_append (ht : Text.Stops Identifier.isChar t) :
    Identifier.read? (e.filled ++ t) =
      some (e.id, e.brackets (fun text => List.replicate text.length '\x00') ++
        (e.suffix ++ t)) := by
  rw [filled, List.append_assoc, List.append_assoc]
  exact Identifier.read?_append e.id_valid (e.stops_isChar_brackets _ ht)

/-! ## Links -/

theorem inline?_label (b : Bracket) (n : Nat) (ht : Line.Ends t) :
    Link.inline? (List.replicate n '\x00' ++ (b.closer ++ (e.suffix ++ t))) =
      (Link.tail? t).or (Link.inline? t) := by
  rw [Link.inline?_append, Link.inline?_closer, Link.readClass_suffix_append e.suffix_read ht,
    Link.inline?_suffix e.suffix_read]
  intro c hc
  rw [(List.mem_replicate.1 hc).2]
  decide

/-- What an inline declaration from further left finds at a node: the connector behind the node if
this has a label, and else what stands further right. -/
theorem inline?_filled (ht : Line.Ends t) :
    Link.inline? (e.filled ++ t) =
      (if e.label.isSome then Link.tail? t else none).or (Link.inline? t) := by
  have hid : ∀ c ∈ e.id, Text.isWord c = true := fun c hc =>
    Text.isWord_of_isChar (Identifier.isChar_of_valid e.id_valid c hc)
  rw [filled, List.append_assoc, Link.inline?_word hid]
  cases hlabel : e.label with
  | none => simp [brackets, hlabel, Link.inline?_suffix e.suffix_read]
  | some label =>
    obtain ⟨b, text⟩ := label
    have hopener : ∀ c ∈ b.opener, c ≠ '\n' ∧ Bracket.isClosing c = false := by
      cases b <;> simp [Bracket.opener] <;> decide
    have hbrackets : e.brackets (fun text => List.replicate text.length '\x00') =
        b.opener ++ (List.replicate text.length '\x00' ++ b.closer) := by simp [brackets, hlabel]
    rw [hbrackets, List.append_assoc, List.append_assoc, List.append_assoc,
      Link.inline?_append hopener, e.inline?_label b _ ht]
    rfl

variable {e}

/-- The link that starts at a node. -/
theorem ends?_filled (hanchored : e.Anchored) (ht : Line.Ends t) :
    Link.ends? (e.filled ++ t) =
      ((Link.tail? t).or (if e.label.isSome then Link.inline? t else none)).map
        fun (k, target) => (e.id, k, target) := by
  have hread := e.read?_filled_append ht.stops_isChar
  cases hlabel : e.label with
  | none =>
    have hbare : e.brackets (fun text => List.replicate text.length '\x00') ++ (e.suffix ++ t) =
        t := by
      simp [brackets, hlabel, hanchored hlabel]
    rw [hbare] at hread
    simp only [Link.ends?, Link.read?, hread, Link.afterSource?, ht.bracketRead?, Link.tail?,
      Option.bind_eq_bind, Option.bind_some]
    cases Link.readTail? t <;> rfl
  | some label =>
    obtain ⟨b, text⟩ := label
    have hboxed : e.brackets (fun text => List.replicate text.length '\x00') ++ (e.suffix ++ t) =
        b.opener ++ (List.replicate text.length '\x00' ++ (b.closer ++ (e.suffix ++ t))) := by
      simp [brackets, hlabel]
    have hinline := e.inline?_label b text.length ht
    rw [hboxed] at hread
    rw [Option.isSome_some, if_pos rfl, ← hinline]
    simp only [Link.ends?, Link.read?, hread, Link.afterSource?, b.read?_filled, Link.inline?,
      Option.bind_eq_bind, Option.bind_some]
    cases Link.readInline? Link.readTail?
      (List.replicate text.length '\x00' ++ (b.closer ++ (e.suffix ++ t))) <;> rfl

theorem ends?_filled_of_none (hlabel : e.label = none) (ht : Line.Ends t)
    (htail : Link.tail? t = none) : Link.ends? (e.filled ++ t) = none := by
  rcases Line.suffix_eq e.suffix_read with hnil | ⟨word, -, heq, -⟩
  · rw [ends?_filled (fun _ => hnil) ht, htail, hlabel]
    rfl
  · refine Link.ends?_of_none fun name rest hread => ?_
    rw [e.read?_filled_append ht.stops_isChar] at hread
    obtain ⟨-, rfl⟩ := Prod.mk.inj (Option.some.inj hread)
    have hcolon : e.brackets (fun text => List.replicate text.length '\x00') ++ (e.suffix ++ t) =
        ':' :: ([':', ':'] ++ word ++ t) := by simp [brackets, hlabel, heq]
    rw [hcolon]
    exact ⟨Bracket.read?_of_stops (Text.stops_cons.2 (by decide)),
      Link.tail?_of_isQuiet (by decide)⟩

/-- The first link from a node on is the one that starts there, or else the first one behind the
node, if no connector follows at once. -/
theorem firstEnds?_filled {before : Option Char} (hbefore : Identifier.apart before = true)
    (ht : Line.Ends t) (htail : Link.tail? t = none) :
    Link.firstEnds? before (e.filled ++ t) =
      (Link.ends? (e.filled ++ t)).or (Link.firstEnds? (Text.endOf before e.filled) t) := by
  obtain ⟨c, cs, hid⟩ : ∃ c cs, e.id = c :: cs :=
    List.exists_cons_of_ne_nil (Identifier.ne_nil_of_valid e.id_valid)
  have hchar : ∀ d ∈ c :: cs, Identifier.isChar d = true :=
    hid ▸ Identifier.isChar_of_valid e.id_valid
  have hsplit : e.filled ++ t =
      c ::
        (cs ++ (e.brackets (fun text => List.replicate text.length '\x00') ++
        (e.suffix ++ t))) := by
    simp [filled, hid]
  have hend : Text.endOf before e.filled =
      Text.endOf (Text.endOf (Text.endOf (some c) cs)
        (e.brackets (fun text => List.replicate text.length '\x00'))) e.suffix := by
    rw [filled, hid, Text.endOf_append, Text.endOf_append]
    rfl
  rw [hsplit, Link.firstEnds?_cons, if_pos hbefore, Link.firstEnds?_inside hchar,
    Link.firstEnds?_append_of_not_isStart e.not_isStart_of_mem_brackets,
    Link.firstEnds?_suffix e.suffix_read _ ht htail, hend]

theorem firstEnds?_of_tail? {before : Option Char} {k : Connector} {target : Text}
    (hbefore : Identifier.apart before = true) (hanchored : e.Anchored) (ht : Line.Ends t)
    (htail : Link.tail? t = some (k, target)) :
    Link.firstEnds? before (e.filled ++ t) = some (e.id, k, target) := by
  have hends : Link.ends? (e.filled ++ t) = some (e.id, k, target) := by
    rw [ends?_filled hanchored ht, htail]
    rfl
  obtain ⟨c, cs, hid⟩ : ∃ c cs, e.id = c :: cs :=
    List.exists_cons_of_ne_nil (Identifier.ne_nil_of_valid e.id_valid)
  have hcons : ∃ rest, e.filled ++ t = c :: rest := ⟨_, by rw [filled, hid]; rfl⟩
  obtain ⟨rest, hrest⟩ := hcons
  rw [hrest] at hends ⊢
  rw [Link.firstEnds?_cons, if_pos hbefore, hends]
  rfl

theorem tail?_between (e : Token) (p : Tip) {gap space : Text}
    (hgap : ∀ c ∈ gap, Text.isBlank c = true) (hspace : ∀ c ∈ space, Text.isBlank c = true)
    (ht : Text.Stops Identifier.isChar t) :
    Link.tail? (gap ++ (p.written ++ (space ++ (e.filled ++ t)))) =
      some (p.connector gap space, e.id) := by
  rw [filled, List.append_assoc, List.append_assoc]
  exact p.tail?_between hgap hspace e.id_valid (e.stops_isChar_brackets _ ht)

end Token
end Chartwright
