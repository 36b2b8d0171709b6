import Chartwright.Proofs.Line.Directive
import Chartwright.Proofs.Line.Masking
import Chartwright.Proofs.Line.ReadFrom
/-!
What stands around the name of a node.

Behind the name there may be brackets around a label and a class suffix, and then the node ends: the
line ends, or a blank, an ampersand or an arrow comes next (`Line.Ends`). A suffix is blanked by
itself where a node ends (`Line.maskEdgeLabels_suffix`), and a name without brackets declares
nothing.
-/
namespace Chartwright

namespace Bracket

theorem noArrow_opener (b : Bracket) : Line.NoArrow b.opener := by
  cases b <;> simp [Line.NoArrow, opener]

theorem noArrow_closer (b : Bracket) : Line.NoArrow b.closer := by
  cases b <;> simp [Line.NoArrow, closer]

theorem colon_not_mem_opener (b : Bracket) : ':' ∉ b.opener := by cases b <;> simp [opener]

theorem colon_not_mem_closer (b : Bracket) : ':' ∉ b.closer := by cases b <;> simp [closer]

theorem head_closer (b : Bracket) :
    ∃ c cs, b.closer = c :: cs ∧ (c = ']' ∨ c = ')' ∨ c = '}' ∨ c = '/' ∨ c = '\\') := by
  cases b <;> simp [closer]

theorem stops_closer {p : Char → Bool} (b : Bracket)
    (h : [']', ')', '}', '/', '\\'].all (fun c => !p c) = true) (t : Text) :
    Text.Stops p (b.closer ++ t) := by
  obtain ⟨c, cs, hc, hmem⟩ := b.head_closer
  have hp : p c = false := by simpa using List.all_eq_true.1 h c (by simpa using hmem)
  rw [hc, List.cons_append, Text.stops_cons]
  exact hp

variable {b : Bracket} {label : Text}

theorem stops_isChar_opener (b : Bracket) (t : Text) :
    Text.Stops Identifier.isChar (b.opener ++ t) := by
  cases b <;> exact Text.stops_cons.2 (by decide)

theorem space_not_mem_closer (b : Bracket) : ' ' ∉ b.closer := by cases b <;> simp [closer]

/-- A label that fits is read back when some of it is hidden too. -/
theorem read?_hide {filler : Char} (hfiller : b.isExtension filler = false) (spans : List Span)
    (h : read? (b.opener ++ (label ++ b.closer)) = some (b, label ++ b.closer)) (t : Text) :
    read? (b.opener ++ (Text.hide filler spans label ++ (b.closer ++ t))) =
      some (b, Text.hide filler spans label ++ (b.closer ++ t)) := by
  have hstops := read?_opener_append.1 h
  rw [read?_opener_append]
  cases label with
  | nil =>
    obtain ⟨c, cs, hc, -⟩ := b.head_closer
    rw [List.nil_append, hc, Text.stops_cons] at hstops
    rw [hc]
    exact Text.stops_cons.2 hstops
  | cons c cs =>
    rw [List.cons_append, Text.stops_cons] at hstops
    obtain ⟨d, hd, hhide⟩ := Text.hide_cons filler spans c cs
    rw [hhide]
    apply Text.stops_cons.2
    rcases hd with rfl | rfl
    · exact hstops
    · exact hfiller

end Bracket

namespace Identifier

variable {id : Text}

theorem noArrow_of_valid (h : valid id = true) : Line.NoArrow id := fun c hc =>
  ⟨ne_of_isChar (isChar_of_valid h c hc) (by decide),
    ne_of_isChar (isChar_of_valid h c hc) (by decide)⟩

theorem apart_endOf_of_isBlank {x : Text} (h : ∀ c ∈ x, Text.isBlank c = true) :
    apart (Text.endOf none x) = true := by
  by_cases hnil : x = []
  · rw [hnil]
    rfl
  · obtain ⟨c, hc, hend⟩ := Text.endOf_of_ne_nil none hnil
    simp [hend, apart, not_isChar_of_isBlank (h c hc)]

end Identifier

namespace Text

theorem noArrow_of_isBlank {t : Text} (h : ∀ c ∈ t, isBlank c = true) : Line.NoArrow t := by
  intro c hc
  have hblank := h c hc
  constructor <;> rintro rfl <;> exact absurd hblank (by decide)

theorem not_mem_of_isBlank {t : Text} (h : ∀ c ∈ t, isBlank c = true) {c : Char}
    (hc : isBlank c = false) : c ∉ t := by
  intro hmem
  rw [h c hmem] at hc
  cases hc

theorem not_isBlank_of_isWord {c : Char} (h : isWord c = true) : isBlank c = false := by
  rw [Bool.eq_false_iff]
  intro hblank
  rw [not_isWord_of_isBlank hblank] at h
  cases h

theorem ne_of_isWord {c d : Char} (h : isWord c = true) (hd : isWord d = false) : c ≠ d := by
  rintro rfl
  rw [h] at hd
  cases hd

end Text

theorem Bracket.not_isOpening_of_isWord {c : Char} (h : Text.isWord c = true) :
    isOpening c = false := by
  rw [Bool.eq_false_iff]
  intro hopening
  simp only [isOpening, Bool.or_eq_true, beq_iff_eq] at hopening
  rcases hopening with ((rfl | rfl) | rfl) | rfl <;> exact absurd h (by decide)

theorem Identifier.not_arrow_of_isChar {c : Char} (h : isChar c = true) :
    (c == '-' || c == '=') = false := by
  have hdash : c ≠ '-' := ne_of_isChar h (by decide)
  have hequal : c ≠ '=' := ne_of_isChar h (by decide)
  simp [hdash, hequal]

namespace Line

/-- A text that can follow a node: it is empty, or starts with a blank, an ampersand or an arrow. -/
def Ends (t : Text) : Prop :=
  Text.Stops (fun c => !(Text.isBlank c || c == '&' || c == '-' || c == '=')) t

namespace Ends

variable {t : Text}

theorem stops (h : Ends t) {p : Char → Bool} (hblank : ∀ c, Text.isBlank c = true → p c = false)
    (hand : p '&' = false) (hdash : p '-' = false) (hequal : p '=' = false) : Text.Stops p t := by
  intro c hc
  have := h c hc
  simp only [Bool.not_eq_false', Bool.or_eq_true, beq_iff_eq] at this
  rcases this with ((hb | rfl) | rfl) | rfl
  · exact hblank c hb
  · exact hand
  · exact hdash
  · exact hequal

theorem stops_isSuffixChar (h : Ends t) : Text.Stops isSuffixChar t := by
  refine h.stops (fun c hc => ?_) (by decide) (by decide) (by decide)
  have hcolon : c ≠ ':' := by
    rintro rfl
    exact absurd hc (by decide)
  simp [isSuffixChar, Text.not_isWord_of_isBlank hc, hcolon]

theorem stops_isChar (h : Ends t) : Text.Stops Identifier.isChar t :=
  h.stops (fun _ => Identifier.not_isChar_of_isBlank) (by decide) (by decide) (by decide)

/-- What ends a node does not run on into a keyword: the Kelvin sign is a letter in lower case, but
no blank. -/
theorem stops_isLetter (h : Ends t) : Text.Stops Keyword.isLetter t := by
  refine h.stops (fun c hc => ?_) (by decide) (by decide) (by decide)
  have hkelvin : c.toNat ≠ 0x212A := by
    intro hk
    rw [Text.isBlank, hk] at hc
    cases hc
  simp [Keyword.isLetter, Identifier.not_isChar_of_isBlank hc, hkelvin]

theorem bracketRead? (h : Ends t) : Bracket.read? t = none := by
  refine Bracket.read?_of_stops (h.stops (fun c hc => ?_) (by decide) (by decide) (by decide))
  simp only [Bracket.isOpening, Bool.or_eq_false_iff, beq_eq_false_iff_ne]
  refine ⟨⟨⟨?_, ?_⟩, ?_⟩, ?_⟩ <;> rintro rfl <;> exact absurd hc (by decide)

theorem spaces (h : Ends t) (n : Nat) : Ends (List.replicate n ' ' ++ t) := by
  cases n with
  | zero => exact h
  | succ n => exact Text.stops_cons.2 (by decide)

theorem maskEdgeLabels (h : Ends t) : Ends (Line.maskEdgeLabels t) := by
  cases t with
  | nil => exact Text.stops_nil _
  | cons c cs =>
    obtain ⟨d, hd, hhide⟩ :=
      Text.hide_cons ' ' (Line.edgeLabels (c :: cs) ++ Line.classSuffixes (c :: cs)) c cs
    rw [Line.maskEdgeLabels, hhide]
    rcases hd with rfl | rfl
    · exact Text.stops_cons.2 (Text.stops_cons.1 h)
    · exact Text.stops_cons.2 (by decide)

theorem stops_isStart (h : Ends t) : Text.Stops Identifier.isStart t :=
  h.stops (fun _ hc => Identifier.not_isStart_of_not_isChar (Identifier.not_isChar_of_isBlank hc))
    (by decide)
    (by decide) (by decide)

end Ends

/-! ## Class suffixes -/

section Suffix

variable {suffix t : Text} (h : suffix = [] ∨ classSuffix? suffix = some (suffix, []))

include h

/-- A suffix is three colons and a word. -/
theorem suffix_eq :
    suffix = [] ∨ ∃ word, word ≠ [] ∧ suffix = [':', ':', ':'] ++ word ∧
      ∀ c ∈ word, Text.isWord c = true := by
  apply h.imp_right
  intro hread
  simp only [classSuffix?, Option.bind_eq_bind, Option.bind_eq_some_iff,
    Option.ite_none_left_eq_some, Option.some.injEq, Prod.mk.injEq] at hread
  obtain ⟨word, hword, hne, -, hdrop⟩ := hread
  have hall : word.takeWhile Text.isWord = word := by
    simpa [hdrop] using List.takeWhile_append_dropWhile (p := Text.isWord) (l := word)
  refine ⟨word, ?_, Text.after?_eq_some_iff.1 hword, fun c hc => ?_⟩
  · rintro rfl
    simp at hne
  · rw [← hall] at hc
    exact List.all_eq_true.1 List.all_takeWhile c hc

/-- A suffix is blanked. -/
theorem maskEdgeLabels_suffix (ht : Ends t) :
    maskEdgeLabels (suffix ++ t) = List.replicate suffix.length ' ' ++ maskEdgeLabels t := by
  rcases suffix_eq h with hnil | ⟨word, -, heq, hword⟩
  · simp [hnil]
  · have hne : suffix ≠ [] := by simp [heq]
    have hread := h.resolve_left hne
    have harrow : NoArrow suffix := by
      rw [heq]
      intro c hc
      rcases List.mem_append.1 hc with hc | hc
      · simp at hc
        subst hc
        decide
      · have hc := hword c hc
        constructor <;> rintro rfl <;> exact absurd hc (by decide)
    have hwidth : ∀ y, Text.Stops isSuffixChar y →
        suffixAt (suffix ++ y) = some (⟨0, suffix.length⟩, suffix.length) := by
      intro y hy
      rw [suffixAt_append _ hy, suffixAt, hread]
      rfl
    have hlong := Text.spansOf_cons hne (hwidth t ht.stops_isSuffixChar)
    have hshort := Text.spansOf_cons hne (hwidth [] (Text.stops_nil _))
    rw [List.append_nil, Text.spansOf_nil, List.map_nil] at hshort
    rw [maskEdgeLabels_append ⟨?_, ?_⟩]
    · congr 1
      rw [maskEdgeLabels, edgeLabels_eq, classSuffixes_eq, hshort]
      exact Text.hide_of_mem (List.mem_append_right _ List.mem_cons_self) rfl (Nat.le_refl _)
    · rw [spansOf_edgeLabelAt_append harrow, spansOf_edgeLabelAt harrow, List.nil_append]
    · rw [hlong, hshort]
      rfl

theorem mem_suffix {c : Char} (hc : c ∈ suffix) : c = ':' ∨ Text.isWord c = true := by
  rcases suffix_eq h with hnil | ⟨word, -, heq, hword⟩
  · rw [hnil] at hc
    cases hc
  · rw [heq] at hc
    rcases List.mem_append.1 hc with hc | hc
    · exact .inl (by simpa using hc)
    · exact .inr (hword c hc)

end Suffix

end Line

/-! ## Declarations -/

namespace Declaration

variable {before : Option Char} {t : Text}

/-- A declaration as the masked line shows it. -/
def masked (d : Declaration) : Declaration := { d with label := Line.maskEdgeLabels d.label }

theorem readFrom_spaces (before : Option Char) (offset n : Nat) (t : Text) :
    readFrom before 0 offset (List.replicate n ' ' ++ t) =
      readFrom (Text.endOf before (List.replicate n ' ')) 0 (offset + n) t := by
  have hspace : ∀ c ∈ List.replicate n ' ', Identifier.isStart c = false := by
    intro c hc
    rw [(List.mem_replicate.1 hc).2]
    decide
  rw [readFrom_append_of_not_isStart hspace, List.length_replicate]

/-- An identifier without brackets declares nothing. -/
theorem readFrom_id {id : Text} (h : Identifier.valid id = true) (ht : Line.Ends t) (offset : Nat) :
    readFrom before 0 offset (id ++ t) =
      readFrom (Text.endOf before id) 0 (offset + id.length) t := by
  refine readFrom_of_none (fun front s hs _ => ?_) offset
  cases front with
  | nil =>
    obtain rfl : id = s := hs
    have hread := Identifier.read?_append h ht.stops_isChar
    cases hb : Identifier.apart before with
    | true => simp [opening?, Identifier.token?, Text.endOf, hb, hread, ht.bracketRead?]
    | false => simp [opening?, Identifier.token?, Text.endOf, hb]
  | cons c cs =>
    -- inside of the identifier no other one starts
    obtain ⟨l, hl, hend⟩ := Text.endOf_of_ne_nil before (List.cons_ne_nil c cs)
    have hchar := Identifier.isChar_of_valid h l (hs ▸ List.mem_append_left s hl)
    simp [opening?, Identifier.token?, Identifier.apart, hend, hchar]

theorem readFrom_of_stops {t : Text} (h : Text.Stops Identifier.isStart t)
    (before other : Option Char) (offset : Nat) :
    readFrom before 0 offset t = readFrom other 0 offset t := by
  cases t with
  | nil => rfl
  | cons c cs =>
    rw [Text.stops_cons] at h
    simp only [readFrom, opening?_of_not_isStart h]

end Declaration
end Chartwright
