import Chartwright.Line.Declaration
/-!
Links: two identifiers joined by an arrow, such as `A[Start] -->|yes| B`.

A link is read at the leftmost place where one starts. The source may be followed at once by an
inline declaration with a class suffix; the declaration ends at the first closing bracket after
which the rest of a link follows, so a closing bracket inside a label does no harm. Everything else
is determined by the characters at hand: identifiers and runs of blanks are taken whole.

Main statement: the parts of a link, written one after the other, are the text that was read
(`Link.eq_of_read?`).
-/
namespace Chartwright

/-- The label of an arrow between two bars, and the blanks before the first bar. -/
structure EdgeLabel where
  gap : Text
  text : Text
deriving DecidableEq, Repr

namespace EdgeLabel

def written (l : EdgeLabel) : Text := l.gap ++ ['|'] ++ l.text ++ ['|']

/-- Blanks and a label between two bars, and the rest. -/
def read? (t : Text) : Option (EdgeLabel × Text) := do
  let inside ← Text.after? ['|'] (Text.trimLeft t)
  let (label, rest) ← Text.cut? ['|'] inside
  return (⟨Text.blanks t, label⟩, rest)

theorem eq_of_read? {t rest : Text} {l : EdgeLabel} (h : read? t = some (l, rest)) :
    t = l.written ++ rest := by
  simp only [read?, Option.bind_eq_bind, Option.bind_eq_some_iff, Prod.exists, Option.pure_def,
    Option.some.injEq, Prod.mk.injEq] at h
  obtain ⟨inside, hbar, label, r, hcut, rfl, rfl⟩ := h
  calc t = Text.blanks t ++ Text.trimLeft t := (Text.blanks_append_trimLeft t).symm
    _ = _ := by
      rw [Text.after?_eq_some_iff.1 hbar, Text.eq_append_of_cut? hcut]
      simp [written]

end EdgeLabel

/-- What joins two nodes: an arrow, perhaps with a label, and the blanks around it. -/
structure Connector where
  gap : Text
  arrow : Text
  label : Option EdgeLabel
  space : Text
deriving DecidableEq, Repr

namespace Connector

/-- The label part, or nothing. -/
def labelPart (k : Connector) : Text := (k.label.map (·.written)).getD []

def written (k : Connector) : Text := k.gap ++ k.arrow ++ k.labelPart ++ k.space

/-- The label that follows an arrow, if there is one, and the rest. -/
def readLabel (t : Text) : Option EdgeLabel × Text :=
  match EdgeLabel.read? t with
  | some (label, rest) => (some label, rest)
  | none => (none, t)

def read? (t : Text) : Option (Connector × Text) := do
  let (arrow, rest) ← Arrow.read? (Text.trimLeft t)
  let (label, rest) := readLabel rest
  return (⟨Text.blanks t, arrow, label, Text.blanks rest⟩, Text.trimLeft rest)

theorem eq_of_readLabel (t : Text) :
    t = ((readLabel t).1.map (·.written)).getD [] ++ (readLabel t).2 := by
  unfold readLabel
  split
  · next h => simpa using EdgeLabel.eq_of_read? h
  · rfl

theorem eq_of_read? {t rest : Text} {k : Connector} (h : read? t = some (k, rest)) :
    t = k.written ++ rest := by
  simp only [read?, Option.bind_eq_bind, Option.bind_eq_some_iff, Prod.exists, Option.pure_def,
    Option.some.injEq, Prod.mk.injEq] at h
  obtain ⟨arrow, r, hr, rfl, rfl⟩ := h
  calc t = Text.blanks t ++ Text.trimLeft t := (Text.blanks_append_trimLeft t).symm
    _ = Text.blanks t ++
        (arrow ++ (((readLabel r).1.map (·.written)).getD [] ++ (readLabel r).2)) := by
      rw [← eq_of_readLabel, ← Arrow.eq_append_of_read? hr]
    _ = _ := by
      conv => lhs; rw [← Text.blanks_append_trimLeft (readLabel r).2]
      simp [written, labelPart]

end Connector

/-- A link as it is written; `inline` is the declaration right after the source, with its class
suffix. -/
structure Link where
  source : Text
  inline : Text
  connector : Connector
  target : Text
deriving DecidableEq, Repr

namespace Link

def written (l : Link) : Text := l.source ++ l.inline ++ l.connector.written ++ l.target

/-- The class suffix at the front of a text, if there is one, and the rest. -/
def readClass (t : Text) : Text × Text :=
  match Line.classSuffix? t with
  | some (suffix, rest) => (suffix, rest)
  | none => ([], t)

/-- The rest of an inline declaration whose opener has been read: up to the first closing bracket,
with its class suffix, after which `next` succeeds. A label does not run over a line end. -/
def readInline? {α : Type} (next : Text → Option α) : Text → Option (Text × α)
  | [] => none
  | c :: cs =>
    if c = '\n' then none
    else
      let ended := if Bracket.isClosing c then next (readClass cs).2 else none
      match ended with
      | some found => some (c :: (readClass cs).1, found)
      | none => (readInline? next cs).map fun (inside, found) => (c :: inside, found)

/-- What follows the source of a link: perhaps an inline declaration, and then what `next` reads. -/
def afterSource? {α : Type} (next : Text → Option α) (t : Text) : Option (Text × α) :=
  match Bracket.read? t with
  | some (bracket, rest) =>
    (readInline? next rest).map fun (inside, found) => (bracket.opener ++ inside, found)
  | none => (next t).map ([], ·)

/-- A connector, an identifier, and the rest. -/
def readTail? (t : Text) : Option (Connector × Text × Text) := do
  let (connector, rest) ← Connector.read? t
  let (target, rest) ← Identifier.read? rest
  return (connector, target, rest)

/-- The link at the front of a text, and the rest. -/
def read? (t : Text) : Option (Link × Text) := do
  let (source, rest) ← Identifier.read? t
  let (inline, connector, target, rest) ← afterSource? readTail? rest
  return (⟨source, inline, connector, target⟩, rest)

/-- The leftmost link of a text, with its offset. -/
def first? (t : Text) : Option (Nat × Link) :=
  Text.first? (fun before t => if Identifier.apart before then (read? t).map (·.1) else none) t

/-- The text `target` stands at the front of a text as a whole token, after any number of the blanks
there. -/
def reaches (target t : Text) : Bool :=
  (List.range ((Text.blanks t).length + 1)).any fun k =>
    match Text.after? target (t.drop k) with
    | some rest => Identifier.apart rest.head?
    | none => false

/-- An arrow follows, with or without its label taken as one, and then `target`. -/
def leadsTo (target t : Text) : Bool :=
  match Arrow.read? (Text.trimLeft t) with
  | none => false
  | some (_, rest) => reaches target (Connector.readLabel rest).2 || reaches target rest

/-- A link from `source` to `target` stands at the front of a text; both may be any text. -/
def joins (source target t : Text) : Bool :=
  match Text.after? source t with
  | none => false
  | some rest => (afterSource? (fun t => if leadsTo target t then some () else none) rest).isSome

/-- The column of the first link from `source` to `target`. -/
def column? (source target t : Text) : Option Nat :=
  (Text.first? (fun before t =>
    if Identifier.apart before && joins source target t then some () else none) t).map (·.1)

theorem eq_of_readClass (t : Text) : t = (readClass t).1 ++ (readClass t).2 := by
  unfold readClass
  split
  · next suffix rest h =>
    simp only [Line.classSuffix?, Option.bind_eq_bind, Option.bind_eq_some_iff,
      Option.ite_none_left_eq_some, Option.some.injEq, Prod.mk.injEq] at h
    obtain ⟨r, hr, -, rfl, rfl⟩ := h
    rw [Text.after?_eq_some_iff.1 hr]
    simp
  · rfl

theorem eq_of_readInline? {α : Type} {next : Text → Option α} {rest : α → Text}
    (hnext : ∀ t a, next t = some a → t = rest a) {t inside : Text} {a : α}
    (h : readInline? next t = some (inside, a)) : t = inside ++ rest a := by
  induction t generalizing inside with
  | nil => simp [readInline?] at h
  | cons c cs ih =>
    simp only [readInline?, Option.ite_none_left_eq_some] at h
    obtain ⟨-, h⟩ := h
    split at h
    · next found ended =>
      cases h
      split at ended
      · have := hnext _ _ ended
        rw [List.cons_append, ← this, ← eq_of_readClass]
      · cases ended
    · simp only [Option.map_eq_some_iff, Prod.mk.injEq, Prod.exists] at h
      obtain ⟨i, f, hi, rfl, rfl⟩ := h
      rw [ih hi, List.cons_append]

theorem eq_of_afterSource? {α : Type} {next : Text → Option α} {rest : α → Text}
    (hnext : ∀ t a, next t = some a → t = rest a) {t inline : Text} {a : α}
    (h : afterSource? next t = some (inline, a)) : t = inline ++ rest a := by
  unfold afterSource? at h
  split at h
  · next bracket r hb =>
    simp only [Option.map_eq_some_iff, Prod.mk.injEq, Prod.exists] at h
    obtain ⟨i, f, hi, rfl, rfl⟩ := h
    rw [Bracket.eq_append_of_read? hb, eq_of_readInline? hnext hi, List.append_assoc]
  · simp only [Option.map_eq_some_iff, Prod.mk.injEq] at h
    obtain ⟨f, hf, rfl, rfl⟩ := h
    simpa using hnext _ _ hf

theorem eq_of_readTail? {t rest target : Text} {k : Connector}
    (h : readTail? t = some (k, target, rest)) : t = k.written ++ target ++ rest := by
  simp only [readTail?, Option.bind_eq_bind, Option.bind_eq_some_iff, Prod.exists, Option.pure_def,
    Option.some.injEq, Prod.mk.injEq] at h
  obtain ⟨k', r, hk, target', rest', ht, rfl, rfl, rfl⟩ := h
  rw [Connector.eq_of_read? hk, Identifier.eq_append_of_read? ht, List.append_assoc]

/-- Nothing of what was read is lost or changed. -/
theorem eq_of_read? {t rest : Text} {l : Link} (h : read? t = some (l, rest)) :
    t = l.written ++ rest := by
  simp only [read?, Option.bind_eq_bind, Option.bind_eq_some_iff, Prod.exists, Option.pure_def,
    Option.some.injEq, Prod.mk.injEq] at h
  obtain ⟨source, r, hs, inline, k, target, r', ha, rfl, rfl⟩ := h
  have := @eq_of_afterSource? _ readTail? (fun a => a.1.written ++ a.2.1 ++ a.2.2)
    (fun t a h => eq_of_readTail? h) _ _ _ ha
  rw [Identifier.eq_append_of_read? hs, this]
  simp [written]

end Link

namespace Line

/-- The link on a line, outside of labels, with its column. A line shows one link at most. -/
def link? (line : Line) : Option (Nat × Link) := Link.first? (maskLabels line)

end Line
end Chartwright
