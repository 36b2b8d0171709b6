import Chartwright.Buffer.Locate
import Chartwright.Proofs.Buffer.EdgeEnds
import Chartwright.Proofs.Edit.EditEdge
/-!
Where an edge is shown.

The scan reads a link from what stands on the line; to show an edge, a link between its two ends is
looked for. The two readers go different ways: one takes identifiers and the blanks before them
whole and knows neither end before it has read it, the other has both ends given and may take any
number of blanks, and a label or none. But where the ends are identifiers they succeed at the same
places (`Link.joins_of_read?`, `Link.isSome_read?_of_joins`), so they find the same leftmost one. An
edge is therefore shown where the link starts that it was scanned as (`Buffer.locateEdge_eq`).
-/
namespace Chartwright

namespace Text

/-- A reader that succeeds where the leftmost find is and nowhere that the first reader fails finds
the same place. -/
theorem exists_firstFrom {α β : Type} {read : Option Char → Text → Option α}
    {other : Option Char → Text → Option β} {before : Option Char} {t : Text} {n : Nat} {a : α}
    (hhere : ∀ before t, read before t = some a → (other before t).isSome = true)
    (hleft : ∀ before t, read before t = none → other before t = none)
    (h : firstFrom read before t = some (n, a)) :
    ∃ b, firstFrom other before t = some (n, b) := by
  induction t generalizing before n with
  | nil =>
    obtain ⟨found, hfound, heq⟩ := Option.map_eq_some_iff.1 h
    cases heq
    obtain ⟨b, hb⟩ := Option.isSome_iff_exists.1 (hhere _ _ hfound)
    exact ⟨b, by rw [firstFrom, hb, Option.map_some]⟩
  | cons c cs ih =>
    rw [firstFrom] at h
    split at h
    · next found hfound =>
      cases h
      obtain ⟨b, hb⟩ := Option.isSome_iff_exists.1 (hhere _ _ hfound)
      exact ⟨b, by rw [firstFrom, hb]⟩
    · next hnone =>
      obtain ⟨⟨m, found⟩, hfound, heq⟩ := Option.map_eq_some_iff.1 h
      cases heq
      obtain ⟨b, hb⟩ := ih hfound
      exact ⟨b, by rw [firstFrom, hleft _ _ hnone, hb, Option.map_some]⟩

theorem drop_length_blanks (t : Text) : t.drop (blanks t).length = trimLeft t := by
  conv => lhs; arg 2; rw [← blanks_append_trimLeft t]
  exact List.drop_left

end Text

namespace Link

/-! ## Behind the source -/

section AfterSource

variable {α β : Type} {next : Text → Option α} {other : Text → Option β}
  {t inside inline : Text} {a : α}

theorem isSome_readInline? (hnext : ∀ s, next s = some a → (other s).isSome = true)
    (h : readInline? next t = some (inside, a)) : (readInline? other t).isSome = true := by
  induction t generalizing inside with
  | nil => cases h
  | cons c cs ih =>
    have hline : c ≠ '\n' := by
      rintro rfl
      cases h
    rw [readInline?_cons next hline, Option.or_eq_some_iff, Option.map_eq_some_iff,
      Option.map_eq_some_iff] at h
    rw [readInline?_cons other hline, Option.isSome_or, Option.isSome_map, Option.isSome_map,
      Bool.or_eq_true]
    rcases h with ⟨found, hhere, heq⟩ | ⟨-, ⟨rest, found⟩, hlater, heq⟩
    · cases heq
      obtain ⟨hclosing, hhere⟩ := Option.ite_none_right_eq_some.1 hhere
      left
      rw [if_pos hclosing]
      exact hnext _ hhere
    · cases heq
      exact .inr (ih hlater)

theorem isSome_afterSource? (hnext : ∀ s, next s = some a → (other s).isSome = true)
    (h : afterSource? next t = some (inline, a)) : (afterSource? other t).isSome = true := by
  unfold afterSource? at h ⊢
  split at h
  · obtain ⟨⟨inside, found⟩, hinside, heq⟩ := Option.map_eq_some_iff.1 h
    cases heq
    rw [Option.isSome_map]
    exact isSome_readInline? hnext hinside
  · obtain ⟨found, hfound, heq⟩ := Option.map_eq_some_iff.1 h
    cases heq
    rw [Option.isSome_map]
    exact hnext _ hfound

theorem stops_of_afterSource? (hnext : ∀ s, next s = some a → Text.Stops Identifier.isChar s)
    (h : afterSource? next t = some (inline, a)) : Text.Stops Identifier.isChar t := by
  unfold afterSource? at h
  split at h
  · next bracket rest hbracket =>
    obtain ⟨c, cs, hopener⟩ := List.exists_cons_of_length_pos bracket.length_pos.1
    rw [Bracket.eq_append_of_read? hbracket, hopener]
    exact Text.stops_cons.2 (Bracket.not_isChar_of_mem_opener (hopener ▸ List.mem_cons_self))
  · obtain ⟨found, hfound, heq⟩ := Option.map_eq_some_iff.1 h
    cases heq
    exact hnext _ hfound

end AfterSource

/-! ## The two readers -/

variable {source target t rest : Text} {k : Connector} {l : Link}

theorem reaches_iff : reaches target t = true ↔
    ∃ n ≤ (Text.blanks t).length, ∃ rest, t.drop n = target ++ rest ∧
      Identifier.apart rest.head? = true := by
  simp only [reaches, List.any_eq_true, List.mem_range, Nat.lt_succ_iff]
  refine exists_congr fun n => and_congr_right fun _ => ?_
  cases hrest : Text.after? target (t.drop n) with
  | none =>
    refine iff_of_false Bool.false_ne_true fun ⟨rest, heq, _⟩ => ?_
    rw [Text.after?_eq_some_iff.2 heq] at hrest
    cases hrest
  | some rest =>
    refine ⟨fun happart =>
      ⟨rest, Text.after?_eq_some_iff.1 hrest, happart⟩, fun ⟨rest', heq, happart⟩ => ?_⟩
    obtain rfl := Option.some.inj (hrest.symm.trans (Text.after?_eq_some_iff.2 heq))
    exact happart

theorem trimLeft_of_reaches (htarget : Identifier.valid target = true)
    (h : reaches target t = true) :
    ∃ rest, Text.trimLeft t = target ++ rest := by
  obtain ⟨n, hn, rest, hdrop, -⟩ := reaches_iff.1 h
  refine ⟨rest, ?_⟩
  have hblank : ∀ c ∈ t.take n, Text.isBlank c = true := by
    intro c hc
    have hfront : t.take n <+: Text.blanks t :=
      List.prefix_of_prefix_length_le (List.take_prefix ..) ⟨_, Text.blanks_append_trimLeft t⟩
        (Nat.le_trans (List.length_take_le ..) hn)
    exact Text.isBlank_of_mem_blanks (hfront.subset hc)
  conv => lhs; rw [← List.take_append_drop n t, hdrop]
  exact Text.trimLeft_append hblank (Identifier.stops_isBlank_append htarget rest)

theorem leadsTo_of_readTail? (h : readTail? t = some (k, target, rest)) :
    leadsTo target t = true := by
  simp only [readTail?, Connector.read?, Option.bind_eq_bind, Option.bind_eq_some_iff, Prod.exists,
    Option.pure_def, Option.some.injEq, Prod.mk.injEq] at h
  obtain ⟨-, r, ⟨arrow, r', harrow, rfl, rfl⟩, name, rest', hname, rfl, rfl, rfl⟩ := h
  have hreach : reaches name (Connector.readLabel r').2 = true := by
    refine reaches_iff.2 ⟨_, Nat.le_refl _, rest', ?_, Identifier.apart_rest_of_read? hname⟩
    rw [Text.drop_length_blanks, ← Identifier.eq_append_of_read? hname]
  rw [leadsTo, harrow]
  simp [hreach]

/-- Where an identifier is reached behind an arrow, one is read. A label that is passed over was
none: no bar stands where an identifier does. -/
theorem isSome_readTail?_of_leadsTo (htarget : Identifier.valid target = true)
    (h : leadsTo target t = true) : (readTail? t).isSome = true := by
  unfold leadsTo at h
  split at h
  · cases h
  next arrow r harrow =>
  have hstart : ∀ s, reaches target s = true → ∃ c cs, Text.trimLeft s = c :: cs ∧
      Identifier.isStart c = true := by
    intro s hs
    obtain ⟨rest, hrest⟩ := trimLeft_of_reaches htarget hs
    obtain ⟨c, cs, rfl⟩ := List.exists_cons_of_ne_nil (Identifier.ne_nil_of_valid htarget)
    exact ⟨c, cs ++ rest, hrest, (Identifier.valid_cons.1 htarget).1⟩
  have hbehind : reaches target (Connector.readLabel r).2 = true := by
    rcases Bool.or_eq_true_iff.1 h with h | h
    · exact h
    · obtain ⟨c, cs, hcs, hc⟩ := hstart r h
      have hbar : EdgeLabel.read? r = none := by
        have hne : '|' ≠ c :=
          (Identifier.ne_of_isChar (Identifier.isChar_of_isStart hc) (by decide)).symm
        simp [EdgeLabel.read?, hcs, Text.after?, hne]
      rwa [Connector.readLabel, hbar]
  obtain ⟨c, cs, hcs, hc⟩ := hstart _ hbehind
  have htail : (tail? t).isSome = true := by
    rw [isSome_tail?, harrow, Option.any_some, hcs, Identifier.read?, if_pos hc]
    rfl
  rwa [tail?, Option.isSome_map] at htail

theorem stops_of_leadsTo (h : leadsTo target t = true) : Text.Stops Identifier.isChar t := by
  intro c hc
  obtain ⟨cs, rfl⟩ := List.head?_eq_some_iff.1 hc
  refine Bool.eq_false_iff.2 fun hchar => ?_
  have hblank : Text.Stops Text.isBlank (c :: cs) :=
    Text.stops_cons.2 (Identifier.not_isBlank_of_isChar hchar)
  have hnone : Arrow.read? (Text.trimLeft (c :: cs)) = none := by
    rw [Text.trimLeft_of_stops hblank]
    exact Arrow.read?_of_ne (Identifier.ne_of_isChar hchar (by decide))
      (Identifier.ne_of_isChar hchar (by decide))
  rw [leadsTo, hnone] at h
  cases h

/-- A link joins its ends. -/
theorem joins_of_read? (h : read? t = some (l, rest)) : joins l.source l.target t = true := by
  simp only [read?, Option.bind_eq_bind, Option.bind_eq_some_iff, Prod.exists, Option.pure_def,
    Option.some.injEq, Prod.mk.injEq] at h
  obtain ⟨source, r, hsource, inline, k, target, r', hafter, rfl, rfl⟩ := h
  rw [joins, Text.after?_eq_some_iff.2 (Identifier.eq_append_of_read? hsource)]
  refine isSome_afterSource? (fun s hs => ?_) hafter
  rw [leadsTo_of_readTail? hs]
  rfl

/-- Where two identifiers are joined, a link is read. -/
theorem isSome_read?_of_joins (hsource : Identifier.valid source = true)
    (htarget : Identifier.valid target = true) (h : joins source target t = true) :
    (read? t).isSome = true := by
  unfold joins at h
  split at h
  · cases h
  next rest hrest =>
  obtain rfl := Text.after?_eq_some_iff.1 hrest
  obtain ⟨⟨inline, found⟩, hafter⟩ := Option.isSome_iff_exists.1 h
  have hleads : ∀ s, (if leadsTo target s then some () else none) = some found →
      leadsTo target s = true :=
    fun s hs => (Option.ite_none_right_eq_some.1 hs).1
  have hread := Identifier.read?_append hsource
    (stops_of_afterSource? (fun s hs => stops_of_leadsTo (hleads s hs)) hafter)
  obtain ⟨⟨inline', tail⟩, htail⟩ := Option.isSome_iff_exists.1
    (isSome_afterSource? (fun s hs => isSome_readTail?_of_leadsTo htarget (hleads s hs)) hafter)
  rw [read?, hread]
  simp [htail]

/-- The first link between the ends of the leftmost link is this link. -/
theorem column?_of_first? {column : Nat} (h : first? t = some (column, l)) :
    column? l.source l.target t = some column := by
  obtain ⟨-, rest, -, -, -, hread, -⟩ := exists_of_first? h
  obtain ⟨hsource, htarget, -⟩ := valid_of_read? hread
  let other (before : Option Char) (s : Text) : Option Unit :=
    if Identifier.apart before && joins l.source l.target s then some () else none
  have hhere : ∀ before s, (if Identifier.apart before then (read? s).map (·.1) else none) =
      some l → (other before s).isSome = true := by
    intro before s hs
    obtain ⟨happart, hmap⟩ := Option.ite_none_right_eq_some.1 hs
    obtain ⟨⟨l', rest'⟩, hread', heq⟩ := Option.map_eq_some_iff.1 hmap
    obtain rfl : l' = l := heq
    simp [other, happart, joins_of_read? hread']
  have hleft : ∀ before s, (if Identifier.apart before then (read? s).map (·.1) else none) = none →
      other before s = none := by
    intro before s hs
    refine if_neg fun hboth => ?_
    obtain ⟨happart, hjoins⟩ := Bool.and_eq_true_iff.1 hboth
    rw [if_pos happart, Option.map_eq_none_iff] at hs
    have hsome := isSome_read?_of_joins hsource htarget hjoins
    rw [hs] at hsome
    cases hsome
  obtain ⟨found, hfound⟩ := Text.exists_firstFrom hhere hleft h
  rw [column?, Text.first?, hfound, Option.map_some]

end Link

namespace Buffer

variable {b : Buffer} {e : Edge}

/-- A scanned edge is shown on its line, at the whole identifier that starts the leftmost link of
this line. -/
theorem locateEdge_eq (he : e ∈ b.edges) : ∃ (i column : Nat) (l : Link), e.line = i ∧
    Line.link? (b.line i) = some (column, l) ∧ l.source = e.source ∧ l.target = e.target ∧
    Identifier.Place (b.line i) column e.source ∧ b.locateEdge e = some ⟨i, column⟩ := by
  obtain ⟨i, line, column, l, hi, -, rfl, -, -, hlink, -⟩ := exists_of_mem_edges he
  obtain rfl := line_eq_of_getElem? hi
  have hplace : b.lineAt? (l.edge i).line = some (b.line i) := lineAt?_eq_some_iff.2 ⟨i, rfl, hi⟩
  have hcolumn : linkColumn? (l.edge i) (b.line i) = some column := Link.column?_of_first? hlink
  refine ⟨i, column, l, rfl, hlink, rfl, rfl,
    Line.place_of_maskLabels (Line.places_of_link? hlink).1, ?_⟩
  rw [locateEdge, hplace, Option.bind_some, hcolumn]
  rfl

/-- The second node of a group, whose label and whose arrow's label look like the link itself. -/
theorem locateEdge_eq_of_group :
    (⟨['B'], ['C'], "B --> C".toList, .plain, 1⟩ : Edge) ∈
      (ofText "B\nA & B[B --> C] -->|B --> C| C --> B".toList).edges ∧
    (ofText "B\nA & B[B --> C] -->|B --> C| C --> B".toList).locateEdge
      ⟨['B'], ['C'], "B --> C".toList, .plain, 1⟩ = some ⟨1, 4⟩ := by
  have he : (⟨['B'], ['C'], "B --> C".toList, .plain, 1⟩ : Edge) ∈
      (ofText "B\nA & B[B --> C] -->|B --> C| C --> B".toList).edges := by decide +kernel
  refine ⟨he, ?_⟩
  obtain ⟨i, column, l, hline, hlink, -, -, -, hplace⟩ := locateEdge_eq he
  obtain rfl : 1 = i := Int.ofNat_inj.1 hline
  have hcolumn : (Line.link? ((ofText "B\nA & B[B --> C] -->|B --> C| C --> B".toList).line 1)).map
      (·.1) = some 4 := by
    decide +kernel
  rw [hlink] at hcolumn
  obtain rfl : column = 4 := Option.some.inj hcolumn
  exact hplace

end Buffer
end Chartwright
