import Chartwright.Proofs.Json.RoundTrip
/-!
JSON values that were not written to their end.

Where an integer has too many digits writing stops. Either nothing has been written by then or the
text ends inside a container, where a value or the rest of the container is missing, so no value is
read from it (`read_of_not_writable`).
-/
namespace Chartwright.Json

open Printed

/-- A reader finds nothing in a text that ends too early, and the text has no blanks in front. -/
structure Unread {α : Type} (read : Rest → Except ReadError (α × Rest)) (t : Text) : Prop where
  starts : t = [] ∨ Opens t
  fails : ∀ offset, ∃ e, read ⟨t, offset⟩ = .error e

theorem Unread.stops {α : Type} {read : Rest → Except ReadError (α × Rest)} {t : Text}
    (h : Unread read t) : Text.Stops Rest.isSpace t := by
  rcases h.starts with rfl | hopens
  · exact Text.stops_nil _
  · exact hopens.stops

theorem Unread.head?_ne {α : Type} {read : Rest → Except ReadError (α × Rest)} {t : Text}
    (h : Unread read t) {c : Char} (hc : opensValue c = false) : t.head? ≠ some c := by
  rcases h.starts with rfl | hopens
  · simp
  · exact hopens.head?_ne hc

/-! ## Texts that end too early -/

section

variable {fuel depth d : Nat} {p q : Text} {item value : Json} {items : List Json} {name : Text}
  {sofar members : List (Text × Json)}

theorem unread_nil : Unread (readValue fuel depth) [] := by
  refine ⟨.inl rfl, fun offset => ?_⟩
  cases fuel with
  | zero => exact ⟨_, rfl⟩
  | succ fuel => exact ⟨.refused .value offset, rfl⟩

theorem unread_list (h : Unread (readItems fuel depth) q) :
    Unread (readValue (fuel + 1) (depth + 1)) ('[' :: (lineBreak .file d ++ q)) := by
  refine ⟨.inr ⟨'[', _, rfl, by decide⟩, fun offset => ?_⟩
  obtain ⟨e, he⟩ := h.fails (offset + 1 + (lineBreak .file d).length)
  refine ⟨e, ?_⟩
  rw [readValue_bracket, skipSpace_append isSpace_of_mem_lineBreak h.stops,
    if_neg (h.head?_ne (by decide)), he]
  rfl

theorem unread_object (h : Unread (readMembers fuel depth []) q) :
    Unread (readValue (fuel + 1) (depth + 1)) ('{' :: (lineBreak .file d ++ q)) := by
  refine ⟨.inr ⟨'{', _, rfl, by decide⟩, fun offset => ?_⟩
  obtain ⟨e, he⟩ := h.fails (offset + 1 + (lineBreak .file d).length)
  refine ⟨e, ?_⟩
  rw [readValue_brace, skipSpace_append isSpace_of_mem_lineBreak h.stops,
    if_neg (h.head?_ne (by decide)), he]
  rfl

theorem unread_item (h : Unread (readValue fuel depth) p) :
    Unread (readItems (fuel + 1) depth) p := by
  refine ⟨h.starts, fun offset => ?_⟩
  obtain ⟨e, he⟩ := h.fails offset
  exact ⟨e, by rw [readItems, he]; rfl⟩

theorem unread_items_nil (h : Reads (readValue fuel depth) p item) (hp : Opens p) :
    Unread (readItems (fuel + 1) depth) p := by
  refine ⟨.inr hp, fun offset => ⟨.refused .comma (offset + p.length), ?_⟩⟩
  have hread := h [] offset (Text.stops_nil _)
  rw [List.append_nil] at hread
  rw [readItems, hread]
  rfl

theorem unread_items_cons (h : Reads (readValue fuel depth) p item) (hp : Opens p)
    (hs : Unread (readItems fuel depth) q) :
    Unread (readItems (fuel + 1) depth) (p ++ (separator .file d ++ q)) := by
  refine ⟨.inr (hp.append _), fun offset => ?_⟩
  have hstop : Text.Stops continuesNumber (separator .file d ++ q) := Text.stops_cons.2 (by decide)
  obtain ⟨e, he⟩ := hs.fails (offset + p.length + (separator .file d).length)
  refine ⟨e, ?_⟩
  rw [readItems, h _ _ hstop]
  simp only [bind, Except.bind, skipSpace_at_separator, skipSpace_separator hs.stops, he]
  rfl

theorem unread_member (h : Unread (readValue fuel depth) p) :
    Unread (readMembers (fuel + 1) depth sofar) (memberText name p) := by
  refine ⟨.inr (((opens_printText name).append _).append _), fun offset => ?_⟩
  obtain ⟨e, he⟩ := h.fails (offset + (memberText name []).length)
  exact ⟨e, by rw [readMembers_memberText h.stops, he]; rfl⟩

theorem unread_members_cons (h : Reads (readValue fuel depth) p value) (hp : Opens p)
    (hs : Unread (readMembers fuel depth (Assoc.put name value sofar)) q) :
    Unread (readMembers (fuel + 1) depth sofar)
      (memberText name p ++ (separator .file d ++ q)) := by
  refine ⟨.inr ((((opens_printText name).append _).append _).append _), fun offset => ?_⟩
  have hstop : Text.Stops continuesNumber (separator .file d ++ q) := Text.stops_cons.2 (by decide)
  obtain ⟨e, he⟩ := hs.fails (offset + (memberText name p).length + (separator .file d).length)
  refine ⟨e, ?_⟩
  rw [readMembers_value h hp hstop, skipSpace_at_separator]
  simp only [skipSpace_separator hs.stops]
  exact he

end

/-! ## What is written up to an integer with too many digits -/

section

variable {l : Layout} {depth : Nat} {before : Text} {p q : Printed}

theorem text_whole_append (t : Text) (q : Printed) : ((whole t).append q).text = t ++ q.text := rfl

theorem text_append_of_failure {e : Integer.TooLong} (h : p.failure = some e) (q : Printed) :
    (p.append q).text = p.text := by
  rw [Printed.append, h]

theorem failure_whole_append (t : Text) (q : Printed) :
    ((whole t).append q).failure = q.failure := rfl

theorem text_printItems_of_writable {item : Json} (h : Writable item) (rest : List Json) :
    (printItems l depth before (item :: rest)).text =
      before ++ (lay l depth item ++ (printItems l depth (separator l depth) rest).text) := by
  have hitem := print_of_writable h l depth
  cases item with
  | int n =>
    have hshort : Integer.Short n := by simpa only [Writable] using h
    rw [printItems, (ends_printInt before n).of hshort, text_whole_append, lay, List.append_assoc]
  | _ =>
    rw [printItems, hitem]
    · simp only [Printed.append, whole, List.append_assoc]
    · intro n h
      cases h

/-- An integer in a list is written together with what stands before it, or not at all. -/
theorem text_printItems_of_not_writable {item : Json} (h : ¬ Writable item) (rest : List Json) :
    (printItems l depth before (item :: rest)).text = [] ∨
      (printItems l depth before (item :: rest)).text = before ++ (print l depth item).text := by
  obtain ⟨hfailure, -⟩ := stopped_of_not_writable h l depth
  cases item with
  | int n =>
    have hlong : ¬ Integer.Short n := by simpa only [Writable] using h
    refine .inl ?_
    rw [printItems, printInt, Integer.write_of_long hlong]
    rfl
  | _ =>
    refine .inr ?_
    rw [printItems]
    · rw [text_append_of_failure ((failure_whole_append ..).trans hfailure), text_whole_append]
    · intro n h
      cases h

theorem text_printItems_cases (depth : Nat) (before : Text) (item : Json) (rest : List Json) :
    (printItems l depth before (item :: rest)).text = [] ∨
      ∃ q, (printItems l depth before (item :: rest)).text = before ++ q := by
  by_cases h : Writable item
  · exact .inr ⟨_, text_printItems_of_writable h rest⟩
  · exact (text_printItems_of_not_writable h rest).imp_right fun htext => ⟨_, htext⟩

theorem text_printMembers_of_writable {value : Json} (h : Writable value) (name : Text)
    (rest : List (Text × Json)) : (printMembers .file depth before ((name, value) :: rest)).text =
      before ++ (memberText name (lay .file depth value) ++
        (printMembers .file depth (separator .file depth) rest).text) := by
  rw [printMembers, print_of_writable h]
  simp only [Printed.append, whole, memberText, List.append_assoc]
  rfl

theorem text_printMembers_of_not_writable {value : Json} (h : ¬ Writable value) (name : Text)
    (rest : List (Text × Json)) : (printMembers .file depth before ((name, value) :: rest)).text =
      before ++ memberText name (print .file depth value).text := by
  obtain ⟨hfailure, -⟩ := stopped_of_not_writable h .file depth
  rw [printMembers, text_append_of_failure ((failure_whole_append ..).trans hfailure),
    text_whole_append]
  simp only [memberText, List.append_assoc]
  rfl

theorem exists_text_printMembers (depth : Nat) (before name : Text) (value : Json)
    (rest : List (Text × Json)) :
    ∃ q, (printMembers .file depth before ((name, value) :: rest)).text = before ++ q := by
  by_cases h : Writable value
  · exact ⟨_, text_printMembers_of_writable h name rest⟩
  · exact ⟨_, text_printMembers_of_not_writable h name rest⟩

end

/-! ## Whole values -/

/-- As much of a value as was written cannot be read with so much fuel, if it was not written to its
end. -/
def UnreadValues (fuel : Nat) : Prop :=
  ∀ {j : Json} {depth d : Nat}, Legible depth j → ¬ Writable j →
    2 * (print .file d j).text.length ≤ fuel → Unread (readValue fuel depth) (print .file d j).text

def UnreadItems (fuel : Nat) : Prop :=
  ∀ {item : Json} {items : List Json} {depth d : Nat} {before q : Text}, Legible depth item →
    ItemsLegible depth items → ¬ ItemsWritable (item :: items) →
      (printItems .file d before (item :: items)).text = before ++ q →
    2 * q.length < fuel → Unread (readItems fuel depth) q

def UnreadMembers (fuel : Nat) : Prop :=
  ∀ {name : Text} {value : Json} {members sofar : List (Text × Json)} {depth d : Nat}
    {before q : Text},
    Legible depth value → MembersLegible depth members →
      ¬ MembersWritable ((name, value) :: members) →
    (printMembers .file d before ((name, value) :: members)).text = before ++ q →
      2 * q.length < fuel →
    Unread (readMembers fuel depth sofar) q

section

variable {fuel : Nat}

theorem unreadValues_succ (hitems : UnreadItems fuel) (hmembers : UnreadMembers fuel) :
    UnreadValues (fuel + 1) := by
  intro j depth d hj h hfuel
  cases j with
  | null | bool _ | text _ => simp [Writable] at h
  | float x => simp [Legible] at hj
  | brokenText => simp [Legible] at hj
  | int n =>
    have hlong : ¬ Integer.Short n := by simpa only [Writable] using h
    rw [print, printInt, Integer.write_of_long hlong]
    exact unread_nil
  | list items =>
    rw [Writable] at h
    cases items with
    | nil => simp [ItemsWritable] at h
    | cons item items =>
      obtain ⟨inner, rfl, hitem, hrest⟩ :=
        (by simpa only [Legible, ItemsLegible] using hj : ∃ inner, _ ∧ _ ∧ _)
      have hfailure :=
        ((ends_printItems .file (d + 1) ('[' :: lineBreak .file (d + 1)) (item :: items)).of_not
          h).1
      rw [print, text_append_of_failure hfailure] at hfuel ⊢
      rcases text_printItems_cases (d + 1) ('[' :: lineBreak .file (d + 1)) item items with hnothing
        | ⟨q, hq⟩
      · rw [hnothing]
        exact unread_nil
      · rw [hq, List.length_append, List.length_cons] at hfuel
        rw [hq]
        exact unread_list (hitems hitem hrest h hq (by omega))
  | object members =>
    rw [Writable] at h
    cases members with
    | nil => simp [MembersWritable] at h
    | cons member members =>
      obtain ⟨name, value⟩ := member
      obtain ⟨inner, rfl, -, hvalue, hrest⟩ :=
        (by simpa only [Legible, MembersLegible] using hj : ∃ inner, _ ∧ _ ∧ _ ∧ _)
      have hfailure :=
        ((ends_printMembers .file (d + 1) ('{' :: lineBreak .file (d + 1))
          ((name, value) :: members)).of_not h).1
      rw [print, text_append_of_failure hfailure] at hfuel ⊢
      obtain ⟨q, hq⟩ :=
        exists_text_printMembers (d + 1) ('{' :: lineBreak .file (d + 1)) name value members
      rw [hq, List.length_append, List.length_cons] at hfuel
      rw [hq]
      exact unread_object (hmembers hvalue hrest h hq (by omega))

theorem unreadItems_succ (hvalues : UnreadValues fuel) (hitems : UnreadItems fuel) :
    UnreadItems (fuel + 1) := by
  intro item items depth d before q hitem hrest h hq hfuel
  by_cases hwritten : Writable item
  · rw [text_printItems_of_writable hwritten] at hq
    obtain rfl := List.append_cancel_left hq
    rw [List.length_append] at hfuel
    have hread : Reads (readValue fuel depth) (lay .file d item) item :=
      (reads_lay fuel).1 hitem hwritten (by omega)
    have hopens := opens_lay hitem d
    cases items with
    | nil => simp [ItemsWritable, hwritten] at h
    | cons next items =>
      -- the item is read, so what cannot be read is behind it
      obtain ⟨hnext, hlast⟩ := (by simpa only [ItemsLegible] using hrest : _ ∧ _)
      have hlater : ¬ ItemsWritable (next :: items) :=
        fun hlater => h (by rw [ItemsWritable]; exact ⟨hwritten, hlater⟩)
      rcases text_printItems_cases d (separator .file d) next items with hnothing | ⟨q, hq⟩
      · rw [hnothing, List.append_nil]
        exact unread_items_nil hread hopens
      · have hcomma : 0 < (separator .file d).length := Nat.succ_pos _
        rw [hq, List.length_append] at hfuel
        rw [hq]
        exact unread_items_cons hread hopens (hitems hnext hlast hlater hq (by omega))
  · rcases text_printItems_of_not_writable hwritten items with hnothing | htext
    · rw [hnothing] at hq
      obtain ⟨-, rfl⟩ := List.nil_eq_append_iff.1 hq
      exact unread_item unread_nil
    · rw [htext] at hq
      obtain rfl := List.append_cancel_left hq
      exact unread_item (hvalues hitem hwritten (by omega))

theorem unreadMembers_succ (hvalues : UnreadValues fuel) (hmembers : UnreadMembers fuel) :
    UnreadMembers (fuel + 1) := by
  intro name value members sofar depth d before q hvalue hrest h hq hfuel
  by_cases hwritten : Writable value
  · rw [text_printMembers_of_writable hwritten] at hq
    obtain rfl := List.append_cancel_left hq
    have hlength : (lay .file d value).length ≤ (memberText name (lay .file d value)).length := by
      simp only [memberText, List.length_append]
      omega
    rw [List.length_append] at hfuel
    have hread : Reads (readValue fuel depth) (lay .file d value) value :=
      (reads_lay fuel).1 hvalue hwritten (by omega)
    cases members with
    | nil => simp [MembersWritable, hwritten] at h
    | cons next members =>
      obtain ⟨nextName, nextValue⟩ := next
      obtain ⟨hnext, hlast⟩ := (by simpa only [MembersLegible] using hrest : _ ∧ _)
      have hlater : ¬ MembersWritable ((nextName, nextValue) :: members) :=
        fun hlater => h (by rw [MembersWritable]; exact ⟨hwritten, hlater⟩)
      obtain ⟨q, hq⟩ := exists_text_printMembers d (separator .file d) nextName nextValue members
      have hcomma : 0 < (separator .file d).length := Nat.succ_pos _
      rw [hq, List.length_append] at hfuel
      rw [hq]
      exact unread_members_cons hread (opens_lay hvalue _)
        (hmembers hnext hlast hlater hq (by omega))
  · rw [text_printMembers_of_not_writable hwritten] at hq
    obtain rfl := List.append_cancel_left hq
    rw [memberText, List.length_append] at hfuel
    exact unread_member (hvalues hvalue hwritten (by omega))

end

theorem unread_print (fuel : Nat) : UnreadValues fuel ∧ UnreadItems fuel ∧ UnreadMembers fuel := by
  induction fuel with
  | zero =>
    refine ⟨fun {j depth d} _ _ hfuel => ?_, fun _ _ _ _ hfuel => absurd hfuel (by omega),
      fun _ _ _ _ hfuel => absurd hfuel (by omega)⟩
    rw [List.length_eq_zero_iff.1 (by omega : (print .file d j).text.length = 0)]
    exact unread_nil
  | succ fuel ih =>
    exact ⟨unreadValues_succ ih.2.1 ih.2.2, unreadItems_succ ih.1 ih.2.1,
      unreadMembers_succ ih.1 ih.2.2⟩

/-- No value is read from a file that was not written to its end. -/
theorem read_of_not_writable {j : Json} (h : Legible nestingLimit j) (hlong : ¬ Writable j) :
    ∃ e, read (j.write .file).text = .error e := by
  have hunread : Unread (readValue (2 * (j.write .file).text.length + 2) nestingLimit)
      (j.write .file).text :=
    (unread_print _).1 h hlong (Nat.le_add_right _ 2)
  obtain ⟨e, he⟩ := hunread.fails 0
  unfold read
  split
  · exact ⟨_, rfl⟩
  · rw [skipSpace_of_stops hunread.stops, he]
    exact ⟨e, rfl⟩

end Chartwright.Json
