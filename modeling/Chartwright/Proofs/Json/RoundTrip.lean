import Chartwright.Proofs.Json.NumberText
import Chartwright.Proofs.Json.Printing
import Chartwright.Proofs.Json.StringText
/-!
JSON values, written to a file and read again.

A value that has no floating-point number and no broken text in it, no integer with too many digits,
no member twice and not too many containers in one another reads back as itself (`read_write`).
-/
namespace Chartwright

namespace Json

open Integer

mutual

/-- A value has nothing in it that cannot be read back, its integers apart, when at most `depth`
containers may be open. -/
def Legible : Nat → Json → Prop
  | _, null => True
  | _, bool _ => True
  | _, int _ => True
  | _, float _ => False
  | _, text _ => True
  | _, brokenText => False
  | depth, list items => ∃ inner, depth = inner + 1 ∧ ItemsLegible inner items
  | depth, object members =>
    ∃ inner, depth = inner + 1 ∧ (members.map (·.1)).Nodup ∧ MembersLegible inner members

def ItemsLegible : Nat → List Json → Prop
  | _, [] => True
  | depth, item :: rest => Legible depth item ∧ ItemsLegible depth rest

def MembersLegible : Nat → List (Text × Json) → Prop
  | _, [] => True
  | depth, (_, value) :: rest => Legible depth value ∧ MembersLegible depth rest

end

/-! ## White space -/

theorem skipSpace_append {space u : Text} (hspace : ∀ c ∈ space, Rest.isSpace c = true)
    (hu : Text.Stops Rest.isSpace u) (offset : Nat) :
    Rest.skipSpace ⟨space ++ u, offset⟩ = ⟨u, offset + space.length⟩ := by
  rw [Rest.skipSpace, Rest.drop, Text.takeWhile_append hspace hu, List.drop_left]

theorem skipSpace_of_stops {u : Text} (hu : Text.Stops Rest.isSpace u) (offset : Nat) :
    Rest.skipSpace ⟨u, offset⟩ = ⟨u, offset⟩ := by
  have hnone : ∀ c ∈ ([] : Text), Rest.isSpace c = true := by simp
  exact skipSpace_append hnone hu offset

theorem isSpace_of_mem_lineBreak {depth : Nat} :
    ∀ c ∈ lineBreak .file depth, Rest.isSpace c = true := by
  intro c hc
  change c ∈ '\n' :: List.replicate (2 * depth) ' ' at hc
  rw [List.mem_cons, List.mem_replicate] at hc
  rcases hc with rfl | ⟨-, rfl⟩ <;> decide

/-! ## The front of a value -/

/-- A character that a value or a name may start with: in ASCII, and none of white space or of what
may stand in its place. -/
def opensValue (c : Char) : Bool :=
  !Rest.isSpace c && c != ']' && c != '}' && c != ',' && c.toNat < 0x80

/-- A text starts like a value. -/
def Opens (t : Text) : Prop := ∃ c u, t = c :: u ∧ opensValue c = true

theorem Opens.append {t : Text} (h : Opens t) (u : Text) : Opens (t ++ u) := by
  obtain ⟨c, rest, rfl, hc⟩ := h
  exact ⟨c, rest ++ u, rfl, hc⟩

theorem Opens.stops {t : Text} (h : Opens t) : Text.Stops Rest.isSpace t := by
  obtain ⟨c, rest, rfl, hc⟩ := h
  simp only [opensValue, Bool.and_eq_true, Bool.not_eq_true'] at hc
  exact Text.stops_cons.2 hc.1.1.1.1

theorem Opens.head?_ne {t : Text} (h : Opens t) {c : Char} (hc : opensValue c = false) :
    t.head? ≠ some c := by
  obtain ⟨first, rest, rfl, hfirst⟩ := h
  rw [List.head?_cons, ne_eq, Option.some.injEq]
  rintro rfl
  rw [hfirst] at hc
  cases hc

theorem opens_printText (t : Text) : Opens (printText false t) := ⟨'"', _, rfl, by decide⟩

theorem opensValue_of_isAsciiDigit {c : Char} (h : Text.isAsciiDigit c = true) :
    opensValue c = true := by
  have hspace : Rest.isSpace c = false := by
    simp only [Rest.isSpace, Bool.or_eq_false_iff, decide_eq_false_iff_not]
    exact ⟨⟨⟨ne_of_isAsciiDigit h (by decide), ne_of_isAsciiDigit h (by decide)⟩,
      ne_of_isAsciiDigit h (by decide)⟩, ne_of_isAsciiDigit h (by decide)⟩
  have hlast : c.toNat ≤ 57 := by
    simp only [Text.isAsciiDigit, Bool.and_eq_true, decide_eq_true_eq] at h
    exact h.2
  simp only [opensValue, hspace, Bool.and_eq_true, bne_iff_ne, Bool.not_false, true_and,
    decide_eq_true_eq]
  exact ⟨⟨⟨ne_of_isAsciiDigit h (by decide), ne_of_isAsciiDigit h (by decide)⟩,
    ne_of_isAsciiDigit h (by decide)⟩, by omega⟩

theorem opens_decimal (n : Int) : Opens (Integer.decimal n) := by
  obtain ⟨c, u, hc, hwrite | hwrite⟩ := exists_decimal_eq n
  · exact ⟨c, u, hwrite, opensValue_of_isAsciiDigit hc⟩
  · exact ⟨'-', c :: u, hwrite, by decide⟩

theorem opens_lay {depth : Nat} {j : Json} (h : Legible depth j) (d : Nat) :
    Opens (lay .file d j) := by
  cases j with
  | null => exact ⟨'n', _, rfl, by decide⟩
  | bool b =>
    cases b with
    | true => exact ⟨'t', _, rfl, by decide⟩
    | false => exact ⟨'f', _, rfl, by decide⟩
  | int n => rw [lay]; exact opens_decimal n
  | text t => rw [lay]; exact opens_printText t
  | list items => cases items <;> exact ⟨'[', _, rfl, by decide⟩
  | object members => cases members <;> exact ⟨'{', _, rfl, by decide⟩
  | float x => simp [Legible] at h
  | brokenText => simp [Legible] at h

/-! ## Reading what is written -/

/-- A reader takes what is written off the front of a text as a value, whatever follows that does
not continue a number. -/
def Reads {α : Type} (read : Rest → Except ReadError (α × Rest)) (written : Text) (a : α) : Prop :=
  ∀ (rest : Text) (offset : Nat), Text.Stops continuesNumber rest →
    read ⟨written ++ rest, offset⟩ = .ok (a, ⟨rest, offset + written.length⟩)

section

variable {fuel depth d offset : Nat} {p q u : Text} {c : Char} {item value : Json}
  {items : List Json} {name : Text}
  {sofar members : List (Text × Json)}

theorem readValue_scalar (hquote : c ≠ '"') (hbrace : c ≠ '{') (hbracket : c ≠ '[') :
    readValue (fuel + 1) depth ⟨c :: u, offset⟩ = readScalar ⟨c :: u, offset⟩ := by
  unfold readValue
  split
  · next h => exact absurd (List.cons.inj h).1 hquote
  · next h => exact absurd (List.cons.inj h).1 hbrace
  · next h => exact absurd (List.cons.inj h).1 hbrace
  · next h => exact absurd (List.cons.inj h).1 hbracket
  · next h => exact absurd (List.cons.inj h).1 hbracket
  · rfl

theorem readValue_quote : readValue (fuel + 1) depth ⟨'"' :: u, offset⟩ =
    (readString offset (offset + 1) u).map fun p => (ofPiece p, p.rest) := rfl

theorem readValue_bracket : readValue (fuel + 1) (depth + 1) ⟨'[' :: u, offset⟩ =
    if (Rest.skipSpace ⟨u, offset + 1⟩).text.head? = some ']' then
      .ok (list [], (Rest.skipSpace ⟨u, offset + 1⟩).drop 1)
    else
      (readItems fuel depth (Rest.skipSpace ⟨u, offset + 1⟩)).map fun (items, rest) =>
        (list items, rest) := rfl

theorem readValue_brace : readValue (fuel + 1) (depth + 1) ⟨'{' :: u, offset⟩ =
    if (Rest.skipSpace ⟨u, offset + 1⟩).text.head? = some '}' then
      .ok (object [], (Rest.skipSpace ⟨u, offset + 1⟩).drop 1)
    else
      (readMembers fuel depth [] (Rest.skipSpace ⟨u, offset + 1⟩)).map fun (members, rest) =>
        (object members, rest) :=
  rfl

theorem reads_null : Reads (readValue (fuel + 1) depth) "null".toList null := fun _ _ _ => rfl

theorem reads_bool (b : Bool) :
    Reads (readValue (fuel + 1) depth) (if b then "true".toList else "false".toList) (bool b) := by
  intro rest offset _
  cases b with
  | true => rfl
  | false => rfl

theorem reads_int {n : Int} (h : Short n) :
    Reads (readValue (fuel + 1) depth) (Integer.decimal n) (int n) := by
  intro rest offset hrest
  rw [← readScalar_decimal h hrest offset]
  obtain ⟨c, u, hc, hwrite | hwrite⟩ := exists_decimal_eq n
  · rw [hwrite, List.cons_append]
    exact readValue_scalar (ne_of_isAsciiDigit hc (by decide)) (ne_of_isAsciiDigit hc (by decide))
      (ne_of_isAsciiDigit hc (by decide))
  · rw [hwrite, List.cons_append]
    exact readValue_scalar (by decide) (by decide) (by decide)

theorem reads_text (t : Text) :
    Reads (readValue (fuel + 1) depth) (printText false t) (text t) := by
  intro rest offset _
  have hwritten : printText false t ++ rest =
      '"' :: (t.flatMap (printChar false) ++ '"' :: rest) := by
    simp [printText]
  have hlength : (printText false t).length = (t.flatMap (printChar false)).length + 2 := by
    simp [printText]
  rw [hwritten, readValue_quote, readString_flatMap, hlength]
  simp only [Except.map, ofPiece, if_true]
  congr 3
  omega

theorem reads_list_nil : Reads (readValue (fuel + 1) (depth + 1)) ['[', ']'] (list []) := by
  intro rest offset _
  have hinside : Rest.skipSpace ⟨']' :: rest, offset + 1⟩ = ⟨']' :: rest, offset + 1⟩ :=
    skipSpace_of_stops (Text.stops_cons.2 (by decide)) _
  simp only [List.cons_append, List.nil_append, readValue_bracket, hinside, List.head?_cons,
    if_true]
  rfl

theorem reads_list (h : Reads (readItems fuel depth) q items) (hq : Opens q) :
    Reads (readValue (fuel + 1) (depth + 1)) ('[' :: (lineBreak .file d ++ q)) (list items) := by
  intro rest offset hrest
  have hinside : Rest.skipSpace ⟨lineBreak .file d ++ (q ++ rest), offset + 1⟩ =
      ⟨q ++ rest, offset + 1 + (lineBreak .file d).length⟩ :=
    skipSpace_append isSpace_of_mem_lineBreak (hq.append rest).stops _
  have hfirst : (q ++ rest).head? ≠ some ']' := (hq.append rest).head?_ne (by decide)
  rw [List.cons_append, List.append_assoc, readValue_bracket, hinside, if_neg hfirst,
    h rest _ hrest]
  simp only [Except.map, List.length_cons, List.length_append]
  congr 3
  omega

theorem reads_items_one (h : Reads (readValue fuel depth) p item) :
    Reads (readItems (fuel + 1) depth) (p ++ (lineBreak .file d ++ [']'])) [item] := by
  intro rest offset _
  have hstop : Text.Stops continuesNumber (lineBreak .file d ++ ']' :: rest) :=
    Text.stops_cons.2 (by decide)
  have hafter (offset : Nat) : Rest.skipSpace ⟨lineBreak .file d ++ ']' :: rest, offset⟩ =
      ⟨']' :: rest, offset + (lineBreak .file d).length⟩ :=
    skipSpace_append isSpace_of_mem_lineBreak (Text.stops_cons.2 (by decide)) offset
  have hwritten : p ++ (lineBreak .file d ++ [']']) ++ rest =
      p ++ (lineBreak .file d ++ ']' :: rest) := by simp
  rw [hwritten, readItems, h _ _ hstop]
  simp only [bind, Except.bind, hafter, Rest.drop, List.drop_succ_cons, List.drop_zero, pure,
    Except.pure]
  simp only [List.length_append, List.length_singleton, Nat.add_assoc]

theorem skipSpace_separator (hq : Text.Stops Rest.isSpace q) :
    Rest.skipSpace (Rest.drop ⟨separator .file d ++ q, offset⟩ 1) =
      ⟨q, offset + (separator .file d).length⟩ := by
  change Rest.skipSpace ⟨lineBreak .file d ++ q, offset + 1⟩ = _
  rw [skipSpace_append isSpace_of_mem_lineBreak hq]
  congr 1
  change offset + 1 + (lineBreak .file d).length = offset + ((lineBreak .file d).length + 1)
  omega

theorem skipSpace_at_separator :
    Rest.skipSpace ⟨separator .file d ++ u, offset⟩ = ⟨separator .file d ++ u, offset⟩ :=
  skipSpace_of_stops (Text.stops_cons.2 (by decide)) offset

theorem reads_items_cons (h : Reads (readValue fuel depth) p item)
    (hs : Reads (readItems fuel depth) q items) (hq : Opens q) :
    Reads (readItems (fuel + 1) depth) (p ++ (separator .file d ++ q)) (item :: items) := by
  intro rest offset hrest
  have hstop : Text.Stops continuesNumber (separator .file d ++ (q ++ rest)) :=
    Text.stops_cons.2 (by decide)
  rw [List.append_assoc, List.append_assoc, readItems, h _ _ hstop]
  simp only [bind, Except.bind, skipSpace_at_separator, skipSpace_separator (hq.append rest).stops,
    hs rest _ hrest]
  change Except.ok (item :: items, _) = _
  simp only [List.length_append, Nat.add_assoc]

theorem reads_object_nil : Reads (readValue (fuel + 1) (depth + 1)) ['{', '}'] (object []) := by
  intro rest offset _
  have hinside : Rest.skipSpace ⟨'}' :: rest, offset + 1⟩ = ⟨'}' :: rest, offset + 1⟩ :=
    skipSpace_of_stops (Text.stops_cons.2 (by decide)) _
  simp only [List.cons_append, List.nil_append, readValue_brace, hinside, List.head?_cons, if_true]
  rfl

theorem reads_object (h : Reads (readMembers fuel depth []) q members) (hq : Opens q) :
    Reads (readValue (fuel + 1) (depth + 1)) ('{' :: (lineBreak .file d ++ q))
      (object members) := by
  intro rest offset hrest
  have hinside : Rest.skipSpace ⟨lineBreak .file d ++ (q ++ rest), offset + 1⟩ =
      ⟨q ++ rest, offset + 1 + (lineBreak .file d).length⟩ :=
    skipSpace_append isSpace_of_mem_lineBreak (hq.append rest).stops _
  have hfirst : (q ++ rest).head? ≠ some '}' := (hq.append rest).head?_ne (by decide)
  rw [List.cons_append, List.append_assoc, readValue_brace, hinside, if_neg hfirst, h rest _ hrest]
  simp only [Except.map, List.length_cons, List.length_append]
  congr 3
  omega

/-- A member as it is written. -/
def memberText (name p : Text) : Text := printText false name ++ [':', ' '] ++ p

/-- The name of a member is read up to its value. -/
theorem readMembers_memberText (hp : Text.Stops Rest.isSpace p) :
    readMembers (fuel + 1) depth sofar ⟨memberText name p, offset⟩ = (do
      let (value, after) ← readValue fuel depth ⟨p, offset + (memberText name []).length⟩
      let after := after.skipSpace
      match after.text with
      | '}' :: _ => return (Assoc.put name value sofar, after.drop 1)
      | ',' :: _ => readMembers fuel depth (Assoc.put name value sofar) (after.drop 1).skipSpace
      | _ => .error (.refused .comma after.offset)) := by
  have hwritten : memberText name p =
      '"' :: (name.flatMap (printChar false) ++ '"' :: (':' :: ([' '] ++ p))) := by
    simp [memberText, printText]
  have hlength : (memberText name []).length = (name.flatMap (printChar false)).length + 4 := by
    simp [memberText, printText]
  have hcolon (offset : Nat) : Rest.skipSpace ⟨':' :: ([' '] ++ p), offset⟩ =
      ⟨':' :: ([' '] ++ p), offset⟩ :=
    skipSpace_of_stops (Text.stops_cons.2 (by decide)) offset
  have hvalue (offset : Nat) : Rest.skipSpace ⟨[' '] ++ p, offset⟩ = ⟨p, offset + 1⟩ :=
    skipSpace_append (List.forall_mem_singleton.2 (by decide)) hp offset
  have hend : offset + 1 + (name.flatMap (printChar false)).length + 1 + 1 + 1 =
      offset + (memberText name []).length := by omega
  rw [hwritten, readMembers]
  change (readString offset (offset + 1) (_ ++ '"' :: _) >>= _) = _
  rw [readString_flatMap]
  simp only [bind, Except.bind, hcolon, List.head?_cons, bne_self_eq_false, Bool.false_eq_true,
    if_false, Rest.drop, List.drop_succ_cons, List.drop_zero, hvalue, hend]
  rfl

/-- A member is read up to the end of its value. -/
theorem readMembers_value (h : Reads (readValue fuel depth) p value) (hp : Opens p)
    (hu : Text.Stops continuesNumber u) :
    readMembers (fuel + 1) depth sofar ⟨memberText name p ++ u, offset⟩ =
      let after := Rest.skipSpace ⟨u, offset + (memberText name p).length⟩
      match after.text with
      | '}' :: _ => .ok (Assoc.put name value sofar, after.drop 1)
      | ',' :: _ => readMembers fuel depth (Assoc.put name value sofar) (after.drop 1).skipSpace
      | _ => .error (.refused .comma after.offset) := by
  have hwritten : memberText name p ++ u = memberText name (p ++ u) := by simp [memberText]
  have hend : offset + (memberText name []).length + p.length =
      offset + (memberText name p).length := by
    simp only [memberText, List.length_append, List.length_nil]
    omega
  rw [hwritten, readMembers_memberText (hp.append u).stops, h u _ hu]
  simp only [bind, Except.bind, hend]
  rfl

theorem reads_members_one (h : Reads (readValue fuel depth) p value) (hp : Opens p) :
    Reads (readMembers (fuel + 1) depth sofar) (memberText name p ++ (lineBreak .file d ++ ['}']))
      (Assoc.put name value sofar) := by
  intro rest offset _
  have hstop : Text.Stops continuesNumber (lineBreak .file d ++ '}' :: rest) :=
    Text.stops_cons.2 (by decide)
  have hwritten : memberText name p ++ (lineBreak .file d ++ ['}']) ++ rest =
      memberText name p ++ (lineBreak .file d ++ '}' :: rest) := by simp
  rw [hwritten, readMembers_value h hp hstop,
    skipSpace_append isSpace_of_mem_lineBreak (Text.stops_cons.2 (by decide))]
  simp only [Rest.drop, List.drop_succ_cons, List.drop_zero, List.length_append,
    List.length_singleton, Nat.add_assoc]

theorem reads_members_cons (h : Reads (readValue fuel depth) p value) (hp : Opens p)
    (hs : Reads (readMembers fuel depth (Assoc.put name value sofar)) q members) (hq : Opens q) :
    Reads (readMembers (fuel + 1) depth sofar)
      (memberText name p ++ (separator .file d ++ q)) members := by
  intro rest offset hrest
  have hstop : Text.Stops continuesNumber (separator .file d ++ (q ++ rest)) :=
    Text.stops_cons.2 (by decide)
  rw [List.append_assoc, List.append_assoc, readMembers_value h hp hstop, skipSpace_at_separator]
  simp only [skipSpace_separator (hq.append rest).stops, hs rest _ hrest]
  change Except.ok (members, _) = _
  simp only [List.length_append, Nat.add_assoc]

end

/-! ## Whole values -/

/-- The items from one on, up to the end of their list. -/
def itemsText (d : Nat) (item : Json) (items : List Json) : Text :=
  lay .file (d + 1) item ++
    (layItems .file (d + 1) (separator .file (d + 1)) items ++ (lineBreak .file d ++ [']']))

/-- The members from one on, up to the end of their object. -/
def membersText (d : Nat) (name : Text) (value : Json) (members : List (Text × Json)) : Text :=
  memberText name (lay .file (d + 1) value) ++
    (layMembers .file (d + 1) (separator .file (d + 1)) members ++ (lineBreak .file d ++ ['}']))

theorem lay_list_cons (d : Nat) (item : Json) (items : List Json) :
    lay .file d (list (item :: items)) =
      '[' :: (lineBreak .file (d + 1) ++ itemsText d item items) := by
  simp only [lay, layItems, itemsText, List.cons_append, List.append_assoc]

theorem lay_object_cons (d : Nat) (name : Text) (value : Json) (members : List (Text × Json)) :
    lay .file d (object ((name, value) :: members)) =
      '{' :: (lineBreak .file (d + 1) ++ membersText d name value members) := by
  simp only [lay, layMembers, membersText, memberText, List.cons_append, List.append_assoc]
  rfl

theorem itemsText_cons (d : Nat) (item next : Json) (items : List Json) :
    itemsText d item (next :: items) =
      lay .file (d + 1) item ++ (separator .file (d + 1) ++ itemsText d next items) := by
  simp only [itemsText, layItems, List.append_assoc]

theorem membersText_cons (d : Nat) (name nextName : Text) (value nextValue : Json)
    (members : List (Text × Json)) :
    membersText d name value ((nextName, nextValue) :: members) =
      memberText name (lay .file (d + 1) value) ++
        (separator .file (d + 1) ++ membersText d nextName nextValue members) := by
  simp only [membersText, layMembers, memberText, List.append_assoc]
  rfl

/-- Values are read with so much fuel. Twice the length is enough: each value takes one, and each
place of an item or a member another. -/
def ReadsValues (fuel : Nat) : Prop :=
  ∀ {j : Json} {depth d : Nat}, Legible depth j → Writable j → 2 * (lay .file d j).length ≤ fuel →
    Reads (readValue fuel depth) (lay .file d j) j

def ReadsItems (fuel : Nat) : Prop :=
  ∀ {item : Json} {items : List Json} {depth d : Nat}, Legible depth item →
    ItemsLegible depth items → Writable item → ItemsWritable items →
      2 * (itemsText d item items).length < fuel →
    Reads (readItems fuel depth) (itemsText d item items) (item :: items)

def ReadsMembers (fuel : Nat) : Prop :=
  ∀ {name : Text} {value : Json} {members sofar : List (Text × Json)} {depth d : Nat},
    Legible depth value → MembersLegible depth members →
      ((sofar ++ (name, value) :: members).map (·.1)).Nodup →
    Writable value → MembersWritable members →
    2 * (membersText d name value members).length < fuel →
    Reads (readMembers fuel depth sofar) (membersText d name value members)
      (sofar ++ (name, value) :: members)

theorem opens_itemsText {depth : Nat} {item : Json} (h : Legible depth item) (d : Nat)
    (items : List Json) : Opens (itemsText d item items) := (opens_lay h (d + 1)).append _

theorem opens_membersText (d : Nat) (name : Text) (value : Json) (members : List (Text × Json)) :
    Opens (membersText d name value members) :=
  (((opens_printText name).append _).append _).append _

section

variable {fuel : Nat}

theorem readsValues_succ (hitems : ReadsItems fuel) (hmembers : ReadsMembers fuel) :
    ReadsValues (fuel + 1) := by
  intro j depth d hj hshort hfuel
  cases j with
  | null => rw [lay]; exact reads_null
  | bool b => rw [lay]; exact reads_bool b
  | int n => rw [lay]; exact reads_int (by simpa only [Writable] using hshort)
  | text t => rw [lay]; exact reads_text t
  | float x => simp [Legible] at hj
  | brokenText => simp [Legible] at hj
  | list items =>
    cases items with
    | nil =>
      obtain ⟨inner, rfl, -⟩ := (by simpa only [Legible] using hj : ∃ inner, _ ∧ _)
      rw [lay]
      exact reads_list_nil
    | cons item items =>
      obtain ⟨inner, rfl, hitem, hrest⟩ :=
        (by simpa only [Legible, ItemsLegible] using hj : ∃ inner, _ ∧ _ ∧ _)
      obtain ⟨hfirst, hlater⟩ := (by simpa only [Writable, ItemsWritable] using hshort : _ ∧ _)
      rw [lay_list_cons, List.length_cons, List.length_append] at hfuel
      rw [lay_list_cons]
      exact reads_list (hitems hitem hrest hfirst hlater (by omega)) (opens_itemsText hitem d items)
  | object members =>
    cases members with
    | nil =>
      obtain ⟨inner, rfl, -⟩ := (by simpa only [Legible] using hj : ∃ inner, _ ∧ _)
      rw [lay]
      exact reads_object_nil
    | cons member members =>
      obtain ⟨name, value⟩ := member
      obtain ⟨inner, rfl, hnames, hvalue, hrest⟩ :=
        (by simpa only [Legible, MembersLegible] using hj : ∃ inner, _ ∧ _ ∧ _ ∧ _)
      obtain ⟨hfirst, hlater⟩ := (by simpa only [Writable, MembersWritable] using hshort : _ ∧ _)
      rw [lay_object_cons, List.length_cons, List.length_append] at hfuel
      rw [lay_object_cons]
      exact reads_object (hmembers hvalue hrest hnames hfirst hlater (by omega))
        (opens_membersText d name value members)

theorem readsItems_succ (hvalues : ReadsValues fuel) (hitems : ReadsItems fuel) :
    ReadsItems (fuel + 1) := by
  intro item items depth d hitem hrest hfirst hlater hfuel
  cases items with
  | nil =>
    simp only [itemsText, layItems, List.nil_append, List.length_append] at hfuel ⊢
    exact reads_items_one (hvalues hitem hfirst (by omega))
  | cons next items =>
    have hcomma : 0 < (separator .file (d + 1)).length := Nat.succ_pos _
    obtain ⟨hnext, hlast⟩ := (by simpa only [ItemsLegible] using hrest : _ ∧ _)
    obtain ⟨hsecond, hlater⟩ := (by simpa only [ItemsWritable] using hlater : _ ∧ _)
    rw [itemsText_cons, List.length_append, List.length_append] at hfuel
    rw [itemsText_cons]
    exact reads_items_cons (hvalues hitem hfirst (by omega))
      (hitems hnext hlast hsecond hlater (by omega))
      (opens_itemsText hnext d items)

theorem readsMembers_succ (hvalues : ReadsValues fuel) (hmembers : ReadsMembers fuel) :
    ReadsMembers (fuel + 1) := by
  intro name value members sofar depth d hvalue hrest hnames hfirst hlater hfuel
  have hlength : (lay .file (d + 1) value).length ≤
      (memberText name (lay .file (d + 1) value)).length := by
    simp only [memberText, List.length_append]
    omega
  have hnew : name ∉ sofar.map (·.1) := by
    rw [List.map_append, List.nodup_append] at hnames
    exact fun hmem => hnames.2.2 name hmem name (by simp) rfl
  cases members with
  | nil =>
    simp only [membersText, layMembers, List.nil_append, List.length_append] at hfuel ⊢
    rw [← Assoc.put_of_not_mem value hnew]
    exact reads_members_one (hvalues hvalue hfirst (by omega)) (opens_lay hvalue _)
  | cons next members =>
    obtain ⟨nextName, nextValue⟩ := next
    have hcomma : 0 < (separator .file (d + 1)).length := Nat.succ_pos _
    obtain ⟨hnext, hlast⟩ := (by simpa only [MembersLegible] using hrest : _ ∧ _)
    obtain ⟨hsecond, hlater⟩ := (by simpa only [MembersWritable] using hlater : _ ∧ _)
    rw [membersText_cons, List.length_append, List.length_append] at hfuel
    rw [membersText_cons]
    refine reads_members_cons (hvalues hvalue hfirst (by omega)) (opens_lay hvalue _) ?_
      (opens_membersText d nextName nextValue members)
    have hmove := List.append_cons sofar (name, value) ((nextName, nextValue) :: members)
    rw [hmove] at hnames ⊢
    rw [Assoc.put_of_not_mem value hnew]
    have hshorter : 2 * (membersText d nextName nextValue members).length < fuel := by omega
    exact hmembers hnext hlast hnames hsecond hlater hshorter

end

theorem reads_lay (fuel : Nat) : ReadsValues fuel ∧ ReadsItems fuel ∧ ReadsMembers fuel := by
  induction fuel with
  | zero =>
    refine ⟨fun {j depth d} hj _ hfuel => ?_, fun _ _ _ _ hfuel => absurd hfuel (by omega),
      fun _ _ _ _ _ hfuel => absurd hfuel (by omega)⟩
    -- no value is written as an empty text
    obtain ⟨c, u, hprint, -⟩ := opens_lay hj d
    rw [hprint, List.length_cons] at hfuel
    omega
  | succ fuel ih =>
    exact ⟨readsValues_succ ih.2.1 ih.2.2, readsItems_succ ih.1 ih.2.1,
      readsMembers_succ ih.1 ih.2.2⟩

/-- What is laid out in a file is read from it. -/
theorem read_lay {j : Json} (h : Legible nestingLimit j) (hshort : Writable j) :
    read (lay .file 0 j) = .ok j := by
  have hopens : Opens (lay .file 0 j) := opens_lay h 0
  have hmark : ¬ (lay .file 0 j).head?.any (fun c => c.toNat = 0xFEFF) := by
    obtain ⟨c, u, hlay, hc⟩ := hopens
    simp only [opensValue, Bool.and_eq_true, decide_eq_true_eq] at hc
    rw [hlay, List.head?_cons, Option.any_some, decide_eq_true_eq]
    omega
  have hread : readValue (2 * (lay .file 0 j).length + 2) nestingLimit ⟨lay .file 0 j, 0⟩ =
      .ok (j, ⟨[], 0 + (lay .file 0 j).length⟩) := by
    have hvalue :=
      (reads_lay (2 * (lay .file 0 j).length + 2)).1 h hshort (d := 0) (Nat.le_add_right _ 2) [] 0
      (Text.stops_nil _)
    rwa [List.append_nil] at hvalue
  rw [read, if_neg hmark, skipSpace_of_stops hopens.stops, hread]
  simp only [skipSpace_of_stops (Text.stops_nil _), List.isEmpty_nil, if_true]

/-- What is written to a file is read from it. -/
theorem read_write {j : Json} (h : Legible nestingLimit j) (hshort : Writable j) :
    (j.write .file).failure = none ∧ read (j.write .file).text = .ok j := by
  rw [write, print_of_writable hshort]
  exact ⟨rfl, read_lay h hshort⟩

end Json
end Chartwright
