import Mathlib.Data.List.Basic
import Chartwright.Proofs.Buffer.Shown
import Chartwright.Proofs.Line.View
/-!
One line put into a buffer.

Nodes, edges and styles are read line by line, so a line that is put in adds what it shows and moves
nothing else (`PutIn.links`, `PutIn.find?_flatMap`, `PutIn.style?`). What a node is shown as can be
told from what the lines declare and refer to, without their numbers (`shownAs?_eq`).
-/
namespace Chartwright

namespace Buffer

variable {b b' m : Buffer} {line other : Line}

/-- A buffer with one more line. -/
def PutIn (line : Line) (b b' : Buffer) : Prop :=
  ∃ front back, b = front ++ back ∧ b' = front ++ line :: back

/-! ## What a node is shown as -/

/-- The label and the shape of a node. -/
def shownAs? (b : Buffer) (id : Text) : Option (Text × Shape) :=
  (b.nodes.find? fun n => decide (n.id = id)).map fun n => (n.label, n.shape)

theorem map_flatMap_zipIdx {α β : Type} {read : Line × Nat → List α} {view : α → β}
    {onLine : Line → List β} (h : ∀ p, (read p).map view = onLine p.1) (b : Buffer) :
    (b.zipIdx.flatMap read).map view = b.flatMap onLine := by
  have hline : (fun p => (read p).map view) = onLine ∘ Prod.fst := funext h
  calc (b.zipIdx.flatMap read).map view = b.zipIdx.flatMap fun p => (read p).map view :=
    List.map_flatMap
    _ = (b.zipIdx.map Prod.fst).flatMap onLine := by rw [hline, List.flatMap_map]; rfl
    _ = b.flatMap onLine := by rw [List.zipIdx_map_fst]

/-- A node with its number left out. -/
def entry (n : Node) : Text × Text × Shape := (n.id, n.label, n.shape)

theorem map_entry_declaredNodes (b : Buffer) :
    b.declaredNodes.map entry = b.flatMap Line.declares := by
  apply map_flatMap_zipIdx
  intro p
  rw [List.map_map]
  rfl

theorem map_entry_referredNodes (b : Buffer) :
    b.referredNodes.map entry = b.flatMap Line.refers := by
  apply map_flatMap_zipIdx
  intro p
  show List.map entry (if p.1.hasArrow then
      p.1.identifiers.map fun id => ⟨id, id, .rectangle, p.2⟩ else []) = p.1.refers
  rw [Line.refers]
  split
  · rw [List.map_map]
    rfl
  · rfl

/-- A node is shown as it is first declared, or else as it is referred to. -/
theorem shownAs?_eq (b : Buffer) (id : Text) :
    b.shownAs? id = (((b.flatMap Line.declares).find? fun e => decide (e.1 = id)).or
      ((b.flatMap Line.refers).find? fun e => decide (e.1 = id))).map (·.2) := by
  have hnames : (fun n : Node => decide (n.id = id)) = (fun e => decide (e.1 = id)) ∘ entry := rfl
  rw [← map_entry_declaredNodes, ← map_entry_referredNodes, List.find?_map, List.find?_map,
    ← hnames, ← Option.map_or, Option.map_map, shownAs?, nodes, find?_distinctBy, List.find?_append]
  rfl

/-! ## One more line -/

theorem putIn_insertAt (line : Line) (b : Buffer) (i : Nat) : PutIn line b (b.insertAt i [line]) :=
  ⟨b.take i, b.drop i, (List.take_append_drop i b).symm, by
    rw [insertAt, List.append_assoc, List.singleton_append]⟩

namespace PutIn

theorem mem_iff (h : PutIn line b b') {l : Line} : l ∈ b' ↔ l = line ∨ l ∈ b := by
  obtain ⟨front, back, rfl, rfl⟩ := h
  simp only [List.mem_append, List.mem_cons]
  exact or_left_comm

theorem flatMap_eq (h : PutIn line b b') {α : Type} {read : Line → List α}
    (hnone : read line = []) : b'.flatMap read = b.flatMap read := by
  obtain ⟨front, back, rfl, rfl⟩ := h
  rw [List.flatMap_append, List.flatMap_append, List.flatMap_cons, hnone, List.nil_append]

theorem filterMap_eq (h : PutIn line b b') {α : Type} {read : Line → Option α}
    (hnone : read line = none) : b'.filterMap read = b.filterMap read := by
  obtain ⟨front, back, rfl, rfl⟩ := h
  rw [List.filterMap_append, List.filterMap_append, List.filterMap_cons_none hnone]

/-- The edge on the line is put in among the others. -/
theorem links (h : PutIn line b b') {e : Edge} (hedge : edgeOn? line 0 = some e) :
    ∃ front back, b.links = front ++ back ∧ b'.links = front ++ e :: back := by
  obtain ⟨front, back, rfl, rfl⟩ := h
  refine ⟨front.links, back.links, links_append .., ?_⟩
  have hline : links (line :: back) = e :: links back :=
    List.filterMap_cons_some (f := fun line => edgeOn? line 0) hedge
  rw [links_append, hline]

/-- Something else is found as before. -/
theorem find?_flatMap (h : PutIn line b b') {α : Type} {read : Line → List α} {p : α → Bool}
    (hnone : ∀ e ∈ read line, p e = false) :
    (b'.flatMap read).find? p = (b.flatMap read).find? p := by
  obtain ⟨front, back, rfl, rfl⟩ := h
  have hline : (read line).find? p = none := by
    apply List.find?_eq_none.2
    intro e he
    rw [hnone e he]
    exact Bool.false_ne_true
  rw [List.flatMap_append, List.flatMap_append, List.flatMap_cons, List.find?_append,
    List.find?_append, List.find?_append, hline, Option.none_or]

theorem find?_flatMap_self (h : PutIn line b b') {α : Type} {read : Line → List α} {p : α → Bool}
    (hnew : (b.flatMap read).find? p = none) : (b'.flatMap read).find? p = (read line).find? p := by
  obtain ⟨front, back, rfl, rfl⟩ := h
  rw [List.flatMap_append, List.find?_append, Option.or_eq_none_iff] at hnew
  rw [List.flatMap_append, List.flatMap_cons, List.find?_append, List.find?_append, hnew.1, hnew.2,
    Option.none_or, Option.or_none]

/-- A line that declares and refers to nothing leaves all nodes as they are shown. -/
theorem shownAs?_eq (h : PutIn line b b') (hdeclares : line.declares = [])
    (hrefers : line.refers = []) (id : Text) : b'.shownAs? id = b.shownAs? id := by
  rw [Buffer.shownAs?_eq, Buffer.shownAs?_eq, h.flatMap_eq hdeclares, h.flatMap_eq hrefers]

/-- A line of which the style can be read sets it for an identifier that had none, and leaves the
others. -/
theorem style? (h : PutIn line b b') {found : Option StyleLine}
    (hline : StyleLine.read line = .ok found) (hb : ∀ l ∈ b, ∃ r, StyleLine.read l = .ok r) :
    (∀ l ∈ b', ∃ r, StyleLine.read l = .ok r) ∧
      (∀ id, (∀ s, found = some s → s.id ≠ id) → b'.style? id = b.style? id) ∧
      ∀ s, found = some s → b.style? s.id = .ok none → b'.style? s.id = .ok (some s.style) := by
  have hb' : ∀ l ∈ b', ∃ r, StyleLine.read l = .ok r := by
    intro l hl
    rcases h.mem_iff.1 hl with rfl | hl
    · exact ⟨found, hline⟩
    · exact hb l hl
  have hon : styleOn? line = found := by rw [styleOn?, hline]
  have hflat : ∀ b : Buffer, b.filterMap styleOn? = b.flatMap fun l => (styleOn? l).toList := by
    intro b
    exact List.filterMap_eq_flatMap_toList styleOn? b
  refine ⟨hb', ?_, ?_⟩
  · intro id hother
    rw [style?_eq hb', style?_eq hb, hflat, hflat, h.find?_flatMap]
    intro s hs
    rw [hon, Option.mem_toList] at hs
    exact decide_eq_false (hother s hs)
  · intro s hs hnone
    rw [style?_eq hb, hflat] at hnone
    have hnew := Option.map_eq_none_iff.1 (Except.ok.inj hnone)
    rw [style?_eq hb', hflat, h.find?_flatMap_self hnew, hon, hs, Option.toList_some,
      List.find?_cons_of_pos (by simp)]
    rfl

end PutIn

end Buffer
end Chartwright
