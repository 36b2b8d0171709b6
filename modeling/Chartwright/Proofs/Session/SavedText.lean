import Chartwright.Proofs.Json.Unfinished
import Chartwright.Proofs.Wire.StyleJson
import Chartwright.Session.SavedState
/-!
The file that a saved state is written to.

A state whose styles stand under distinct identifiers and have no integer with too many digits is
read back as it was (`SavedState.read_write`), and every state that is read is such a state
(`SavedState.storable_of_read`). A state with such an integer is written in part only
(`SavedState.stopped_write`), and no state is read from that part (`SavedState.read_of_stopped`).
-/
namespace Chartwright

namespace Json

theorem membersLegible_iff {depth : Nat} {members : List (Text × Json)} :
    MembersLegible depth members ↔ ∀ member ∈ members, Legible depth member.2 := by
  induction members with
  | nil => simp [MembersLegible]
  | cons member rest ih =>
    obtain ⟨name, value⟩ := member
    simp [MembersLegible, ih]

theorem legible_object {depth : Nat} {members : List (Text × Json)}
    (hnames : (members.map (·.1)).Nodup) (h : ∀ member ∈ members, Legible depth member.2) :
    Legible (depth + 1) (object members) := by
  rw [Legible]
  exact ⟨depth, rfl, hnames, membersLegible_iff.2 h⟩

theorem legible_ofMembers {depth : Nat} {members : List (String × Json)}
    (hnames : ((members.map (·.1)).map String.toList).Nodup)
    (h : ∀ member ∈ members, Legible depth member.2) : Legible (depth + 1) (ofMembers members) := by
  refine legible_object ?_ fun member hmem => ?_
  · simpa [Function.comp_def] using hnames
  · obtain ⟨named, hnamed, rfl⟩ := List.mem_map.1 hmem
    exact h named hnamed

end Json

namespace Style

variable {s : Style}

theorem names_setMembers_sublist (s : Style) :
    (s.setMembers.map (·.1)).Sublist ["fill", "stroke", "stroke_width", "color", "rx"] := by
  have hone {α : Type} (name : String) (f : α → Json) (value? : Option α) :
      ((value?.map fun v => (name, f v)).toList.map (·.1)).Sublist [name] := by
    cases value? with
    | none => exact List.nil_sublist _
    | some v => exact List.Sublist.refl _
  simp only [setMembers, List.map_append]
  exact ((((hone "fill" Json.text s.fill).append (hone "stroke" Json.text s.stroke)).append
    (hone "stroke_width" Json.int s.strokeWidth)).append (hone "color" Json.text s.color)).append
      (hone "rx" Json.int s.rx)

theorem writable_setToJson : s.setToJson.Writable ↔ s.Brief := by
  have hone {α : Type} (name : String) (f : α → Json) (value? : Option α) :
      (∀ member ∈ (value?.map fun v => (name, f v)).toList, member.2.Writable) ↔
        ∀ v ∈ value?.toList, (f v).Writable := by
    cases value? <;> simp
  have htext (t : Text) : (Json.text t).Writable := by simp [Json.Writable]
  have hint (n : Int) : (Json.int n).Writable ↔ Integer.Short n := by rw [Json.Writable]
  rw [setToJson, Json.ofMembers, Json.Writable, Json.membersWritable_iff, List.forall_mem_map]
  simp only [setMembers, List.forall_mem_append, hone, htext, hint, implies_true, true_and,
    and_true, Brief, numbers]

theorem legible_setToJson (s : Style) (depth : Nat) : Json.Legible (depth + 1) s.setToJson := by
  have hall : (["fill", "stroke", "stroke_width", "color", "rx"].map String.toList).Nodup := by
    decide
  refine Json.legible_ofMembers (hall.sublist (s.names_setMembers_sublist.map _)) fun member hmem =>
    ?_
  simp only [setMembers, List.mem_append, Option.mem_toList, Option.map_eq_some_iff] at hmem
  rcases hmem with (((⟨_, -, rfl⟩ | ⟨_, -, rfl⟩) | ⟨_, -, rfl⟩) | ⟨_, -, rfl⟩) | ⟨_, -, rfl⟩ <;>
    simp [Json.Legible]

end Style

namespace SavedState

variable {s : SavedState}

/-- The styles stand under distinct identifiers and have no integer with too many digits. -/
structure Storable (s : SavedState) : Prop where
  distinct : (s.styles.map (·.1)).Nodup
  brief : ∀ entry ∈ s.styles, entry.2.Brief

theorem legible_toJson (h : (s.styles.map (·.1)).Nodup) (depth : Nat) :
    Json.Legible (depth + 3) s.toJson := by
  refine Json.legible_ofMembers (by simp) fun member hmem => ?_
  simp only [List.mem_cons, List.not_mem_nil, or_false] at hmem
  rcases hmem with rfl | rfl
  · simp [Json.Legible]
  · refine Json.legible_object ?_ fun member hmem => ?_
    · simpa [Function.comp_def] using h
    · obtain ⟨⟨id, style⟩, -, rfl⟩ := List.mem_map.1 hmem
      exact style.legible_setToJson depth

theorem check_styles (styles : List (Text × Style)) :
    Check.mappingOf (Style.check .notObject)
      (.object (styles.map fun (id, style) => (id, style.setToJson))) = .sound styles := by
  rw [Check.mappingOf, List.map_map]
  refine Checked.all_map_of_sound fun (id, style) _ => ?_
  simp only [Function.comp_apply, Style.check_setToJson]
  rfl

theorem check_toJson (s : SavedState) : check s.toJson = .sound s := by
  let styles : Json := .object (s.styles.map fun (id, style) => (id, style.setToJson))
  let ms : List (Text × Json) := [("code".toList, .text s.code), ("node_styles".toList, styles)]
  have hcode : Check.fieldOr "code" defaultCode Check.text ms = .sound s.code := rfl
  have hstyles : Check.fieldOr "node_styles" [] (Check.mappingOf (Style.check .notObject)) ms =
      .sound s.styles := by
    have hfind : Assoc.find? "node_styles".toList ms = some styles := rfl
    rw [Check.fieldOr, hfind]
    dsimp only
    rw [check_styles]
    rfl
  change SavedState.mk <$> Check.fieldOr "code" defaultCode Check.text ms <*>
    Check.fieldOr "node_styles" [] (Check.mappingOf (Style.check .notObject)) ms = _
  rw [hcode, hstyles]
  rfl

theorem writable_toJson : s.toJson.Writable ↔ ∀ entry ∈ s.styles, entry.2.Brief := by
  have hcode : (Json.text s.code).Writable := by simp [Json.Writable]
  have hstyles : (Json.object (s.styles.map fun (id, style) => (id, style.setToJson))).Writable ↔
      ∀ entry ∈ s.styles, entry.2.Brief := by
    rw [Json.Writable, Json.membersWritable_iff, List.forall_mem_map]
    exact forall₂_congr fun entry _ => Style.writable_setToJson
  rw [toJson, Json.ofMembers, Json.Writable, Json.membersWritable_iff, List.forall_mem_map,
    List.forall_mem_cons, List.forall_mem_singleton]
  exact ⟨fun h => hstyles.1 h.2, fun h => ⟨hcode, hstyles.2 h⟩⟩

theorem read_write (h : s.Storable) : s.write.failure = none ∧ read s.write.text = .ok s := by
  have hlegible : Json.Legible Json.nestingLimit s.toJson := legible_toJson h.distinct 957
  obtain ⟨hwhole, hread⟩ := Json.read_write hlegible (writable_toJson.2 h.brief)
  refine ⟨hwhole, ?_⟩
  rw [read, write, hread]
  dsimp only
  rw [check_toJson]

/-- A state with an integer that has too many digits is not written to its end. -/
theorem stopped_write (h : ¬ ∀ entry ∈ s.styles, entry.2.Brief) :
    s.write.Stopped (s.toJson.lay .file 0) :=
  Json.stopped_of_not_writable (mt writable_toJson.1 h) .file 0

/-- What is left of such a state is no JSON. -/
theorem read_of_stopped (hdistinct : (s.styles.map (·.1)).Nodup)
    (h : ¬ ∀ entry ∈ s.styles, entry.2.Brief) :
    ∃ e, read s.write.text = .error e := by
  have hlegible : Json.Legible Json.nestingLimit s.toJson := legible_toJson hdistinct 957
  obtain ⟨e, he⟩ := Json.read_of_not_writable hlegible (mt writable_toJson.1 h)
  unfold read
  rw [write, he]
  cases e <;> exact ⟨_, rfl⟩

/-- Styles that are found in an object stand under the names of its members. -/
theorem storable_styles {j : Json} {styles : List (Text × Style)} (hj : j.Canonical)
    (h : Check.mappingOf (Style.check .notObject) j = .sound styles) :
    (styles.map (·.1)).Nodup ∧ ∀ entry ∈ styles, entry.2.Brief := by
  unfold Check.mappingOf at h
  split at h
  · next members =>
    have hentry (member : Text × Json) (entry : Text × Style)
        (h : Checked.within (.member member.1) ((Style.check .notObject member.2).map fun a =>
          (member.1, a)) =
          .sound entry) : entry.1 = member.1 ∧
            Style.check .notObject member.2 = .sound entry.2 := by
      obtain ⟨style, hstyle, rfl⟩ := Checked.exists_of_map (Checked.sound_of_within h)
      exact ⟨rfl, hstyle⟩
    refine ⟨?_, fun entry hmem => ?_⟩
    · rw [Checked.map_eq_of_all (fun member entry h => (hentry member entry h).1) h]
      exact hj.1
    · obtain ⟨member, hmember, hfound⟩ := Checked.exists_of_mem_all h entry hmem
      exact Style.brief_of_check (Json.membersCanonical_iff.1 hj.2 member hmember)
        (hentry member entry hfound).2
  · cases h

theorem storable_of_read {content : Text} (h : read content = .ok s) : s.Storable := by
  unfold read at h
  split at h
  · cases h
  · cases h
  · cases h
  · next j hj =>
    split at h
    · next checked hchecked =>
      cases h
      have hcanonical := Json.canonical_of_read hj
      unfold check Check.record at hchecked
      split at hchecked
      · next ms =>
        obtain ⟨_, styles, h₁, hstyles, rfl⟩ := Checked.exists_of_seq hchecked
        obtain ⟨code, -, rfl⟩ := Checked.exists_of_map h₁
        rcases Check.eq_default_or_exists hstyles with rfl | ⟨member, hmem, hmember⟩
        · exact ⟨List.nodup_nil, by simp⟩
        · obtain ⟨hdistinct, hbrief⟩ :=
            storable_styles (Json.membersCanonical_iff.1 hcanonical.2 member hmem) hmember
          exact ⟨hdistinct, hbrief⟩
      · cases hchecked
    · cases h

end SavedState
end Chartwright
