import Chartwright.Json.Reader
import Chartwright.Proofs.Number.IntegerText
/-!
What can be read of a JSON text.

In a value that was read no integer has too many digits, and no object has two members of one name
(`canonical_of_read`).
-/
namespace Chartwright.Json

open Integer

mutual

/-- No integer has too many digits, and no object has a member twice. -/
def Canonical : Json → Prop
  | int n => Short n
  | list items => ItemsCanonical items
  | object members => (members.map (·.1)).Nodup ∧ MembersCanonical members
  | _ => True

def ItemsCanonical : List Json → Prop
  | [] => True
  | item :: rest => Canonical item ∧ ItemsCanonical rest

def MembersCanonical : List (Text × Json) → Prop
  | [] => True
  | (_, value) :: rest => Canonical value ∧ MembersCanonical rest

end

theorem membersCanonical_iff {members : List (Text × Json)} :
    MembersCanonical members ↔ ∀ member ∈ members, Canonical member.2 := by
  induction members with
  | nil => simp [MembersCanonical]
  | cons member rest ih =>
    obtain ⟨name, value⟩ := member
    simp [MembersCanonical, ih]

theorem canonical_of_mem_words {word : Text × Json} (h : word ∈ words) : Canonical word.2 := by
  simp only [words, List.mem_cons, List.not_mem_nil, or_false] at h
  rcases h with rfl | rfl | rfl | rfl | rfl | rfl <;> trivial

theorem canonical_of_readNumber? {t : Text} {j : Json} {width : Nat}
    (h : readNumber? t = some (.ok j, width)) : Canonical j := by
  simp only [readNumber?] at h
  split at h
  · cases h
  · split at h
    · simp only [Option.some.injEq, Prod.mk.injEq] at h
      obtain ⟨n, hn, rfl⟩ := Except.exists_of_map_eq_ok h.1
      exact short_of_ofDigits hn
    · cases h
      trivial

theorem canonical_of_readScalar {r rest : Rest} {j : Json} (h : readScalar r = .ok (j, rest)) :
    Canonical j := by
  unfold readScalar at h
  split at h
  · next value width hword =>
    obtain ⟨⟨word, found⟩, hmem, hsome⟩ := List.exists_of_findSome?_eq_some hword
    dsimp only at hsome
    split at hsome
    · cases hsome
      cases h
      exact canonical_of_mem_words hmem
    · cases hsome
  · split at h
    · next hnumber =>
      cases h
      exact canonical_of_readNumber? hnumber
    · cases h
    · cases h

/-- With so much fuel only canonical values are read. -/
structure Yields (fuel : Nat) : Prop where
  value : ∀ {depth : Nat} {r rest : Rest} {j : Json}, readValue fuel depth r = .ok (j, rest) →
      Canonical j
  items : ∀ {depth : Nat} {r rest : Rest} {items : List Json},
    readItems fuel depth r = .ok (items, rest) → ItemsCanonical items
  members : ∀ {depth : Nat} {r rest : Rest} {sofar members : List (Text × Json)},
      Canonical (object sofar) →
    readMembers fuel depth sofar r = .ok (members, rest) → Canonical (object members)

theorem canonical_put {name : Text} {value : Json} {sofar : List (Text × Json)}
    (h : Canonical (object sofar)) (hvalue : Canonical value) :
    Canonical (object (Assoc.put name value sofar)) := by
  simp only [Canonical, membersCanonical_iff] at h ⊢
  refine ⟨Assoc.nodup_put value h.1, fun member hmem => ?_⟩
  rcases Assoc.mem_of_mem_put hmem with rfl | hmem
  · exact hvalue
  · exact h.2 member hmem

theorem canonical_nil : Canonical (object []) := ⟨List.nodup_nil, trivial⟩

theorem yields_succ {fuel : Nat} (ih : Yields fuel) : Yields (fuel + 1) where
  value {depth r rest j} h := by
    unfold readValue at h
    split at h
    · obtain ⟨p, -, hp⟩ := Except.exists_of_map_eq_ok h
      cases hp
      unfold ofPiece
      split <;> trivial
    · cases h
    · dsimp only at h
      split at h
      · cases h
        exact canonical_nil
      · obtain ⟨⟨members, after⟩, hmembers, hobject⟩ := Except.exists_of_map_eq_ok h
        cases hobject
        exact ih.members canonical_nil hmembers
    · cases h
    · dsimp only at h
      split at h
      · cases h
        trivial
      · obtain ⟨⟨items, after⟩, hitems, hlist⟩ := Except.exists_of_map_eq_ok h
        cases hlist
        exact ih.items hitems
    · exact canonical_of_readScalar h
  items {depth r rest items} h := by
    unfold readItems at h
    obtain ⟨⟨item, after⟩, hitem, h⟩ := Except.exists_of_bind_eq_ok h
    dsimp only at h
    split at h
    · cases h
      exact ⟨ih.value hitem, trivial⟩
    · obtain ⟨⟨others, last⟩, hothers, h⟩ := Except.exists_of_bind_eq_ok h
      cases h
      exact ⟨ih.value hitem, ih.items hothers⟩
    · cases h
  members {depth r rest sofar members} hsofar h := by
    unfold readMembers at h
    split at h
    · obtain ⟨key, -, h⟩ := Except.exists_of_bind_eq_ok h
      dsimp only at h
      split at h
      · cases h
      · obtain ⟨⟨value, after⟩, hvalue, h⟩ := Except.exists_of_bind_eq_ok h
        have hput : Canonical (object (Assoc.put (nameOf key) value sofar)) :=
          canonical_put hsofar (ih.value hvalue)
        dsimp only at h
        split at h
        · cases h
          exact hput
        · exact ih.members hput h
        · cases h
    · cases h

theorem yields (fuel : Nat) : Yields fuel := by
  induction fuel with
  | zero =>
    refine ⟨fun h => ?_, fun h => ?_, fun _ h => ?_⟩
    · rw [readValue] at h
      cases h
    · rw [readItems] at h
      cases h
    · rw [readMembers] at h
      cases h
  | succ fuel ih => exact yields_succ ih

theorem canonical_of_read {t : Text} {j : Json} (h : read t = .ok j) : Canonical j := by
  unfold read at h
  split at h
  · cases h
  · split at h
    · cases h
    · next value rest hvalue =>
      dsimp only at h
      split at h
      · cases h
        exact (yields _).value hvalue
      · cases h

end Chartwright.Json
