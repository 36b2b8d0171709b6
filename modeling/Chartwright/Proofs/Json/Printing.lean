import Chartwright.Json.Printer
import Chartwright.Proofs.Number.IntegerText
/-!
When a JSON value is printed to its end.

A value without an integer of too many digits is printed as its whole text (`print_of_writable`).
Printing any other stops at such an integer, and what was printed by then is not the whole text
(`stopped_of_not_writable`).
-/
namespace Chartwright.Json

open Integer

mutual

/-- No integer has too many digits to be written. -/
def Writable : Json → Prop
  | int n => Short n
  | list items => ItemsWritable items
  | object members => MembersWritable members
  | _ => True

def ItemsWritable : List Json → Prop
  | [] => True
  | item :: rest => Writable item ∧ ItemsWritable rest

def MembersWritable : List (Text × Json) → Prop
  | [] => True
  | (_, value) :: rest => Writable value ∧ MembersWritable rest

end

mutual

/-- The whole text of a value that stands at a depth, however long its integers are. -/
def lay (l : Layout) (depth : Nat) : Json → Text
  | null => "null".toList
  | bool b => if b then "true".toList else "false".toList
  | int n => decimal n
  | float x => printFloat x
  | text t => printText l.asciiOnly t
  | brokenText => "null".toList
  | list [] => ['[', ']']
  | list (item :: rest) =>
    layItems l (depth + 1) ('[' :: lineBreak l (depth + 1)) (item :: rest) ++
      (lineBreak l depth ++ [']'])
  | object [] => ['{', '}']
  | object (member :: rest) =>
    layMembers l (depth + 1) ('{' :: lineBreak l (depth + 1)) (member :: rest) ++
      (lineBreak l depth ++ ['}'])

def layItems (l : Layout) (depth : Nat) (before : Text) : List Json → Text
  | [] => []
  | item :: rest => before ++ lay l depth item ++ layItems l depth (separator l depth) rest

def layMembers (l : Layout) (depth : Nat) (before : Text) : List (Text × Json) → Text
  | [] => []
  | (name, value) :: rest =>
    before ++ printText l.asciiOnly name ++ [':', ' '] ++ lay l depth value ++
      layMembers l depth (separator l depth) rest

end

namespace Printed

/-- What was printed when printing failed at an integer: some of a text, but not all of it. -/
def Stopped (p : Printed) (t : Text) : Prop :=
  p.failure = some .writing ∧ ∃ missing, missing ≠ [] ∧ p.text ++ missing = t

/-- All of a text is printed if a condition holds, and printing fails at an integer if it does
not. -/
structure Ends (p : Printed) (t : Text) (c : Prop) : Prop where
  of : c → p = whole t
  of_not : ¬ c → p.Stopped t

variable {p q : Printed} {t u : Text} {c d : Prop}

theorem ends_whole (t : Text) : (whole t).Ends t True := ⟨fun _ => rfl, fun h => absurd trivial h⟩

theorem ends_printInt (before : Text) (n : Int) :
    (printInt before n).Ends (before ++ decimal n) (Short n) where
  of h := by rw [printInt, write_of_short h]
  of_not h := by
    have hne : decimal n ≠ [] := by
      rw [decimal]
      split
      · exact List.cons_ne_nil _ _
      · exact Nat.toDigits_ne_nil
    rw [printInt, write_of_long h]
    exact ⟨rfl, _, List.append_ne_nil_of_right_ne_nil before hne, rfl⟩

theorem Ends.append (hp : p.Ends t c) (hq : q.Ends u d) : (p.append q).Ends (t ++ u) (c ∧ d) where
  of := by
    rintro ⟨hc, hd⟩
    rw [hp.of hc, hq.of hd]
    rfl
  of_not h := by
    by_cases hc : c
    · obtain ⟨hfailure, missing, hne, rfl⟩ := hq.of_not fun hd => h ⟨hc, hd⟩
      rw [hp.of hc]
      exact ⟨hfailure, missing, hne, List.append_assoc ..⟩
    · obtain ⟨hfailure, missing, hne, rfl⟩ := hp.of_not hc
      rw [Printed.append, hfailure]
      exact ⟨rfl, missing ++ u, List.append_ne_nil_of_left_ne_nil hne u,
        (List.append_assoc ..).symm⟩

theorem Ends.congr (h : p.Ends t c) (htext : t = u) (hcond : d ↔ c) : p.Ends u d where
  of hd := htext ▸ h.of (hcond.1 hd)
  of_not hd := htext ▸ h.of_not (mt hcond.2 hd)

end Printed

open Printed

mutual

theorem ends_print (l : Layout) (depth : Nat) :
    ∀ j : Json, (print l depth j).Ends (lay l depth j) (Writable j)
  | null | bool _ | float _ | text _ | brokenText | list [] | object [] => by
    simpa only [print, lay, Writable, ItemsWritable, MembersWritable] using ends_whole _
  | int n => by simpa only [print, lay, Writable, List.nil_append] using ends_printInt [] n
  | list (item :: rest) => by
    have hitems := ends_printItems l (depth + 1) ('[' :: lineBreak l (depth + 1)) (item :: rest)
    rw [print, lay, Writable]
    exact (hitems.append (ends_whole _)).congr rfl (and_true _).symm.to_iff
  | object (member :: rest) => by
    have hmembers :=
      ends_printMembers l (depth + 1) ('{' :: lineBreak l (depth + 1)) (member :: rest)
    rw [print, lay, Writable]
    exact (hmembers.append (ends_whole _)).congr rfl (and_true _).symm.to_iff

theorem ends_printItems (l : Layout) (depth : Nat) (before : Text) : ∀ items : List Json,
    (printItems l depth before items).Ends (layItems l depth before items) (ItemsWritable items)
  | [] => by simpa only [printItems, layItems, ItemsWritable] using ends_whole _
  | item :: rest => by
    have hrest := ends_printItems l depth (separator l depth) rest
    have hitem := ends_print l depth item
    rw [layItems, ItemsWritable]
    cases item with
    | int n =>
      rw [printItems, lay, Writable]
      exact (ends_printInt before n).append hrest
    | _ =>
      rw [printItems]
      · exact (((ends_whole before).append hitem).append hrest).congr rfl (by rw [true_and])
      · intro n h
        cases h

theorem ends_printMembers (l : Layout) (depth : Nat) (before : Text) :
    ∀ members : List (Text × Json),
    (printMembers l depth before members).Ends (layMembers l depth before members)
      (MembersWritable members)
  | [] => by simpa only [printMembers, layMembers, MembersWritable] using ends_whole _
  | (name, value) :: rest => by
    have hrest := ends_printMembers l depth (separator l depth) rest
    have hvalue := ends_print l depth value
    rw [printMembers, layMembers, MembersWritable]
    exact (((ends_whole _).append hvalue).append hrest).congr rfl (by rw [true_and])

end

theorem membersWritable_iff {members : List (Text × Json)} :
    MembersWritable members ↔ ∀ member ∈ members, Writable member.2 := by
  induction members with
  | nil => simp [MembersWritable]
  | cons member rest ih =>
    obtain ⟨name, value⟩ := member
    simp [MembersWritable, ih]

theorem print_of_writable {j : Json} (h : Writable j) (l : Layout) (depth : Nat) :
    print l depth j = whole (lay l depth j) := (ends_print l depth j).of h

theorem stopped_of_not_writable {j : Json} (h : ¬ Writable j) (l : Layout) (depth : Nat) :
    (print l depth j).Stopped (lay l depth j) := (ends_print l depth j).of_not h

end Chartwright.Json
