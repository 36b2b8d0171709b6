import Chartwright.Buffer.Entities
/-!
The next free identifier: a single letter that is the initial of nothing in use, else a letter with
a number from 1 to
99. When all of these are taken the time stands in.

Main statement: what is offered is not in use (`not_mem_of_next?`).
-/
namespace Chartwright.NextId

def letters : List Char := "ABCDEFGHIJKLMNOPQRSTUVWXYZ".toList

/-- Upper case of the characters whose upper case is one ASCII letter: the lower-case ASCII letters,
the dotless i and the long s. No other character takes an initial away. -/
def upper (c : Char) : Char :=
  if c.toNat = 0x131 then 'I' else if c.toNat = 0x17F then 'S' else c.toUpper

/-- A letter is the initial, in either case, of an identifier in use. -/
def isInitial (used : List Text) (letter : Char) : Bool :=
  used.any fun id => id.head?.any fun c => upper c == letter

/-- The letters with numbers, letter by letter. -/
def numbered : List Text :=
  letters.flatMap fun letter => (List.range 99).map fun n => letter :: Nat.toDigits 10 (n + 1)

/-- The next identifier that is free among those in use, or nothing when all short ones are
taken. -/
def next? (used : List Text) : Option Text :=
  match letters.find? fun letter => !isInitial used letter with
  | some letter => some [letter]
  | none => numbered.find? fun id => !used.contains id

/-- An identifier made of the time in milliseconds. -/
def stamped (now : Nat) : Text := 'N' :: Nat.toDigits 10 now

/-- The next identifier, at a time. -/
def next (now : Nat) (used : List Text) : Text := (next? used).getD (stamped now)

theorem not_mem_of_next? {used : List Text} {id : Text} (h : next? used = some id) : id ∉ used := by
  unfold next? at h
  split at h
  · next letter found =>
    cases h
    intro mem
    have free := List.find?_some found
    have mem' := List.mem_of_find?_eq_some found
    simp only [isInitial, Bool.not_eq_eq_eq_not, Bool.not_true, List.any_eq_false] at free
    have := free _ mem
    have same : letters.all (fun l => upper l = l) = true := by decide
    have kept : upper letter = letter := by simpa using List.all_eq_true.1 same letter mem'
    simp [kept] at this
  · have := List.find?_some h
    simpa using this

end Chartwright.NextId
