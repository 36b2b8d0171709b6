import Chartwright.Files.Path
import Chartwright.Text.Quoted
/-!
A store of files and folders. Paths are followed component by component; double dots lead back to
the folder above.

Main statement: what was written to a file is read from it (`read_write`).
-/
namespace Chartwright

/-- What is found at a place. -/
inductive Entry where
  | file (content : Text)
  | folder
deriving DecidableEq, Repr

/-- The names on the way to a place, outermost first. -/
abbrev Place := List Text

/-- Entries by place, and the place that relative paths start from. The outermost folder is always
there. -/
structure Store where
  entries : List (Place × Entry)
  home : Place
deriving DecidableEq, Repr

/-- Why a path cannot be used. -/
inductive FileFault where
  | absent | notFolder | present | isFolder | longName | nul
deriving DecidableEq, Repr

/-- A path that cannot be used, and why. -/
structure FileError where
  fault : FileFault
  path : Path
deriving DecidableEq, Repr

namespace FileError

def message (e : FileError) : Text :=
  match e.fault with
  | .absent => "[Errno 2] No such file or directory: ".toList ++ Text.quoted e.path.toText
  | .present => "[Errno 17] File exists: ".toList ++ Text.quoted e.path.toText
  | .notFolder => "[Errno 20] Not a directory: ".toList ++ Text.quoted e.path.toText
  | .isFolder => "[Errno 21] Is a directory: ".toList ++ Text.quoted e.path.toText
  | .longName => "[Errno 36] File name too long: ".toList ++ Text.quoted e.path.toText
  | .nul => "embedded null byte".toList

end FileError

namespace Store

/-- The store that holds an empty folder to start from. -/
def empty : Store := ⟨[([['~']], .folder)], [['~']]⟩

def find? (s : Store) (place : Place) : Option Entry :=
  if place.isEmpty then some .folder else (s.entries.find? fun (p, _) => p = place).map (·.2)

/-- A name that is longer than 255 bytes of UTF-8. -/
def isLongName (name : Text) : Bool := 255 < (String.ofList name).utf8ByteSize

/-- The place that names lead to from a place. Every place on the way must be a folder. -/
def follow (s : Store) (place : Place) : List Text → Except FileFault Place
  | [] => .ok place
  | c :: rest =>
    match s.find? place with
    | none => .error .absent
    | some (.file _) => .error .notFolder
    | some .folder =>
      if isLongName c then .error .longName
      else s.follow (if c = ['.', '.'] then place.dropLast else place ++ [c]) rest

/-- The place of a path. -/
def locate (s : Store) (p : Path) : Except FileFault Place :=
  if p.hasNul then .error .nul else s.follow (if p.root.isEmpty then s.home else []) p.components

/-- There is something at a path. -/
def contains (s : Store) (p : Path) : Except FileError Bool :=
  match s.locate p with
  | .ok place => .ok (s.find? place).isSome
  | .error .longName => .error ⟨.longName, p⟩
  | .error _ => .ok false

/-- A store with an entry put at a place. -/
def putEntry (s : Store) (place : Place) (e : Entry) : Store :=
  { s with entries := (place, e) :: s.entries.filter fun (p, _) => p ≠ place }

/-- A store with one more folder. -/
def makeFolder (s : Store) (p : Path) : Except FileFault Store := do
  let place ← s.locate p
  match s.find? place with
  | some _ => .error .present
  | none => return s.putEntry place .folder

/-- What is wrong with a path that could not be made a folder: nothing if it is one already. -/
def unlessFolder (s : Store) (p : Path) (fault : FileFault) : Option FileError :=
  match s.locate p with
  | .ok place => if s.find? place = some .folder then none else some ⟨fault, p⟩
  | .error _ => some ⟨fault, p⟩

/-- A store in which the folders on the way to a path of at most `depth` names are made, and then
the path itself as far as that is possible. Folders that were made stay, also when a later one
cannot be made. -/
def ensureWithin : Nat → Store → Path → Store × Option FileError
  | 0, s, p => (s, s.unlessFolder p .absent)
  | depth + 1, s, p =>
    match s.makeFolder p with
    | .ok s => (s, none)
    | .error .absent =>
      match ensureWithin depth s p.parent with
      | (s, some e) => (s, some e)
      | (s, none) =>
        match s.makeFolder p with
        | .ok s => (s, none)
        | .error .absent => (s, some ⟨.absent, p⟩)
        | .error fault => (s, s.unlessFolder p fault)
    | .error fault => (s, s.unlessFolder p fault)

/-- A store in which a path is a folder, as far as that is possible. -/
def ensureFolder (s : Store) (p : Path) : Store × Option FileError :=
  ensureWithin (p.components.length + 1) s p

/-- A store in which a file has some content. The folder of the file must be there. -/
def write (s : Store) (p : Path) (content : Text) : Except FileError Store :=
  match s.locate p with
  | .error fault => .error ⟨fault, p⟩
  | .ok place =>
    match s.find? place with
    | some .folder => .error ⟨.isFolder, p⟩
    | _ => .ok (s.putEntry place (.file content))

def read (s : Store) (p : Path) : Except FileError Text :=
  match s.locate p with
  | .error fault => .error ⟨fault, p⟩
  | .ok place =>
    match s.find? place with
    | none => .error ⟨.absent, p⟩
    | some .folder => .error ⟨.isFolder, p⟩
    | some (.file content) => .ok content

/-! ## Reading back -/

theorem find?_putEntry_self (s : Store) {place : Place} (e : Entry) (inner : place ≠ []) :
    (s.putEntry place e).find? place = some e := by
  simp [find?, putEntry, inner]

theorem find?_putEntry_of_ne (s : Store) {place other : Place} (e : Entry) (ne : other ≠ place) :
    (s.putEntry place e).find? other = s.find? other := by
  unfold find? putEntry
  split
  · rfl
  · simp only [decide_eq_true_eq, ne.symm, not_false_eq_true, List.find?_cons_of_neg,
      List.find?_filter]
    congr 2
    funext x
    by_cases h : x.1 = other
    · simp [h, ne]
    · simp [h]

/-- Putting something where no folder was does not change where names lead. -/
theorem follow_putEntry (s : Store) {place : Place} (e : Entry)
    (free : s.find? place ≠ some .folder) (from' : Place) (names : List Text) :
    (s.putEntry place e).follow from' names = s.follow from' names ∨
      ∃ fault, s.follow from' names = .error fault := by
  induction names generalizing from' with
  | nil => exact .inl rfl
  | cons c rest ih =>
    rw [follow, follow]
    by_cases here : from' = place
    · subst here
      cases h : s.find? from' with
      | none => exact .inr ⟨_, rfl⟩
      | some entry =>
        cases entry with
        | file content => exact .inr ⟨_, rfl⟩
        | folder => exact absurd h free
    · rw [find?_putEntry_of_ne s e here]
      cases h : s.find? from' with
      | none => exact .inl rfl
      | some entry =>
        cases entry with
        | file content => exact .inl rfl
        | folder =>
          dsimp only
          split
          · exact .inl rfl
          · exact ih _

theorem read_write {s s' : Store} {p : Path} {content : Text} (h : s.write p content = .ok s') :
    s'.read p = .ok content := by
  unfold write at h
  split at h
  · cases h
  · next place located =>
    have put : s.find? place ≠ some .folder ∧ s' = s.putEntry place (.file content) := by
      split at h
      · cases h
      · next notFolder =>
        cases h
        exact ⟨fun is => notFolder is, rfl⟩
    obtain ⟨free, rfl⟩ := put
    have inner : place ≠ [] := by
      rintro rfl
      exact free rfl
    have relocated : (s.putEntry place (.file content)).locate p = .ok place := by
      unfold locate at located ⊢
      split at located
      · cases located
      · next noNul =>
        rw [if_neg noNul]
        rcases follow_putEntry s (.file content) free
          (if p.root.isEmpty then s.home else []) p.components with same | ⟨fault, bad⟩
        · exact same.trans located
        · rw [bad] at located
          cases located
    simp [read, relocated, find?_putEntry_self s _ inner]

end Store
end Chartwright
