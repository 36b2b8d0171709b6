import Chartwright.Line.Kind
/-!
Buffers: the lines of a text. Lines end at line feeds only, so every other line separator stays
inside a line.

Main statement: the lines of a text, joined again, are the text (`toText_ofText`).
-/
namespace Chartwright

/-- The lines of a text, from the first. -/
abbrev Buffer := List Line

namespace Buffer

/-- The lines of a text; an empty text has one empty line. -/
def ofText (t : Text) : Buffer := Text.pieces '\n' t

/-- The lines joined by line feeds. -/
def toText (b : Buffer) : Text := Text.join ['\n'] b

@[simp] theorem toText_ofText (t : Text) : toText (ofText t) = t := Text.join_pieces '\n' t

/-- The place after the last line that is not blank; the end of the buffer when all are. -/
def appendIndex (b : Buffer) : Nat :=
  match (b.zipIdx.filter fun (line, _) => !(Text.trim line).isEmpty).getLast? with
  | some (_, i) => i + 1
  | none => b.length

/-- A buffer with further lines put in before the line with number `i`. -/
def insertAt (i : Nat) (new : List Line) (b : Buffer) : Buffer := b.take i ++ new ++ b.drop i

/-- A buffer with further lines put in after its last line that is not blank. -/
def append (new : List Line) (b : Buffer) : Buffer := b.insertAt b.appendIndex new

/-- A buffer without the lines whose numbers are listed. -/
def without (doomed : List Nat) (b : Buffer) : Buffer :=
  (b.zipIdx.filter fun (_, i) => !doomed.contains i).map (·.1)

/-- The numbers of the lines for which `p` holds. -/
def numbers (p : Line → Bool) (b : Buffer) : List Nat :=
  (b.zipIdx.filter fun (line, _) => p line).map (·.2)

/-- The line with a number, empty when there is none. -/
def line (b : Buffer) (i : Nat) : Line := b[i]?.getD []

theorem line_eq_of_getElem? {b : Buffer} {i : Nat} {l : Line} (h : b[i]? = some l) :
    b.line i = l := by
  rw [line, h, Option.getD_some]

theorem getElem?_eq_line {b : Buffer} {i : Nat} (h : i < b.length) : b[i]? = some (b.line i) := by
  rw [line, List.getElem?_eq_getElem h, Option.getD_some]

theorem line_mem {b : Buffer} {i : Nat} (h : i < b.length) : b.line i ∈ b :=
  List.mem_of_getElem? (getElem?_eq_line h)

/-- The first line for which `read` gives something, by its number. -/
def first? {α : Type} (read : Line → Option α) (b : Buffer) : Option (Nat × α) :=
  b.zipIdx.findSome? fun (line, i) => (read line).map (i, ·)

end Buffer

/-- One unit of indentation, as it is written. -/
def indentUnit : Text := List.replicate 4 ' '

end Chartwright
