import Chartwright.Text.Basic
/-!
Paths in normal form: without empty components and single dots. Double dots stay, for what they lead
to depends on the folders on the way. Two slashes in front are kept as two, more than two count as
one.
-/
namespace Chartwright

structure Path where
  root : Text
  components : List Text
deriving DecidableEq, Repr

namespace Path

/-- The slashes in front of a path that are kept. -/
def rootOf (t : Text) : Text :=
  match (t.takeWhile (· = '/')).length with
  | 0 => []
  | 2 => ['/', '/']
  | _ => ['/']

def ofText (t : Text) : Path where
  root := rootOf t
  components := (Text.pieces '/' t).filter fun c => !c.isEmpty && c != ['.']

/-- The path as it is written; a single dot for the folder at hand. -/
def toText (p : Path) : Text :=
  if p.root.isEmpty && p.components.isEmpty then ['.'] else p.root ++ Text.join ['/'] p.components

/-- The path without its last component. -/
def parent (p : Path) : Path := { p with components := p.components.dropLast }

/-- A path that leads nowhere because of a NUL in it. -/
def hasNul (p : Path) : Bool := p.components.any (·.contains '\x00')

end Path
end Chartwright
