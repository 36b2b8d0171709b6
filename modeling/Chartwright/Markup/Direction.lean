import Chartwright.Text.Basic
/-!
The directions a flowchart can run in. A header may also say TD, which is another name of TB.
-/
namespace Chartwright

/-- The direction in which links lead. -/
inductive Direction where
  | leftToRight | rightToLeft | topToBottom | bottomToTop
deriving DecidableEq, Repr

namespace Direction

def all : List Direction := [leftToRight, rightToLeft, topToBottom, bottomToTop]

/-- The token that is written in a header. -/
def token : Direction → Text
  | leftToRight => "LR".toList
  | rightToLeft => "RL".toList
  | topToBottom => "TB".toList
  | bottomToTop => "BT".toList

def named? (token : Text) : Option Direction := all.find? (·.token = token)

/-- The direction that a header token stands for, in whatever ASCII case. -/
def ofToken? (token : Text) : Option Direction :=
  let upper := token.map Char.toUpper
  if upper = "TD".toList then some topToBottom else named? upper

theorem ofToken?_token (d : Direction) : ofToken? d.token = some d := by cases d <;> decide

end Direction
end Chartwright
