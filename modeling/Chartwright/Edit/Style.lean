import Chartwright.Buffer.Entities
/-!
Edits of styles: setting some looks of a node or subgraph, over those that are set already.
-/
namespace Chartwright.Buffer

/-- A buffer with one line that sets the style of `id` to written pairs: the first such line is
replaced and later ones are removed, or a new line is added after the last that is not blank. -/
def putStyle (b : Buffer) (id pairs : Text) : Buffer :=
  match b.numbers (StyleLine.isFor id) with
  | [] => b.append [StyleLine.ofPairs indentUnit id pairs]
  | i :: later =>
    without later
      (b.set i (StyleLine.ofPairs ((StyleLine.indentFor? id (b.line i)).getD []) id pairs))

/-- What `style` sets, over the present style of `id`. When nothing at all is set the buffer stays
as it is. -/
def restyle (b : Buffer) (id : Text) (style : Style) : Except Integer.TooLong Buffer := do
  let present ← b.style? id
  let pairs ← ((present.getD Style.empty).merge style).write
  return if pairs.isEmpty then b else b.putStyle id pairs

end Chartwright.Buffer
