import Chartwright.Line.Link
/-!
Chains: a line of links, taken apart into the groups of nodes it joins and the connectors between
them. The groups of `A & B[x] --> C` are `A & B[x]` and `C`; a group lists its nodes between
ampersands. Arrows and ampersands inside labels do not count.

Main statement: there is one segment more than connectors (`Chain.length_segments`).
-/
namespace Chartwright

/-- One group of nodes, as it is written without the blanks around it, and the nodes it lists. -/
structure Segment where
  text : Text
  tokens : List Text
deriving DecidableEq, Repr

structure Chain where
  indent : Text
  segments : List Segment
  connectors : List Text
deriving DecidableEq, Repr

namespace Segment

/-- The non-empty pieces of a line between the ampersands that a masked copy of it still shows. -/
def tokensOf (line masked : Text) : List Text :=
  ((Text.piecesBy (fun c => c.2 == '&') (line.zip masked)).map
    fun piece => Text.trim (piece.map (·.1))).filter fun token => !token.isEmpty

/-- The segment of a line in a span, its ampersands looked up in a masked copy of the line. -/
def ofSpan (line masked : Text) (s : Span) : Segment :=
  ⟨Text.trim (s.cut line), tokensOf (s.cut line) (s.cut masked)⟩

end Segment

namespace Chain

/-- The spans between those of `inner`, from `start` to `stop`. -/
def gaps (start stop : Nat) : List Span → List Span
  | [] => [⟨start, stop⟩]
  | s :: rest => ⟨start, s.start⟩ :: gaps s.stop stop rest

theorem length_gaps (start stop : Nat) (inner : List Span) :
    (gaps start stop inner).length = inner.length + 1 := by
  induction inner generalizing start with
  | nil => rfl
  | cons s rest ih => simp [gaps, ih]

/-- The spans of the connectors on a masked line, blanks and labels included. -/
def connectorSpans (masked : Text) : List Span :=
  (Text.occurrences (fun _ t =>
    (Connector.read? t).map fun (k, _) => (k.written.length, k.written.length)) masked).map
      fun (offset, width) => ⟨offset, offset + width⟩

/-- A line with segments in place of its own: the segments are interleaved with the connectors. -/
def interleave : List Text → List Text → Text
  | [], _ => []
  | s :: _, [] => s
  | s :: ss, k :: ks => s ++ k ++ interleave ss ks

end Chain

namespace Line

/-- A line taken apart at its arrows; nothing when it holds no arrow outside of labels. -/
def chain? (line : Line) : Option Chain :=
  let masked := maskLabels line
  let spans := Chain.connectorSpans masked
  if spans.isEmpty then none
  else
    some {
      indent := indent line
      segments :=
        (Chain.gaps (indent line).length (Text.trimRight line).length spans).map
          (Segment.ofSpan line masked)
      connectors := spans.map (·.cut line) }

end Line

namespace Chain

theorem length_segments {line : Line} {c : Chain} (h : Line.chain? line = some c) :
    c.segments.length = c.connectors.length + 1 := by
  simp only [Line.chain?, Option.ite_none_left_eq_some, Option.some.injEq] at h
  obtain ⟨-, rfl⟩ := h
  simp [length_gaps]

end Chain
end Chartwright
