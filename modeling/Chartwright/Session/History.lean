import Chartwright.Text.Basic
/-!
History: the snapshots of a text that can be stepped through, and which of them is current.

Recording a snapshot drops those after the current one, and the oldest when there are more than the
limit; recording the current text again does nothing. Stepping back and forth only moves the cursor.

Main statement: what is recorded is current (`current_record`).
-/
namespace Chartwright

/-- At most `limit` snapshots, the oldest first; `cursor` is the number of the current one. -/
structure History where
  limit : Nat
  snapshots : List Text
  cursor : Nat
deriving DecidableEq, Repr

namespace History

/-- The history that knows one snapshot only. -/
def start (limit : Nat) (initial : Text) : History := ⟨limit, [initial], 0⟩

/-- How many snapshots are kept when nothing else is asked for. -/
def defaultLimit : Nat := 100

def current (h : History) : Text := h.snapshots.getD h.cursor []

def canUndo (h : History) : Bool := 0 < h.cursor

def canRedo (h : History) : Bool := h.cursor + 1 < h.snapshots.length

/-- Snapshots without the oldest when there are more than the limit. -/
def evict (limit : Nat) (snapshots : List Text) : List Text :=
  if limit < snapshots.length then snapshots.tail else snapshots

/-- A history with a new latest snapshot, and whether anything was recorded. -/
def record (h : History) (t : Text) : Bool × History :=
  if t = h.current then (false, h)
  else
    let kept := evict h.limit (h.snapshots.take (h.cursor + 1) ++ [t])
    (true, { h with snapshots := kept, cursor := kept.length - 1 })

/-- One step back, and the text that is current then; nothing at the oldest snapshot. -/
def undo? (h : History) : Option (Text × History) :=
  if h.canUndo then
    let earlier := { h with cursor := h.cursor - 1 }
    some (earlier.current, earlier)
  else none

/-- One step forward, and the text that is current then; nothing at the latest snapshot. -/
def redo? (h : History) : Option (Text × History) :=
  if h.canRedo then
    let later := { h with cursor := h.cursor + 1 }
    some (later.current, later)
  else none

/-- All snapshots forgotten but one. -/
def reset (h : History) (t : Text) : History := { h with snapshots := [t], cursor := 0 }

theorem current_record (h : History) (t : Text) (room : 0 < h.limit) :
    (h.record t).2.current = t := by
  unfold record
  split
  · next same => exact same.symm
  · simp only [current, evict]
    generalize h.snapshots.take (h.cursor + 1) = before
    split
    · next full =>
      cases before with
      | nil =>
        simp at full
        omega
      | cons b bs => simp
    · simp

end History

/-- A history that cannot be: it would keep no snapshot. -/
inductive HistoryError where
  | noRoom
deriving DecidableEq, Repr

namespace HistoryError

def message : HistoryError → Text
  | noRoom => "max_history must be at least 1".toList

end HistoryError

namespace History

/-- The history that knows one snapshot only, if the limit leaves room for one. -/
def start? (limit : Int) (initial : Text) : Except HistoryError History :=
  if limit < 1 then .error .noRoom else .ok (start limit.toNat initial)

end History
end Chartwright
