import Chartwright.Text.Basic
/-!
The scheduler of renderings. Every text that is scheduled gets a task, which waits for quiet, then
hands the text to the renderer, and reports what the renderer answers. Scheduling another text
cancels the task before it, so only the latest text is ever reported.

The scheduler moves by events, which may come in any order: calls from outside, a task whose wait is
over, and a task whose text the renderer has answered. A cancelled task stops at its next event
without an effect.
-/
namespace Chartwright

/-- What a renderer answers. -/
inductive Verdict where
  | rendered (output : Text)
  | failed (message : Text)
deriving DecidableEq, Repr

/-- How far a task has come. -/
inductive Phase where
  | waiting | rendering | finished
deriving DecidableEq, Repr

structure Task where
  code : Text
  phase : Phase
  cancelled : Bool
deriving DecidableEq, Repr

/-- All tasks in the order they were scheduled, the number of the one that counts, and the output of
the latest successful rendering. -/
structure Scheduler where
  tasks : List Task
  current : Option Nat
  lastOutput : Option Text
deriving DecidableEq, Repr

namespace Scheduler

inductive Event where
  | schedule (code : Text)
  | cancel
  | quiet (task : Nat)
  | answer (task : Nat) (verdict : Verdict)
deriving DecidableEq, Repr

/-- What can be seen from outside: a text handed to the renderer, and a result, which is the message
of a failure. -/
inductive Effect where
  | given (code : Text)
  | reported (error : Option Text)
deriving DecidableEq, Repr

def idle : Scheduler := ⟨[], none, none⟩

/-- The task that counts has not finished. -/
def pending (s : Scheduler) : Bool :=
  (s.current.bind (s.tasks[·]?)).any fun t => t.phase ≠ .finished

/-- The tasks after the one that counts is cancelled, if it has not finished. -/
def cancelCurrent (s : Scheduler) : List Task :=
  match s.current with
  | none => s.tasks
  | some i =>
    s.tasks.modify i fun t => if t.phase = .finished then t else { t with cancelled := true }

/-- The scheduler with a task in another phase. -/
def advance (s : Scheduler) (i : Nat) (phase : Phase) : Scheduler :=
  { s with tasks := s.tasks.modify i fun t => { t with phase := phase } }

/-- One event. An event that does not fit the phase of its task changes nothing. -/
def step (s : Scheduler) : Event → Scheduler × List Effect
  | .schedule code =>
    ({ s with
        tasks := s.cancelCurrent ++ [⟨code, .waiting, false⟩]
        current := some s.tasks.length }, [])
  | .cancel => ({ s with tasks := s.cancelCurrent, current := none }, [])
  | .quiet i =>
    match s.tasks[i]? with
    | some ⟨_, .waiting, true⟩ => (s.advance i .finished, [])
    | some ⟨code, .waiting, false⟩ => (s.advance i .rendering, [.given code])
    | _ => (s, [])
  | .answer i verdict =>
    match s.tasks[i]? with
    | some ⟨_, .rendering, true⟩ => (s.advance i .finished, [])
    | some ⟨_, .rendering, false⟩ =>
      match verdict with
      | .rendered output =>
        ({ s.advance i .finished with lastOutput := some output }, [.reported none])
      | .failed message => (s.advance i .finished, [.reported (some message)])
    | _ => (s, [])

/-- A run of events, with all effects in their order. -/
def run (s : Scheduler) : List Event → Scheduler × List Effect
  | [] => (s, [])
  | e :: es =>
    let (s, first) := s.step e
    let (s, rest) := run s es
    (s, first ++ rest)

/-- The events that bring one task as far as it gets: the wait is over, and the renderer answers if
it does. -/
def settling (answer : Text → Option Verdict) (i : Nat) (t : Task) : List Event :=
  match answer t.code with
  | some verdict => [.quiet i, .answer i verdict]
  | none => if t.cancelled then [.quiet i, .answer i (.failed [])] else [.quiet i]

/-- All tasks brought as far as they get, given what the renderer answers. -/
def settle (answer : Text → Option Verdict) (s : Scheduler) : Scheduler × List Effect :=
  s.run (s.tasks.zipIdx.flatMap fun (t, i) => settling answer i t)

/-- The texts among some effects that were handed to the renderer. -/
def givenCodes (effects : List Effect) : List Text :=
  effects.filterMap fun
    | .given code => some code
    | .reported _ => none

/-- The results among some effects. -/
def reportedResults (effects : List Effect) : List (Option Text) :=
  effects.filterMap fun
    | .given _ => none
    | .reported error => some error

end Scheduler
end Chartwright
