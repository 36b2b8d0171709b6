import Chartwright.Api.App
import Chartwright.Session.Operation
/-!
An app step by step.

Whatever an app does is made of small steps, which may come in any order: an operation on its
session, the relay that takes a signal down or comes to the end of an announcement, a task of its
scheduler or a client at its hub that moves on. Only the relay schedules renderings and announces
texts.
-/
namespace Chartwright

/-- The desk after an operation on its session, and whether listeners were called. -/
def Desk.operate (d : Desk) (op : Operation) : Desk × Bool :=
  let (store, o) := op.perform d.session d.store
  ({ d with session := o.session, store := store }, !o.notices.isEmpty)

namespace App

/-- What happens to an app: an operation on its session, a signal that is taken down, an
announcement that has come to its end, a result of a rendering that is announced, and what happens
to its scheduler and its hub. -/
inductive Event where
  | operate (op : Operation)
  | take
  | done
  | report
  | rendering (e : Scheduler.Event)
  | hub (e : Hub.Event Nat)
deriving DecidableEq, Repr

/-- Something happens to the hub. -/
def atHub (a : App) (e : Hub.Event Nat) : App := { a with hub := (a.hub.step e).1 }

/-- Something happens to the scheduler; what it reports is kept in the session. -/
def atScheduler (a : App) (e : Scheduler.Event) : App :=
  match a.scheduler with
  | none => a
  | some s =>
    let (s, effects) := s.step e
    ({ a with scheduler := some s } : App).keepResults (Scheduler.reportedResults effects)

/-- One step. The calls of the scheduler, and those that send a message to all, are no steps of
their own. -/
def step (a : App) : Event → App
  | .operate op =>
    let (desk, called) := a.desk.operate op
    a.adopt desk called
  | .take =>
    if a.relay.signal && !a.relay.busy then a.handOn.atHub (.broadcast a.update.write) else a
  | .done => { a with relay := a.relay.step .done }
  | .report => a.atHub (.broadcast (Announcement.renderResult a.desk.session.renderError).write)
  | .rendering (.schedule _) | .rendering .cancel => a
  | .rendering e => a.atScheduler e
  | .hub (.broadcast _) => a
  | .hub e => a.atHub e

def run (a : App) : List Event → App
  | [] => a
  | e :: es => run (a.step e) es

end App
end Chartwright
