import Chartwright.Api.Reply
import Chartwright.Hub.Basic
import Chartwright.Hub.Relay
import Chartwright.Render.Scheduler
import Chartwright.Settings
/-!
The app: a desk that serves requests, the hub of its clients, and perhaps a renderer.

After each input the app settles: a change is announced once to all clients, with the text as it is
then, and starts a rendering; the results of renderings are kept in the session and announced after
that.
-/
namespace Chartwright

/-- What a client is sent. -/
inductive Delivered where
  | accepted
  | text (t : Text)
deriving DecidableEq, Repr

/-- What an input makes visible besides its reply: deliveries to clients, and texts given to the
renderer. -/
structure Visible where
  delivered : List (Nat × Delivered)
  given : List Text
deriving DecidableEq, Repr

/-- Clients are known by numbers; without a scheduler nothing is rendered. -/
structure App where
  desk : Desk
  hub : Hub Nat
  relay : Relay
  scheduler : Option Scheduler
deriving DecidableEq, Repr

/-- Why an app does not start. -/
inductive StartError where
  | history (e : HistoryError)
  | session (e : SessionError)
deriving DecidableEq, Repr

namespace StartError

def message : StartError → Text
  | history e => e.message
  | session e => e.message

end StartError

namespace Visible

def nothing : Visible := ⟨[], []⟩

def append (a b : Visible) : Visible := ⟨a.delivered ++ b.delivered, a.given ++ b.given⟩

/-- What an effect of the hub makes visible. -/
def ofHub (effects : List (Hub.Effect Nat)) : Visible :=
  ⟨effects.map fun
    | .accepted client => (client, .accepted)
    | .received client message => (client, .text message), []⟩

end Visible

namespace App

/-- Something happens to the hub, and all its jobs are done. Sends fail for nobody here. -/
def onHub (a : App) (e : Hub.Event Nat) : App × Visible :=
  let (hub, effects) := a.hub.call (fun _ => true) e
  ({ a with hub := hub }, Visible.ofHub effects)

def announce (a : App) (message : Announcement) : App × Visible :=
  a.onHub (.broadcast message.write)

/-- The app with another desk; the signal goes up if listeners of the session were called. -/
def adopt (a : App) (desk : Desk) (called : Bool) : App :=
  { a with desk := desk, relay := if called then a.relay.step .changed else a.relay }

/-- What is announced of a change. -/
def update (a : App) : Announcement := .codeUpdated a.desk.session.code a.desk.session.renderError

/-- The signal taken down: the text as it is now is handed on, and a rendering of it is
scheduled. -/
def handOn (a : App) : App :=
  { a with
    relay := a.relay.step (.take a.desk.session.code)
    scheduler := a.scheduler.map fun s => (s.step (.schedule a.desk.session.code)).1 }

/-- A change, if there is a signal of one, is handed on and announced. -/
def relayChange (a : App) : App × Visible :=
  if a.relay.signal && !a.relay.busy then
    let (a, seen) := a.handOn.announce a.update
    ({ a with relay := a.relay.step .done }, seen)
  else (a, .nothing)

/-- The results of renderings kept in the session. -/
def keepResults (a : App) (results : List (Option Text)) : App :=
  { a with desk := { a.desk with session := results.foldl Session.setRenderResult a.desk.session } }

/-- The renderings brought as far as they get, and whether a result came of them. -/
def render (answer : Text → Option Verdict) (a : App) : App × List Text × Bool :=
  match a.scheduler with
  | none => (a, [], false)
  | some s =>
    let (s, effects) := s.settle answer
    let results := Scheduler.reportedResults effects
    (({ a with scheduler := some s } : App).keepResults results, Scheduler.givenCodes effects,
      !results.isEmpty)

/-- Everything done that is to be done before the next input. -/
def settle (answer : Text → Option Verdict) (reported : Bool) (a : App) : App × Visible :=
  let (a, changes) := a.relayChange
  let (a, given, rendered) := a.render answer
  let (a, results) :=
    if reported || rendered then a.announce (.renderResult a.desk.session.renderError)
    else (a, .nothing)
  (a, (changes.append ⟨[], given⟩).append results)

/-- A request served at a time, and the app settled after it. -/
def request (answer : Text → Option Verdict) (a : App) (now : Nat) (method : String)
    (path body : Text) : App × Reply × Visible :=
  let served := a.desk.request a.hub.count now method path body
  let (a, seen) := (a.adopt served.desk served.changed).settle answer served.reported
  (a, served.reply, seen)

/-- A client joins. -/
def connect (answer : Text → Option Verdict) (a : App) (client : Nat) : App × Visible :=
  let (a, seen) := a.onHub (.connect client)
  let (a, more) := a.settle answer false
  (a, seen.append more)

/-- A client leaves. -/
def disconnect (answer : Text → Option Verdict) (a : App) (client : Nat) : App × Visible :=
  let (a, seen) := a.onHub (.disconnect client)
  let (a, more) := a.settle answer false
  (a, seen.append more)

/-- A client says something: `ping` is answered while the client is connected, anything else is
ignored. -/
def hear (a : App) (client : Nat) (said : Text) : Visible :=
  if a.hub.registered.contains client && said = "ping".toList then
    ⟨[(client, .text "pong".toList)], []⟩
  else .nothing

/-- The session of an app that starts: one for a given text, or a new one that loads the state file
if it is there. -/
def firstSession (settings : Settings) (store : Store) (code : Option Text) :
    Except StartError Session := do
  let session ← (Session.start? settings.maxHistory (code.getD defaultCode)).mapError .history
  match code, settings.stateFile with
  | none, some path =>
    if ← (store.contains path).mapError fun e => .session (.file e) then
      let loaded := session.load store path
      match loaded.result with
      | .ok _ => return loaded.session
      | .error e => throw (.session e)
    else return session
  | _, _ => return session

/-- An app that starts. With a renderer the text is scheduled at once. -/
def start (settings : Settings) (store : Store) (code : Option Text) (withRenderer : Bool) :
    Except StartError App := do
  let session ← firstSession settings store code
  return {
    desk := ⟨session, store, settings.stateFile⟩
    hub := Hub.empty
    relay := Relay.idle
    scheduler :=
      if withRenderer then some (Scheduler.idle.step (.schedule session.code)).1 else none }

end App
end Chartwright
