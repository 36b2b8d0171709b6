import Chartwright.Json.Printer
/-!
The hub: the clients that are connected, and the messages that are sent to all of them.

Connecting, disconnecting and sending a message to all are jobs that wait for their turn; one job
has its turn at a time. A message goes to the clients that are connected when its turn comes, one
after the other in any order, and those that it could not be sent to are forgotten when the last has
been served.
-/
namespace Chartwright

/-- What waits for its turn. -/
inductive Job (σ : Type) where
  | enter (client : σ)
  | leave (client : σ)
  | deliver (message : Text)
deriving DecidableEq, Repr

/-- A message that is being sent: the clients still to be served, and those it could not be sent
to. -/
structure Delivery (σ : Type) where
  message : Text
  remaining : List σ
  failed : List σ
deriving DecidableEq, Repr

/-- The connected clients, the jobs that wait, and the message that is being sent. -/
structure Hub (σ : Type) where
  registered : List σ
  waiting : List (Job σ)
  sending : Option (Delivery σ)
deriving DecidableEq, Repr

namespace Hub

variable {σ : Type} [DecidableEq σ]

/-- What happens to a hub: a call, a job that gets its turn, or a client that is served, whether or
not the message could be sent to it. -/
inductive Event (σ : Type) where
  | connect (client : σ)
  | disconnect (client : σ)
  | broadcast (message : Text)
  | turn
  | sent (client : σ) (succeeded : Bool)
deriving DecidableEq, Repr

/-- What a client sees. -/
inductive Effect (σ : Type) where
  | accepted (client : σ)
  | received (client : σ) (message : Text)
deriving DecidableEq, Repr

def empty : Hub σ := ⟨[], [], none⟩

/-- How many clients are connected. -/
def count (h : Hub σ) : Nat := h.registered.length

/-- A message that has been sent to all: those it could not be sent to are forgotten. -/
def conclude (h : Hub σ) (d : Delivery σ) : Hub σ :=
  if d.remaining.isEmpty then
    { h with registered := h.registered.filter fun c => !d.failed.contains c, sending := none }
  else { h with sending := some d }

/-- A job that has its turn. -/
def begin (h : Hub σ) : Job σ → Hub σ
  | .enter client =>
    { h with
      registered := if client ∈ h.registered then h.registered else h.registered ++ [client] }
  | .leave client => { h with registered := h.registered.filter fun c => c ≠ client }
  | .deliver message => h.conclude ⟨message, h.registered, []⟩

/-- One event. A message for nobody is dropped at once; there is no turn while a message is being
sent, and nobody is served but those still to be served. -/
def step (h : Hub σ) : Event σ → Hub σ × List (Effect σ)
  | .connect client => ({ h with waiting := h.waiting ++ [.enter client] }, [.accepted client])
  | .disconnect client => ({ h with waiting := h.waiting ++ [.leave client] }, [])
  | .broadcast message =>
    if h.registered.isEmpty then (h, [])
    else ({ h with waiting := h.waiting ++ [.deliver message] }, [])
  | .turn =>
    match h.sending, h.waiting with
    | none, job :: rest => (({ h with waiting := rest } : Hub σ).begin job, [])
    | _, _ => (h, [])
  | .sent client succeeded =>
    match h.sending with
    | none => (h, [])
    | some d =>
      if client ∈ d.remaining then
        if succeeded then
          (h.conclude { d with remaining := d.remaining.erase client },
            [.received client d.message])
        else (h.conclude ⟨d.message, d.remaining.erase client, d.failed ++ [client]⟩, [])
      else (h, [])

/-- A run of events, with all effects in their order. -/
def run (h : Hub σ) : List (Event σ) → Hub σ × List (Effect σ)
  | [] => (h, [])
  | e :: es =>
    let (h, first) := h.step e
    let (h, rest) := run h es
    (h, first ++ rest)

/-- The event that comes next when nobody calls; `works` tells to which clients messages can be
sent. -/
def next? (works : σ → Bool) (h : Hub σ) : Option (Event σ) :=
  match h.sending with
  | some ⟨_, client :: _, _⟩ => some (.sent client (works client))
  | some ⟨_, [], _⟩ => none
  | none => if h.waiting.isEmpty then none else some .turn

/-- At most `fuel` events without a call. -/
def settleWithin (works : σ → Bool) : Nat → Hub σ → Hub σ × List (Effect σ)
  | 0, h => (h, [])
  | fuel + 1, h =>
    match h.next? works with
    | none => (h, [])
    | some e =>
      let (h, first) := h.step e
      let (h, rest) := settleWithin works fuel h
      (h, first ++ rest)

/-- A bound on the events that are still to come: each job takes a turn, and a message one more
event a client. -/
def eventsLeft (h : Hub σ) : Nat :=
  (h.registered.length + h.waiting.length + 1) * (h.waiting.length + 1)

/-- All jobs done. -/
def settle (works : σ → Bool) (h : Hub σ) : Hub σ × List (Effect σ) :=
  settleWithin works h.eventsLeft h

/-- A call, and all jobs done. -/
def call (works : σ → Bool) (h : Hub σ) (e : Event σ) : Hub σ × List (Effect σ) :=
  let (h, first) := h.step e
  let (h, rest) := h.settle works
  (h, first ++ rest)

end Hub

/-- The messages that clients are sent. -/
inductive Announcement where
  | codeUpdated (code : Text) (renderError : Option Text)
  | renderResult (renderError : Option Text)
deriving DecidableEq, Repr

namespace Announcement

def toJson : Announcement → Json
  | codeUpdated code renderError =>
    .ofMembers [("type", .text "code_updated".toList), ("code", .text code),
      ("render_error", .ofText? renderError)]
  | renderResult renderError =>
    .ofMembers [("type", .text "render_result".toList), ("render_error", .ofText? renderError)]

/-- A message as it is sent; it has no integer in it. -/
def write (a : Announcement) : Text := (a.toJson.write .message).text

end Announcement
end Chartwright
