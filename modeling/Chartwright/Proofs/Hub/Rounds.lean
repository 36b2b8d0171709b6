import Chartwright.Hub.Basic
/-!
Every message in one round.

Along a run of a hub a log is kept of the rounds that messages are sent in: who was connected when a
message had its turn, who was served, and who was connected after that. Calls may come between any
two sends, and a send may fail.

Every message that was accepted has one round, in the order of the calls, or waits for it still; a
round serves everybody once who was connected when it began, and forgets exactly those it could not
be sent to; clients are connected from the turn on in which they join, and no more from that in
which they leave; what a client has received are the messages of the rounds that have reached it, in
the order of all rounds; and a client that stays connected and can be reached gets every message,
once (`inRounds_run`).
-/
namespace Chartwright.Hub

variable {σ : Type} [DecidableEq σ]

/-! ## Rounds and the log of them -/

/-- One message sent to all: who was connected when its turn came, who was served so far and whether
the message could be sent to it, and who was connected after that. -/
structure Round (σ : Type) where
  message : Text
  audience : List σ
  sends : List (σ × Bool)
  left : List σ

namespace Round

def served (r : Round σ) : List σ := r.sends.map Prod.fst

/-- Those that the message could not be sent to. -/
def missed (r : Round σ) : List σ := (r.sends.filter fun send => !send.2).map Prod.fst

def reaches (r : Round σ) (client : σ) : Bool := r.sends.contains (client, true)

/-- One more client was served. -/
def add (r : Round σ) (client : σ) (succeeded : Bool) (left : List σ) : Round σ :=
  { r with sends := r.sends ++ [(client, succeeded)], left := left }

/-- A round as it ends: everybody was served once, and those it could not be sent to are not
connected any more. -/
structure Over (r : Round σ) : Prop where
  distinct : r.audience.Nodup
  served : r.served.Perm r.audience
  left : r.left = r.audience.filter fun client => client ∉ r.missed

/-- A round that somebody is still to be served in: so far nobody was served twice, and nobody has
joined or left. -/
structure UnderWay (r : Round σ) (h : Hub σ) : Prop where
  distinct : r.audience.Nodup
  audience : h.registered = r.audience
  left : r.left = r.audience
  served : ∃ d, h.sending = some d ∧ d.message = r.message ∧ d.failed = r.missed ∧
      d.remaining ≠ [] ∧
    (r.served ++ d.remaining).Perm r.audience

end Round

/-- The rounds that have ended, in their order, and the one that has not. -/
structure Log (σ : Type) where
  ended : List (Round σ)
  current : Option (Round σ)

namespace Log

def rounds (l : Log σ) : List (Round σ) := l.ended ++ l.current.toList

/-- The round that an event begins or goes on with. -/
def round? (l : Log σ) (h : Hub σ) : Event σ → Option (Round σ)
  | .turn =>
    match h.sending, h.waiting with
    | none, .deliver message :: _ => some ⟨message, h.registered, [], (h.step .turn).1.registered⟩
    | _, _ => none
  | .sent client succeeded =>
    match h.sending, l.current with
    | some d, some r =>
      if client ∈ d.remaining then
        some (r.add client succeeded (h.step (.sent client succeeded)).1.registered)
      else none
    | _, _ => none
  | _ => none

/-- The log with the latest round as it is now, which has ended if the hub is not sending any
more. -/
def put (l : Log σ) (after : Hub σ) (r : Round σ) : Log σ :=
  if after.sending.isSome then ⟨l.ended, some r⟩ else ⟨l.ended ++ [r], none⟩

/-- The log after an event of a hub. -/
def note (l : Log σ) (h : Hub σ) (e : Event σ) : Log σ :=
  match l.round? h e with
  | none => l
  | some r => l.put (h.step e).1 r

/-- The log after a run of a hub. -/
def along (l : Log σ) (h : Hub σ) : List (Event σ) → Log σ
  | [] => l
  | e :: es => (l.note h e).along (h.step e).1 es

end Log

/-- The rounds of a run. -/
def history (es : List (Event σ)) : Log σ := Log.along ⟨[], none⟩ empty es

/-! ## Messages -/

/-- The messages that wait for their turn. -/
def queued (h : Hub σ) : List Text :=
  h.waiting.filterMap fun
    | .deliver message => some message
    | _ => none

/-- The message of a call that somebody is there for. -/
def accepted? (h : Hub σ) : Event σ → Option Text
  | .broadcast message => if h.registered.isEmpty then none else some message
  | _ => none

/-- The messages that are accepted in a run. -/
def accepted (h : Hub σ) : List (Event σ) → List Text
  | [] => []
  | e :: es => (h.accepted? e).toList ++ accepted (h.step e).1 es

/-- The messages of all calls of a run. -/
def broadcasts (es : List (Event σ)) : List Text :=
  es.filterMap fun
    | .broadcast message => some message
    | _ => none

/-- The messages among some effects that a client has received. -/
def received (client : σ) (effects : List (Effect σ)) : List Text :=
  effects.filterMap fun
    | .received c message => if client = c then some message else none
    | .accepted _ => none

/-- The messages that a client is still to get. -/
def owed (h : Hub σ) (client : σ) : List Text :=
  match h.sending with
  | none => h.queued
  | some d => if client ∈ d.remaining then d.message :: h.queued else h.queued

/-- The event is a call. -/
def Event.isCall : Event σ → Bool
  | connect _ | disconnect _ | broadcast _ => true
  | turn | sent .. => false

theorem run_append (h : Hub σ) (before after : List (Event σ)) : h.run (before ++ after) =
    (((h.run before).1.run after).1, (h.run before).2 ++ ((h.run before).1.run after).2) := by
  induction before generalizing h with
  | nil => rfl
  | cons e rest ih => simp [run, ih, List.append_assoc]

/-! ## What an event does to the log -/

variable {h : Hub σ} {l : Log σ} {d : Delivery σ} {r : Round σ} {client c : σ} {succeeded : Bool}
  {e : Event σ}

omit [DecidableEq σ] in
theorem rounds_put (l : Log σ) (after : Hub σ) (r : Round σ) :
    (l.put after r).rounds = l.ended ++ [r] := by
  unfold Log.put Log.rounds
  split <;> simp

omit [DecidableEq σ] in
theorem rounds_of_current (current : l.current = some r) : l.rounds = l.ended ++ [r] := by
  simp [Log.rounds, current]

omit [DecidableEq σ] in
theorem rounds_of_idle (idle : l.current = none) : l.rounds = l.ended := by
  simp [Log.rounds, idle]

/-- The log tells the rounds of a hub. -/
structure Log.Tells (l : Log σ) (h : Hub σ) : Prop where
  distinct : h.registered.Nodup
  ended : ∀ r ∈ l.ended, r.Over
  current : h.sending = none ∧ l.current = none ∨ ∃ r, l.current = some r ∧ r.UnderWay h

/-- A round goes on as long as there are clients to be served. -/
theorem Log.Tells.put_conclude (distinct : h.registered.Nodup) (ended : ∀ r ∈ l.ended, r.Over)
    (message : d.message = r.message) (audience : h.registered = r.audience)
    (failed : d.failed = r.missed) (served : (r.served ++ d.remaining).Perm r.audience)
    (left : r.left = (h.conclude d).registered) :
    (l.put (h.conclude d) r).Tells (h.conclude d) := by
  unfold conclude at *
  split at left
  · next all =>
    -- all are served: the round ends, and those it could not reach leave with it
    have hall : d.remaining = [] := List.isEmpty_iff.1 all
    rw [if_pos all]
    refine ⟨distinct.filter _, fun r' hr' => ?_, .inl ⟨rfl, rfl⟩⟩
    rcases List.mem_append.1 hr' with hr' | hr'
    · exact ended r' hr'
    · rw [List.mem_singleton.1 hr']
      refine ⟨audience ▸ distinct, by simpa [hall] using served, ?_⟩
      simp [left, audience, failed]
  · next others =>
    rw [if_neg others]
    refine ⟨distinct, ended,
      .inr ⟨r, rfl, audience ▸ distinct, audience, left.trans audience, d, rfl, message, failed,
      ?_, served⟩⟩
    exact fun hall => others (List.isEmpty_iff.2 hall)

theorem Log.Tells.of_eq {h' : Hub σ} (tells : l.Tells h) (registered : h'.registered = h.registered)
    (sending : h'.sending = h.sending) : l.Tells h' := by
  refine ⟨registered ▸ tells.distinct, tells.ended, ?_⟩
  rw [sending]
  refine tells.current.imp_right fun ⟨r, hr, under⟩ => ⟨r, hr, under.distinct, ?_, under.left, ?_⟩
  · rw [registered, under.audience]
  · rw [sending]
    exact under.served

theorem step_turn_of_sending (busy : h.sending = some d) : h.step .turn = (h, []) := by
  simp [step, busy]

theorem step_turn {job : Job σ} {rest : List (Job σ)} (idle : h.sending = none)
    (next : h.waiting = job :: rest) :
    h.step .turn = (({ h with waiting := rest } : Hub σ).begin job, []) := by
  simp [step, idle, next]

theorem mem_registered_enter {other : σ} :
    other ∈ (h.begin (.enter c)).registered ↔ other ∈ h.registered ∨ other = c := by
  by_cases mem : c ∈ h.registered
  · simp only [begin, if_pos mem]
    exact ⟨.inl, fun hor => hor.elim id fun same => same ▸ mem⟩
  · simp [begin, if_neg mem]

theorem step_sent (busy : h.sending = some d) (mem : client ∈ d.remaining) :
    h.step (.sent client succeeded) =
      (h.conclude ⟨d.message, d.remaining.erase client,
        if succeeded then d.failed else d.failed ++ [client]⟩,
        if succeeded then [.received client d.message] else []) := by
  cases succeeded <;> simp [step, busy, mem]

theorem step_sent_of_not_mem (busy : h.sending = some d) (served : client ∉ d.remaining) :
    h.step (.sent client succeeded) = (h, []) := by
  simp [step, busy, served]

theorem step_sent_of_idle (idle : h.sending = none) :
    h.step (.sent client succeeded) = (h, []) := by
  simp [step, idle]

@[simp]
theorem queued_conclude (h : Hub σ) (d : Delivery σ) : (h.conclude d).queued = h.queued := by
  unfold conclude
  split <;> rfl

theorem perm_add (served : (r.served ++ d.remaining).Perm r.audience) (mem : client ∈ d.remaining)
    (left : List σ) :
    ((r.add client succeeded left).served ++ d.remaining.erase client).Perm
      (r.add client succeeded left).audience := by
  refine List.Perm.trans ?_ served
  simp only [Round.served, Round.add, List.map_append, List.map_cons, List.map_nil,
    List.append_assoc]
  exact (List.perm_cons_erase mem).symm.append_left _

omit [DecidableEq σ] in
theorem missed_add (r : Round σ) (client : σ) (succeeded : Bool) (left : List σ) :
    (r.add client succeeded left).missed =
      if succeeded then r.missed else r.missed ++ [client] := by
  cases succeeded <;> simp [Round.missed, Round.add]

theorem Log.Tells.current_eq_none (tells : l.Tells h) (idle : h.sending = none) :
    l.current = none := by
  rcases tells.current with ⟨-, hcurrent⟩ | ⟨r, -, under⟩
  · exact hcurrent
  · obtain ⟨d, busy, -⟩ := under.served
    exact nomatch idle.symm.trans busy

/-- What an event can do to a log: it begins a round, or serves somebody in the one that is under
way, or it leaves the log as it is, and then nobody receives anything. -/
inductive Log.Advances (l : Log σ) (h : Hub σ) (e : Event σ) : Prop where
  | aside (note : l.note h e = l)
    (queued : (h.step e).1.queued = h.queued ++ (h.accepted? e).toList)
    (received : ∀ c, received c (h.step e).2 = [])
  | begins (r : Round σ) (note : l.note h e = l.put (h.step e).1 r) (idle : l.current = none)
    (unsent : r.sends = [])
    (queued : h.queued = r.message :: (h.step e).1.queued) (calls : h.accepted? e = none)
      (effects : (h.step e).2 = [])
  | serves (r : Round σ) (client : σ) (succeeded : Bool) (left : List σ)
    (current : l.current = some r)
    (note : l.note h e = l.put (h.step e).1 (r.add client succeeded left))
      (unserved : client ∉ r.served)
    (queued : (h.step e).1.queued = h.queued) (calls : h.accepted? e = none)
    (effects : (h.step e).2 = if succeeded then [.received client r.message] else [])

theorem Log.Tells.note_of_eq (tells : l.Tells h) (same : h.step e = (h, []))
    (quiet : l.round? h e = none) (calls : h.accepted? e = none) :
    (l.note h e).Tells (h.step e).1 ∧ l.Advances h e := by
  have hnote : l.note h e = l := by simp [Log.note, quiet]
  rw [hnote, same]
  exact ⟨tells, .aside hnote (by simp [same, calls]) (by simp [same, received])⟩

theorem Log.Tells.note_of_idle (tells : l.Tells h) (idle : h.sending = none)
    (idle' : (h.step e).1.sending = none) (distinct : (h.step e).1.registered.Nodup)
    (quiet : l.round? h e = none) (calls : h.accepted? e = none)
    (queued : (h.step e).1.queued = h.queued) (effects : (h.step e).2 = []) :
    (l.note h e).Tells (h.step e).1 ∧ l.Advances h e := by
  have hnote : l.note h e = l := by simp [Log.note, quiet]
  rw [hnote]
  exact ⟨⟨distinct, tells.ended, .inl ⟨idle', tells.current_eq_none idle⟩⟩,
    .aside hnote (by simp [queued, calls]) (by simp [effects, received])⟩

/-- A turn: somebody joins or leaves, or a round begins. -/
theorem Log.Tells.note_turn (tells : l.Tells h) :
    (l.note h .turn).Tells (h.step .turn).1 ∧ l.Advances h .turn := by
  cases busy : h.sending with
  | some d => exact tells.note_of_eq (step_turn_of_sending busy) (by simp [Log.round?, busy]) rfl
  | none =>
    cases next : h.waiting with
    | nil =>
      exact tells.note_of_eq (by simp [step, busy, next]) (by simp [Log.round?, busy, next]) rfl
    | cons job rest =>
      cases job with
      | enter client =>
        refine tells.note_of_idle busy ?_ ?_ (by simp [Log.round?, busy, next]) rfl ?_ ?_ <;>
          rw [step_turn busy next]
        · exact busy
        · simp only [begin]
          split
          · exact tells.distinct
          · next fresh =>
            refine List.nodup_append.2 ⟨tells.distinct, by simp, fun c hc c' hc' => ?_⟩
            rw [List.mem_singleton.1 hc']
            exact fun same => fresh (same ▸ hc)
        · simp [queued, next, begin]
      | leave client =>
        refine tells.note_of_idle busy ?_ ?_ (by simp [Log.round?, busy, next]) rfl ?_ ?_ <;>
          rw [step_turn busy next]
        · exact busy
        · exact tells.distinct.filter _
        · simp [queued, next, begin]
      | deliver message =>
        have hround : l.round? h .turn =
            some ⟨message, h.registered, [], (h.step .turn).1.registered⟩ := by
          simp [Log.round?, busy, next]
        have hnote : l.note h .turn =
            l.put (h.step .turn).1 ⟨message, h.registered, [], (h.step .turn).1.registered⟩ := by
          simp only [Log.note, hround]
        refine ⟨?_, .begins _ hnote (tells.current_eq_none busy) rfl ?_ rfl ?_⟩
        · rw [hnote, step_turn busy next]
          exact put_conclude tells.distinct tells.ended rfl rfl rfl (.refl _) rfl
        · rw [step_turn busy next]
          simp only [begin, queued_conclude]
          simp [queued, next]
        · rw [step_turn busy next]

/-- A client is served in the round that is under way. -/
theorem Log.Tells.note_sent (tells : l.Tells h) (client : σ) (succeeded : Bool) :
    (l.note h (.sent client succeeded)).Tells (h.step (.sent client succeeded)).1 ∧
      l.Advances h (.sent client succeeded) := by
  rcases tells.current with ⟨idle, -⟩ | ⟨r, hr, under⟩
  · exact tells.note_of_eq (step_sent_of_idle idle) (by simp [Log.round?, idle]) rfl
  · obtain ⟨d, busy, message, failed, -, served⟩ := under.served
    by_cases mem : client ∈ d.remaining
    · have hround : l.round? h (.sent client succeeded) =
          some (r.add client succeeded (h.step (.sent client succeeded)).1.registered) := by
        simp [Log.round?, busy, hr, mem]
      have hnote : l.note h (.sent client succeeded) = l.put (h.step (.sent client succeeded)).1
          (r.add client succeeded (h.step (.sent client succeeded)).1.registered) := by
        simp only [Log.note, hround]
      refine ⟨?_, .serves r client succeeded _ hr hnote ?_ ?_ rfl ?_⟩
      · rw [hnote, step_sent busy mem]
        refine put_conclude tells.distinct tells.ended message under.audience ?_
          (perm_add served mem _) rfl
        rw [missed_add, failed]
      · have apart := (List.nodup_append.1 (served.nodup_iff.2 under.distinct)).2.2
        exact fun hserved => apart client hserved client mem rfl
      · rw [step_sent busy mem, queued_conclude]
      · rw [step_sent busy mem, message]
    · exact tells.note_of_eq (step_sent_of_not_mem busy mem)
        (by simp [Log.round?, busy, hr, mem]) rfl

theorem Log.Tells.note (tells : l.Tells h) (e : Event σ) :
    (l.note h e).Tells (h.step e).1 ∧ l.Advances h e := by
  cases e with
  | connect | disconnect =>
    exact ⟨of_eq tells rfl rfl, .aside rfl (by simp [step, queued, accepted?]) fun c => rfl⟩
  | broadcast message =>
    by_cases nobody : h.registered.isEmpty
    · exact tells.note_of_eq (by simp [step, nobody]) rfl (by simp [accepted?, nobody])
    · have hstep : h.step (.broadcast message) =
          ({ h with waiting := h.waiting ++ [.deliver message] }, []) := by
        simp [step, nobody]
      refine ⟨hstep ▸ of_eq tells rfl rfl, .aside rfl ?_ (by simp [hstep, received])⟩
      simp [hstep, queued, accepted?, nobody]
  | turn => exact tells.note_turn
  | sent client succeeded => exact tells.note_sent client succeeded

/-! ## Order -/

/-- The messages of the rounds that have reached a client. -/
def Log.inbox (l : Log σ) (client : σ) : List Text :=
  (l.rounds.filter (·.reaches client)).map Round.message

theorem Log.Advances.inOrder (advances : l.Advances h e) :
    (l.note h e).rounds.map Round.message ++ (h.step e).1.queued =
      l.rounds.map Round.message ++ h.queued ++ (h.accepted? e).toList := by
  cases advances with
  | aside note queued => rw [note, queued, List.append_assoc]
  | begins r note idle unsent queued calls =>
    simp [note, rounds_put, rounds_of_idle idle, queued, calls]
  | serves r client succeeded left current note unserved queued calls =>
    simp [note, rounds_put, rounds_of_current current, queued, calls, Round.add]

theorem not_reaches_of_unserved (unserved : c ∉ r.served) : r.reaches c = false := by
  refine Bool.eq_false_iff.2 fun reached => unserved ?_
  exact List.mem_map.2 ⟨(c, true), List.contains_iff_mem.1 reached, rfl⟩

theorem reaches_add (left : List σ) :
    (r.add client succeeded left).reaches c = (r.reaches c || (c == client && succeeded)) := by
  rw [Bool.eq_iff_iff]
  cases succeeded <;> simp [Round.reaches, Round.add]

theorem received_send (c client : σ) (succeeded : Bool) (message : Text) :
    received c (if succeeded = true then [.received client message] else []) =
      if c = client ∧ succeeded = true then [message] else [] := by
  cases succeeded <;> simp [received]
  split <;> simp [*]

theorem Log.Advances.inbox (advances : l.Advances h e) (c : σ) :
    (l.note h e).inbox c = l.inbox c ++ received c (h.step e).2 := by
  cases advances with
  | aside note queued received => simp [note, received]
  | begins r note idle unsent queued calls effects =>
    simp [note, Log.inbox, rounds_put, rounds_of_idle idle, effects, received,
      Round.reaches, unsent]
  | serves r client succeeded left current note unserved queued calls effects =>
    simp only [note, Log.inbox, rounds_put, rounds_of_current current, effects, List.filter_append,
      List.map_append, List.append_assoc, List.filter_cons, List.filter_nil, reaches_add]
    rw [received_send]
    by_cases reached : c = client ∧ succeeded = true
    · obtain ⟨rfl, rfl⟩ := reached
      simp [not_reaches_of_unserved unserved, Round.add]
    · have hsame : (c == client && succeeded) = false := by simpa using reached
      rw [hsame, Bool.or_false, if_neg reached, List.append_nil]
      split <;> rfl

/-! ## What a client is still to get -/

theorem owed_conclude (h : Hub σ) (d : Delivery σ) (c : σ) :
    (h.conclude d).owed c = if c ∈ d.remaining then d.message :: h.queued else h.queued := by
  rw [owed, queued_conclude]
  unfold conclude
  by_cases all : d.remaining.isEmpty
  · simp [List.isEmpty_iff.1 all]
  · simp [all]

/-- What a connected client receives or is still to get after an event, it was to get before, or it
is the message of a call: an event takes nothing away from a client that can be reached, and gives
it nothing twice. -/
theorem received_owed_step (tells : l.Tells h) (connected : c ∈ h.registered)
    (succeeds : e ≠ .sent c false) :
    received c (h.step e).2 ++ (h.step e).1.owed c = h.owed c ++ broadcasts [e] := by
  cases e with
  | connect | disconnect =>
    cases busy : h.sending <;> simp [step, owed, busy, queued, received, broadcasts]
  | broadcast message =>
    have somebody : h.registered.isEmpty = false :=
      List.isEmpty_eq_false_iff_exists_mem.2 ⟨c, connected⟩
    cases busy : h.sending <;> simp [step, somebody, owed, busy, queued, received, broadcasts]
    split <;> simp
  | turn =>
    cases busy : h.sending with
    | some d => simp [step_turn_of_sending busy, received, broadcasts]
    | none =>
      cases next : h.waiting with
      | nil => simp [step, busy, next, received, broadcasts]
      | cons job rest =>
        cases job with
        | enter | leave =>
          simp [step_turn busy next, begin, owed, queued, busy, next, received, broadcasts]
        | deliver message =>
          rw [step_turn busy next, begin, owed_conclude, if_pos connected]
          simp [owed, busy, queued, next, received, broadcasts]
  | sent client succeeded =>
    rcases tells.current with ⟨idle, -⟩ | ⟨r, hr, under⟩
    · simp [step_sent_of_idle idle, received, broadcasts]
    · obtain ⟨d, busy, message, failed, -, served⟩ := under.served
      have distinct : d.remaining.Nodup :=
        (List.nodup_append.1 (served.nodup_iff.2 under.distinct)).2.1
      by_cases mem : client ∈ d.remaining
      · -- who is served gets what it was owed, and nobody else's share changes
        rw [step_sent busy mem, owed_conclude, received_send]
        by_cases same : c = client
        · subst same
          have hsucceeded : succeeded = true := by simpa using succeeds
          simp [hsucceeded, owed, busy, mem, distinct.not_mem_erase, broadcasts]
        · have hleft : c ∈ d.remaining.erase client ↔ c ∈ d.remaining := List.mem_erase_of_ne same
          simp [hleft, same, owed, busy, broadcasts]
      · simp [step_sent_of_not_mem busy mem, received, broadcasts]

/-! ## Rest -/

/-- A bound on the events that are still to come without a call. -/
def work (h : Hub σ) : Nat :=
  (match h.sending with
    | none => 0
    | some d =>
      d.remaining.length) + h.waiting.length * (h.registered.length + h.waiting.length + 1)

theorem work_conclude_le (h : Hub σ) (d : Delivery σ) : (h.conclude d).work ≤
    d.remaining.length + h.waiting.length * (h.registered.length + h.waiting.length + 1) := by
  unfold conclude
  split
  · have hle := List.length_filter_le (fun c => !d.failed.contains c) h.registered
    simp only [work, Nat.zero_add]
    exact Nat.le_trans (Nat.mul_le_mul_left _ (by omega)) (Nat.le_add_left _ _)
  · exact Nat.le_refl _

theorem work_begin_le (idle : h.sending = none) (job : Job σ) : (h.begin job).work ≤
    h.registered.length + h.waiting.length * (h.registered.length + h.waiting.length + 2) := by
  cases job with
  | enter client =>
    have hle : (h.begin (.enter client)).registered.length ≤ h.registered.length + 1 := by
      simp only [begin]
      split <;> simp
    simp only [work, begin, idle, Nat.zero_add] at hle ⊢
    exact Nat.le_trans (Nat.mul_le_mul_left _ (by omega)) (Nat.le_add_left _ _)
  | leave client =>
    have hle := List.length_filter_le (fun c => decide (c ≠ client)) h.registered
    simp only [work, begin, idle, Nat.zero_add]
    exact Nat.le_trans (Nat.mul_le_mul_left _ (by omega)) (Nat.le_add_left _ _)
  | deliver message =>
    exact Nat.le_trans (work_conclude_le h _)
      (Nat.add_le_add_left (Nat.mul_le_mul_left _ (by omega)) _)

theorem work_step_lt {works : σ → Bool} (next : h.next? works = some e) :
    (h.step e).1.work < h.work := by
  match busy : h.sending, hwaiting : h.waiting with
  | some ⟨message, [], failed⟩, _ => simp [next?, busy] at next
  | some ⟨message, client :: rest, failed⟩, _ =>
    obtain rfl : .sent client (works client) = e := by simpa [next?, busy] using next
    rw [step_sent busy (List.mem_cons_self ..)]
    refine Nat.lt_of_le_of_lt (work_conclude_le _ _) ?_
    simp [work, busy]
  | none, [] => simp [next?, busy, hwaiting] at next
  | none, job :: rest =>
    obtain rfl : .turn = e := by simpa [next?, busy, hwaiting] using next
    rw [step_turn busy hwaiting]
    refine Nat.lt_of_le_of_lt (work_begin_le (h := { h with waiting := rest }) busy job) ?_
    have hwork : h.work = (rest.length + 1) * (h.registered.length + rest.length + 2) := by
      simp [work, busy, hwaiting, Nat.add_assoc]
    rw [hwork, Nat.succ_mul]
    simp only
    omega

theorem Log.Tells.work_le (tells : l.Tells h) : h.work ≤ h.eventsLeft := by
  have hle : (match h.sending with
      | none => 0
      | some d => d.remaining.length) ≤ h.registered.length := by
    rcases tells.current with ⟨idle, -⟩ | ⟨r, -, under⟩
    · simp [idle]
    · obtain ⟨d, busy, -, -, -, served⟩ := under.served
      have hlength := served.length_eq
      rw [List.length_append, ← under.audience] at hlength
      simp only [busy]
      omega
  have hbound : h.eventsLeft = h.waiting.length * (h.registered.length + h.waiting.length + 1) +
      (h.registered.length + h.waiting.length + 1) := by
    rw [eventsLeft, Nat.mul_comm, Nat.succ_mul]
  rw [work, hbound]
  omega

theorem Log.Tells.at_rest {works : σ → Bool} (tells : l.Tells h) (rest : h.next? works = none) :
    h.sending = none ∧ h.waiting = [] := by
  rcases tells.current with ⟨idle, -⟩ | ⟨r, -, under⟩
  · exact ⟨idle, by simpa [next?, idle] using rest⟩
  · obtain ⟨⟨message, remaining, failed⟩, busy, -, -, some_left, -⟩ := under.served
    cases remaining with
    | nil => exact absurd rfl some_left
    | cons client others => simp [next?, busy] at rest

omit [DecidableEq σ] in
theorem not_isCall_of_next? {works : σ → Bool} (next : h.next? works = some e) :
    e.isCall = false := by
  unfold next? at next
  split at next <;> simp at next
  · subst next
    rfl
  · rw [← next.2]
    rfl

theorem exists_run_settleWithin (works : σ → Bool) (fuel : Nat) : ∀ h : Hub σ,
    ∃ es, (∀ e ∈ es, e.isCall = false) ∧ h.settleWithin works fuel = h.run es := by
  induction fuel with
  | zero => exact fun h => ⟨[], by simp, rfl⟩
  | succ fuel ih =>
    intro h
    cases next : h.next? works with
    | none => exact ⟨[], by simp, by simp [settleWithin, next, run]⟩
    | some e =>
      obtain ⟨es, quiet, hsettle⟩ := ih (h.step e).1
      exact ⟨e :: es, List.forall_mem_cons.2 ⟨not_isCall_of_next? next, quiet⟩, by
        simp [settleWithin, next, run, hsettle]⟩

/-- Without a call the hub comes to rest: nothing is to be done next. -/
theorem next?_settleWithin (works : σ → Bool) (fuel : Nat) : ∀ {h : Hub σ}, h.work ≤ fuel →
    (h.settleWithin works fuel).1.next? works = none := by
  induction fuel with
  | zero =>
    intro h enough
    cases next : h.next? works with
    | none => simpa [settleWithin] using next
    | some e => exact absurd (Nat.lt_of_lt_of_le (work_step_lt next) enough) (Nat.not_lt_zero _)
  | succ fuel ih =>
    intro h enough
    cases next : h.next? works with
    | none => simp [settleWithin, next]
    | some e =>
      simpa [settleWithin, next]
          using ih (Nat.le_of_lt_succ (Nat.lt_of_lt_of_le (work_step_lt next) enough))

/-! ## Runs -/

theorem tells_empty : Log.Tells ⟨[], none⟩ (empty : Hub σ) :=
  ⟨List.nodup_nil, by simp, .inl ⟨rfl, rfl⟩⟩

theorem received_append (c : σ) (first rest : List (Effect σ)) :
    received c (first ++ rest) = received c first ++ received c rest :=
  List.filterMap_append

/-- What a run of a hub does to its log. -/
structure Log.Extends (l : Log σ) (h : Hub σ) (es : List (Event σ)) : Prop where
  tells : (l.along h es).Tells (h.run es).1
  inOrder : (l.along h es).rounds.map Round.message ++ (h.run es).1.queued =
    l.rounds.map Round.message ++ h.queued ++ h.accepted es
  inbox : ∀ c, (l.along h es).inbox c = l.inbox c ++ received c (h.run es).2

theorem Log.Tells.along (es : List (Event σ)) :
    ∀ {h : Hub σ} {l : Log σ}, l.Tells h → l.Extends h es := by
  induction es with
  | nil =>
    exact fun tells =>
      ⟨tells, by simp [Log.along, run, accepted], by simp [Log.along, run, received]⟩
  | cons e rest ih =>
    intro h l tells
    obtain ⟨tells', advances⟩ := tells.note e
    have later := ih tells'
    refine ⟨later.tells, ?_, fun c => ?_⟩
    · simpa [Log.along, run, accepted, advances.inOrder] using later.inOrder
    · simpa [Log.along, run, received_append, advances.inbox] using later.inbox c

theorem accepted_append (h : Hub σ) (before after : List (Event σ)) :
    h.accepted (before ++ after) = h.accepted before ++ (h.run before).1.accepted after := by
  induction before generalizing h with
  | nil => rfl
  | cons e rest ih => simp [accepted, run, ih]

theorem accepted_of_quiet (es : List (Event σ)) :
    ∀ {h : Hub σ}, (∀ e ∈ es, e.isCall = false) → h.accepted es = [] := by
  induction es with
  | nil => intro h _; rfl
  | cons e rest ih =>
    intro h quiet
    obtain ⟨hfirst, hrest⟩ := List.forall_mem_cons.1 quiet
    have hnone : h.accepted? e = none := by
      cases e <;> first | rfl | exact Bool.noConfusion hfirst
    simp [accepted, hnone, ih hrest]

theorem received_owed_run (later : List (Event σ)) : ∀ {h : Hub σ} {l : Log σ}, l.Tells h →
    (∀ before, before <+: later → c ∈ (h.run before).1.registered) → .sent c false ∉ later →
    received c (h.run later).2 ++ (h.run later).1.owed c = h.owed c ++ broadcasts later := by
  induction later with
  | nil => intro h l _ _ _; simp [run, received, broadcasts]
  | cons e rest ih =>
    intro h l tells connected succeeds
    have hstep := received_owed_step tells (connected [] (List.nil_prefix ..)) (e := e)
      (fun same => succeeds (same ▸ List.mem_cons_self ..))
    have hrest := ih (tells.note e).1
      (fun before hbefore => connected (e :: before) (List.cons_prefix_cons.2 ⟨rfl, hbefore⟩))
      (fun mem => succeeds (List.mem_cons_of_mem _ mem))
    have hsplit : broadcasts (e :: rest) = broadcasts [e] ++ broadcasts rest :=
      List.filterMap_append (l := [e])
    simp only [run, received_append, List.append_assoc, hsplit]
    rw [hrest, ← List.append_assoc, hstep, List.append_assoc]

theorem history_concat (es : List (Event σ)) (e : Event σ) :
    history (es ++ [e]) = (history es).note (empty.run es).1 e := by
  have halong (es : List (Event σ)) : ∀ (l : Log σ) (h : Hub σ),
      l.along h (es ++ [e]) = (l.along h es).note (h.run es).1 e := by
    induction es with
    | nil => exact fun _ _ => rfl
    | cons first rest ih => exact fun l h => ih _ _
  exact halong es _ _

theorem run_concat (es : List (Event σ)) (e : Event σ) :
    (empty.run (es ++ [e])).1 = ((empty.run es).1.step e).1 := by
  rw [run_append]
  rfl

/-- The messages of a run go out in rounds. -/
structure InRounds (es : List (Event σ)) : Prop where
  /-- Who joins is connected from its turn on. -/
  joins : ∀ c rest, (empty.run es).1.sending = none → (empty.run es).1.waiting = .enter c :: rest →
    ∀ other, other ∈ (empty.run (es ++ [.turn])).1.registered ↔
      other ∈ (empty.run es).1.registered ∨ other = c
  /-- Who leaves is not connected from its turn on. -/
  leaves : ∀ c rest, (empty.run es).1.sending = none → (empty.run es).1.waiting = .leave c :: rest →
    ∀ other, other ∈ (empty.run (es ++ [.turn])).1.registered ↔
      other ∈ (empty.run es).1.registered ∧ other ≠ c
  /-- The turn of a message begins its round, for all that are connected then. -/
  begins : ∀ message rest, (empty.run es).1.sending = none →
      (empty.run es).1.waiting = .deliver message :: rest →
    ∃ r, (history (es ++ [.turn])).rounds = (history es).rounds ++ [r] ∧ r.message = message ∧
      r.audience = (empty.run es).1.registered
  /-- Every accepted message has one round, or waits for it, in the order of the calls. -/
  inOrder : (history es).rounds.map Round.message ++ (empty.run es).1.queued = empty.accepted es
  /-- Everybody in the audience was served once, and exactly those who could not be reached were
  forgotten. -/
  ended : ∀ r ∈ (history es).ended, r.Over
  /-- Nobody joins or leaves during a round, and nobody is served twice. -/
  current : (empty.run es).1.sending = none ∧ (history es).current = none ∨
    ∃ r, (history es).current = some r ∧ r.UnderWay (empty.run es).1
  /-- Clients receive the messages of the rounds that have reached them, in the order of all
  rounds. -/
  inbox : ∀ c, received c (empty.run es).2 =
      ((history es).rounds.filter (·.reaches c)).map Round.message
  /-- Whatever comes later, a client that stays connected and can be reached receives what it was
  still to get and every message of a call after that, once and in order, save for those it is still
  to get in the end. -/
  owed : ∀ c later, (∀ before, before <+: later → c ∈ ((empty.run es).1.run before).1.registered) →
    .sent c false ∉ later →
    received c ((empty.run es).1.run later).2 ++ ((empty.run es).1.run later).1.owed c =
      (empty.run es).1.owed c ++ broadcasts later
  /-- Without further calls everything that waits gets its turn, every accepted message its round,
  and every round ends. -/
  settles : ∀ works, ∃ later, (∀ e ∈ later, e.isCall = false) ∧
    (empty.run es).1.settle works = (empty.run es).1.run later ∧
    (empty.run (es ++ later)).1.waiting = [] ∧
    (history (es ++ later)).current = none ∧
    (history (es ++ later)).ended.map Round.message = empty.accepted es

/-- The messages of every run go out in rounds, however calls, turns and sends alternate, in
whatever order the clients are served, and whichever sends fail. -/
theorem inRounds_run (es : List (Event σ)) : InRounds es := by
  have hrun := tells_empty.along es
  refine ⟨fun c rest idle next other => ?_,
    fun c rest idle next other => ?_, fun message rest idle next => ?_,
    hrun.inOrder, hrun.tells.ended, hrun.tells.current, fun c => (hrun.inbox c).symm,
    fun c later connected succeeds => received_owed_run later hrun.tells connected succeeds,
      fun works => ?_⟩
  · rw [run_concat, step_turn idle next]
    exact mem_registered_enter
  · rw [run_concat, step_turn idle next]
    simp [begin]
  · have hcurrent : (history es).current = none := hrun.tells.current_eq_none idle
    refine ⟨⟨message, (empty.run es).1.registered, [], ((empty.run es).1.step .turn).1.registered⟩,
      ?_, rfl, rfl⟩
    have hround : (history es).round? (empty.run es).1 .turn =
        some ⟨message, (empty.run es).1.registered, [],
          ((empty.run es).1.step .turn).1.registered⟩ := by
      simp [Log.round?, idle, next]
    rw [history_concat, Log.note, hround, rounds_put, rounds_of_idle hcurrent]
  obtain ⟨later, quiet, hsettle⟩ := exists_run_settleWithin works _ (empty.run es).1
  have rest : ((empty.run es).1.run later).1.next? works = none :=
    hsettle ▸ next?_settleWithin works _ hrun.tells.work_le
  have hall := tells_empty.along (es ++ later)
  have hend : (empty.run (es ++ later)).1 = ((empty.run es).1.run later).1 := by rw [run_append]
  obtain ⟨idle, nothing⟩ := hall.tells.at_rest (hend ▸ rest)
  have hcurrent : (history (es ++ later)).current = none := hall.tells.current_eq_none idle
  refine ⟨later, quiet, hsettle, nothing, hcurrent, ?_⟩
  have hqueued : (empty.run (es ++ later)).1.queued = [] := by
    rw [queued, nothing, List.filterMap_nil]
  calc (history (es ++ later)).ended.map Round.message
      = (history (es ++ later)).rounds.map Round.message ++ (empty.run (es ++ later)).1.queued := by
        rw [hqueued, List.append_nil, rounds_of_idle hcurrent]
    _ = empty.accepted (es ++ later) := hall.inOrder
    _ = empty.accepted es := by rw [accepted_append, accepted_of_quiet later quiet, List.append_nil]

/-- The third client joins during the round of a message: it is not served in it, and lets the round
end first. The second cannot be reached, and is forgotten. -/
theorem inRounds_of_late_client :
    let es : List (Event Nat) :=
  [.connect 1, .turn, .connect 2, .turn, .broadcast ['m'], .turn, .connect 3,
      .sent 2 false, .turn, .sent 1 true]
    (empty.run es).1 = ⟨[1], [.enter 3], none⟩ ∧ InRounds es ∧
      (empty.run (es ++ [.turn])).1.registered = [1, 3] :=
  ⟨by decide, inRounds_run _, by decide⟩

end Chartwright.Hub
