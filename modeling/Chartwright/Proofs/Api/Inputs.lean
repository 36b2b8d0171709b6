import Chartwright.Api.Steps
import Chartwright.Proofs.Hub.Rounds
import Chartwright.Proofs.Render.Latest
/-!
Every input is a run of steps.

A request asks for nothing but operations on the session, and the signal goes up if one of them has
called a listener (`operates_request`). What an app does after an input are steps of its relay, its
scheduler and its hub. So whatever holds along every run of steps holds along every series of
inputs, whether requests or clients that join and leave (`reaches_meetAll`), and between two inputs
the relay has nothing left to do (`rests_meetAll`).
-/
namespace Chartwright

/-! ## Requests -/

namespace Desk

/-- The desk after some operations, and whether one of them has called a listener. -/
def operations (d : Desk) : List Operation → Desk × Bool
  | [] => (d, false)
  | op :: ops =>
    (((d.operate op).1.operations ops).1, (d.operate op).2 || ((d.operate op).1.operations ops).2)

theorem operations_append (d : Desk) (first rest : List Operation) : d.operations (first ++ rest) =
    (((d.operations first).1.operations rest).1,
      (d.operations first).2 || ((d.operations first).1.operations rest).2) := by
  induction first generalizing d with
  | nil => simp [operations]
  | cons op ops ih => simp [operations, ih, Bool.or_assoc]

/-- The outcome comes of operations on the session. -/
def Comes {α : Type} (d : Desk) (o : Outcome α) : Prop :=
  ∃ ops, d.operations ops = ({ d with session := o.session }, !o.notices.isEmpty)

/-- What is served of a request comes of operations on the session. -/
def Operates (d : Desk) (served : Served) : Prop :=
  ∃ ops, d.operations ops = (served.desk, served.changed)

variable {α β : Type} {d : Desk}

theorem comes_keep (d : Desk) (a : α) : d.Comes (d.session.keep a) := ⟨[], rfl⟩

theorem comes_of_perform (op : Operation) (found : α → Answer) {o : Outcome α}
    (performs : op.perform d.session d.store = (d.store, o.map found)) : d.Comes o :=
  ⟨[op], by simp [operations, operate, performs, Outcome.map]⟩

theorem Comes.map {o : Outcome α} (f : α → β) (h : d.Comes o) : d.Comes (o.map f) := h

theorem comes_andThen {o : Outcome α} {next : α → Session → Outcome β} (first : d.Comes o)
    (second : ∀ a, ({ d with session := o.session } : Desk).Comes (next a o.session)) :
    d.Comes (o.andThen next) := by
  obtain ⟨ops, hops⟩ := first
  unfold Outcome.andThen
  split
  · next a _ =>
    obtain ⟨rest, hrest⟩ := second a
    refine ⟨ops ++ rest, ?_⟩
    rw [operations_append, hops, hrest]
    cases o.notices <;> rfl
  · exact ⟨ops, hops⟩

theorem operates_answer (d : Desk) (reply : Reply) : d.Operates (d.answer reply) := ⟨[], rfl⟩

theorem operates_of_comes {o : Outcome α} (comes : d.Comes o)
    (reply : Except SessionError α → Reply) : d.Operates (d.respond o reply) :=
  comes

theorem operates_respond (op : Operation) (found : α → Answer) {o : Outcome α}
    (performs : op.perform d.session d.store = (d.store, o.map found))
    (reply : Except SessionError α → Reply) : d.Operates (d.respond o reply) :=
  operates_of_comes (comes_of_perform op found performs) reply

theorem operates_withBody {body : Text} {check : Fault → Check α} {serve : α → Served}
    (h : ∀ a, d.Operates (serve a)) : d.Operates (d.withBody body check serve) := by
  unfold withBody
  split
  · exact h _
  · exact d.operates_answer _

theorem operates_updateNode (d : Desk) (id : Text) (r : Request.UpdateNode) :
    d.Operates (d.updateNode id r) :=
  operates_respond (.setCode _ true) .changed rfl _

theorem operates_updateEdge (d : Desk) (r : Request.UpdateEdge) : d.Operates (d.updateEdge r) := by
  refine operates_of_comes (comes_andThen ?_ fun changed => ?_) _
  · cases r.label with
    | none => exact d.comes_keep false
    | some label => exact comes_of_perform (.relabelEdge r.edge label) .changed rfl
  · cases r.arrow with
    | none => exact comes_keep _ changed
    | some arrow => exact (comes_of_perform (.rearrowEdge _ arrow.glyph) .changed rfl).map _

theorem operates_openFile (d : Desk) (r : Request.OpenFile) : d.Operates (d.openFile r) :=
  operates_respond (.load _) (fun code => .text (some code)) rfl _

theorem operates_saveFile (d : Desk) (r : Request.SaveFile) : d.Operates (d.saveFile r) := by
  refine ⟨[.save (d.saveTarget r)], ?_⟩
  simp [operations, operate, saveFile, respond, Operation.perform, Outcome.map]

theorem operates_serve (d : Desk) (connections now : Nat) (body : Text) (endpoint : Endpoint) :
    d.Operates (d.serve connections now body endpoint) := by
  cases endpoint with
  | health | state | code | summary | direction | nodes | nextId | node | nodeLocation | nodeStyle
    | edges | subgraphs
  | styles | selection | shapes | arrows => exact d.operates_answer _
  | edgeLocation | resolveElement => exact operates_withBody fun r => d.operates_answer _
  | setCode =>
    exact operates_withBody fun r => operates_respond (.setCode r.code r.record) .changed rfl _
  | undo => exact operates_respond .undo .text rfl _
  | redo => exact operates_respond .redo .text rfl _
  | setDirection =>
    exact operates_withBody fun r =>
      operates_respond (.setDirection r.direction.token) .changed rfl _
  | insertNode =>
    exact operates_withBody fun r =>
      operates_respond (.insertNode r.anchor r.label r.shape.name r.id now) .text rfl _
  | updateNode id => exact operates_withBody fun r => d.operates_updateNode id r
  | deleteNode id => exact operates_respond (.deleteNode id) .changed rfl _
  | duplicateNode id => exact operates_respond (.duplicateNode id now) .text rfl _
  | restyleNode id =>
    exact operates_withBody fun style => operates_respond (.restyleNode id style) .changed rfl _
  | createEdge =>
    exact operates_withBody fun r =>
      operates_respond (.connect r.source r.target (r.label.getD []) r.arrow.glyph) .changed rfl _
  | updateEdge => exact operates_withBody d.operates_updateEdge
  | deleteEdge =>
    exact operates_withBody fun r => operates_respond (.deleteEdge r.edge) .changed rfl _
  | createSubgraph =>
    exact operates_withBody fun r =>
      operates_respond (.insertSubgraph r.id r.title r.members) .changed rfl _
  | updateSubgraph id =>
    exact operates_withBody fun r => operates_respond (.retitleSubgraph id r.title) .changed rfl _
  | deleteSubgraph id => exact operates_respond (.deleteSubgraph id) .changed rfl _
  | addMember subgraph node => exact operates_respond (.addMember subgraph node) .changed rfl _
  | removeMember subgraph node =>
    exact operates_respond (.removeMember subgraph node) .changed rfl _
  | restyleSubgraph id =>
    exact operates_withBody fun style => operates_respond (.restyleSubgraph id style) .changed rfl _
  | select =>
    exact operates_withBody fun r =>
      operates_respond (.select (targetOf r)) (fun _ => .nothing) rfl _
  | renderResult => exact operates_withBody fun r => ⟨[.setRenderResult r.error], rfl⟩
  | newFile => exact operates_respond (.reset defaultCode) (fun _ => .nothing) rfl _
  | openFile => exact operates_withBody d.operates_openFile
  | saveFile => exact operates_withBody d.operates_saveFile

/-- A request asks for nothing but operations on the session. -/
theorem operates_request (d : Desk) (connections now : Nat) (method : String) (path body : Text) :
    d.Operates (d.request connections now method path body) := by
  unfold request
  split
  · exact d.operates_answer _
  · split
    · exact d.operates_serve ..
    · exact d.operates_answer _

end Desk

/-! ## Steps -/

namespace App

theorem run_append (a : App) (before after : List Event) :
    a.run (before ++ after) = (a.run before).run after := by
  induction before generalizing a with
  | nil => rfl
  | cons e rest ih => exact ih (a.step e)

/-- There is a run of steps from one app to the other. -/
def Reaches (a b : App) : Prop := ∃ es, b = a.run es

variable {a b c : App}

theorem Reaches.refl (a : App) : a.Reaches a := ⟨[], rfl⟩

theorem Reaches.trans (h : a.Reaches b) (h' : b.Reaches c) : a.Reaches c := by
  obtain ⟨first, rfl⟩ := h
  obtain ⟨rest, rfl⟩ := h'
  exact ⟨first ++ rest, (run_append ..).symm⟩

theorem reaches_step (a : App) (e : Event) : a.Reaches (a.step e) := ⟨[e], rfl⟩

theorem adopt_adopt (a : App) (d d' : Desk) (called called' : Bool) :
    (a.adopt d called).adopt d' called' = a.adopt d' (called || called') := by
  cases called <;> cases called' <;> rfl

theorem reaches_adopt (ops : List Operation) : ∀ a : App,
    a.Reaches (a.adopt (a.desk.operations ops).1 (a.desk.operations ops).2) := by
  induction ops with
  | nil => exact fun a => .refl a
  | cons op rest ih =>
    intro a
    refine (a.reaches_step (.operate op)).trans ?_
    have hrest := ih (a.step (.operate op))
    rwa [show a.step (.operate op) = a.adopt (a.desk.operate op).1 (a.desk.operate op).2 from rfl,
      adopt_adopt] at hrest

theorem reaches_hub (es : List (Hub.Event Nat)) : ∀ {a : App}, (∀ e ∈ es, e.isCall = false) →
    a.Reaches { a with hub := (a.hub.run es).1 } := by
  induction es with
  | nil => exact fun _ => .refl _
  | cons e rest ih =>
    intro a quiet
    obtain ⟨hfirst, hrest⟩ := List.forall_mem_cons.1 quiet
    have hstep : a.step (.hub e) = a.atHub e := by
      cases e <;> first | rfl | exact Bool.noConfusion hfirst
    refine (a.reaches_step (.hub e)).trans ?_
    rw [hstep]
    exact ih hrest

theorem reaches_onHub (a : App) (e : Hub.Event Nat) : (a.atHub e).Reaches (a.onHub e).1 := by
  obtain ⟨es, quiet, hsettle⟩ :=
    Hub.exists_run_settleWithin (fun _ => true) (a.hub.step e).1.eventsLeft (a.hub.step e).1
  have hhub : (a.onHub e).1 = { a with hub := ((a.hub.step e).1.run es).1 } := by
    rw [← hsettle]
    rfl
  rw [hhub]
  exact reaches_hub (a := a.atHub e) es quiet

theorem keepResults_append (a : App) (first rest : List (Option Text)) :
    a.keepResults (first ++ rest) = (a.keepResults first).keepResults rest := by
  simp [keepResults, List.foldl_append]

theorem reaches_rendering (es : List Scheduler.Event) :
    ∀ {a : App} {s : Scheduler}, a.scheduler = some s → (∀ e ∈ es, e.isCall = false) → a.Reaches
      (({ a with scheduler := some (s.run es).1 } : App).keepResults
        (Scheduler.reportedResults (s.run es).2)) := by
  induction es with
  | nil =>
    intro a s hs _
    have hsame : { a with scheduler := some s } = a := by rw [← hs]
    exact hsame.symm ▸ .refl a
  | cons e rest ih =>
    intro a s hs own
    obtain ⟨hfirst, hrest⟩ := List.forall_mem_cons.1 own
    have hstep : a.step (.rendering e) =
        ({ a with scheduler := some (s.step e).1 } : App).keepResults
        (Scheduler.reportedResults (s.step e).2) := by
      cases e <;> first | exact Bool.noConfusion hfirst | simp [step, atScheduler, hs]
    refine (a.reaches_step (.rendering e)).trans ?_
    rw [hstep]
    have hresults : Scheduler.reportedResults (s.run (e :: rest)).2 =
        Scheduler.reportedResults (s.step e).2 ++
          Scheduler.reportedResults ((s.step e).1.run rest).2 :=
      List.filterMap_append
    rw [hresults, keepResults_append]
    exact ih (s := (s.step e).1) rfl hrest

theorem reaches_relayChange (a : App) : a.Reaches a.relayChange.1 := by
  unfold relayChange
  split
  · next ready =>
    have hstep : a.step .take = a.handOn.atHub (.broadcast a.update.write) := if_pos ready
    have hdone := (a.handOn.announce a.update).1.reaches_step .done
    exact ((hstep ▸ a.reaches_step .take).trans (a.handOn.reaches_onHub _)).trans hdone
  · exact .refl a

theorem not_isCall_of_mem_settling {answer : Text → Option Verdict} {i : Nat} {t : Task}
    {e : Scheduler.Event} (mem : e ∈ Scheduler.settling answer i t) : e.isCall = false := by
  unfold Scheduler.settling at mem
  split at mem
  · simp at mem
    rcases mem with rfl | rfl <;> rfl
  · split at mem <;> simp at mem
    · rcases mem with rfl | rfl <;> rfl
    · subst mem
      rfl

theorem reaches_render (answer : Text → Option Verdict) (a : App) :
    a.Reaches (a.render answer).1 := by
  unfold render
  split
  · exact .refl a
  · next s hs =>
    refine reaches_rendering _ hs fun e he => ?_
    obtain ⟨t, -, mem⟩ := List.mem_flatMap.1 he
    exact not_isCall_of_mem_settling mem

theorem reaches_announceResult (a : App) :
    a.Reaches (a.announce (.renderResult a.desk.session.renderError)).1 :=
  (a.reaches_step .report).trans (a.reaches_onHub _)

theorem reaches_settle (answer : Text → Option Verdict) (reported : Bool) (a : App) :
    a.Reaches (a.settle answer reported).1 := by
  have hrendered := a.reaches_relayChange.trans (reaches_render answer a.relayChange.1)
  simp only [settle]
  split
  · exact hrendered.trans (reaches_announceResult _)
  · exact hrendered

theorem reaches_request (answer : Text → Option Verdict) (a : App) (now : Nat) (method : String)
    (path body : Text) : a.Reaches (a.request answer now method path body).1 := by
  obtain ⟨ops, hops⟩ := a.desk.operates_request a.hub.count now method path body
  have hserved := reaches_adopt ops a
  rw [hops] at hserved
  exact hserved.trans (reaches_settle answer _ _)

theorem reaches_connect (answer : Text → Option Verdict) (a : App) (client : Nat) :
    a.Reaches (a.connect answer client).1 := by
  have hjoined :=
    (a.reaches_step (.hub (.connect client))).trans (a.reaches_onHub (.connect client))
  simp only [connect]
  exact hjoined.trans (reaches_settle answer false _)

theorem reaches_disconnect (answer : Text → Option Verdict) (a : App) (client : Nat) :
    a.Reaches (a.disconnect answer client).1 := by
  have hleft :=
    (a.reaches_step (.hub (.disconnect client))).trans (a.reaches_onHub (.disconnect client))
  simp only [disconnect]
  exact hleft.trans (reaches_settle answer false _)

/-! ## Inputs -/

/-- What an app meets with: a request at a time, or a client that joins or leaves. -/
inductive Input where
  | request (now : Nat) (method : String) (path body : Text)
  | connect (client : Nat)
  | disconnect (client : Nat)
deriving DecidableEq, Repr

/-- The app after an input. -/
def meet (answer : Text → Option Verdict) (a : App) : Input → App
  | .request now method path body => (a.request answer now method path body).1
  | .connect client => (a.connect answer client).1
  | .disconnect client => (a.disconnect answer client).1

/-- The app after some inputs. -/
def meetAll (answer : Text → Option Verdict) (a : App) (inputs : List Input) : App :=
  inputs.foldl (meet answer) a

theorem reaches_meet (answer : Text → Option Verdict) (a : App) (input : Input) :
    a.Reaches (a.meet answer input) := by
  cases input with
  | request now method path body => exact a.reaches_request answer now method path body
  | connect client => exact a.reaches_connect answer client
  | disconnect client => exact a.reaches_disconnect answer client

theorem reaches_meetAll (answer : Text → Option Verdict) (inputs : List Input) :
    ∀ a : App, a.Reaches (a.meetAll answer inputs) := by
  induction inputs with
  | nil => exact fun a => .refl a
  | cons input rest ih => exact fun a => (a.reaches_meet answer input).trans (ih _)

/-- The relay has nothing to hand on, and is not busy. -/
def Rests (a : App) : Prop := a.relay.signal = false ∧ a.relay.busy = false

theorem relay_onHub (a : App) (e : Hub.Event Nat) : (a.onHub e).1.relay = a.relay := rfl

theorem rests_relayChange (h : a.relay.busy = false) : a.relayChange.1.Rests := by
  unfold relayChange
  cases hsignal : a.relay.signal with
  | false =>
    rw [if_neg (by simp)]
    exact ⟨hsignal, h⟩
  | true =>
    rw [if_pos (by simp [h])]
    simp [Rests, announce, onHub, handOn, Relay.step, hsignal, h]

theorem relay_render (answer : Text → Option Verdict) (a : App) :
    (a.render answer).1.relay = a.relay := by
  unfold render
  split <;> rfl

theorem rests_settle (h : a.relay.busy = false) (answer : Text → Option Verdict) (reported : Bool) :
    (a.settle answer reported).1.Rests := by
  have hrendered : (a.relayChange.1.render answer).1.Rests := by
    rw [Rests, relay_render]
    exact rests_relayChange h
  simp only [settle]
  split <;> exact hrendered

theorem rests_meet (h : a.Rests) (answer : Text → Option Verdict) (input : Input) :
    (a.meet answer input).Rests := by
  cases input with
  | request now method path body =>
    refine rests_settle ?_ answer _
    unfold adopt
    split <;> exact h.2
  | connect client =>
    have hbusy : (a.onHub (.connect client)).1.relay.busy = false := by rw [relay_onHub, h.2]
    simp only [meet, connect]
    exact rests_settle hbusy answer false
  | disconnect client =>
    have hbusy : (a.onHub (.disconnect client)).1.relay.busy = false := by rw [relay_onHub, h.2]
    simp only [meet, disconnect]
    exact rests_settle hbusy answer false

theorem rests_meetAll (answer : Text → Option Verdict) (inputs : List Input) :
    ∀ {a : App}, a.Rests → (a.meetAll answer inputs).Rests := by
  induction inputs with
  | nil => exact fun h => h
  | cons input rest ih => exact fun h => ih (rests_meet h answer input)

end App
end Chartwright
