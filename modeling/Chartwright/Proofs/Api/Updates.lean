import Chartwright.Proofs.Api.Inputs
import Chartwright.Proofs.Session.Mirror
/-!
No change of the text is lost on its way to the clients.

Once the text of an app has changed, a signal is up, or the text as it is now was handed on last,
and scheduled last if there is a renderer; and this holds whatever happens and in whatever order, if
and only if no operation strands a text while the signal is down (`informed_iff_neverSilent`).
Between two inputs the signal is down, so by then the clients have been told of the text.
-/
namespace Chartwright

namespace Scheduler

/-- The text that was scheduled last. -/
def latest? (s : Scheduler) : Option Text := (s.tasks.map Task.code).getLast?

@[simp]
theorem latest?_schedule (s : Scheduler) (code : Text) :
    (s.step (.schedule code)).1.latest? = some code := by
  simp [latest?, step]

theorem code_afterQuiet (t : Task) : (afterQuiet t).code = t.code := by
  unfold afterQuiet
  split <;> rfl

theorem code_afterAnswer (t : Task) : (afterAnswer t).code = t.code := by
  unfold afterAnswer
  split <;> rfl

theorem map_code_modify {f : Task → Task} (same : ∀ t, (f t).code = t.code) (tasks : List Task)
    (i : Nat) : (tasks.modify i f).map Task.code = tasks.map Task.code := by
  refine List.ext_getElem? fun j => ?_
  rw [List.getElem?_map, List.getElem?_map, List.getElem?_modify]
  split <;> simp [Function.comp_def, same]

theorem latest?_step {s : Scheduler} {e : Event} (own : e.isCall = false) :
    (s.step e).1.latest? = s.latest? := by
  cases e with
  | schedule | cancel => exact Bool.noConfusion own
  | quiet i => rw [latest?, tasks_quiet, map_code_modify code_afterQuiet, latest?]
  | answer i verdict => rw [latest?, tasks_answer, map_code_modify code_afterAnswer, latest?]

end Scheduler

namespace App

def code (a : App) : Text := a.desk.session.code

/-- If there is a renderer, this text was scheduled last. -/
def Renders (a : App) (text : Text) : Prop := ∀ s, a.scheduler = some s → s.latest? = some text

/-- The text as it is now was handed on and scheduled last, or there is a signal that it will be. -/
def Informed (a : App) : Prop :=
  a.relay.signal = true ∨ a.relay.handed = some a.code ∧ a.Renders a.code

/-- The same of an app that may not have handed on anything, if its text has not changed. -/
def Abreast (changed : Prop) (a : App) : Prop :=
  a.relay.signal = true ∨ (a.relay.handed = some a.code ∨ ¬ changed ∧ a.relay.handed = none) ∧
    a.Renders a.code

/-- An event of a run changes the text. -/
def Changes (a : App) : List Event → Prop
  | [] => False
  | e :: es => (a.step e).code ≠ a.code ∨ (a.step e).Changes es

/-- The event is an operation that is about to strand a text, and there is no signal. -/
def Silences (a : App) : Event → Prop
  | .operate op => a.relay.signal = false ∧ op.Strands a.desk.session
  | _ => False

/-- No operation of a run strands a text while there is no signal. -/
def NeverSilent (a : App) : List Event → Prop
  | [] => True
  | e :: es => ¬ a.Silences e ∧ (a.step e).NeverSilent es

variable {a b : App} {changed : Prop} {e : Event} {op : Operation}

/-! ## Operations -/

/-- What comes of an operation on the session of an app. -/
def outcome (a : App) (op : Operation) : Outcome Answer :=
  (op.perform a.desk.session a.desk.store).2

theorem step_operate (a : App) (op : Operation) : a.step (.operate op) =
    a.adopt
      { a.desk with
        session := (a.outcome op).session
        store := (op.perform a.desk.session a.desk.store).1 }
      (!(a.outcome op).notices.isEmpty) :=
  rfl

theorem signal_of_called (called : (a.outcome op).notices ≠ []) :
    (a.step (.operate op)).relay.signal = true := by
  have hcalled : (a.outcome op).notices.isEmpty = false := List.isEmpty_eq_false_iff.2 called
  simp [step_operate, adopt, hcalled, Relay.step]

theorem relay_of_not_called (quiet : (a.outcome op).notices = []) :
    (a.step (.operate op)).relay = a.relay := by
  simp [step_operate, adopt, quiet]

/-- An operation that calls no listener keeps the text, unless it strands another. -/
theorem code_of_not_called (quiet : (a.outcome op).notices = [])
    (kept : ¬ op.Strands a.desk.session) : (a.step (.operate op)).code = a.code := by
  have mirrored : (a.outcome op).Mirrored a.desk.session :=
    (Operation.mirrored_iff_not_strands a.desk.session a.desk.store op).2 kept
  rw [Outcome.Mirrored, Outcome.heard_of_notices_eq_nil quiet] at mirrored
  exact (congrArg Notice.code mirrored).symm

/-! ## Steps -/

theorem Informed.abreast (h : a.Informed) : a.Abreast changed :=
  h.imp_right fun ⟨handed, renders⟩ => ⟨.inl handed, renders⟩

theorem Abreast.informed (h : a.Abreast changed) (hchanged : changed) : a.Informed :=
  h.imp_right fun ⟨handed, renders⟩ =>
    ⟨handed.resolve_right fun ⟨unchanged, _⟩ => unchanged hchanged, renders⟩

theorem Abreast.of_eq (h : a.Abreast changed) (signal : b.relay.signal = a.relay.signal)
    (handed : b.relay.handed = a.relay.handed) (code : b.code = a.code)
    (renders : a.Renders a.code → b.Renders a.code) : b.Abreast (changed ∨ b.code ≠ a.code) := by
  unfold Abreast
  rw [signal, handed, code]
  refine h.imp_right fun ⟨hhanded, hrenders⟩ => ⟨?_, renders hrenders⟩
  refine hhanded.imp_right fun ⟨unchanged, hnone⟩ => ⟨?_, hnone⟩
  rintro (hchanged | different)
  · exact unchanged hchanged
  · exact different rfl

theorem foldl_setRenderResult_code (results : List (Option Text)) :
    ∀ s : Session, (results.foldl Session.setRenderResult s).code = s.code := by
  induction results with
  | nil => exact fun s => rfl
  | cons error rest ih => exact fun s => ih (s.setRenderResult error)

theorem atScheduler_frame (a : App) {e : Scheduler.Event} (own : e.isCall = false) :
    (a.atScheduler e).code = a.code ∧ (a.atScheduler e).relay = a.relay ∧
      ∀ text, a.Renders text → (a.atScheduler e).Renders text := by
  unfold atScheduler
  split
  · exact ⟨rfl, rfl, fun _ => id⟩
  · next s hs =>
    refine ⟨foldl_setRenderResult_code _ _, rfl, fun text h s' hs' => ?_⟩
    obtain rfl : (s.step e).1 = s' := Option.some.inj hs'
    rw [Scheduler.latest?_step own]
    exact h s hs

theorem renders_handOn (a : App) : a.handOn.Renders a.code := by
  intro s hs
  obtain ⟨before, -, rfl⟩ := Option.map_eq_some_iff.1 hs
  exact Scheduler.latest?_schedule before _

theorem abreast_step (h : a.Abreast changed) (heard : ¬ a.Silences e) :
    (a.step e).Abreast (changed ∨ (a.step e).code ≠ a.code) := by
  cases e with
  | operate op =>
    by_cases quiet : (a.outcome op).notices = []
    · have hrelay := relay_of_not_called quiet
      cases hsignal : a.relay.signal with
      | true => exact .inl (hrelay ▸ hsignal)
      | false =>
        have kept : ¬ op.Strands a.desk.session := fun strands => heard ⟨hsignal, strands⟩
        exact h.of_eq (hrelay ▸ rfl) (hrelay ▸ rfl) (code_of_not_called quiet kept) id
    · exact .inl (signal_of_called quiet)
  | take =>
    by_cases ready : (a.relay.signal && !a.relay.busy) = true
    · -- the text is read in the step that takes the signal down, so a later change raises it again
      have hstep : a.step .take = a.handOn.atHub (.broadcast a.update.write) := if_pos ready
      rw [hstep]
      refine .inr ⟨.inl ?_, renders_handOn a⟩
      simp [atHub, handOn, Relay.step, ready, code]
    · have hstep : a.step .take = a := if_neg ready
      rw [hstep]
      exact h.of_eq rfl rfl rfl id
  | done => exact h.of_eq rfl rfl rfl id
  | report => exact h.of_eq rfl rfl rfl id
  | rendering e =>
    cases e with
    | schedule | cancel => exact h.of_eq rfl rfl rfl id
    | quiet i =>
      obtain ⟨hcode, hrelay, hrenders⟩ := a.atScheduler_frame (e := .quiet i) rfl
      exact h.of_eq (congrArg Relay.signal hrelay) (congrArg Relay.handed hrelay) hcode (hrenders _)
    | answer i verdict =>
      obtain ⟨hcode, hrelay, hrenders⟩ := a.atScheduler_frame (e := .answer i verdict) rfl
      exact h.of_eq (congrArg Relay.signal hrelay) (congrArg Relay.handed hrelay) hcode (hrenders _)
  | hub e => cases e <;> exact h.of_eq rfl rfl rfl id

/-- A text that is stranded while there is no signal is not the one that was handed on. -/
theorem not_informed_of_silences (h : a.Abreast changed) (silences : a.Silences e) :
    (a.step e).code ≠ a.code ∧ ¬ (a.step e).Informed := by
  cases e with
  | operate op =>
    obtain ⟨silent, strands⟩ := silences
    obtain ⟨other, t, hstranded⟩ := Operation.stranded_of_strands a.desk.store strands
    have hrelay : (a.step (.operate op)).relay = a.relay := relay_of_not_called hstranded.notices
    refine ⟨other, ?_⟩
    rintro (signal | ⟨handed, -⟩)
    · rw [hrelay, silent] at signal
      exact Bool.false_ne_true signal
    · rw [hrelay] at handed
      rcases h with signal | ⟨hbefore | ⟨-, hnone⟩, -⟩
      · exact Bool.false_ne_true (silent.symm.trans signal)
      · exact other (Option.some.inj (handed.symm.trans hbefore))
      · exact nomatch hnone.symm.trans handed
  | take | done | report | rendering | hub => exact silences.elim

theorem Informed.lost (informed : a.Informed) (silences : a.Silences e) :
    (a.step e).code ≠ a.code ∧ ¬ (a.step e).Informed :=
  not_informed_of_silences (informed.abreast : a.Abreast True) silences

theorem Informed.kept (informed : a.Informed) (heard : ¬ a.Silences e) : (a.step e).Informed :=
  (abreast_step (informed.abreast : a.Abreast True) heard).informed (.inl trivial)

/-! ## Runs -/

theorem informed_of_neverSilent (es : List Event) :
    ∀ {a : App} {changed : Prop}, a.Abreast changed → a.NeverSilent es → changed ∨ a.Changes es →
      (a.run es).Informed := by
  induction es with
  | nil => exact fun h _ hchanged => h.informed (hchanged.resolve_right id)
  | cons e rest ih =>
    intro a changed h heard hchanged
    refine ih (abreast_step h heard.1) heard.2 ?_
    rcases hchanged with hchanged | hnow | hlater
    · exact .inl (.inl hchanged)
    · exact .inl (.inr hnow)
    · exact .inr hlater

theorem neverSilent_of_informed (es : List Event) :
    ∀ {a : App} {changed : Prop}, a.Abreast changed →
      (∀ before, before <+: es → changed ∨ a.Changes before → (a.run before).Informed) →
      a.NeverSilent es := by
  induction es with
  | nil => exact fun _ _ => trivial
  | cons e rest ih =>
    intro a changed h informed
    have heard : ¬ a.Silences e := by
      intro silences
      obtain ⟨different, uninformed⟩ := not_informed_of_silences h silences
      exact uninformed (informed [e] ⟨rest, rfl⟩ (.inr (.inl different)))
    refine ⟨heard, ih (abreast_step h heard) fun before hbefore hchanged => ?_⟩
    refine informed (e :: before) (List.cons_prefix_cons.2 ⟨rfl, hbefore⟩) ?_
    rcases hchanged with (hchanged | hnow) | hlater
    · exact .inl hchanged
    · exact .inr (.inl hnow)
    · exact .inr (.inr hlater)

theorem NeverSilent.of_prefix {before : List Event} : ∀ {es : List Event} {a : App},
    a.NeverSilent es → before <+: es → a.NeverSilent before := by
  induction before with
  | nil => exact fun _ _ => trivial
  | cons e before ih =>
    rintro es a h ⟨after, rfl⟩
    exact ⟨h.1, ih h.2 ⟨after, rfl⟩⟩

theorem rests_start {settings : Settings} {store : Store} {code : Option Text} {withRenderer : Bool}
    (h : start settings store code withRenderer = .ok a) : a.Rests := by
  obtain ⟨session, -, ha⟩ := Except.exists_of_bind_eq_ok h
  obtain rfl := Except.ok.inj ha
  exact ⟨rfl, rfl⟩

theorem abreast_start {settings : Settings} {store : Store} {code : Option Text}
    {withRenderer : Bool} (h : start settings store code withRenderer = .ok a) :
    a.Abreast False := by
  obtain ⟨session, -, ha⟩ := Except.exists_of_bind_eq_ok h
  obtain rfl := Except.ok.inj ha
  refine .inr ⟨.inr ⟨id, rfl⟩, fun s hs => ?_⟩
  cases withRenderer with
  | false => exact nomatch hs
  | true =>
    obtain rfl := Option.some.inj hs
    exact Scheduler.latest?_schedule _ _

/-- An app that has started is informed after every event of a run, once its text has changed, if
and only if no operation of the run strands a text while there is no signal. An event leaves an
informed app informed unless it is such an operation, which has failed with another text in place,
unheard; and any operation that calls the listeners of the session makes the app informed again.
After any series of inputs the app is where some run of events leads to, and if that run strands
nothing and has changed the text, the text as it is now was handed on last. -/
theorem informed_iff_neverSilent {settings : Settings} {store : Store} {code : Option Text}
    {withRenderer : Bool} {a₀ : App} (h : start settings store code withRenderer = .ok a₀)
    (es : List Event) :
    ((∀ before, before <+: es → a₀.Changes before → (a₀.run before).Informed) ↔ a₀.NeverSilent es) ∧
    (∀ a, a = a₀.run es →
      (∀ e, a.Informed → ((a.step e).Informed ↔ ¬ a.Silences e)) ∧
      (∀ op, a.Silences (.operate op) →
        (a.outcome op).session.code ≠ a.code ∧ ∃ t, (a.outcome op).Stranded a.desk.session t) ∧
      ∀ op, (a.outcome op).notices ≠ [] → (a.step (.operate op)).Informed) ∧
    ∀ answer inputs, ∃ es, a₀.meetAll answer inputs = a₀.run es ∧
      (a₀.NeverSilent es → a₀.Changes es → (a₀.run es).relay.handed = some (a₀.run es).code ∧
        (a₀.run es).Renders (a₀.run es).code) := by
  have abreast := abreast_start h
  refine ⟨⟨fun informed => neverSilent_of_informed es abreast ?_,
    fun heard before hbefore hchanged => ?_⟩, ?_,
    fun answer inputs => ?_⟩
  · exact fun before hbefore hchanged => informed before hbefore (hchanged.resolve_left id)
  · exact informed_of_neverSilent before abreast (heard.of_prefix hbefore) (.inr hchanged)
  · rintro a rfl
    refine ⟨fun e informed => ?_, fun op silences => Operation.stranded_of_strands _ silences.2,
      fun op called => .inl (signal_of_called called)⟩
    exact ⟨fun informed' silences => (informed.lost silences).2 informed', informed.kept⟩
  · obtain ⟨es, hes⟩ := a₀.reaches_meetAll answer inputs
    refine ⟨es, hes, fun heard hchanged => ?_⟩
    -- the signal is down between two inputs
    have silent : (a₀.run es).relay.signal = false :=
      hes ▸ (rests_meetAll answer inputs (rests_start h)).1
    refine (informed_of_neverSilent es abreast heard (.inr hchanged)).resolve_left ?_
    rw [silent]
    exact Bool.false_ne_true

/-- Two changes in a row, the second while the first is being announced. -/
theorem informed_of_two_changes :
    ∃ a, start Settings.default .empty (some ['A']) true = .ok a ∧
      ∀ before, before <+:
        [.operate (.setCode ['B'] true), .take, .operate (.setCode ['C'] true), .done, .take] →
          a.Changes before → (a.run before).Informed := by
  have hstart : start Settings.default .empty (some ['A']) true = .ok _ := rfl
  refine ⟨_, hstart, (informed_iff_neverSilent hstart _).1.2 ⟨?_, id, ?_, id, id, trivial⟩⟩
  · rintro ⟨-, t, -, -, hkind, -⟩
    exact nomatch hkind
  · rintro ⟨-, t, -, -, hkind, -⟩
    exact nomatch hkind

/-- A text whose identifiers cannot be listed is put in place while a node is selected. It is
neither announced nor rendered, though nothing is left to be done. -/
theorem not_informed_of_long_integer :
    ∃ a b, start Settings.default .empty (some "A[a]".toList) true = .ok a ∧
      b = a.run [.operate (.select (.node ['A'])), .take, .done] ∧
      (b.step (.operate (.setCode (StyleLine.radiusLine ['B'] 4301) true))).code ≠ b.code ∧
      ¬ (b.step (.operate (.setCode (StyleLine.radiusLine ['B'] 4301) true))).Informed := by
  refine ⟨_, _, rfl, rfl, ?_⟩
  refine Informed.lost (.inr ⟨rfl, fun s hs => ?_⟩)
    ⟨rfl, Operation.strands_radiusLine (by decide) rfl⟩
  obtain rfl := Option.some.inj hs
  rfl

end App
end Chartwright
