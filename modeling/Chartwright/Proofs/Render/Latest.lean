import Chartwright.Render.Scheduler
/-!
Only the latest text is reported.

What a scheduler does at an event can be told from the events before it, without its tasks. A text
is handed to the renderer if it was scheduled last and its wait is over for the first time; the
answer of the renderer is reported, and kept if it is an output, if that text is the latest still
and was not answered before. So nothing is reported of a text after another was scheduled or after
it was cancelled, and the reports of a run belong to ever later calls (`reportsLatest_run`).
-/
namespace Chartwright

/-- What is reported of an answer: the message of a failure. -/
def Verdict.error? : Verdict → Option Text
  | rendered _ => none
  | failed message => some message

namespace Scheduler

/-! ## What the events before tell -/

/-- The event is a call: whatever was scheduled before it does not count any more. -/
def Event.isCall : Event → Bool
  | schedule _ | cancel => true
  | quiet _ | answer .. => false

def Event.isSchedule : Event → Bool
  | schedule _ => true
  | _ => false

/-- How many texts were scheduled. The next one gets the task of this number. -/
def scheduled (events : List Event) : Nat := events.countP Event.isSchedule

/-- Something began with one of the events, in view of those before it, and none of those after it
has ended it. -/
def Since (begins : List Event → Event → Prop) (ends : Event → Prop) (events : List Event) : Prop :=
  ∃ earlier e later, events = earlier ++ e :: later ∧ begins earlier e ∧ ∀ x ∈ later, ¬ ends x

/-- The text was scheduled last, as the one of this number, and was not cancelled. -/
def Latest (i : Nat) (code : Text) (events : List Event) : Prop :=
  Since (fun earlier e => e = .schedule code ∧ scheduled earlier = i)
    (fun e => e.isCall = true) events

/-- The text was scheduled last and not cancelled, and its wait is not over. -/
def Waits (i : Nat) (code : Text) (events : List Event) : Prop :=
  Since (fun earlier e => e = .schedule code ∧ scheduled earlier = i) (fun e => e.isCall = true ∨
    e = .quiet i) events

/-- The wait of the text was over while it was the latest; it is the latest still, and was not
answered. -/
def Awaited (i : Nat) (code : Text) (events : List Event) : Prop :=
  Since (fun earlier e => e = .quiet i ∧ Waits i code earlier)
    (fun e => e.isCall = true ∨ ∃ verdict, e = .answer i verdict) events

variable {begins : List Event → Event → Prop} {ends : Event → Prop} {events : List Event}
  {s : Scheduler}

theorem not_since_nil : ¬ Since begins ends [] := by
  rintro ⟨earlier, e, later, h, -⟩
  simp at h

/-- What lasts after one more event began with it, or lasted before and is not ended by it. -/
theorem since_append_singleton {e : Event} :
    Since begins ends (events ++ [e]) ↔ begins events e ∨ Since begins ends events ∧ ¬ ends e := by
  constructor
  · rintro ⟨earlier, first, later, hevents, hbegins, hlasts⟩
    rcases List.eq_nil_or_concat later with rfl | ⟨later', last, rfl⟩
    · obtain ⟨rfl, hlast⟩ := List.append_inj' hevents rfl
      obtain rfl : e = first := by simpa using hlast
      exact .inl hbegins
    · rw [List.concat_eq_append, ← List.cons_append, ← List.append_assoc] at hevents
      obtain ⟨rfl, hlast⟩ := List.append_inj' hevents rfl
      obtain rfl : e = last := by simpa using hlast
      refine .inr ⟨⟨earlier, first, later', rfl, hbegins, fun x hx => hlasts x ?_⟩, hlasts e ?_⟩
      · simp [hx]
      · simp
  · rintro (hbegins | ⟨⟨earlier, first, later, rfl, hbegins, hlasts⟩, hkept⟩)
    · exact ⟨events, e, [], rfl, hbegins, fun x hx => nomatch hx⟩
    · refine ⟨earlier, first, later ++ [e], by simp, hbegins, fun x hx => ?_⟩
      rcases List.mem_append.1 hx with hx | hx
      · exact hlasts x hx
      · rw [List.mem_singleton.1 hx]
        exact hkept

theorem Since.mono {ends' : Event → Prop} (h : Since begins ends events)
    (hends : ∀ e, ends' e → ends e) : Since begins ends' events := by
  obtain ⟨earlier, e, later, hevents, hbegins, hlasts⟩ := h
  exact ⟨earlier, e, later, hevents, hbegins, fun x hx hx' => hlasts x hx (hends x hx')⟩

theorem Waits.latest {i : Nat} {code : Text} (h : Waits i code events) : Latest i code events :=
  Since.mono h fun _ => .inl

theorem Awaited.latest {i : Nat} {code : Text} (h : Awaited i code events) :
    Latest i code events := by
  obtain ⟨earlier, e, later, rfl, ⟨rfl, hwaits⟩, hlasts⟩ := h
  obtain ⟨before, first, between, rfl, hfirst, hbetween⟩ := hwaits.latest
  refine ⟨before, first, between ++ .quiet i :: later, by simp, hfirst, fun x hx => ?_⟩
  rcases List.mem_append.1 hx with hx | hx
  · exact hbetween x hx
  · rcases List.mem_cons.1 hx with rfl | hx
    · exact Bool.false_ne_true
    · exact fun hcall => hlasts x hx (.inl hcall)

/-! ## What an event does to the tasks -/

/-- A task whose wait is over. -/
def afterQuiet (t : Task) : Task :=
  if t.phase = .waiting then { t with phase := if t.cancelled then .finished else .rendering }
  else t

/-- A task whose text was answered. -/
def afterAnswer (t : Task) : Task :=
  if t.phase = .rendering then { t with phase := .finished } else t

theorem tasks_quiet (s : Scheduler) (i : Nat) :
    (s.step (.quiet i)).1.tasks = s.tasks.modify i afterQuiet := by
  refine List.ext_getElem? fun j => ?_
  rw [List.getElem?_modify]
  by_cases here : i = j
  · subst here
    match h : s.tasks[i]? with
    | none => simp [step, h]
    | some ⟨code, phase, cancelled⟩ =>
      cases phase <;> cases cancelled <;> simp [step, h, advance, afterQuiet]
  · simp only [step]
    split <;> simp [advance, here]

theorem tasks_answer (s : Scheduler) (i : Nat) (verdict : Verdict) :
    (s.step (.answer i verdict)).1.tasks = s.tasks.modify i afterAnswer := by
  refine List.ext_getElem? fun j => ?_
  rw [List.getElem?_modify]
  by_cases here : i = j
  · subst here
    match h : s.tasks[i]? with
    | none => simp [step, h]
    | some ⟨code, phase, cancelled⟩ =>
      cases phase <;> cases cancelled <;> cases verdict <;> simp [step, h, advance, afterAnswer]
  · simp only [step]
    split <;> cases verdict <;> simp [advance, here]

theorem current_quiet (s : Scheduler) (i : Nat) : (s.step (.quiet i)).1.current = s.current := by
  simp only [step]
  split <;> rfl

theorem current_answer (s : Scheduler) (i : Nat) (verdict : Verdict) :
    (s.step (.answer i verdict)).1.current = s.current := by
  simp only [step]
  split <;> cases verdict <;> rfl

theorem lastOutput_quiet (s : Scheduler) (i : Nat) :
    (s.step (.quiet i)).1.lastOutput = s.lastOutput := by
  simp only [step]
  split <;> rfl

/-- The task of this number has this text and has come this far, and it was not cancelled. -/
def Live (s : Scheduler) (i : Nat) (code : Text) (phase : Phase) : Prop :=
  s.tasks[i]? = some ⟨code, phase, false⟩

/-- No task has an effect still to come but the one that counts. -/
def Exclusive (s : Scheduler) : Prop :=
  ∀ ⦃i code phase⦄, phase ≠ .finished → s.Live i code phase → s.current = some i

variable {i j : Nat} {code text : Text} {phase : Phase} {verdict : Verdict}

theorem not_live_cancelCurrent (hs : s.Exclusive) (unfinished : phase ≠ .finished) :
    s.cancelCurrent[i]? ≠ some ⟨code, phase, false⟩ := by
  intro h
  unfold cancelCurrent at h
  split at h
  · next hcurrent => exact nomatch hcurrent.symm.trans (hs unfinished h)
  · next k hcurrent =>
    rw [List.getElem?_modify] at h
    obtain ⟨t, ht, hcancelled⟩ := Option.map_eq_some_iff.1 h
    split at hcancelled
    · -- the task that counts is cancelled unless it has finished
      split at hcancelled
      · next finished =>
        subst hcancelled
        exact unfinished finished
      · exact nomatch congrArg Task.cancelled hcancelled
    · next other =>
      subst hcancelled
      exact other (Option.some.inj (hcurrent.symm.trans (hs unfinished ht)))

@[simp]
theorem length_cancelCurrent (s : Scheduler) : s.cancelCurrent.length = s.tasks.length := by
  unfold cancelCurrent
  split <;> simp

theorem live_schedule (hs : s.Exclusive) (unfinished : phase ≠ .finished) :
    (s.step (.schedule text)).1.Live i code phase ↔
      i = s.tasks.length ∧ code = text ∧ phase = .waiting := by
  have hold : s.cancelCurrent[i]? ≠ some ⟨code, phase, false⟩ :=
    not_live_cancelCurrent hs unfinished
  simp only [Live, step, List.getElem?_append, length_cancelCurrent]
  split
  · next old =>
    simp only [hold, false_iff]
    rintro ⟨rfl, -⟩
    exact Nat.lt_irrefl _ old
  · next new =>
    simp only [List.getElem?_singleton, Option.ite_none_right_eq_some, Option.some.injEq,
      Task.mk.injEq]
    constructor
    · rintro ⟨hi, rfl, rfl, -⟩
      exact ⟨by omega, rfl, rfl⟩
    · rintro ⟨rfl, rfl, rfl⟩
      exact ⟨by omega, rfl, rfl, trivial⟩

theorem not_live_cancel (hs : s.Exclusive) (unfinished : phase ≠ .finished) :
    ¬ (s.step .cancel).1.Live i code phase :=
  not_live_cancelCurrent hs unfinished

theorem afterQuiet_ne_waiting (t : Task) : afterQuiet t ≠ ⟨code, .waiting, false⟩ := by
  obtain ⟨_, phase, cancelled⟩ := t
  cases phase <;> cases cancelled <;> simp [afterQuiet]

theorem afterQuiet_eq_rendering {t : Task} : afterQuiet t = ⟨code, .rendering, false⟩ ↔
    t = ⟨code, .rendering, false⟩ ∨ t = ⟨code, .waiting, false⟩ := by
  obtain ⟨_, phase, cancelled⟩ := t
  cases phase <;> cases cancelled <;> simp [afterQuiet]

theorem afterAnswer_eq_waiting {t : Task} :
    afterAnswer t = ⟨code, .waiting, false⟩ ↔ t = ⟨code, .waiting, false⟩ := by
  obtain ⟨_, phase, cancelled⟩ := t
  cases phase <;> cases cancelled <;> simp [afterAnswer]

theorem afterAnswer_ne_rendering (t : Task) : afterAnswer t ≠ ⟨code, .rendering, false⟩ := by
  obtain ⟨_, phase, cancelled⟩ := t
  cases phase <;> cases cancelled <;> simp [afterAnswer]

theorem waiting_quiet :
    (s.step (.quiet j)).1.Live i code .waiting ↔ s.Live i code .waiting ∧ i ≠ j := by
  rw [Live, tasks_quiet, List.getElem?_modify]
  split
  · next here => simp [here, afterQuiet_ne_waiting]
  · next elsewhere => simp [Live, Ne.symm elsewhere]

theorem rendering_quiet : (s.step (.quiet j)).1.Live i code .rendering ↔
    j = i ∧ s.Live i code .waiting ∨ s.Live i code .rendering := by
  rw [Live, tasks_quiet, List.getElem?_modify]
  split
  · next here => simp [here, Live, afterQuiet_eq_rendering, or_comm, and_or_left, exists_or]
  · next elsewhere => simp [Live, elsewhere]

theorem waiting_answer :
    (s.step (.answer j verdict)).1.Live i code .waiting ↔ s.Live i code .waiting := by
  rw [Live, tasks_answer, List.getElem?_modify]
  split <;> simp [Live, afterAnswer_eq_waiting]

theorem rendering_answer :
    (s.step (.answer j verdict)).1.Live i code .rendering ↔ s.Live i code .rendering ∧ i ≠ j := by
  rw [Live, tasks_answer, List.getElem?_modify]
  split
  · next here => simp [here, afterAnswer_ne_rendering]
  · next elsewhere => simp [Live, Ne.symm elsewhere]

/-! ## What an event makes visible -/

theorem given_mem_quiet : .given code ∈ (s.step (.quiet i)).2 ↔ s.Live i code .waiting := by
  simp only [step, Live]
  split
  · next h => simp [h]
  · next h => simp [h, eq_comm]
  · next h => simpa using h code

theorem reported_mem_answer {error : Option Text} :
    .reported error ∈ (s.step (.answer i verdict)).2 ↔
      verdict.error? = error ∧ ∃ code, s.Live i code .rendering := by
  simp only [step, Live]
  split
  · next h => simp [h]
  · next h => cases verdict <;> simp [h, Verdict.error?, eq_comm]
  · next h =>
    simp only [List.not_mem_nil, false_iff]
    rintro ⟨-, code, hlive⟩
    exact h code hlive

theorem lastOutput_of_live (h : s.Live i code .rendering) (output : Text) :
    (s.step (.answer i (.rendered output))).1.lastOutput = some output := by
  simp [step, show s.tasks[i]? = _ from h]

theorem lastOutput_answer_of_not_live (h : ∀ code, ¬ s.Live i code .rendering) :
    (s.step (.answer i verdict)).1.lastOutput = s.lastOutput := by
  simp only [step]
  split
  · rfl
  · next hlive => exact absurd hlive (h _)
  · rfl

theorem length_effects_le (s : Scheduler) (e : Event) : (s.step e).2.length ≤ 1 := by
  cases e with
  | schedule | cancel => exact Nat.zero_le 1
  | quiet i =>
    simp only [step]
    split <;> simp
  | answer i verdict =>
    simp only [step]
    split <;> cases verdict <;> simp

/-! ## Runs -/

theorem run_append (s : Scheduler) (before after : List Event) : s.run (before ++ after) =
    (((s.run before).1.run after).1, (s.run before).2 ++ ((s.run before).1.run after).2) := by
  induction before generalizing s with
  | nil => rfl
  | cons e rest ih => simp [run, ih, List.append_assoc]

/-- The tasks have come as far as the events tell. -/
structure Tells (s : Scheduler) (events : List Event) : Prop where
  count : s.tasks.length = scheduled events
  exclusive : s.Exclusive
  waiting : ∀ i code, s.Live i code .waiting ↔ Waits i code events
  rendering : ∀ i code, s.Live i code .rendering ↔ Awaited i code events

theorem tells_idle : idle.Tells [] where
  count := rfl
  exclusive i _ _ _ h := by simp [Live, idle] at h
  waiting i code := by simp [Live, idle, Waits, not_since_nil]
  rendering i code := by simp [Live, idle, Awaited, not_since_nil]

theorem scheduled_append_singleton (events : List Event) (e : Event) :
    scheduled (events ++ [e]) = scheduled events + if e.isSchedule then 1 else 0 := by
  simp [scheduled, List.countP_singleton]

theorem waits_append_singleton {e : Event} : Waits i code (events ++ [e]) ↔
    (e = .schedule code ∧ scheduled events = i) ∨ Waits i code events ∧
      ¬ (e.isCall = true ∨ e = .quiet i) :=
  since_append_singleton

theorem awaited_append_singleton {e : Event} : Awaited i code (events ++ [e]) ↔
    (e = .quiet i ∧ Waits i code events) ∨
      Awaited i code events ∧ ¬ (e.isCall = true ∨ ∃ verdict, e = .answer i verdict) :=
  since_append_singleton

theorem Tells.step (h : s.Tells events) (e : Event) : (s.step e).1.Tells (events ++ [e]) := by
  cases e with
  | schedule text =>
    -- all tasks before are cancelled or have finished, so the new one is the only one that is live
    refine ⟨?_, fun i code phase unfinished hlive => ?_, fun i code => ?_, fun i code => ?_⟩
    · simp [Scheduler.step, h.count, scheduled_append_singleton, Event.isSchedule]
    · obtain ⟨rfl, -⟩ := (live_schedule h.exclusive unfinished).1 hlive
      rfl
    · simp [live_schedule h.exclusive, waits_append_singleton, Event.isCall, h.count, eq_comm,
        and_comm]
    · simp [live_schedule h.exclusive, awaited_append_singleton, Event.isCall]
  | cancel =>
    refine ⟨?_, fun i code phase unfinished hlive => ?_, fun i code => ?_, fun i code => ?_⟩
    · simp [Scheduler.step, h.count, scheduled_append_singleton, Event.isSchedule]
    · exact absurd hlive (not_live_cancel h.exclusive unfinished)
    · simp [not_live_cancel h.exclusive, waits_append_singleton, Event.isCall]
    · simp [not_live_cancel h.exclusive, awaited_append_singleton, Event.isCall]
  | quiet j =>
    refine ⟨?_, fun i code phase unfinished hlive => ?_, fun i code => ?_, fun i code => ?_⟩
    · simp [tasks_quiet, h.count, scheduled_append_singleton, Event.isSchedule]
    · rw [current_quiet]
      cases phase with
      | waiting => exact h.exclusive unfinished (waiting_quiet.1 hlive).1
      | rendering =>
        rcases rendering_quiet.1 hlive with ⟨-, hwaiting⟩ | hrendering
        · exact h.exclusive Phase.noConfusion hwaiting
        · exact h.exclusive unfinished hrendering
      | finished => exact absurd rfl unfinished
    · simp [waiting_quiet, waits_append_singleton, Event.isCall, h.waiting, eq_comm]
    · simp [rendering_quiet, awaited_append_singleton, Event.isCall, h.waiting, h.rendering]
  | answer j verdict =>
    refine ⟨?_, fun i code phase unfinished hlive => ?_, fun i code => ?_, fun i code => ?_⟩
    · simp [tasks_answer, h.count, scheduled_append_singleton, Event.isSchedule]
    · rw [current_answer]
      cases phase with
      | waiting => exact h.exclusive unfinished (waiting_answer.1 hlive)
      | rendering => exact h.exclusive unfinished (rendering_answer.1 hlive).1
      | finished => exact absurd rfl unfinished
    · simp [waiting_answer, waits_append_singleton, Event.isCall, h.waiting]
    · simp [rendering_answer, awaited_append_singleton, Event.isCall, h.rendering, eq_comm]

theorem Tells.run (later : List Event) : ∀ {s : Scheduler} {events : List Event}, s.Tells events →
    (s.run later).1.Tells (events ++ later) := by
  induction later with
  | nil => intro s events h; simpa [Scheduler.run] using h
  | cons e rest ih =>
    intro s events h
    simpa [Scheduler.run] using ih (h.step e)

theorem tells_run (events : List Event) : (idle.run events).1.Tells events := tells_idle.run events

/-! ## Reports -/

/-- The task of this number has come to its end. -/
def Finished (s : Scheduler) (i : Nat) : Prop := ∃ t, s.tasks[i]? = some t ∧ t.phase = .finished

theorem finished_of_live (h : s.Live i code .rendering) :
    (s.step (.answer i verdict)).1.Finished i :=
  ⟨⟨code, .finished, false⟩, by simp [tasks_answer, show s.tasks[i]? = _ from h, afterAnswer], rfl⟩

theorem Finished.step (h : s.Finished i) (e : Event) : (s.step e).1.Finished i := by
  obtain ⟨t, ht, hphase⟩ := h
  have hcancel : s.cancelCurrent[i]? = some t := by
    unfold cancelCurrent
    split
    · exact ht
    · simp [List.getElem?_modify, ht, hphase]
  refine ⟨t, ?_, hphase⟩
  cases e with
  | schedule text =>
    rw [← hcancel]
    exact List.getElem?_append_left (List.getElem?_eq_some_iff.1 hcancel).1
  | cancel => exact hcancel
  | quiet j => simp [tasks_quiet, List.getElem?_modify, ht, afterQuiet, hphase]
  | answer j verdict => simp [tasks_answer, List.getElem?_modify, ht, afterAnswer, hphase]

theorem Finished.run (events : List Event) :
    ∀ {s : Scheduler}, s.Finished i → (s.run events).1.Finished i := by
  induction events with
  | nil => intro s h; exact h
  | cons e rest ih => intro s h; exact ih (h.step e)

theorem scheduled_of_latest (h : Latest i code events) : scheduled events = i + 1 := by
  obtain ⟨earlier, e, later, rfl, ⟨rfl, hcount⟩, hlasts⟩ := h
  have hlater : later.countP Event.isSchedule = 0 := by
    refine List.countP_eq_zero.2 fun x hx => ?_
    have hcall := hlasts x hx
    cases x <;> simp [Event.isCall, Event.isSchedule] at hcall ⊢
  rw [← hcount, scheduled, scheduled, List.countP_append, List.countP_cons, hlater]
  rfl

/-- The event comes after these events and makes a report. -/
def Reports (events : List Event) (e : Event) : Prop :=
  ∃ error, .reported error ∈ ((idle.run events).1.step e).2

theorem live_of_reports (h : Reports events (.answer i verdict)) :
    ∃ code, (idle.run events).1.Live i code .rendering :=
  h.elim fun _ hmem => (reported_mem_answer.1 hmem).2

/-- The reports of a run belong to ever later calls. -/
theorem lt_of_reports {before between : List Event} {v w : Verdict}
    (hfirst : Reports before (.answer i v))
    (hsecond : Reports (before ++ .answer i v :: between) (.answer j w)) : i < j := by
  obtain ⟨code, hi⟩ := live_of_reports hfirst
  obtain ⟨text, hj⟩ := live_of_reports hsecond
  have hlatest := ((tells_run before).rendering i code).1 hi |>.latest
  have hlatest' := ((tells_run _).rendering j text).1 hj |>.latest
  have hle : scheduled before ≤ scheduled (before ++ .answer i v :: between) := by simp [scheduled]
  rw [scheduled_of_latest hlatest, scheduled_of_latest hlatest'] at hle
  refine Nat.lt_of_le_of_ne (Nat.le_of_succ_le_succ hle) ?_
  rintro rfl
  -- the first answer has brought the task to its end
  obtain ⟨t, ht, hfinished⟩ : (idle.run (before ++ .answer i v :: between)).1.Finished i := by
    rw [run_append]
    exact (finished_of_live hi).run between
  obtain rfl : t = ⟨text, .rendering, false⟩ := Option.some.inj (ht.symm.trans hj)
  exact nomatch hfinished

/-- What an event does after a run. A text is given to the renderer when its wait is over and it is
the latest still, and the answer to it is reported, and kept if it is an output, if it is the latest
still and was not answered before. -/
structure ReportsLatest (events : List Event) (e : Event) : Prop where
  given : ∀ code, .given code ∈ ((idle.run events).1.step e).2 ↔
      ∃ i, e = .quiet i ∧ Waits i code events
  reported : ∀ error, .reported error ∈ ((idle.run events).1.step e).2 ↔
    ∃ i code verdict, e = .answer i verdict ∧ verdict.error? = error ∧ Awaited i code events
  single : ((idle.run events).1.step e).2.length ≤ 1
  kept : ∀ i code output, e = .answer i (.rendered output) → Awaited i code events →
    ((idle.run events).1.step e).1.lastOutput = some output
  unkept : (∀ i code output, e = .answer i (.rendered output) → ¬ Awaited i code events) →
    ((idle.run events).1.step e).1.lastOutput = (idle.run events).1.lastOutput
  latest : ∀ i code, Waits i code events ∨ Awaited i code events → Latest i code events
  once : ∀ before between i verdict, events = before ++ .answer i verdict :: between →
    Reports before (.answer i verdict) → ∀ j answer, e = .answer j answer → Reports events e → i < j

/-- After every run a result is reported, and an output is kept, for no text but the latest, which
is handed over once and answered once: no report comes of a text after another one was scheduled,
after it was cancelled, or after it was reported, and the next report is that of a later call. -/
theorem reportsLatest_run (events : List Event) (e : Event) : ReportsLatest events e where
  given code := by
    cases e with
    | schedule | cancel => simp [step]
    | quiet i => simp [given_mem_quiet, (tells_run events).waiting]
    | answer i verdict =>
      simp only [step]
      split <;> cases verdict <;> simp
  reported error := by
    cases e with
    | schedule | cancel => simp [step]
    | quiet i =>
      simp only [step]
      split <;> simp
    | answer i verdict => simp [reported_mem_answer, (tells_run events).rendering, and_assoc]
  single := length_effects_le _ e
  kept := by
    rintro i code output rfl hawaited
    exact lastOutput_of_live (((tells_run events).rendering i code).2 hawaited) output
  unkept h := by
    cases e with
    | schedule | cancel => rfl
    | quiet i => exact lastOutput_quiet _ i
    | answer i verdict =>
      cases verdict with
      | rendered output =>
        refine lastOutput_answer_of_not_live fun code hlive => ?_
        exact h i code output rfl (((tells_run events).rendering i code).1 hlive)
      | failed message =>
        simp only [step]
        split <;> rfl
  latest i code h := h.elim Waits.latest Awaited.latest
  once := by
    rintro before between i verdict rfl hfirst j answer rfl hsecond
    exact lt_of_reports hfirst hsecond

/-- Both answers arrive, that of the superseded text first. -/
example :
    (idle.run [.schedule ['a'], .quiet 0, .schedule ['b'], .quiet 1, .answer 0 (.rendered ['x']),
      .answer 1 (.failed ['y'])]).2 = [.given ['a'], .given ['b'], .reported (some ['y'])] := by
  decide

end Scheduler
end Chartwright
