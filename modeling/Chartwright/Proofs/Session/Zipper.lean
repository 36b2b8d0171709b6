import Mathlib.Data.List.Chain
import Chartwright.Session.History
/-!
The history as a bounded zipper: a present text between the texts that lie before it and those that
lie after it.

A history keeps one list and a number; the zipper keeps two lists and no number. `History.Shows`
relates the two, and one call takes related states to related states with the same reply
(`shows_perform`). So whatever is asked, in any order and number, both answer alike and look alike
(`trace_eq_zipper_trace`). Along the way the list stays within the limit, and no two neighbours in
it are the same text.
-/
namespace Chartwright

/-- What can be asked of a history. -/
inductive HistoryCall where
  | record (t : Text)
  | undo
  | redo
  | reset (t : Text)
deriving DecidableEq, Repr

/-- What a history replies: whether a text was recorded, or the text that is current again, if there
is one. -/
inductive HistoryReply where
  | recorded (isNew : Bool)
  | restored (t : Option Text)
  | nothing
deriving DecidableEq, Repr

/-- What can be seen of a history between two calls. -/
structure HistoryView where
  current : Text
  length : Nat
  canUndo : Bool
  canRedo : Bool
deriving DecidableEq, Repr

/-- A text with the texts before it and after it, the nearest of each first. -/
structure Zipper where
  past : List Text
  present : Text
  future : List Text
deriving DecidableEq, Repr

namespace Zipper

def start (t : Text) : Zipper := ⟨[], t, []⟩

/-- The texts from the oldest to the latest. -/
def texts (z : Zipper) : List Text := z.past.reverse ++ z.present :: z.future

/-- A new present, unless it is the old one. Of the past, one text fewer than the limit is kept, and
no future. -/
def record (limit : Nat) (z : Zipper) (t : Text) : Bool × Zipper :=
  if t = z.present then (false, z) else (true, ⟨(z.present :: z.past).take (limit - 1), t, []⟩)

/-- The nearest text of the past becomes the present. -/
def undo? (z : Zipper) : Option (Text × Zipper) :=
  match z.past with
  | [] => none
  | t :: earlier => some (t, ⟨earlier, t, z.present :: z.future⟩)

/-- The nearest text of the future becomes the present. -/
def redo? (z : Zipper) : Option (Text × Zipper) :=
  match z.future with
  | [] => none
  | t :: later => some (t, ⟨z.present :: z.past, t, later⟩)

def perform (limit : Nat) (z : Zipper) : HistoryCall → HistoryReply × Zipper
  | .record t => (.recorded (z.record limit t).1, (z.record limit t).2)
  | .undo => (.restored (z.undo?.map (·.1)), (z.undo?.map (·.2)).getD z)
  | .redo => (.restored (z.redo?.map (·.1)), (z.redo?.map (·.2)).getD z)
  | .reset t => (.nothing, start t)

def view (z : Zipper) : HistoryView where
  current := z.present
  length := z.past.length + 1 + z.future.length
  canUndo := !z.past.isEmpty
  canRedo := !z.future.isEmpty

/-- The replies to some calls, each with what can be seen after it. -/
def trace (limit : Nat) (z : Zipper) : List HistoryCall → List (HistoryReply × HistoryView)
  | [] => []
  | c :: rest =>
    ((z.perform limit c).1, (z.perform limit c).2.view) :: trace limit (z.perform limit c).2 rest

end Zipper

namespace History

def perform (h : History) : HistoryCall → HistoryReply × History
  | .record t => (.recorded (h.record t).1, (h.record t).2)
  | .undo => (.restored (h.undo?.map (·.1)), (h.undo?.map (·.2)).getD h)
  | .redo => (.restored (h.redo?.map (·.1)), (h.redo?.map (·.2)).getD h)
  | .reset t => (.nothing, h.reset t)

def view (h : History) : HistoryView := ⟨h.current, h.snapshots.length, h.canUndo, h.canRedo⟩

/-- The replies to some calls, each with what can be seen after it. -/
def trace (h : History) : List HistoryCall → List (HistoryReply × HistoryView)
  | [] => []
  | c :: rest => ((h.perform c).1, (h.perform c).2.view) :: trace (h.perform c).2 rest

/-- The history after some calls. -/
def after (h : History) : List HistoryCall → History
  | [] => h
  | c :: rest => after (h.perform c).2 rest

/-- The snapshots before the current one, the nearest first. -/
def past (h : History) : List Text := (h.snapshots.take h.cursor).reverse

/-- The snapshots after the current one. -/
def future (h : History) : List Text := h.snapshots.drop (h.cursor + 1)

/-- A history holds the texts of a zipper in one list, and counts the past ones. -/
structure Shows (h : History) (z : Zipper) : Prop where
  snapshots : h.snapshots = z.texts
  cursor : h.cursor = z.past.length

/-- A history within its limit, the cursor on one of its snapshots, whose neighbours differ. -/
structure Sound (h : History) : Prop where
  inside : h.cursor < h.snapshots.length
  bounded : h.snapshots.length ≤ h.limit
  distinct : h.snapshots.IsChain (· ≠ ·)

/-! ## What shows of a zipper -/

variable {h : History} {z : Zipper} {t : Text}

theorem length_texts (z : Zipper) : z.texts.length = z.past.length + 1 + z.future.length := by
  simp [Zipper.texts]
  omega

theorem Shows.current_eq (hz : h.Shows z) : h.current = z.present := by
  simp [current, hz.snapshots, hz.cursor, Zipper.texts]

theorem Shows.length_eq (hz : h.Shows z) :
    h.snapshots.length = z.past.length + 1 + z.future.length := by
  rw [hz.snapshots, length_texts]

theorem Shows.view_eq (hz : h.Shows z) : h.view = z.view := by
  have hundo : h.canUndo = !z.past.isEmpty := by
    cases hp : z.past <;> simp [canUndo, hz.cursor, hp]
  have hredo : h.canRedo = !z.future.isEmpty := by
    cases hf : z.future <;> simp [canRedo, hz.cursor, hz.length_eq, hf]
  simp [view, Zipper.view, hz.current_eq, hz.length_eq, hundo, hredo]

theorem Shows.past_eq (hz : h.Shows z) : h.past = z.past := by
  rw [past, hz.snapshots, hz.cursor, ← List.length_reverse, Zipper.texts, List.take_left,
    List.reverse_reverse]

theorem Shows.future_eq (hz : h.Shows z) : h.future = z.future := by
  have hcut : z.texts = (z.past.reverse ++ [z.present]) ++ z.future := by simp [Zipper.texts]
  have hlen : z.past.length + 1 = (z.past.reverse ++ [z.present]).length := by simp
  rw [future, hz.snapshots, hz.cursor, hcut, hlen, List.drop_left]

theorem take_succ_cursor (hinside : h.cursor < h.snapshots.length) :
    h.snapshots.take (h.cursor + 1) = h.snapshots.take h.cursor ++ [h.current] := by
  rw [List.take_succ_eq_append_getElem hinside]
  simp [current, List.getD_eq_getElem?_getD, List.getElem?_eq_getElem hinside]

theorem Sound.shows (hs : h.Sound) : h.Shows ⟨h.past, h.current, h.future⟩ := by
  constructor
  · calc h.snapshots = h.snapshots.take (h.cursor + 1) ++ h.snapshots.drop (h.cursor + 1) :=
          (List.take_append_drop _ _).symm
      _ = _ := by simp [take_succ_cursor hs.inside, Zipper.texts, past, future]
  · have := hs.inside
    simp [past]
    omega

/-! ## One call -/

theorem shows_start (limit : Nat) (t : Text) : (start limit t).Shows (Zipper.start t) := ⟨rfl, rfl⟩

theorem sound_start {limit : Nat} (room : 1 ≤ limit) (t : Text) : (start limit t).Sound :=
  ⟨Nat.zero_lt_one, room, .singleton t⟩

/-- What is left of the snapshots up to the current one and a new one: the new one, and of the
others one fewer than the limit. -/
theorem evict_past {limit : Nat} {past : List Text} {present : Text}
    (room : past.length + 1 ≤ limit) (t : Text) :
    evict limit ((present :: past).reverse ++ [t]) =
      ((present :: past).take (limit - 1)).reverse ++ [t] := by
  unfold evict
  split
  · next full =>
    -- the list is one longer than the limit, so no more than the oldest text goes
    have hlen : limit - 1 = (present :: past).length - 1 := by
      simp at full ⊢
      omega
    rw [hlen, ← List.dropLast_eq_take, List.tail_append_of_ne_nil (by simp), List.tail_reverse]
  · next short =>
    have hlen : (present :: past).length ≤ limit - 1 := by
      simp at short ⊢
      omega
    rw [List.take_of_length_le hlen]

theorem shows_record (hz : h.Shows z) (room : z.past.length + 1 ≤ h.limit) (t : Text) :
    (h.record t).1 = (z.record h.limit t).1 ∧ (h.record t).2.Shows (z.record h.limit t).2 := by
  by_cases same : t = z.present
  · have : t = h.current := by rw [hz.current_eq, same]
    simp [record, Zipper.record, same, this ▸ same, hz]
  · have other : t ≠ h.current := by rwa [hz.current_eq]
    -- up to the cursor stand the past and the present, and the branch behind it is dropped
    have hfront : h.snapshots.take (h.cursor + 1) = (z.present :: z.past).reverse := by
      have hlen : h.cursor + 1 = (z.past.reverse ++ [z.present]).length := by simp [hz.cursor]
      have hcut : z.texts = (z.past.reverse ++ [z.present]) ++ z.future := by simp [Zipper.texts]
      rw [hz.snapshots, hcut, hlen, List.take_left, List.reverse_cons]
    simp only [record, Zipper.record, if_neg other, if_neg same, hfront, evict_past room, true_and]
    exact ⟨by simp [Zipper.texts], by simp⟩

theorem shows_undo (hz : h.Shows z) :
    h.undo?.map (·.1) = z.undo?.map (·.1) ∧
      ((h.undo?.map (·.2)).getD h).Shows ((z.undo?.map (·.2)).getD z) := by
  obtain ⟨past, present, future⟩ := z
  cases past with
  | nil => simpa [undo?, Zipper.undo?, canUndo, hz.cursor] using hz
  | cons p earlier =>
    -- the list stays as it is, and is cut one place further left
    have hshows : ({ h with cursor := h.cursor - 1 } : History).Shows
        ⟨earlier, p, present :: future⟩ :=
      ⟨by simp [hz.snapshots, Zipper.texts], by simp [hz.cursor]⟩
    have hcan : h.canUndo = true := by simp [canUndo, hz.cursor]
    simpa [undo?, Zipper.undo?, hcan] using ⟨hshows.current_eq, hshows⟩

theorem shows_redo (hz : h.Shows z) :
    h.redo?.map (·.1) = z.redo?.map (·.1) ∧
      ((h.redo?.map (·.2)).getD h).Shows ((z.redo?.map (·.2)).getD z) := by
  obtain ⟨past, present, future⟩ := z
  cases future with
  | nil => simpa [redo?, Zipper.redo?, canRedo, hz.cursor, hz.length_eq] using hz
  | cons f later =>
    have hshows : ({ h with cursor := h.cursor + 1 } : History).Shows ⟨present :: past, f, later⟩ :=
      ⟨by simp [hz.snapshots, Zipper.texts], by simp [hz.cursor]⟩
    have hcan : h.canRedo = true := by simp [canRedo, hz.cursor, hz.length_eq]
    simpa [redo?, Zipper.redo?, hcan] using ⟨hshows.current_eq, hshows⟩

/-- Whatever is asked, a history and its zipper reply alike and stay together. -/
theorem shows_perform (hz : h.Shows z) (hs : h.Sound) (c : HistoryCall) :
    (h.perform c).1 = (z.perform h.limit c).1 ∧ (h.perform c).2.Shows (z.perform h.limit c).2 := by
  cases c with
  | record t =>
    have room : z.past.length + 1 ≤ h.limit := by
      have := hs.bounded
      rw [hz.length_eq] at this
      omega
    have := shows_record hz room t
    exact ⟨by simp [perform, Zipper.perform, this.1], this.2⟩
  | undo =>
    have := shows_undo hz
    exact ⟨by simp only [perform, Zipper.perform, this.1], this.2⟩
  | redo =>
    have := shows_redo hz
    exact ⟨by simp only [perform, Zipper.perform, this.1], this.2⟩
  | reset t => exact ⟨rfl, rfl, rfl⟩

theorem limit_perform (h : History) (c : HistoryCall) : (h.perform c).2.limit = h.limit := by
  cases c with
  | record t => simp only [perform, record]; split <;> rfl
  | undo => simp only [perform, undo?]; split <;> rfl
  | redo => simp only [perform, redo?]; split <;> rfl
  | reset t => rfl

theorem sound_record (hs : h.Sound) (t : Text) : (h.record t).2.Sound := by
  unfold record
  split
  · exact hs
  · next other =>
    have hlast := take_succ_cursor hs.inside
    -- a new text stands after the current one, which is the last that is kept of the others
    have hchain : (h.snapshots.take (h.cursor + 1) ++ [t]).IsChain (· ≠ ·) := by
      apply (hs.distinct.take _).append (.singleton t)
      intro x hx y hy
      rw [hlast] at hx
      simp at hx hy
      subst hx hy
      intro same
      exact other same.symm
    have hlen : (h.snapshots.take (h.cursor + 1) ++ [t]).length = h.cursor + 2 := by
      have := hs.inside
      simp
      omega
    have := hs.bounded
    have := hs.inside
    simp only [evict]
    split
    · next full =>
      refine ⟨?_, ?_, hchain.tail⟩ <;> simp only [List.length_tail] <;> omega
    · next short =>
      refine ⟨?_, ?_, hchain⟩ <;> simp only [] <;> omega

theorem sound_perform (hs : h.Sound) (c : HistoryCall) : (h.perform c).2.Sound := by
  have hinside := hs.inside
  have hbounded := hs.bounded
  cases c with
  | record t => exact sound_record hs t
  | undo =>
    simp only [perform, undo?]
    split
    · exact ⟨by simp; omega, hbounded, hs.distinct⟩
    · exact hs
  | redo =>
    simp only [perform, redo?]
    split
    · next can =>
      simp only [canRedo, decide_eq_true_eq] at can
      exact ⟨can, hbounded, hs.distinct⟩
    · exact hs
  | reset t => exact sound_start (by omega) t

/-! ## Any number of calls -/

/-- By induction on the calls; the state a call leaves is again one that `shows_perform` speaks
of. -/
theorem trace_eq_of_shows (calls : List HistoryCall) :
    ∀ {h : History} {z : Zipper}, h.Shows z → h.Sound → h.trace calls = z.trace h.limit calls := by
  induction calls with
  | nil => intro h z _ _; rfl
  | cons c rest ih =>
    intro h z hz hs
    obtain ⟨hreply, hnext⟩ := shows_perform hz hs c
    have hrest := ih hnext (sound_perform hs c)
    rw [limit_perform] at hrest
    simp only [trace, Zipper.trace, hreply, hnext.view_eq, hrest]

theorem sound_after (calls : List HistoryCall) :
    ∀ {h : History}, h.Sound → (h.after calls).Sound ∧ (h.after calls).limit = h.limit := by
  induction calls with
  | nil => intro h hs; exact ⟨hs, rfl⟩
  | cons c rest ih =>
    intro h hs
    have hrest := ih (sound_perform hs c)
    rw [limit_perform] at hrest
    exact hrest

/-- A step back leads to the nearest past text. Neighbouring snapshots differ, so it is another. -/
theorem Sound.of_undo? (hs : h.Sound) {earlier : History} (hu : h.undo? = some (t, earlier)) :
    t = earlier.current ∧ t ≠ h.current := by
  have hreply := (shows_undo hs.shows).1
  have hsnapshots := hs.shows.snapshots
  have hchain := hs.distinct
  rw [hu] at hreply
  cases hpast : h.past with
  | nil => simp [Zipper.undo?, hpast] at hreply
  | cons p rest =>
    simp only [Zipper.undo?, hpast, Option.map_some, Option.some.injEq] at hreply
    -- the nearest past text and the present one are neighbours in the list
    simp only [Zipper.texts, hpast, List.reverse_cons, List.append_assoc,
      List.singleton_append] at hsnapshots
    rw [hsnapshots] at hchain
    refine ⟨?_, hreply ▸ (List.isChain_append_cons_cons.1 hchain).2.1⟩
    simp only [undo?, Option.ite_none_right_eq_some, Option.some.injEq, Prod.mk.injEq] at hu
    rw [← hu.2.1, ← hu.2.2]

/-- A step forward leads to the nearest future text, which is another one likewise. -/
theorem Sound.of_redo? (hs : h.Sound) {later : History} (hr : h.redo? = some (t, later)) :
    t = later.current ∧ t ≠ h.current := by
  have hreply := (shows_redo hs.shows).1
  have hsnapshots := hs.shows.snapshots
  have hchain := hs.distinct
  rw [hr] at hreply
  cases hfuture : h.future with
  | nil => simp [Zipper.redo?, hfuture] at hreply
  | cons f rest =>
    simp only [Zipper.redo?, hfuture, Option.map_some, Option.some.injEq] at hreply
    simp only [Zipper.texts, hfuture] at hsnapshots
    rw [hsnapshots] at hchain
    refine ⟨?_, hreply ▸ (List.isChain_append_cons_cons.1 hchain).2.1.symm⟩
    simp only [redo?, Option.ite_none_right_eq_some, Option.some.injEq, Prod.mk.injEq] at hr
    rw [← hr.2.1, ← hr.2.2]

/-- A history that can be started at all is seen to be the bounded zipper that starts from the same
text, whatever is asked of it; and after any calls it holds between one snapshot and as many as its
limit, the cursor on one of them and no two neighbours equal, so that a step that succeeds shows
another text. -/
theorem trace_eq_zipper_trace {limit : Int} {initial : Text} {h : History}
    (hstart : start? limit initial = .ok h) (calls : List HistoryCall) :
    h.view = (Zipper.start initial).view ∧
    h.trace calls = (Zipper.start initial).trace limit.toNat calls ∧
    (1 ≤ (h.after calls).snapshots.length ∧ ((h.after calls).snapshots.length : Int) ≤ limit) ∧
    (h.after calls).cursor < (h.after calls).snapshots.length ∧
    (h.after calls).snapshots.IsChain (· ≠ ·) ∧
    (∀ t earlier, (h.after calls).undo? = some (t, earlier) →
      t = earlier.current ∧ t ≠ (h.after calls).current) ∧
    (∀ t later, (h.after calls).redo? = some (t, later) →
      t = later.current ∧ t ≠ (h.after calls).current) := by
  unfold start? at hstart
  split at hstart
  · cases hstart
  · next room =>
    cases hstart
    have hz := shows_start limit.toNat initial
    have hs : (start limit.toNat initial).Sound := sound_start (by omega) initial
    obtain ⟨hs', hlimit⟩ := sound_after calls hs
    have hcursor := hs'.inside
    have hbounded := hs'.bounded
    rw [hlimit] at hbounded
    refine ⟨hz.view_eq, trace_eq_of_shows calls hz hs, ⟨by omega, ?_⟩, hcursor, hs'.distinct,
      fun t earlier hu => hs'.of_undo? hu, fun t later hr => hs'.of_redo? hr⟩
    have : (start limit.toNat initial).limit = limit.toNat := rfl
    omega

/-- With room for two snapshots, a third one from the middle drops the branch after it, and a fourth
the oldest. -/
theorem trace_eq_zipper_trace_of_two_snapshots :
    start? 2 ['a'] = .ok (start 2 ['a']) ∧
    (start 2 ['a']).trace [.record ['b'], .undo, .record ['c'], .record ['d'], .undo, .undo] =
      (Zipper.start ['a']).trace 2 [.record ['b'], .undo, .record ['c'], .record ['d'], .undo,
        .undo] :=
  have hstart : start? 2 ['a'] = .ok (start 2 ['a']) := rfl
  ⟨hstart,
    (trace_eq_zipper_trace hstart [.record ['b'], .undo, .record ['c'], .record ['d'], .undo,
    .undo]).2.1⟩

end History
end Chartwright
