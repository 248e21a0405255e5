import BeamMP.Foundation.Spacing
import BeamMP.Lua.TimedEvents
import Mathlib.Data.Int.Order.Basic

/-!
# The event timers over a run of the engine

Lua code creates and cancels timers, and the event loop goes through all of them in
each of its rounds, during which `mTimedEventsMutex` is locked. A timer whose call
was refused is set back to its last completion.
-/
namespace BeamMP

open Execution Spacing

/-- A timer with the interval and the time at its creation, and with its expiries that were not
taken back, the newest one first. -/
structure LoopTimer extends EventTimer where
  IntervalMS : ℕ
  created : ℤ
  expiries : List (Event ℤ) := []
deriving DecidableEq

/-- The timers, and the place of the one the event loop has come to. -/
structure TimerLoop where
  mTimedEvents : List LoopTimer := []
  visiting : Option ℕ := none
deriving DecidableEq

/-- `visit` carries the times that the clock shows to `Expired` and `Reset`, and whether a call for
the event is found queued when one of its handlers is to be enqueued. -/
inductive TimerLabel
  | createEventTimer (EventName : Bytes) (StateId : TLuaStateId) (IntervalMS : ℕ)
      (Strategy : CallStrategy) (now : ℤ)
  | cancelEventTimers (EventName : Bytes) (StateId : TLuaStateId)
  | beginRound
  | visit (checkedAt resetAt : ℤ) (queued : Bool)
  | endRound
deriving DecidableEq

/-- `std::chrono::milliseconds(IntervalMS)` as a duration of the clock, which counts nanoseconds
in 64 bits. -/
def nanoseconds (IntervalMS : ℕ) : ℤ := ((IntervalMS : ℤ) * 1000000).bmod (2 ^ 64)

theorem nanoseconds_of_le {IntervalMS : ℕ} (h : IntervalMS ≤ 9223372036854) :
    nanoseconds IntervalMS = IntervalMS * 1000000 :=
  Int.bmod_eq_of_le (by omega) (by omega)

namespace LoopTimer

variable (timer : LoopTimer)

def isFor (EventName : Bytes) (StateId : TLuaStateId) : Bool :=
  timer.EventName == EventName && timer.StateId == StateId

/-- What a round of the event loop does to the timer. -/
def visit (checkedAt resetAt : ℤ) (queued : Bool) : LoopTimer :=
  if timer.Expired checkedAt then
    if timer.Strategy = .BestEffort ∧ queued then
      -- The reset is taken back.
      { timer with toEventTimer := (timer.Reset resetAt).Reset timer.LastCompletion }
    else
      { timer with
        toEventTimer := timer.Reset resetAt
        expiries := ⟨checkedAt, resetAt⟩ :: timer.expiries }
  else timer

/-- The expiries, and before them the creation of the timer. -/
def history : List (Event ℤ) := timer.expiries ++ [⟨timer.created, timer.created⟩]

end LoopTimer

namespace TimerLoop

variable (s : TimerLoop)

/-- The loop of `CancelEventTimers`, which looks for a timer from the beginning after each that it
has erased. It erases no more timers than there are. -/
def cancelLoop (EventName : Bytes) (StateId : TLuaStateId) :
    ℕ → List LoopTimer → List LoopTimer
  | 0, mTimedEvents => mTimedEvents
  | rounds + 1, mTimedEvents =>
    match mTimedEvents.findIdx? (·.isFor EventName StateId) with
    | some Iter => cancelLoop EventName StateId rounds (mTimedEvents.eraseIdx Iter)
    | none => mTimedEvents

def step : TimerLabel → Option TimerLoop
  | .createEventTimer EventName StateId IntervalMS Strategy now =>
    if s.visiting = none then
      some { s with
        mTimedEvents := s.mTimedEvents ++ [{
          EventName, StateId, Strategy
          Duration := nanoseconds IntervalMS
          LastCompletion := now
          IntervalMS
          created := now }] }
    else none
  | .cancelEventTimers EventName StateId =>
    if s.visiting = none then
      some { s with
        mTimedEvents :=
          cancelLoop EventName StateId (s.mTimedEvents.length + 1) s.mTimedEvents }
    else none
  | .beginRound => if s.visiting = none then some { s with visiting := some 0 } else none
  | .visit checkedAt resetAt queued =>
    s.visiting.bind fun i => s.mTimedEvents[i]?.map fun timer =>
      { s with
        mTimedEvents := s.mTimedEvents.set i (timer.visit checkedAt resetAt queued)
        visiting := some (i + 1) }
  | .endRound =>
    if s.visiting = some s.mTimedEvents.length then some { s with visiting := none } else none

def keys : List (Bytes × TLuaStateId) :=
  s.mTimedEvents.map fun timer => (timer.EventName, timer.StateId)

end TimerLoop

/-- The timers that were created and not cancelled since. -/
def survivors : List TimerLabel → List (Bytes × TLuaStateId)
  | [] => []
  | .createEventTimer EventName StateId _ _ _ :: labels =>
    if labels.contains (.cancelEventTimers EventName StateId) then survivors labels
    else (EventName, StateId) :: survivors labels
  | .cancelEventTimers _ _ :: labels | .beginRound :: labels | .visit _ _ _ :: labels
  | .endRound :: labels => survivors labels

namespace LoopTimer

variable {timer : LoopTimer} {checkedAt resetAt : ℤ} {queued : Bool}

theorem visit_cases (timer : LoopTimer) (checkedAt resetAt : ℤ) (queued : Bool) :
    timer.visit checkedAt resetAt queued = timer ∨
    (timer.Expired checkedAt = true ∧ ¬(timer.Strategy = .BestEffort ∧ queued = true) ∧
      timer.visit checkedAt resetAt queued =
        { timer with
          LastCompletion := resetAt
          expiries := ⟨checkedAt, resetAt⟩ :: timer.expiries }) := by
  unfold visit
  split_ifs with hexpired hrefused
  · exact .inl rfl
  · exact .inr ⟨hexpired, hrefused, rfl⟩
  · exact .inl rfl

/-- The expiries keep their distance, the newest one being the last completion. -/
structure Regular (timer : LoopTimer) : Prop where
  duration : timer.Duration = nanoseconds timer.IntervalMS
  spaced : Spaced timer.Duration timer.history
  last : ∀ e ∈ timer.history.head?, timer.LastCompletion = e.done

theorem Regular.visit (h : timer.Regular) (checkedAt resetAt : ℤ) (queued : Bool) :
    (timer.visit checkedAt resetAt queued).Regular := by
  obtain hsame | ⟨hexpired, -, hvisit⟩ := visit_cases timer checkedAt resetAt queued
  · rwa [hsame]
  · rw [hvisit]
    refine ⟨h.duration, ?_, by simp [history]⟩
    have hlast := h.last
    have hspaced := h.spaced
    have hdue : timer.LastCompletion + timer.Duration ≤ checkedAt := by
      have := of_decide_eq_true hexpired
      omega
    unfold history at hlast hspaced ⊢
    rw [List.cons_append]
    refine List.isChain_cons.mpr ⟨fun e he => ?_, hspaced⟩
    rw [← hlast e he]
    exact hdue

end LoopTimer

namespace TimerLoop

variable {s t : TimerLoop} {l : TimerLabel}

theorem cancelLoop_eq_filter (EventName : Bytes) (StateId : TLuaStateId) (rounds : ℕ)
    (mTimedEvents : List LoopTimer) (hrounds : mTimedEvents.length < rounds) :
    cancelLoop EventName StateId rounds mTimedEvents =
      mTimedEvents.filter fun timer => !timer.isFor EventName StateId := by
  induction rounds generalizing mTimedEvents with
  | zero => exact absurd hrounds (Nat.not_lt_zero _)
  | succ rounds ih =>
    unfold cancelLoop
    cases hIter : mTimedEvents.findIdx? (·.isFor EventName StateId) with
    | none =>
      rw [List.findIdx?_eq_none_iff] at hIter
      symm
      rw [List.filter_eq_self]
      intro timer htimer
      simpa using hIter timer htimer
    | some Iter =>
      obtain ⟨hlt, hfor, -⟩ := List.findIdx?_eq_some_iff_getElem.mp hIter
      have hlength := List.length_eraseIdx_of_lt hlt
      simp only
      rw [ih _ (by omega), List.eraseIdx_eq_take_drop_succ, List.filter_append]
      conv_rhs => rw [← List.take_append_drop Iter mTimedEvents, List.filter_append,
        List.drop_eq_getElem_cons hlt]
      rw [List.filter_cons_of_neg (by simp [hfor])]

theorem step_cases (h : s.step l = some t) :
    (∃ EventName StateId IntervalMS Strategy now,
      l = .createEventTimer EventName StateId IntervalMS Strategy now ∧
      t = { s with
        mTimedEvents := s.mTimedEvents ++ [{
          EventName, StateId, Strategy
          Duration := nanoseconds IntervalMS
          LastCompletion := now
          IntervalMS
          created := now }] }) ∨
    (∃ EventName StateId, l = .cancelEventTimers EventName StateId ∧
      t = { s with
        mTimedEvents := s.mTimedEvents.filter fun timer => !timer.isFor EventName StateId }) ∨
    (∃ checkedAt resetAt queued i timer, l = .visit checkedAt resetAt queued ∧
      s.mTimedEvents[i]? = some timer ∧
      t = { s with
        mTimedEvents := s.mTimedEvents.set i (timer.visit checkedAt resetAt queued)
        visiting := some (i + 1) }) ∨
    ((l = .beginRound ∨ l = .endRound) ∧ t.mTimedEvents = s.mTimedEvents) := by
  cases l with
  | createEventTimer EventName StateId IntervalMS Strategy now =>
    simp only [step] at h
    split_ifs at h
    exact .inl ⟨EventName, StateId, IntervalMS, Strategy, now, rfl, (Option.some.inj h).symm⟩
  | cancelEventTimers EventName StateId =>
    simp only [step] at h
    split_ifs at h
    refine .inr (.inl ⟨EventName, StateId, rfl, ?_⟩)
    rw [← Option.some.inj h, cancelLoop_eq_filter _ _ _ _ (Nat.lt_succ_self _)]
  | visit checkedAt resetAt queued =>
    obtain ⟨i, -, h⟩ := Option.bind_eq_some_iff.mp h
    obtain ⟨timer, htimer, h⟩ := Option.map_eq_some_iff.mp h
    exact .inr (.inr (.inl ⟨checkedAt, resetAt, queued, i, timer, rfl, htimer, h.symm⟩))
  | beginRound =>
    simp only [step] at h
    split_ifs at h
    exact .inr (.inr (.inr ⟨.inl rfl, by rw [← Option.some.inj h]⟩))
  | endRound =>
    simp only [step] at h
    split_ifs at h
    exact .inr (.inr (.inr ⟨.inr rfl, by rw [← Option.some.inj h]⟩))

theorem forall_step {P : LoopTimer → Prop}
    (hnew : ∀ timer : LoopTimer, timer.Duration = nanoseconds timer.IntervalMS →
      timer.expiries = [] → timer.LastCompletion = timer.created → P timer)
    (hvisit : ∀ timer checkedAt resetAt queued, l = .visit checkedAt resetAt queued →
      P timer → P (timer.visit checkedAt resetAt queued))
    (hs : ∀ timer ∈ s.mTimedEvents, P timer) (h : s.step l = some t) :
    ∀ timer ∈ t.mTimedEvents, P timer := by
  intro timer htimer
  obtain ⟨EventName, StateId, IntervalMS, Strategy, now, -, rfl⟩ | ⟨EventName, StateId, -, rfl⟩ |
    ⟨checkedAt, resetAt, queued, i, old, rfl, hold, rfl⟩ | ⟨-, hsame⟩ := step_cases h
  · rcases List.mem_append.mp htimer with htimer | htimer
    · exact hs timer htimer
    · obtain rfl := List.mem_singleton.mp htimer
      refine hnew _ ?_ rfl rfl
      dsimp only
  · exact hs timer (List.mem_of_mem_filter htimer)
  · rcases List.mem_or_eq_of_mem_set htimer with htimer | rfl
    · exact hs timer htimer
    · exact hvisit old checkedAt resetAt queued rfl (hs old (List.mem_of_getElem? hold))
  · exact hs timer (hsame ▸ htimer)

def Steady : TimerLabel → Prop
  | .visit checkedAt resetAt _ => checkedAt ≤ resetAt
  | .createEventTimer .. | .cancelEventTimers .. | .beginRound | .endRound => True

/-- In every run, a timer with an interval that 64 bits have room for expires no earlier than its
interval after it was created, or after its last expiry that was not taken back; so it has expired
no more often than the interval fits in between, if the clock does not go back. -/
theorem timers_keep_interval (labels : List TimerLabel) (s : TimerLoop)
    (hrun : run step {} labels = some s) (timer : LoopTimer) (htimer : timer ∈ s.mTimedEvents)
    (hinterval : timer.IntervalMS ≤ 9223372036854) :
    Spaced (timer.IntervalMS * 1000000 : ℤ) timer.history ∧
    ((∀ l ∈ labels, Steady l) → ∀ e ∈ timer.expiries.head?,
      timer.created + timer.expiries.length * (timer.IntervalMS * 1000000 : ℤ) ≤ e.due) := by
  have hregular : ∀ timer ∈ s.mTimedEvents, timer.Regular := by
    refine run_invariant_of_step
      (I := fun s : TimerLoop => ∀ timer ∈ s.mTimedEvents, timer.Regular)
      (fun _ _ _ hs h => forall_step ?_ ?_ hs h) ?_ hrun
    · intro timer hduration hexpiries hlast
      exact ⟨hduration, by simp [LoopTimer.history, hexpiries, spaced_singleton],
        by simp [LoopTimer.history, hexpiries, hlast]⟩
    · exact fun timer checkedAt resetAt queued _ hregular =>
        hregular.visit checkedAt resetAt queued
    · exact fun timer htimer => absurd htimer List.not_mem_nil
  have hspaced := (hregular timer htimer).spaced
  rw [(hregular timer htimer).duration, nanoseconds_of_le hinterval] at hspaced
  refine ⟨hspaced, fun hsteady e he => ?_⟩
  have hdone : ∀ timer ∈ s.mTimedEvents, ∀ e ∈ timer.history, e.due ≤ e.done := by
    refine run_invariant
      (I := fun s : TimerLoop => ∀ timer ∈ s.mTimedEvents, ∀ e ∈ timer.history, e.due ≤ e.done)
      (fun s l t hs hl h => forall_step (P := fun timer => ∀ e ∈ timer.history, e.due ≤ e.done)
        ?_ ?_ hs h) ?_ (along_of_forall hsteady) hrun
    · intro timer _ hexpiries _ e he
      simp only [LoopTimer.history, hexpiries, List.nil_append, List.mem_singleton] at he
      rw [he]
    · intro timer checkedAt resetAt queued hlabel hold e he
      obtain hsame | ⟨-, -, hvisit⟩ := timer.visit_cases checkedAt resetAt queued
      · rw [hsame] at he
        exact hold e he
      · rw [hvisit, LoopTimer.history, List.cons_append] at he
        rcases List.mem_cons.mp he with rfl | he
        · rw [hlabel] at hl
          exact hl
        · exact hold e he
    · exact fun timer htimer => absurd htimer List.not_mem_nil
  have hle := hspaced.le_due (hdone timer htimer) e
    (by rw [List.head?_append, he]; rfl)
  simpa using hle

/-- A timer of one second expires twice, 200 ms late at first. -/
def sampleRounds : List TimerLabel :=
  [.createEventTimer (ascii "tick") (ascii "state") 1000 .Precise 0,
    .beginRound, .visit 1200000000 1200000001 true, .endRound,
    .beginRound, .visit 2200000000 2200000001 true, .endRound,
    .beginRound, .visit 2200000001 2200000002 true, .endRound]

theorem timers_keep_interval_sample :
    ∃ s timer, run step {} sampleRounds = some s ∧ s.mTimedEvents = [timer] ∧
      timer.expiries.length = 2 ∧ timer.IntervalMS = 1000 ∧
      Spaced (timer.IntervalMS * 1000000 : ℤ) timer.history :=
  ⟨_, _, rfl, rfl, rfl, rfl,
    (timers_keep_interval sampleRounds _ rfl _ (List.mem_singleton.mpr rfl) (by decide)).1⟩

/-- The timers whose event and state is not cancelled by a label. -/
def notCancelled (labels : List TimerLabel) (key : Bytes × TLuaStateId) : Bool :=
  !labels.contains (.cancelEventTimers key.1 key.2)

theorem notCancelled_cons_of_ne {labels : List TimerLabel}
    (hl : ∀ EventName StateId, l ≠ .cancelEventTimers EventName StateId) :
    notCancelled (l :: labels) = notCancelled labels := by
  funext key
  have hne : (TimerLabel.cancelEventTimers key.1 key.2 == l) = false :=
    beq_eq_false_iff_ne.mpr (hl key.1 key.2).symm
  simp only [notCancelled, List.contains_cons, hne, Bool.false_or]

theorem notCancelled_cons_cancel (EventName : Bytes) (StateId : TLuaStateId)
    (labels : List TimerLabel) (key : Bytes × TLuaStateId) :
    notCancelled (.cancelEventTimers EventName StateId :: labels) key =
      (!(key.1 == EventName && key.2 == StateId) && notCancelled labels key) := by
  have hsame : (TimerLabel.cancelEventTimers key.1 key.2 ==
      TimerLabel.cancelEventTimers EventName StateId) =
        (key.1 == EventName && key.2 == StateId) := by
    rw [Bool.eq_iff_iff]
    simp
  rw [notCancelled, List.contains_cons, hsame, Bool.not_or, notCancelled]

theorem keys_set {i : ℕ} {timer : LoopTimer} (h : s.mTimedEvents[i]? = some timer)
    (checkedAt resetAt : ℤ) (queued : Bool) (visiting : Option ℕ) :
    ({ s with
        mTimedEvents := s.mTimedEvents.set i (timer.visit checkedAt resetAt queued)
        visiting } : TimerLoop).keys = s.keys := by
  have hkey : ((timer.visit checkedAt resetAt queued).EventName,
      (timer.visit checkedAt resetAt queued).StateId) = (timer.EventName, timer.StateId) := by
    obtain hsame | ⟨-, -, hvisit⟩ := timer.visit_cases checkedAt resetAt queued
    · rw [hsame]
    · rw [hvisit]
  obtain ⟨hlt, rfl⟩ := List.getElem?_eq_some_iff.mp h
  simp only [keys, List.map_set, hkey]
  refine List.ext_getElem (List.length_set ..) fun j _ _ => ?_
  by_cases hj : i = j
  · subst hj
    simp
  · simp [hj]

theorem keys_of_run (labels : List TimerLabel) (s t : TimerLoop)
    (hrun : run step s labels = some t) :
    t.keys = s.keys.filter (notCancelled labels) ++ survivors labels := by
  induction labels generalizing s with
  | nil =>
    obtain rfl : s = t := by simpa using hrun
    have hall : s.keys.filter (notCancelled []) = s.keys :=
      List.filter_eq_self.mpr fun _ _ => rfl
    rw [survivors, List.append_nil, hall]
  | cons l labels ih =>
    obtain ⟨m, hm, hrest⟩ := run_cons_eq_some.mp hrun
    rw [ih m hrest]
    obtain ⟨EventName, StateId, IntervalMS, Strategy, now, rfl, rfl⟩ |
      ⟨EventName, StateId, rfl, rfl⟩ |
      ⟨checkedAt, resetAt, queued, i, old, rfl, hold, rfl⟩ | ⟨hl, hsame⟩ := step_cases hm
    · rw [notCancelled_cons_of_ne (by simp)]
      simp only [keys, survivors, List.map_append, List.filter_append, List.map_cons,
        List.map_nil, List.append_assoc]
      cases hcancel : labels.contains (.cancelEventTimers EventName StateId) with
      | true =>
        have hnot : notCancelled labels (EventName, StateId) = false := by
          rw [notCancelled, hcancel]
          rfl
        rw [List.filter_cons_of_neg (by simp [hnot]), List.filter_nil, List.nil_append, if_pos rfl]
      | false =>
        have hkept : notCancelled labels (EventName, StateId) = true := by
          rw [notCancelled, hcancel]
          rfl
        rw [List.filter_cons_of_pos hkept, List.filter_nil, if_neg (by simp),
          List.singleton_append]
    · refine congrArg (· ++ survivors labels) ?_
      simp only [keys, List.filter_map, List.filter_filter]
      refine congrArg _ (List.filter_congr fun timer _ => ?_)
      simp only [Function.comp_apply, notCancelled_cons_cancel, LoopTimer.isFor]
      rw [Bool.and_comm]
    · rw [keys_set hold, notCancelled_cons_of_ne (by simp)]
      rfl
    · have hkeys : m.keys = s.keys := by rw [keys, keys, hsame]
      rcases hl with rfl | rfl
      · rw [hkeys, notCancelled_cons_of_ne (by simp)]
        rfl
      · rw [hkeys, notCancelled_cons_of_ne (by simp)]
        rfl

/-- In every run, the timers are those that were created and whose event was not cancelled in
their state since, in the order of their creation. -/
theorem timers_are_survivors (labels : List TimerLabel) (s : TimerLoop)
    (hrun : run step {} labels = some s) : s.keys = survivors labels := by
  rw [keys_of_run labels {} s hrun]
  rfl

def sampleCancel : List TimerLabel :=
  [.createEventTimer (ascii "tick") (ascii "state") 1000 .Precise 0,
    .createEventTimer (ascii "tock") (ascii "state") 1000 .Precise 1,
    .cancelEventTimers (ascii "tick") (ascii "state"),
    .createEventTimer (ascii "tick") (ascii "state") 500 .BestEffort 2]

theorem timers_are_survivors_sample :
    ∃ s, run step {} sampleCancel = some s ∧
      survivors sampleCancel = [(ascii "tock", ascii "state"), (ascii "tick", ascii "state")] ∧
      s.keys = survivors sampleCancel :=
  ⟨_, rfl, rfl, timers_are_survivors sampleCancel _ rfl⟩

end TimerLoop
end BeamMP
