import BeamMP.Foundation.Execution
import BeamMP.Lua.EngineLocks

/-!
# The expiry of an event timer

The event loop resets an expired timer and enqueues the handlers of its event one
by one. With `BestEffort` each of these calls is refused if a call for the event
is queued already, and a refusal takes the reset back. The calls of the same
expiry are in the queue too, unless the state thread has taken them out.
-/
namespace BeamMP

open Execution

inductive CallStrategy
  | BestEffort
  | Precise
deriving DecidableEq

structure EventTimer extends TimedEvent where
  Duration : ℤ
  LastCompletion : ℤ
  Strategy : CallStrategy
deriving DecidableEq

structure QueuedFunction (α : Type) where
  FunctionName : Bytes
  Args : List α
  EventName : Bytes
deriving DecidableEq

namespace EventTimer

/-- `Expired`, with the time the clock shows. -/
def Expired (timer : EventTimer) (now : ℤ) : Bool := timer.Duration ≤ now - timer.LastCompletion

/-- `Reset`, with the time the clock shows. -/
def Reset (timer : EventTimer) (now : ℤ) : EventTimer := { timer with LastCompletion := now }

end EventTimer

section Queue

variable {α : Type}

def isQueued (EventName : Bytes) (mStateFunctionQueue : List (QueuedFunction α)) : Bool :=
  mStateFunctionQueue.any (·.EventName == EventName)

/-- The queue after `EnqueueFunctionCallFromCustomEvent`, which is `none` for the null pointer
of a refused call. -/
def enqueueFunctionCallFromCustomEvent (FunctionName : Bytes) (Args : List α) (EventName : Bytes)
    (Strategy : CallStrategy) (mStateFunctionQueue : List (QueuedFunction α)) :
    Option (List (QueuedFunction α)) :=
  if Strategy = .BestEffort ∧ isQueued EventName mStateFunctionQueue then none
  else some (mStateFunctionQueue ++ [⟨FunctionName, Args, EventName⟩])

end Queue

/-- How far the event loop has come with a timer: before `Expired`, before it has
`mLuaStatesMutex`, in the loop over the handlers, and behind it. -/
inductive ExpiryPhase
  | start
  | reset
  | loop (Handlers : List Bytes)
  | done
deriving DecidableEq

/-- One timer, the queue of its state and the handlers of its event there. The time of the
reset, whether a call for the event was queued then, and the handlers that were enqueued are
kept beside the variables of the code. -/
structure Expiry (α : Type) where
  timer : EventTimer
  mStateFunctionQueue : List (QueuedFunction α)
  Handlers : List Bytes
  phase : ExpiryPhase := .start
  LastCompletionBeforeReset : ℤ := 0
  processedAt : ℤ := 0
  queuedAtStart : Bool := false
  enqueued : List Bytes := []
deriving DecidableEq

/-- The event loop finds the timer expired, locks `mLuaStatesMutex` and goes on to the next
handler; another thread enqueues a call, for which it needs that mutex too, and the state
thread takes the first one. -/
inductive ExpiryLabel (α : Type)
  | expire (checkedAt resetAt : ℤ)
  | lockStates
  | handler
  | enqueueFunctionCall (call : QueuedFunction α)
  | takeCall
deriving DecidableEq

namespace Expiry

variable {α : Type}

def expire (s : Expiry α) (checkedAt resetAt : ℤ) : Option (Expiry α) :=
  if s.phase = .start ∧ s.timer.Expired checkedAt then
    some { s with
      timer := s.timer.Reset resetAt
      LastCompletionBeforeReset := s.timer.LastCompletion
      phase := .reset
      processedAt := resetAt
      queuedAtStart := isQueued s.timer.EventName s.mStateFunctionQueue }
  else none

def enqueueHandler (s : Expiry α) (Handler : Bytes) (rest : List Bytes) : Expiry α :=
  match enqueueFunctionCallFromCustomEvent Handler [] s.timer.EventName s.timer.Strategy
      s.mStateFunctionQueue with
  | some queue =>
    { s with
      mStateFunctionQueue := queue
      enqueued := s.enqueued ++ [Handler]
      phase := .loop rest }
  | none =>
    { s with timer := s.timer.Reset s.LastCompletionBeforeReset, phase := .done }

def step (s : Expiry α) : ExpiryLabel α → Option (Expiry α)
  | .expire checkedAt resetAt => s.expire checkedAt resetAt
  | .lockStates => if s.phase = .reset then some { s with phase := .loop s.Handlers } else none
  | .handler =>
    match s.phase with
    | .loop (Handler :: rest) => some (s.enqueueHandler Handler rest)
    | .loop [] => some { s with phase := .done }
    | _ => none
  | .enqueueFunctionCall call =>
    match s.phase with
    | .loop _ => none
    | _ => some { s with mStateFunctionQueue := s.mStateFunctionQueue ++ [call] }
  | .takeCall =>
    match s.mStateFunctionQueue with
    | [] => none
    | _ :: queue => some { s with mStateFunctionQueue := queue }

/-- All handlers are enqueued and the timer is reset if no call for its event was queued, and
otherwise nothing happens. -/
def AllOrNothing (s : Expiry α) : Prop :=
  (s.queuedAtStart = false ∧ s.enqueued = s.Handlers ∧ s.timer.LastCompletion = s.processedAt) ∨
  (s.queuedAtStart = true ∧ s.enqueued = [] ∧
    s.timer.LastCompletion = s.LastCompletionBeforeReset)

instance (s : Expiry α) : Decidable s.AllOrNothing :=
  inferInstanceAs (Decidable (_ ∨ _))

/-- Whenever a handler is to be enqueued, a call for the event is queued if and only if one was
queued at the start, so that an event without handlers had none queued; or the clock has not
moved since the last completion. -/
def QueuedAsAtStart (s : Expiry α) : ExpiryLabel α → Prop
  | .handler =>
    match s.phase with
    | .loop (_ :: _) => isQueued s.timer.EventName s.mStateFunctionQueue = s.queuedAtStart
    | .loop [] => s.queuedAtStart = true → s.processedAt = s.LastCompletionBeforeReset
    | _ => True
  | _ => True

/-- What holds as long as the queue is found as it was at the start. -/
def OnCourse (s : Expiry α) : Prop :=
  s.timer.Strategy = .BestEffort ∧
  match s.phase with
  | .start => s.enqueued = []
  | .reset => s.enqueued = [] ∧ s.timer.LastCompletion = s.processedAt
  | .loop rest =>
    s.enqueued ++ rest = s.Handlers ∧ s.timer.LastCompletion = s.processedAt ∧
      (s.queuedAtStart = true → s.enqueued = [])
  | .done => s.AllOrNothing

/-- What holds from the first time on that it is not. -/
def OffCourse (s : Expiry α) : Prop :=
  match s.phase with
  | .start | .reset => False
  | .loop _ => s.queuedAtStart = true ∧ s.enqueued ≠ []
  | .done => ¬s.AllOrNothing

variable {s t : Expiry α} {Handler : Bytes} {rest : List Bytes} {a : ExpiryLabel α}

theorem not_offCourse (hs : s.OnCourse) : ¬s.OffCourse := by
  obtain ⟨-, hcourse⟩ := hs
  unfold OffCourse
  cases hphase : s.phase with
  | start => exact id
  | reset => exact id
  | loop rest =>
    simp only [hphase] at hcourse
    exact fun h => h.2 (hcourse.2.2 h.1)
  | done =>
    simp only [hphase] at hcourse
    exact not_not_intro hcourse

theorem enqueueHandler_of_queued (hstrategy : s.timer.Strategy = .BestEffort)
    (h : isQueued s.timer.EventName s.mStateFunctionQueue = true) :
    s.enqueueHandler Handler rest =
      { s with timer := s.timer.Reset s.LastCompletionBeforeReset, phase := .done } := by
  simp only [enqueueHandler, enqueueFunctionCallFromCustomEvent, hstrategy, h, and_self, if_true]

theorem enqueueHandler_of_not_queued
    (h : isQueued s.timer.EventName s.mStateFunctionQueue = false) :
    s.enqueueHandler Handler rest =
      { s with
        mStateFunctionQueue := s.mStateFunctionQueue ++ [⟨Handler, [], s.timer.EventName⟩]
        enqueued := s.enqueued ++ [Handler]
        phase := .loop rest } := by
  simp only [enqueueHandler, enqueueFunctionCallFromCustomEvent, h, Bool.false_eq_true, and_false,
    if_false]

theorem step_cases (h : s.step a = some t) :
    (∃ checkedAt resetAt, a = .expire checkedAt resetAt ∧ s.expire checkedAt resetAt = some t) ∨
    (a = .lockStates ∧ s.phase = .reset ∧ t = { s with phase := .loop s.Handlers }) ∨
    (∃ Handler rest, a = .handler ∧ s.phase = .loop (Handler :: rest) ∧
      t = s.enqueueHandler Handler rest) ∨
    (a = .handler ∧ s.phase = .loop [] ∧ t = { s with phase := .done }) ∨
    ((∀ s : Expiry α, s.QueuedAsAtStart a) ∧
      ∃ queue, t = { s with mStateFunctionQueue := queue }) := by
  cases a with
  | expire checkedAt resetAt => exact .inl ⟨checkedAt, resetAt, rfl, h⟩
  | lockStates =>
    simp only [step] at h
    split_ifs at h with hphase
    exact .inr (.inl ⟨rfl, hphase, (Option.some.inj h).symm⟩)
  | handler =>
    simp only [step] at h
    split at h
    · next Handler rest hphase =>
      exact .inr (.inr (.inl ⟨Handler, rest, rfl, hphase, (Option.some.inj h).symm⟩))
    · next hphase =>
      exact .inr (.inr (.inr (.inl ⟨rfl, hphase, (Option.some.inj h).symm⟩)))
    · cases h
  | enqueueFunctionCall call =>
    simp only [step] at h
    split at h
    · cases h
    · exact .inr (.inr (.inr (.inr ⟨fun _ => trivial, _, (Option.some.inj h).symm⟩)))
  | takeCall =>
    simp only [step] at h
    split at h
    · cases h
    · exact .inr (.inr (.inr (.inr ⟨fun _ => trivial, _, (Option.some.inj h).symm⟩)))

theorem OnCourse.expire (hs : s.OnCourse) {checkedAt resetAt : ℤ}
    (h : s.expire checkedAt resetAt = some t) : t.OnCourse := by
  unfold Expiry.expire at h
  split_ifs at h with hexpired
  obtain rfl := Option.some.inj h
  obtain ⟨hstrategy, hcourse⟩ := hs
  simp only [hexpired.1] at hcourse
  exact ⟨hstrategy, hcourse, rfl⟩

theorem OnCourse.enqueueHandler (hs : s.OnCourse) (hphase : s.phase = .loop (Handler :: rest))
    (hguard : s.QueuedAsAtStart .handler) : (s.enqueueHandler Handler rest).OnCourse := by
  obtain ⟨hstrategy, hcourse⟩ := hs
  simp only [hphase] at hcourse
  obtain ⟨hhandlers, htime, hnone⟩ := hcourse
  simp only [QueuedAsAtStart, hphase] at hguard
  cases hstart : s.queuedAtStart with
  | true =>
    rw [enqueueHandler_of_queued hstrategy (hguard.trans hstart)]
    exact ⟨hstrategy, .inr ⟨hstart, hnone hstart, rfl⟩⟩
  | false =>
    rw [enqueueHandler_of_not_queued (hguard.trans hstart)]
    refine ⟨hstrategy, ?_, htime, fun h => ?_⟩
    · rw [List.append_assoc]
      exact hhandlers
    · exact absurd (hstart.symm.trans h) (by decide)

theorem OnCourse.step (hs : s.OnCourse) (hguard : s.QueuedAsAtStart a)
    (h : s.step a = some t) : t.OnCourse := by
  obtain ⟨checkedAt, resetAt, rfl, hexpire⟩ | ⟨rfl, hphase, rfl⟩ |
    ⟨Handler, rest, rfl, hphase, rfl⟩ | ⟨rfl, hphase, rfl⟩ | ⟨-, queue, rfl⟩ := step_cases h
  · exact hs.expire hexpire
  · obtain ⟨hstrategy, hcourse⟩ := hs
    simp only [hphase] at hcourse
    exact ⟨hstrategy, by rw [hcourse.1]; rfl, hcourse.2, fun _ => hcourse.1⟩
  · exact hs.enqueueHandler hphase hguard
  · obtain ⟨hstrategy, hcourse⟩ := hs
    simp only [hphase] at hcourse
    simp only [QueuedAsAtStart, hphase] at hguard
    obtain ⟨hhandlers, htime, hnone⟩ := hcourse
    refine ⟨hstrategy, ?_⟩
    rcases Bool.eq_false_or_eq_true s.queuedAtStart with hstart | hstart
    · exact .inr ⟨hstart, hnone hstart, htime.trans (hguard hstart)⟩
    · exact .inl ⟨hstart, by simpa using hhandlers, htime⟩
  · exact hs

theorem OnCourse.offCourse_of_step (hs : s.OnCourse) (hguard : ¬s.QueuedAsAtStart a)
    (h : s.step a = some t) : t.OffCourse := by
  obtain ⟨checkedAt, resetAt, rfl, -⟩ | ⟨rfl, -, -⟩ | ⟨Handler, rest, rfl, hphase, rfl⟩ |
    ⟨rfl, hphase, rfl⟩ | ⟨hfree, -⟩ := step_cases h
  · exact (hguard trivial).elim
  · exact (hguard trivial).elim
  · obtain ⟨hstrategy, hcourse⟩ := hs
    simp only [hphase] at hcourse
    simp only [QueuedAsAtStart, hphase] at hguard
    cases hqueued : isQueued s.timer.EventName s.mStateFunctionQueue with
    | true =>
      -- The loop ends with a handler left, although nothing was queued at the start.
      rw [hqueued] at hguard
      have hstart : s.queuedAtStart = false := Bool.eq_false_iff.mpr fun h => hguard h.symm
      rw [enqueueHandler_of_queued hstrategy hqueued]
      rintro (⟨-, hall, -⟩ | ⟨htrue, -⟩)
      · exact List.cons_ne_nil Handler rest
          (List.append_right_eq_self.mp (hcourse.1.trans hall.symm))
      · exact absurd (hstart.symm.trans htrue) (by decide)
    | false =>
      rw [hqueued] at hguard
      have hstart : s.queuedAtStart = true :=
        Bool.eq_true_of_not_eq_false fun h => hguard h.symm
      rw [enqueueHandler_of_not_queued hqueued]
      exact ⟨hstart, by simp⟩
  · obtain ⟨hstrategy, hcourse⟩ := hs
    simp only [hphase] at hcourse
    simp only [QueuedAsAtStart, hphase, not_forall] at hguard
    obtain ⟨hstart, hmoved⟩ := hguard
    rintro (⟨hfalse, -⟩ | ⟨-, -, hback⟩)
    · exact absurd (hstart.symm.trans hfalse) (by decide)
    · exact hmoved (hcourse.2.1.symm.trans hback)
  · exact (hguard (hfree s)).elim

theorem OffCourse.step (hs : s.OffCourse) (h : s.step a = some t) : t.OffCourse := by
  obtain ⟨checkedAt, resetAt, rfl, hexpire⟩ | ⟨rfl, hphase, rfl⟩ |
    ⟨Handler, rest, rfl, hphase, rfl⟩ | ⟨rfl, hphase, rfl⟩ | ⟨-, queue, rfl⟩ := step_cases h
  · unfold Expiry.expire at hexpire
    split_ifs at hexpire with hexpired
    simp only [OffCourse, hexpired.1] at hs
  · simp only [OffCourse, hphase] at hs
  · simp only [OffCourse, hphase] at hs
    obtain ⟨hstart, hsome⟩ := hs
    unfold Expiry.enqueueHandler
    split
    · exact ⟨hstart, by simp⟩
    · rintro (⟨hfalse, -⟩ | ⟨-, hnone, -⟩)
      · exact absurd (hstart.symm.trans hfalse) (by decide)
      · exact hsome hnone
  · simp only [OffCourse, hphase] at hs
    obtain ⟨hstart, hsome⟩ := hs
    rintro (⟨hfalse, -⟩ | ⟨-, hnone, -⟩)
    · exact absurd (hstart.symm.trans hfalse) (by decide)
    · exact hsome hnone
  · exact hs

theorem step_strategy (h : s.step a = some t) : t.timer.Strategy = s.timer.Strategy := by
  obtain ⟨checkedAt, resetAt, rfl, hexpire⟩ | ⟨rfl, hphase, rfl⟩ |
    ⟨Handler, rest, rfl, hphase, rfl⟩ | ⟨rfl, hphase, rfl⟩ | ⟨-, queue, rfl⟩ := step_cases h
  · unfold Expiry.expire at hexpire
    split_ifs at hexpire
    rw [← Option.some.inj hexpire]
    rfl
  · rfl
  · unfold Expiry.enqueueHandler
    split <;> rfl
  · rfl
  · rfl

def start (timer : EventTimer) (Handlers : List Bytes)
    (mStateFunctionQueue : List (QueuedFunction α)) : Expiry α :=
  { timer, Handlers, mStateFunctionQueue }

/-- An expiry of a `BestEffort` timer enqueues all handlers or nothing, as the queue was at its
start, if and only if every attempt to enqueue a handler finds the queue like that. -/
theorem allOrNothing_iff (timer : EventTimer) (hstrategy : timer.Strategy = .BestEffort)
    (Handlers : List Bytes) (mStateFunctionQueue : List (QueuedFunction α))
    (labels : List (ExpiryLabel α)) (t : Expiry α)
    (hrun : run step (start timer Handlers mStateFunctionQueue) labels = some t)
    (hdone : t.phase = .done) :
    t.AllOrNothing ↔
      Along step QueuedAsAtStart (start timer Handlers mStateFunctionQueue) labels := by
  have hdisj : ∀ s : Expiry α, s.OnCourse → ¬s.OffCourse := fun s hs => not_offCourse hs
  rw [along_iff_of_run hdisj (fun s a t hs hguard h => hs.step hguard h)
    (fun s a t hs hguard h => hs.offCourse_of_step hguard h) (fun s a t hs h => hs.step h)
    ⟨hstrategy, rfl⟩ hrun]
  constructor
  · intro hall
    have hkept : t.timer.Strategy = timer.Strategy :=
      run_invariant_of_step (I := fun s => s.timer.Strategy = timer.Strategy)
        (fun s a t hs h => (step_strategy h).trans hs) rfl hrun
    refine ⟨hkept.trans hstrategy, ?_⟩
    simp only [hdone]
    exact hall
  · rintro ⟨-, hcourse⟩
    simp only [hdone] at hcourse
    exact hcourse

/-- A timer of a microsecond that was created when the clock showed zero. -/
def sampleTimer : EventTimer where
  EventName := ascii "tick"
  StateId := ascii "state"
  Duration := 1000
  LastCompletion := 0
  Strategy := .BestEffort

/-- Two handlers are enqueued if the state thread takes the first call in between. -/
theorem allOrNothing_taken_in_between :
    ∃ t, run step (start sampleTimer [ascii "f", ascii "g"] ([] : List (QueuedFunction Unit)))
        [.expire 1000 1001, .lockStates, .handler, .takeCall, .handler, .handler] = some t ∧
      t.AllOrNothing := by
  refine ⟨_, rfl, (allOrNothing_iff sampleTimer rfl [ascii "f", ascii "g"] []
    [.expire 1000 1001, .lockStates, .handler, .takeCall, .handler, .handler] _ rfl rfl).mpr ?_⟩
  exact ⟨trivial, trivial, rfl, trivial, rfl, fun h => absurd h (by decide), trivial⟩

/-- The call of the first handler keeps the second one out of an empty queue, and the timer is
set back although a handler was enqueued. -/
theorem not_allOrNothing :
    ∃ t, run step (start sampleTimer [ascii "f", ascii "g"] ([] : List (QueuedFunction Unit)))
        [.expire 1000 1001, .lockStates, .handler, .handler] = some t ∧
      t.phase = .done ∧ t.queuedAtStart = false ∧ t.enqueued = [ascii "f"] ∧
      t.timer.LastCompletion = 0 ∧ ¬t.AllOrNothing :=
  ⟨_, rfl, rfl, rfl, rfl, rfl, by decide⟩

end Expiry
end BeamMP
