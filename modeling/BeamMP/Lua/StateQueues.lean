import BeamMP.Foundation.Alternation
import BeamMP.Foundation.Locals
import BeamMP.Lua.TimedEvents

/-!
# The queues of the Lua states

Every Lua state has a thread, which takes scripts out of one queue and calls out of
another, at most one script and one call in each round of its loop. Any thread can
append to the queues. A result is made when a script or a call is accepted, and the
thread of the state marks it ready when it has run it.
-/
namespace BeamMP

open Execution WorkQueues

/-- `BeamMPFnNotFoundError`. -/
def fnNotFoundError : Bytes := ascii "BEAMMP_FN_NOT_FOUND"

structure TLuaChunk where
  Content : Bytes
  FileName : Bytes
  PluginPath : Bytes
deriving DecidableEq

inductive CallOutcome
  | success
  | error (ErrorMessage : Bytes)
deriving DecidableEq

structure Queued (β : Type) where
  value : β
  Result : ℕ
deriving DecidableEq

/-- How far the thread of a state has come in a round of its loop. -/
inductive StatePhase
  | loopHead
  | stateExecuteQueue
  | script
  | stateFunctionQueue
  | function
  | exited
deriving DecidableEq

/-- The queues of a state and its thread. -/
structure StateThreadData (α : Type) where
  mStateExecuteQueue : WorkQueue (Queued TLuaChunk) := {}
  mStateFunctionQueue : WorkQueue (Queued (QueuedFunction α)) := {}
  phase : StatePhase := .loopHead
deriving DecidableEq

/-- What the thread of a state does next. A script ends with an outcome; so does a call, for which
there is none if the name is not that of a function. -/
inductive ThreadLabel
  | checkShutdown
  | takeScript
  | finishScript (Res : CallOutcome)
  | takeCall
  | waitExpired
  | finishCall (Fn : Option CallOutcome)
deriving DecidableEq

namespace StateThreadData

variable {α : Type} (d : StateThreadData α)

/-- A step of `operator()`, with the result it marks as ready and what it marks it with. The wait
for a call ends without one only if the queue is empty. -/
def step (isShuttingDown : Bool) :
    ThreadLabel → Option (StateThreadData α × Option (ℕ × CallOutcome))
  | .checkShutdown =>
    if d.phase = .loopHead then
      some ({ d with phase := if isShuttingDown then .exited else .stateExecuteQueue }, none)
    else none
  | .takeScript =>
    if d.phase = .stateExecuteQueue then
      match d.mStateExecuteQueue.take with
      | some q => some ({ d with mStateExecuteQueue := q, phase := .script }, none)
      | none => some ({ d with phase := .stateFunctionQueue }, none)
    else none
  | .finishScript Res =>
    if d.phase = .script then
      some ({ d with
          mStateExecuteQueue := d.mStateExecuteQueue.finish
          phase := .stateFunctionQueue },
        d.mStateExecuteQueue.current.map fun S => (S.Result, Res))
    else none
  | .takeCall =>
    if d.phase = .stateFunctionQueue then
      d.mStateFunctionQueue.take.map fun q =>
        ({ d with mStateFunctionQueue := q, phase := .function }, none)
    else none
  | .waitExpired =>
    if d.phase = .stateFunctionQueue ∧ d.mStateFunctionQueue.waiting = [] then
      some ({ d with phase := .loopHead }, none)
    else none
  | .finishCall Fn =>
    if d.phase = .function then
      some ({ d with
          mStateFunctionQueue := d.mStateFunctionQueue.finish
          phase := .loopHead },
        d.mStateFunctionQueue.current.map fun TheQueuedFunction =>
          (TheQueuedFunction.Result, Fn.getD (.error fnNotFoundError)))
    else none

def enqueueScript (Script : TLuaChunk) (Result : ℕ) : StateThreadData α :=
  { d with mStateExecuteQueue := d.mStateExecuteQueue.push ⟨Script, Result⟩ }

def enqueueFunctionCall (call : QueuedFunction α) (Result : ℕ) : StateThreadData α :=
  { d with mStateFunctionQueue := d.mStateFunctionQueue.push ⟨call, Result⟩ }

/-- `EnqueueFunctionCallFromCustomEvent`, with `none` for the null pointer. -/
def enqueueFunctionCallFromCustomEvent (call : QueuedFunction α) (Strategy : CallStrategy)
    (Result : ℕ) : Option (StateThreadData α) :=
  if Strategy = .BestEffort ∧
      isQueued call.EventName (d.mStateFunctionQueue.waiting.map Queued.value) then none
  else some (d.enqueueFunctionCall call Result)

/-- The queue becomes that of the expiry of a timer. -/
theorem enqueueFunctionCallFromCustomEvent_waiting (call : QueuedFunction α)
    (Strategy : CallStrategy) (Result : ℕ) :
    (d.enqueueFunctionCallFromCustomEvent call Strategy Result).map
        (fun d' => d'.mStateFunctionQueue.waiting.map Queued.value) =
      BeamMP.enqueueFunctionCallFromCustomEvent call.FunctionName call.Args call.EventName Strategy
        (d.mStateFunctionQueue.waiting.map Queued.value) := by
  unfold enqueueFunctionCallFromCustomEvent BeamMP.enqueueFunctionCallFromCustomEvent
  split_ifs with hrefused
  · rfl
  · simp [enqueueFunctionCall]

def tickets : List ℕ :=
  d.mStateExecuteQueue.accepted.map Queued.Result ++
    d.mStateFunctionQueue.accepted.map Queued.Result

def readyTickets : List ℕ :=
  d.mStateExecuteQueue.finished.map Queued.Result ++
    d.mStateFunctionQueue.finished.map Queued.Result

/-- The thread as a consumer that alternates between its queues. -/
def alternation : Alternation (Queued TLuaChunk) (Queued (QueuedFunction α)) where
  first := d.mStateExecuteQueue
  second := d.mStateFunctionQueue
  turn :=
    match d.phase with
    | .loopHead | .stateExecuteQueue | .exited => .first
    | .script => .firstBusy
    | .stateFunctionQueue => .second
    | .function => .secondBusy

/-- Both queues are in order, and the thread has something in hand only while it runs it. -/
def InOrder : Prop := d.alternation.InOrder

variable {d} {d' : StateThreadData α} {isShuttingDown : Bool} {a : ThreadLabel}
  {marked : Option (ℕ × CallOutcome)}

theorem step_cases (h : d.step isShuttingDown a = some (d', marked)) :
    (marked = none ∧ d.phase = .loopHead ∧
      ∃ phase, (phase = .exited ∨ phase = .stateExecuteQueue) ∧ d' = { d with phase }) ∨
    (marked = none ∧ d.phase = .stateExecuteQueue ∧
      ∃ q, d.mStateExecuteQueue.take = some q ∧
        d' = { d with mStateExecuteQueue := q, phase := .script }) ∨
    (marked = none ∧ d.phase = .stateExecuteQueue ∧ d.mStateExecuteQueue.waiting = [] ∧
      d' = { d with phase := .stateFunctionQueue }) ∨
    (d.phase = .script ∧
      (∃ Res, marked = d.mStateExecuteQueue.current.map fun S => (S.Result, Res)) ∧
      d' = { d with
        mStateExecuteQueue := d.mStateExecuteQueue.finish
        phase := .stateFunctionQueue }) ∨
    (marked = none ∧ d.phase = .stateFunctionQueue ∧
      ∃ q, d.mStateFunctionQueue.take = some q ∧
        d' = { d with mStateFunctionQueue := q, phase := .function }) ∨
    (marked = none ∧ d.phase = .stateFunctionQueue ∧ d.mStateFunctionQueue.waiting = [] ∧
      d' = { d with phase := .loopHead }) ∨
    (d.phase = .function ∧
      (∃ Res, marked = d.mStateFunctionQueue.current.map fun S => (S.Result, Res)) ∧
      d' = { d with
        mStateFunctionQueue := d.mStateFunctionQueue.finish
        phase := .loopHead }) := by
  cases a with
  | checkShutdown =>
    simp only [step] at h
    split_ifs at h with hphase hdown
    all_goals
      obtain ⟨rfl, rfl⟩ := Prod.mk.inj (Option.some.inj h)
      exact .inl ⟨rfl, hphase, _, by simp, rfl⟩
  | takeScript =>
    simp only [step] at h
    split_ifs at h with hphase
    cases htake : d.mStateExecuteQueue.take with
    | some q =>
      rw [htake] at h
      obtain ⟨rfl, rfl⟩ := Prod.mk.inj (Option.some.inj h)
      exact .inr (.inl ⟨rfl, hphase, q, rfl, rfl⟩)
    | none =>
      rw [htake] at h
      obtain ⟨rfl, rfl⟩ := Prod.mk.inj (Option.some.inj h)
      exact .inr (.inr (.inl ⟨rfl, hphase, WorkQueue.take_eq_none_iff.mp htake, rfl⟩))
  | finishScript Res =>
    simp only [step] at h
    split_ifs at h with hphase
    obtain ⟨rfl, rfl⟩ := Prod.mk.inj (Option.some.inj h)
    exact .inr (.inr (.inr (.inl ⟨hphase, ⟨_, rfl⟩, rfl⟩)))
  | takeCall =>
    simp only [step] at h
    split_ifs at h with hphase
    obtain ⟨q, htake, hq⟩ := Option.map_eq_some_iff.mp h
    obtain ⟨rfl, rfl⟩ := Prod.mk.inj hq
    exact .inr (.inr (.inr (.inr (.inl ⟨rfl, hphase, q, htake, rfl⟩))))
  | waitExpired =>
    simp only [step] at h
    split_ifs at h with hphase
    obtain ⟨rfl, rfl⟩ := Prod.mk.inj (Option.some.inj h)
    exact .inr (.inr (.inr (.inr (.inr (.inl ⟨rfl, hphase.1, hphase.2, rfl⟩)))))
  | finishCall Fn =>
    simp only [step] at h
    split_ifs at h with hphase
    obtain ⟨rfl, rfl⟩ := Prod.mk.inj (Option.some.inj h)
    exact .inr (.inr (.inr (.inr (.inr (.inr ⟨hphase, ⟨_, rfl⟩, rfl⟩)))))

theorem inOrder_empty : InOrder ({} : StateThreadData α) :=
  ⟨WorkQueue.inOrder_empty, WorkQueue.inOrder_empty, fun _ => rfl, fun _ => rfl⟩

theorem alternation_step (h : d.step isShuttingDown a = some (d', marked)) :
    Alternation.Step d.alternation d'.alternation := by
  have hturn : ∀ phase, d.phase = phase →
      d.alternation = ({ d with phase } : StateThreadData α).alternation := by
    rintro _ rfl
    rfl
  obtain ⟨-, hphase, phase, hnew, rfl⟩ | ⟨-, hphase, q, htake, rfl⟩ |
    ⟨-, hphase, hempty, rfl⟩ | ⟨hphase, -, rfl⟩ | ⟨-, hphase, q, htake, rfl⟩ |
    ⟨-, hphase, hempty, rfl⟩ | ⟨hphase, -, rfl⟩ := step_cases h
  all_goals rw [hturn _ hphase]
  · rcases hnew with rfl | rfl <;> exact .idle _
  · exact .takeFirst _ q rfl htake
  · exact .skipFirst _ rfl hempty
  · exact .finishFirst _ rfl
  · exact .takeSecond _ q rfl htake
  · exact .skipSecond _ rfl hempty
  · exact .finishSecond _ rfl

theorem InOrder.step (hd : d.InOrder) (h : d.step isShuttingDown a = some (d', marked)) :
    d'.InOrder := Alternation.InOrder.step hd (alternation_step h)

theorem tickets_step (h : d.step isShuttingDown a = some (d', marked)) :
    d'.tickets = d.tickets := by
  obtain ⟨-, -, phase, -, rfl⟩ | ⟨-, -, q, htake, rfl⟩ | ⟨-, -, -, rfl⟩ | ⟨-, -, rfl⟩ |
    ⟨-, -, q, htake, rfl⟩ | ⟨-, -, -, rfl⟩ | ⟨-, -, rfl⟩ := step_cases h
  · rfl
  · simp only [tickets, WorkQueue.accepted_take htake]
  · rfl
  · rfl
  · simp only [tickets, WorkQueue.accepted_take htake]
  · rfl
  · rfl

theorem InOrder.script_unready (hd : d.InOrder) (hnodup : d.tickets.Nodup) {S : Queued TLuaChunk}
    (hS : d.mStateExecuteQueue.current = some S) :
    S.Result ∈ d.tickets ∧ S.Result ∉ d.readyTickets := by
  obtain ⟨hscripts, -, hapart⟩ := List.nodup_append.mp hnodup
  have hmem : S.Result ∈ d.mStateExecuteQueue.accepted.map Queued.Result :=
    List.mem_map_of_mem (hd.first.current_mem hS)
  refine ⟨List.mem_append_left _ hmem, fun hready => ?_⟩
  rcases List.mem_append.mp hready with hscript | hcall
  · exact hd.first.current_not_mem Queued.Result hscripts hS hscript
  · exact hapart _ hmem _ (List.map_subset _ hd.second.finished_subset hcall) rfl

theorem InOrder.call_unready (hd : d.InOrder) (hnodup : d.tickets.Nodup)
    {S : Queued (QueuedFunction α)} (hS : d.mStateFunctionQueue.current = some S) :
    S.Result ∈ d.tickets ∧ S.Result ∉ d.readyTickets := by
  obtain ⟨-, hcalls, hapart⟩ := List.nodup_append.mp hnodup
  have hmem : S.Result ∈ d.mStateFunctionQueue.accepted.map Queued.Result :=
    List.mem_map_of_mem (hd.second.current_mem hS)
  refine ⟨List.mem_append_right _ hmem, fun hready => ?_⟩
  rcases List.mem_append.mp hready with hscript | hcall
  · exact hapart _ (List.map_subset _ hd.first.finished_subset hscript) _ hmem rfl
  · exact hd.second.current_not_mem Queued.Result hcalls hS hcall

theorem InOrder.readyTickets_subset (hd : d.InOrder) : d.readyTickets ⊆ d.tickets := by
  intro r hr
  rcases List.mem_append.mp hr with hscript | hcall
  · exact List.mem_append_left _ (List.map_subset _ hd.first.finished_subset hscript)
  · exact List.mem_append_right _ (List.map_subset _ hd.second.finished_subset hcall)

theorem mem_map_finish {β : Type} {q : WorkQueue (Queued β)} {r : ℕ} :
    r ∈ q.finish.finished.map Queued.Result ↔
      r ∈ q.finished.map Queued.Result ∨ r ∈ q.current.map Queued.Result := by
  simp [WorkQueue.finish]

/-- A step marks at most one result, which is one of the state that was not ready. -/
theorem readyTickets_step (hd : d.InOrder) (hnodup : d.tickets.Nodup)
    (h : d.step isShuttingDown a = some (d', marked)) :
    (∀ r, r ∈ d'.readyTickets ↔ r ∈ d.readyTickets ∨ r ∈ marked.map Prod.fst) ∧
      ∀ m ∈ marked, m.1 ∈ d.tickets ∧ m.1 ∉ d.readyTickets := by
  obtain ⟨rfl, -, phase, -, rfl⟩ | ⟨rfl, -, q, htake, rfl⟩ | ⟨rfl, -, -, rfl⟩ |
    ⟨-, ⟨Res, rfl⟩, rfl⟩ | ⟨rfl, -, q, htake, rfl⟩ | ⟨rfl, -, -, rfl⟩ | ⟨-, ⟨Res, rfl⟩, rfl⟩ :=
    step_cases h
  · simp [readyTickets]
  · simp [readyTickets, WorkQueue.finished_take htake]
  · simp [readyTickets]
  · constructor
    · intro r
      simp only [readyTickets, List.mem_append, mem_map_finish, Option.map_map]
      exact or_right_comm
    · rintro m hm
      obtain ⟨S, hS, rfl⟩ := Option.map_eq_some_iff.mp hm
      exact hd.script_unready hnodup hS
  · simp [readyTickets, WorkQueue.finished_take htake]
  · simp [readyTickets]
  · constructor
    · intro r
      simp only [readyTickets, List.mem_append, mem_map_finish, Option.map_map]
      exact or_assoc.symm
    · rintro m hm
      obtain ⟨S, hS, rfl⟩ := Option.map_eq_some_iff.mp hm
      exact hd.call_unready hnodup hS

end StateThreadData

/-- The states of the engine and the results it has made, with the outcomes of those that are
ready. -/
structure LuaQueues (α : Type) where
  mLuaStates : TLuaStateId → Option (StateThreadData α)
  results : ℕ → Option CallOutcome
  nextResult : ℕ
  isShuttingDown : Bool

inductive QueueLabel (α : Type)
  | ensureStateExists (StateId : TLuaStateId)
  | enqueueScript (StateID : TLuaStateId) (Script : TLuaChunk)
  | enqueueFunctionCall (StateID : TLuaStateId) (call : QueuedFunction α)
  | enqueueFunctionCallFromCustomEvent (StateID : TLuaStateId) (call : QueuedFunction α)
      (Strategy : CallStrategy)
  | thread (StateId : TLuaStateId) (a : ThreadLabel)
  | setShutdown
deriving DecidableEq

namespace LuaQueues

variable {α : Type} (s : LuaQueues α)

def start (α : Type) : LuaQueues α where
  mLuaStates _ := none
  results _ := none
  nextResult := 0
  isShuttingDown := false

def setState (StateId : TLuaStateId) (d : StateThreadData α) : LuaQueues α :=
  { s with mLuaStates := Locals.enter s.mLuaStates StateId d }

def accept (StateID : TLuaStateId) (d : StateThreadData α) : LuaQueues α :=
  { s.setState StateID d with nextResult := s.nextResult + 1 }

def markReady : Option (ℕ × CallOutcome) → LuaQueues α
  | none => s
  | some (Result, outcome) => { s with results := Function.update s.results Result (some outcome) }

def step : QueueLabel α → Option (LuaQueues α)
  | .ensureStateExists StateId =>
    match s.mLuaStates StateId with
    | some _ => some s
    | none => some (s.setState StateId {})
  | .enqueueScript StateID Script =>
    (s.mLuaStates StateID).map fun d =>
      s.accept StateID (d.enqueueScript Script s.nextResult)
  | .enqueueFunctionCall StateID call =>
    (s.mLuaStates StateID).map fun d =>
      s.accept StateID (d.enqueueFunctionCall call s.nextResult)
  | .enqueueFunctionCallFromCustomEvent StateID call Strategy =>
    (s.mLuaStates StateID).map fun d =>
      match d.enqueueFunctionCallFromCustomEvent call Strategy s.nextResult with
      | some d' => s.accept StateID d'
      | none => s
  | .thread StateId a =>
    (s.mLuaStates StateId).bind fun d =>
      (d.step s.isShuttingDown a).map fun r => (s.setState StateId r.1).markReady r.2
  | .setShutdown => some { s with isShuttingDown := true }

/-- The results of the states are different ones, and those are ready whose scripts and calls are
finished. -/
structure Sound : Prop where
  inOrder : ∀ StateId d, s.mLuaStates StateId = some d → d.InOrder
  nodup : ∀ StateId d, s.mLuaStates StateId = some d → d.tickets.Nodup
  made : ∀ StateId d, s.mLuaStates StateId = some d → ∀ r ∈ d.tickets, r < s.nextResult
  apart : ∀ StateId StateId' d d', s.mLuaStates StateId = some d →
    s.mLuaStates StateId' = some d' → StateId ≠ StateId' → ∀ r ∈ d.tickets, r ∉ d'.tickets
  ready : ∀ r, (s.results r).isSome ↔
    ∃ StateId d, s.mLuaStates StateId = some d ∧ r ∈ d.readyTickets

variable {s} {t : LuaQueues α} {StateId : TLuaStateId} {d d' : StateThreadData α}
  {l : QueueLabel α}

theorem sound_start : (start α).Sound := by
  constructor <;> simp [start]

theorem Sound.ensureStateExists (hs : s.Sound) (hnone : s.mLuaStates StateId = none) :
    (s.setState StateId {}).Sound where
  inOrder StateId' d h := by
    obtain ⟨-, rfl⟩ | ⟨-, h⟩ := Locals.enter_eq_some_iff.mp h
    · exact StateThreadData.inOrder_empty
    · exact hs.inOrder StateId' d h
  nodup StateId' d h := by
    obtain ⟨-, rfl⟩ | ⟨-, h⟩ := Locals.enter_eq_some_iff.mp h
    · exact List.nodup_nil
    · exact hs.nodup StateId' d h
  made StateId' d h r hr := by
    obtain ⟨-, rfl⟩ | ⟨-, h⟩ := Locals.enter_eq_some_iff.mp h
    · exact absurd hr List.not_mem_nil
    · exact hs.made StateId' d h r hr
  apart StateId' StateId'' d d' h h' hne r hr := by
    obtain ⟨-, rfl⟩ | ⟨-, h⟩ := Locals.enter_eq_some_iff.mp h
    · exact absurd hr List.not_mem_nil
    · obtain ⟨-, rfl⟩ | ⟨-, h'⟩ := Locals.enter_eq_some_iff.mp h'
      · exact List.not_mem_nil
      · exact hs.apart StateId' StateId'' d d' h h' hne r hr
  ready r := by
    rw [setState, hs.ready r]
    constructor
    · rintro ⟨StateId', d, h, hr⟩
      refine ⟨StateId', d, Locals.enter_eq_some_iff.mpr (.inr ⟨?_, h⟩), hr⟩
      rintro rfl
      exact absurd (hnone.symm.trans h) (by simp)
    · rintro ⟨StateId', d, h, hr⟩
      obtain ⟨-, rfl⟩ | ⟨-, h⟩ := Locals.enter_eq_some_iff.mp h
      · exact absurd hr List.not_mem_nil
      · exact ⟨StateId', d, h, hr⟩

/-- A result of a state is ready if and only if the thread of that state is done with it. -/
theorem Sound.ready_iff (hs : s.Sound) (hd : s.mLuaStates StateId = some d) {r : ℕ}
    (hr : r ∈ d.tickets) : (s.results r).isSome ↔ r ∈ d.readyTickets := by
  rw [hs.ready r]
  constructor
  · rintro ⟨StateId', d', hd', hr'⟩
    have hmem : r ∈ d'.tickets := (hs.inOrder StateId' d' hd').readyTickets_subset hr'
    obtain rfl : StateId = StateId' := by
      by_contra hne
      exact hs.apart StateId StateId' d d' hd hd' hne r hr hmem
    obtain rfl := Option.some.inj (hd.symm.trans hd')
    exact hr'
  · exact fun hr => ⟨StateId, d, hd, hr⟩

theorem Sound.update (hs : s.Sound) (hd : s.mLuaStates StateId = some d)
    (hstates : t.mLuaStates = Locals.enter s.mLuaStates StateId d')
    (hnext : s.nextResult ≤ t.nextResult) (hinOrder : d'.InOrder) (hnodup : d'.tickets.Nodup)
    (hnew : ∀ r ∈ d'.tickets, r ∈ d.tickets ∨ s.nextResult ≤ r ∧ r < t.nextResult)
    (hready : ∀ r, (t.results r).isSome ↔
      r ∈ d'.readyTickets ∨ (s.results r).isSome ∧ r ∉ d.tickets) : t.Sound := by
  have hold : ∀ StateId' d₁, StateId' ≠ StateId → s.mLuaStates StateId' = some d₁ →
      ∀ r ∈ d₁.tickets, r ∉ d'.tickets := by
    intro StateId' d₁ hne h r hr hmem
    rcases hnew r hmem with hmem | ⟨hge, -⟩
    · exact hs.apart StateId' StateId d₁ d h hd hne r hr hmem
    · exact absurd (hs.made StateId' d₁ h r hr) (Nat.not_lt.mpr hge)
  constructor
  · intro StateId' d₁ h
    rw [hstates] at h
    obtain ⟨-, rfl⟩ | ⟨-, h⟩ := Locals.enter_eq_some_iff.mp h
    · exact hinOrder
    · exact hs.inOrder StateId' d₁ h
  · intro StateId' d₁ h
    rw [hstates] at h
    obtain ⟨-, rfl⟩ | ⟨-, h⟩ := Locals.enter_eq_some_iff.mp h
    · exact hnodup
    · exact hs.nodup StateId' d₁ h
  · intro StateId' d₁ h r hr
    rw [hstates] at h
    obtain ⟨-, rfl⟩ | ⟨-, h⟩ := Locals.enter_eq_some_iff.mp h
    · rcases hnew r hr with hmem | ⟨-, hlt⟩
      · exact (hs.made StateId d hd r hmem).trans_le hnext
      · exact hlt
    · exact (hs.made StateId' d₁ h r hr).trans_le hnext
  · intro StateId₁ StateId₂ d₁ d₂ h₁ h₂ hne r hr
    rw [hstates] at h₁ h₂
    obtain ⟨rfl, rfl⟩ | ⟨hne₁, hold₁⟩ := Locals.enter_eq_some_iff.mp h₁
    · obtain ⟨rfl, rfl⟩ | ⟨hne₂, hold₂⟩ := Locals.enter_eq_some_iff.mp h₂
      · exact absurd rfl hne
      · exact fun hmem => hold StateId₂ d₂ hne₂ hold₂ r hmem hr
    · obtain ⟨rfl, rfl⟩ | ⟨hne₂, hold₂⟩ := Locals.enter_eq_some_iff.mp h₂
      · exact hold StateId₁ d₁ hne₁ hold₁ r hr
      · exact hs.apart StateId₁ StateId₂ d₁ d₂ hold₁ hold₂ hne r hr
  · intro r
    rw [hready r, hs.ready r, hstates]
    constructor
    · rintro (hr | ⟨⟨StateId', d₁, h, hr⟩, hnot⟩)
      · exact ⟨StateId, d', Locals.enter_self, hr⟩
      · refine ⟨StateId', d₁, (Locals.enter_of_ne ?_).trans h, hr⟩
        rintro rfl
        obtain rfl := Option.some.inj (hd.symm.trans h)
        exact hnot ((hs.inOrder StateId' d hd).readyTickets_subset hr)
    · rintro ⟨StateId', d₁, h, hr⟩
      obtain ⟨-, rfl⟩ | ⟨hne, h⟩ := Locals.enter_eq_some_iff.mp h
      · exact .inl hr
      · have hmem : r ∈ d₁.tickets := (hs.inOrder StateId' d₁ h).readyTickets_subset hr
        exact .inr ⟨⟨StateId', d₁, h, hr⟩, hs.apart StateId' StateId d₁ d h hd hne r hmem⟩

structure Accepts (d d' : StateThreadData α) (Result : ℕ) : Prop where
  inOrder : d.InOrder → d'.InOrder
  tickets : d'.tickets.Perm (Result :: d.tickets)
  readyTickets : d'.readyTickets = d.readyTickets

theorem accepts_enqueueScript (d : StateThreadData α) (Script : TLuaChunk) (Result : ℕ) :
    Accepts d (d.enqueueScript Script Result) Result where
  inOrder hd := Alternation.InOrder.step hd (.pushFirst _ _)
  tickets := by
    simp only [StateThreadData.tickets, StateThreadData.enqueueScript, WorkQueue.accepted_push,
      List.map_append, List.map_cons, List.map_nil, List.append_assoc]
    exact List.perm_middle
  readyTickets := rfl

theorem accepts_enqueueFunctionCall (d : StateThreadData α) (call : QueuedFunction α)
    (Result : ℕ) : Accepts d (d.enqueueFunctionCall call Result) Result where
  inOrder hd := Alternation.InOrder.step hd (.pushSecond _ _)
  tickets := by
    simp only [StateThreadData.tickets, StateThreadData.enqueueFunctionCall,
      WorkQueue.accepted_push, List.map_append, List.map_cons, List.map_nil, ← List.append_assoc]
    exact List.perm_append_singleton _ _
  readyTickets := rfl

theorem Sound.accept (hs : s.Sound) (hd : s.mLuaStates StateId = some d)
    (haccepts : Accepts d d' s.nextResult) : (s.accept StateId d').Sound := by
  have hmade := hs.made StateId d hd
  refine hs.update hd rfl (Nat.le_succ _) (haccepts.inOrder (hs.inOrder StateId d hd)) ?_ ?_ ?_
  · rw [haccepts.tickets.nodup_iff, List.nodup_cons]
    exact ⟨fun hmem => absurd (hmade _ hmem) (Nat.lt_irrefl _), hs.nodup StateId d hd⟩
  · intro r hr
    rcases List.mem_cons.mp (haccepts.tickets.mem_iff.mp hr) with rfl | hmem
    · exact .inr ⟨Nat.le_refl _, Nat.lt_succ_self _⟩
    · exact .inl hmem
  · intro r
    have hresults : (s.accept StateId d').results = s.results := rfl
    rw [haccepts.readyTickets, hresults]
    by_cases hmem : r ∈ d.tickets
    · simpa [hmem] using hs.ready_iff hd hmem
    · have hnot : r ∉ d.readyTickets := fun hr =>
        hmem ((hs.inOrder StateId d hd).readyTickets_subset hr)
      simp [hmem, hnot]

theorem isSome_markReady (marked : Option (ℕ × CallOutcome)) (r : ℕ) :
    ((s.markReady marked).results r).isSome ↔
      r ∈ marked.map Prod.fst ∨ (s.results r).isSome := by
  cases marked with
  | none => simp [markReady]
  | some m =>
    by_cases hr : r = m.1
    · simp [markReady, hr]
    · simp [markReady, hr, Ne.symm hr]

theorem mLuaStates_markReady (marked : Option (ℕ × CallOutcome)) :
    (s.markReady marked).mLuaStates = s.mLuaStates := by
  cases marked <;> rfl

theorem nextResult_markReady (marked : Option (ℕ × CallOutcome)) :
    (s.markReady marked).nextResult = s.nextResult := by
  cases marked <;> rfl

theorem Sound.thread (hs : s.Sound) (hd : s.mLuaStates StateId = some d) {a : ThreadLabel}
    {marked : Option (ℕ × CallOutcome)}
    (h : d.step s.isShuttingDown a = some (d', marked)) :
    ((s.setState StateId d').markReady marked).Sound := by
  have htickets := StateThreadData.tickets_step h
  obtain ⟨hready, hmarked⟩ := StateThreadData.readyTickets_step (hs.inOrder StateId d hd)
    (hs.nodup StateId d hd) h
  refine hs.update hd (mLuaStates_markReady _)
    (nextResult_markReady (s := s.setState StateId d') _).ge ((hs.inOrder StateId d hd).step h)
    (htickets ▸ hs.nodup StateId d hd) ?_ ?_
  · exact fun r hr => .inl (htickets ▸ hr)
  · intro r
    rw [isSome_markReady, hready r]
    by_cases hmem : r ∈ d.tickets
    · simp only [setState, hs.ready_iff hd hmem, hmem, not_true_eq_false, and_false, or_false]
      exact or_comm
    · have hnot : r ∉ d.readyTickets := fun hr =>
        hmem ((hs.inOrder StateId d hd).readyTickets_subset hr)
      have hother : r ∉ marked.map Prod.fst := by
        rintro hr
        obtain ⟨m, hm, rfl⟩ := Option.map_eq_some_iff.mp hr
        exact hmem (hmarked m hm).1
      simp [setState, hmem, hnot, hother]

theorem Sound.step (hs : s.Sound) (h : s.step l = some t) : t.Sound := by
  cases l with
  | ensureStateExists StateId =>
    simp only [LuaQueues.step] at h
    cases hstate : s.mLuaStates StateId with
    | some d =>
      rw [hstate] at h
      obtain rfl := Option.some.inj h
      exact hs
    | none =>
      rw [hstate] at h
      obtain rfl := Option.some.inj h
      exact hs.ensureStateExists hstate
  | enqueueScript StateID Script =>
    obtain ⟨d, hd, rfl⟩ := Option.map_eq_some_iff.mp h
    exact hs.accept hd (accepts_enqueueScript d Script s.nextResult)
  | enqueueFunctionCall StateID call =>
    obtain ⟨d, hd, rfl⟩ := Option.map_eq_some_iff.mp h
    exact hs.accept hd (accepts_enqueueFunctionCall d call s.nextResult)
  | enqueueFunctionCallFromCustomEvent StateID call Strategy =>
    obtain ⟨d, hd, rfl⟩ := Option.map_eq_some_iff.mp h
    unfold StateThreadData.enqueueFunctionCallFromCustomEvent
    split_ifs with hrefused
    · exact hs
    · exact hs.accept hd (accepts_enqueueFunctionCall d call s.nextResult)
  | thread StateId a =>
    obtain ⟨d, hd, hstep⟩ := Option.bind_eq_some_iff.mp h
    obtain ⟨⟨d', marked⟩, hthread, rfl⟩ := Option.map_eq_some_iff.mp hstep
    exact hs.thread hd hthread
  | setShutdown =>
    obtain rfl := Option.some.inj h
    exact ⟨hs.inOrder, hs.nodup, hs.made, hs.apart, hs.ready⟩

theorem Sound.of_run (hs : s.Sound) {labels : List (QueueLabel α)}
    (hrun : run LuaQueues.step s labels = some t) : t.Sound :=
  run_invariant_of_step (fun _ _ _ hs h => hs.step h) hs hrun

theorem Sound.results_step (hs : s.Sound) (h : s.step l = some t) {r : ℕ} {outcome : CallOutcome}
    (hr : s.results r = some outcome) : t.results r = some outcome := by
  cases l with
  | ensureStateExists StateId =>
    simp only [LuaQueues.step] at h
    cases hstate : s.mLuaStates StateId with
    | some d =>
      rw [hstate] at h
      rwa [← Option.some.inj h]
    | none =>
      rw [hstate] at h
      rw [← Option.some.inj h]
      exact hr
  | enqueueScript StateID Script =>
    obtain ⟨d, -, rfl⟩ := Option.map_eq_some_iff.mp h
    exact hr
  | enqueueFunctionCall StateID call =>
    obtain ⟨d, -, rfl⟩ := Option.map_eq_some_iff.mp h
    exact hr
  | enqueueFunctionCallFromCustomEvent StateID call Strategy =>
    obtain ⟨d, -, rfl⟩ := Option.map_eq_some_iff.mp h
    split <;> exact hr
  | thread StateId a =>
    obtain ⟨d, hd, hstep⟩ := Option.bind_eq_some_iff.mp h
    obtain ⟨⟨d', marked⟩, hthread, rfl⟩ := Option.map_eq_some_iff.mp hstep
    obtain ⟨-, hmarked⟩ := StateThreadData.readyTickets_step (hs.inOrder StateId d hd)
      (hs.nodup StateId d hd) hthread
    cases marked with
    | none => exact hr
    | some m =>
      obtain ⟨hmem, hnot⟩ := hmarked m rfl
      have hne : r ≠ m.1 := by
        rintro rfl
        exact hnot ((hs.ready_iff hd hmem).mp (hr ▸ rfl))
      exact (Function.update_of_ne hne _ _).trans hr
  | setShutdown =>
    obtain rfl := Option.some.inj h
    exact hr

theorem Sound.results_run (hs : s.Sound) {labels : List (QueueLabel α)}
    (hrun : run LuaQueues.step s labels = some t) {r : ℕ} {outcome : CallOutcome}
    (hr : s.results r = some outcome) : t.results r = some outcome :=
  (run_invariant_of_step (I := fun s : LuaQueues α => s.Sound ∧ s.results r = some outcome)
    (fun _ _ _ hs h => ⟨hs.1.step h, hs.1.results_step h hs.2⟩) ⟨hs, hr⟩ hrun).2

theorem alternation_of_step (h : s.step l = some t) (hd : s.mLuaStates StateId = some d) :
    ∃ d', t.mLuaStates StateId = some d' ∧ Alternation.Step d.alternation d'.alternation := by
  have hset : ∀ StateId₁ d₁ d₁', s.mLuaStates StateId₁ = some d₁ →
      Alternation.Step d₁.alternation d₁'.alternation →
      ∃ d', Locals.enter s.mLuaStates StateId₁ d₁' StateId = some d' ∧
        Alternation.Step d.alternation d'.alternation := by
    intro StateId₁ d₁ d₁' h₁ hstep
    by_cases heq : StateId = StateId₁
    · subst heq
      obtain rfl := Option.some.inj (hd.symm.trans h₁)
      exact ⟨d₁', Locals.enter_self, hstep⟩
    · exact ⟨d, (Locals.enter_of_ne heq).trans hd, .idle _⟩
  cases l with
  | ensureStateExists StateId₁ =>
    simp only [LuaQueues.step] at h
    cases hstate : s.mLuaStates StateId₁ with
    | some d₁ =>
      rw [hstate] at h
      rw [← Option.some.inj h]
      exact ⟨d, hd, .idle _⟩
    | none =>
      rw [hstate] at h
      rw [← Option.some.inj h]
      refine ⟨d, (Locals.enter_of_ne ?_).trans hd, .idle _⟩
      rintro rfl
      exact absurd (hstate.symm.trans hd) (by simp)
  | enqueueScript StateID Script =>
    obtain ⟨d₁, h₁, rfl⟩ := Option.map_eq_some_iff.mp h
    exact hset StateID d₁ _ h₁ (.pushFirst _ _)
  | enqueueFunctionCall StateID call =>
    obtain ⟨d₁, h₁, rfl⟩ := Option.map_eq_some_iff.mp h
    exact hset StateID d₁ _ h₁ (.pushSecond _ _)
  | enqueueFunctionCallFromCustomEvent StateID call Strategy =>
    obtain ⟨d₁, h₁, rfl⟩ := Option.map_eq_some_iff.mp h
    unfold StateThreadData.enqueueFunctionCallFromCustomEvent
    split_ifs with hrefused
    · exact ⟨d, hd, .idle _⟩
    · exact hset StateID d₁ _ h₁ (.pushSecond _ _)
  | thread StateId₁ a =>
    obtain ⟨d₁, h₁, hstep⟩ := Option.bind_eq_some_iff.mp h
    obtain ⟨⟨d₁', marked⟩, hthread, rfl⟩ := Option.map_eq_some_iff.mp hstep
    rw [mLuaStates_markReady]
    exact hset StateId₁ d₁ d₁' h₁ (StateThreadData.alternation_step hthread)
  | setShutdown =>
    obtain rfl := Option.some.inj h
    exact ⟨d, hd, .idle _⟩

theorem isSome_mLuaStates_step (h : s.step l = some t) (hd : (s.mLuaStates StateId).isSome) :
    (t.mLuaStates StateId).isSome := by
  obtain ⟨d, hd⟩ := Option.isSome_iff_exists.mp hd
  obtain ⟨d', hd', -⟩ := alternation_of_step h hd
  exact Option.isSome_iff_exists.mpr ⟨d', hd'⟩

theorem alternation_of_run {labels : List (QueueLabel α)}
    (hrun : run LuaQueues.step s labels = some t) (hd : s.mLuaStates StateId = some d) :
    ∃ d', t.mLuaStates StateId = some d' ∧
      Relation.ReflTransGen Alternation.Step d.alternation d'.alternation :=
  run_invariant_of_step
    (I := fun t : LuaQueues α => ∃ d', t.mLuaStates StateId = some d' ∧
      Relation.ReflTransGen Alternation.Step d.alternation d'.alternation)
    (fun _ _ _ hs h => by
      obtain ⟨d₁, hd₁, hreach⟩ := hs
      obtain ⟨d', hd', hstep⟩ := alternation_of_step h hd₁
      exact ⟨d', hd', hreach.tail hstep⟩)
    ⟨d, hd, .refl⟩ hrun

theorem mem_finished_iff {β : Type} {q : WorkQueue (Queued β)} (hq : q.InOrder)
    (hnodup : (q.accepted.map Queued.Result).Nodup) {S : Queued β} (hS : S ∈ q.accepted) :
    S ∈ q.finished ↔ S.Result ∈ q.finished.map Queued.Result := by
  refine ⟨fun h => List.mem_map_of_mem h, fun h => ?_⟩
  obtain ⟨S', hS', heq⟩ := List.mem_map.mp h
  have hsame := List.inj_on_of_nodup_map hnodup (hq.finished_subset hS') hS heq
  exact hsame ▸ hS'

/-- The result of a script is ready if and only if the script has been run. -/
theorem Sound.script_ready_iff (hs : s.Sound) (hd : s.mLuaStates StateId = some d)
    {S : Queued TLuaChunk} (hS : S ∈ d.mStateExecuteQueue.accepted) :
    (s.results S.Result).isSome ↔ S ∈ d.mStateExecuteQueue.finished := by
  have hinOrder := hs.inOrder StateId d hd
  have hfirst : d.mStateExecuteQueue.InOrder := hinOrder.first
  obtain ⟨hscripts, -, hapart⟩ := List.nodup_append.mp (hs.nodup StateId d hd)
  have hmem : S.Result ∈ d.mStateExecuteQueue.accepted.map Queued.Result :=
    List.mem_map_of_mem hS
  rw [hs.ready_iff hd (List.mem_append_left _ hmem), mem_finished_iff hfirst hscripts hS,
    StateThreadData.readyTickets, List.mem_append]
  refine or_iff_left fun hcall => ?_
  exact hapart _ hmem _ (List.map_subset _ hinOrder.second.finished_subset hcall) rfl

theorem Sound.call_ready_iff (hs : s.Sound) (hd : s.mLuaStates StateId = some d)
    {S : Queued (QueuedFunction α)} (hS : S ∈ d.mStateFunctionQueue.accepted) :
    (s.results S.Result).isSome ↔ S ∈ d.mStateFunctionQueue.finished := by
  have hinOrder := hs.inOrder StateId d hd
  have hsecond : d.mStateFunctionQueue.InOrder := hinOrder.second
  obtain ⟨-, hcalls, hapart⟩ := List.nodup_append.mp (hs.nodup StateId d hd)
  have hmem : S.Result ∈ d.mStateFunctionQueue.accepted.map Queued.Result :=
    List.mem_map_of_mem hS
  rw [hs.ready_iff hd (List.mem_append_right _ hmem), mem_finished_iff hsecond hcalls hS,
    StateThreadData.readyTickets, List.mem_append]
  refine or_iff_right fun hscript => ?_
  exact hapart _ (List.map_subset _ hinOrder.first.finished_subset hscript) _ hmem rfl

/-- In every run, the scripts and the calls that a state has accepted are those that its thread
has run, the one it is running and those that wait, in this order; no two of them have the same
result; a result is ready if and only if its script or call has been run, and it stays as it
is. -/
theorem executed_once_in_order (labels : List (QueueLabel α)) (s : LuaQueues α)
    (hrun : run step (start α) labels = some s) (StateId : TLuaStateId)
    (d : StateThreadData α) (hd : s.mLuaStates StateId = some d) :
    (d.mStateExecuteQueue.finished ++ d.mStateExecuteQueue.current.toList ++
        d.mStateExecuteQueue.waiting = d.mStateExecuteQueue.accepted ∧
      d.mStateFunctionQueue.finished ++ d.mStateFunctionQueue.current.toList ++
        d.mStateFunctionQueue.waiting = d.mStateFunctionQueue.accepted) ∧
    d.tickets.Nodup ∧
    ((∀ S ∈ d.mStateExecuteQueue.accepted,
        (s.results S.Result).isSome ↔ S ∈ d.mStateExecuteQueue.finished) ∧
      ∀ S ∈ d.mStateFunctionQueue.accepted,
        (s.results S.Result).isSome ↔ S ∈ d.mStateFunctionQueue.finished) ∧
    ∀ (later : List (QueueLabel α)) (t : LuaQueues α), run step s later = some t →
      ∀ r outcome, s.results r = some outcome → t.results r = some outcome := by
  have hs : s.Sound := sound_start.of_run hrun
  have hinOrder := hs.inOrder StateId d hd
  have hnodup := hs.nodup StateId d hd
  exact ⟨⟨hinOrder.first, hinOrder.second⟩, hnodup,
    ⟨fun S hS => hs.script_ready_iff hd hS, fun S hS => hs.call_ready_iff hd hS⟩,
    fun later t hlater r outcome hr => hs.results_run hlater hr⟩

def sampleState : TLuaStateId := ascii "state"

def sampleCall : QueuedFunction Unit := ⟨ascii "onInit", [], ascii "onInit"⟩

def sampleQueueing : List (QueueLabel Unit) :=
  [.ensureStateExists sampleState, .enqueueFunctionCall sampleState sampleCall,
    .enqueueScript sampleState ⟨ascii "x = 1", ascii "a.lua", ascii "a"⟩,
    .enqueueScript sampleState ⟨ascii "y = 1", ascii "b.lua", ascii "a"⟩]

def sampleScript : List (QueueLabel Unit) :=
  [.thread sampleState .checkShutdown, .thread sampleState .takeScript,
    .thread sampleState (.finishScript .success)]

theorem executed_once_in_order_sample :
    ∃ s d, run step (start Unit) (sampleQueueing ++ sampleScript) = some s ∧
      s.mLuaStates sampleState = some d ∧ d.mStateExecuteQueue.finished.length = 1 ∧
      d.mStateExecuteQueue.accepted.length = 2 ∧ d.tickets.Nodup :=
  ⟨_, _, rfl, rfl, rfl, rfl,
    (executed_once_in_order (sampleQueueing ++ sampleScript) _ rfl sampleState _ rfl).2.1⟩

/-- As long as a call with `k` calls in front of it has not been started, its state has started
no more than `k` calls and `k + 1` scripts since; and a script with `k` scripts in front of it
waits for no more than `k` scripts and `k + 1` calls. -/
theorem overtaken_at_most (before after : List (QueueLabel α)) (s t : LuaQueues α)
    (hbefore : run step (start α) before = some s)
    (hafter : run step s after = some t) (StateId : TLuaStateId)
    (d d' : StateThreadData α) (hd : s.mLuaStates StateId = some d)
    (hd' : t.mLuaStates StateId = some d') (k : ℕ) :
    (∀ S, d.mStateFunctionQueue.waiting[k]? = some S → S ∉ d'.mStateFunctionQueue.started →
      d'.mStateFunctionQueue.started.length ≤ d.mStateFunctionQueue.started.length + k ∧
        d'.mStateExecuteQueue.started.length ≤
          d.mStateExecuteQueue.started.length + (k + 1)) ∧
    ∀ S, d.mStateExecuteQueue.waiting[k]? = some S → S ∉ d'.mStateExecuteQueue.started →
      d'.mStateExecuteQueue.started.length ≤ d.mStateExecuteQueue.started.length + k ∧
        d'.mStateFunctionQueue.started.length ≤
          d.mStateFunctionQueue.started.length + (k + 1) := by
  have hinOrder := (sound_start.of_run hbefore).inOrder StateId d hd
  obtain ⟨d₁, hd₁, hreach⟩ := alternation_of_run hafter hd
  obtain rfl := Option.some.inj (hd₁.symm.trans hd')
  constructor
  · intro S hS hnot
    have hswap : Relation.ReflTransGen Alternation.Step d.alternation.swap d₁.alternation.swap :=
      hreach.lift Alternation.swap fun _ _ h => h.swap
    exact Alternation.overtaken_le (Alternation.InOrder.swap hinOrder) hswap hS hnot
  · intro S hS hnot
    exact Alternation.overtaken_le hinOrder hreach hS hnot

/-- A script that was accepted later comes before a call, which is then the next one. -/
theorem overtaken_at_most_sample :
    ∃ s t d d', run step (start Unit) sampleQueueing = some s ∧
      run step s sampleScript = some t ∧ s.mLuaStates sampleState = some d ∧
      t.mLuaStates sampleState = some d' ∧
      d.mStateFunctionQueue.waiting[0]? = some ⟨sampleCall, 0⟩ ∧
      d'.mStateExecuteQueue.started.length = 1 ∧
      d'.mStateExecuteQueue.started.length ≤ d.mStateExecuteQueue.started.length + (0 + 1) := by
  refine ⟨_, _, _, _, rfl, rfl, rfl, rfl, rfl, rfl, ?_⟩
  exact ((overtaken_at_most sampleQueueing sampleScript _ _ rfl rfl sampleState _ _ rfl rfl 0).1
    ⟨sampleCall, 0⟩ rfl (by decide)).2

end LuaQueues
end BeamMP
