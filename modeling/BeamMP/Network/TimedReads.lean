import BeamMP.Foundation.Execution
import Mathlib.Tactic

/-!
# Reads with a timeout

`ReadSocketWithTimeout` starts a read and a timer and waits for a promise. The handlers
of both run in another thread. The first of them to exchange `Completed` cancels the
other operation and sets the promise. An operation that is cancelled while its handler
waits to run already keeps its error code, and a read that has got a part of its data
and waits to ask for more is not cancelled at all.
-/
namespace BeamMP

open Execution

inductive ErrorCode
  | success
  | operationAborted
  | timedOut
  | other (value : ℤ)
deriving DecidableEq

/-- An asynchronous operation: it is pending or, as `async_read` between two of its parts, about to
be again. Its handler is queued with an error code, exchanges `Completed` as the first one, has
cancelled the other operation, and has finished. -/
inductive Operation
  | idle
  | pending
  | between
  | queued (ec : ErrorCode)
  | won (ec : ErrorCode)
  | cancelledOther (ec : ErrorCode)
  | finished (first : Bool) (ec : ErrorCode)
deriving DecidableEq

/-- Where the caller is. -/
inductive ReaderPhase
  | begun
  | readStarted
  | expirySet
  | getting
  | returned (ec : ErrorCode)
deriving DecidableEq

/-- `received` are the bytes that came in parts, and `broken` is a second call of `set_value`,
which throws. After the return to the caller, `dangling` is a use of the socket by the handler of
the timer, and `outlived` one of the socket and the buffer by the read. -/
structure TimedRead where
  caller : ReaderPhase
  received : ℕ
  read : Operation
  timer : Operation
  Completed : Bool
  promise : Option ErrorCode
  broken : Bool
  dangling : Bool
  outlived : Bool
deriving DecidableEq

inductive TimedReadLabel
  | asyncRead
  | expiresAfter
  | asyncWait
  | get
  | readSome (n : ℕ)
  | readMore
  | readCompletes (ec : ErrorCode)
  | expires
  | readExchange
  | readCancelTimer
  | readSetValue
  | timerExchange
  | timerCancelSocket
  | timerSetValue
deriving DecidableEq

/-- The step needs the peer. -/
def TimedReadLabel.isArrival : TimedReadLabel → Bool
  | .readSome _ | .readCompletes _ => true
  | _ => false

/-- What cancelling does to an operation. -/
def Operation.cancel : Operation → Operation
  | .pending => .queued .operationAborted
  | op => op

namespace TimedRead

variable (Length : ℕ) (s : TimedRead)

def start : TimedRead where
  caller := .begun
  received := 0
  read := .idle
  timer := .idle
  Completed := false
  promise := none
  broken := false
  dangling := false
  outlived := false

/-- The caller has returned. -/
def hasReturned : Bool :=
  match s.caller with
  | .returned _ => true
  | _ => false

/-- The read uses the socket and the buffer. -/
def useBuffer : TimedRead := { s with outlived := s.outlived || s.hasReturned }

def setValue (ec : ErrorCode) : TimedRead :=
  match s.promise with
  | none => { s with promise := some ec }
  | some _ => { s with broken := true }

/-- A step of the caller, of an operation or of one of the handlers. -/
def step : TimedReadLabel → Option TimedRead
  | .asyncRead =>
    if s.caller = .begun then some { s with caller := .readStarted, read := .pending } else none
  | .expiresAfter =>
    if s.caller = .readStarted then some { s with caller := .expirySet } else none
  | .asyncWait =>
    if s.caller = .expirySet then some { s with caller := .getting, timer := .pending } else none
  | .get =>
    match s.promise with
    | some ec => if s.caller = .getting then some { s with caller := .returned ec } else none
    | none => none
  | .readSome n =>
    if s.read = .pending ∧ 0 < n ∧ s.received + n < Length then
      some { s.useBuffer with read := .between, received := s.received + n }
    else none
  | .readMore => if s.read = .between then some { s.useBuffer with read := .pending } else none
  | .readCompletes ec =>
    if s.read = .pending then some { s.useBuffer with read := .queued ec } else none
  | .expires => if s.timer = .pending then some { s with timer := .queued .success } else none
  | .readExchange =>
    match s.read with
    | .queued ec =>
      if s.Completed then some { s with read := .finished false ec }
      else some { s with read := .won ec, Completed := true }
    | _ => none
  | .readCancelTimer =>
    match s.read with
    | .won ec => some { s with read := .cancelledOther ec, timer := s.timer.cancel }
    | _ => none
  | .readSetValue =>
    match s.read with
    | .cancelledOther ec => some ({ s with read := .finished true ec }.setValue ec)
    | _ => none
  | .timerExchange =>
    match s.timer with
    | .queued ec =>
      if ec = .operationAborted ∨ s.Completed then some { s with timer := .finished false ec }
      else some { s with timer := .won ec, Completed := true }
    | _ => none
  | .timerCancelSocket =>
    match s.timer with
    | .won ec =>
      some { s with
        timer := .cancelledOther ec
        read := s.read.cancel
        dangling := s.dangling || s.hasReturned }
    | _ => none
  | .timerSetValue =>
    match s.timer with
    | .cancelledOther ec => some ({ s with timer := .finished true ec }.setValue .timedOut)
    | _ => none

end TimedRead

/-- The handler was the first one. -/
def Operation.isFirst : Operation → Bool
  | .won _ | .cancelledOther _ | .finished true _ => true
  | _ => false

/-- How far an operation has come. -/
def Operation.rank : Operation → ℕ
  | .idle => 0
  | .pending => 1
  | .between => 0
  | .queued _ => 2
  | .won _ => 3
  | .cancelledOther _ => 4
  | .finished _ _ => 5

section Cancel

variable {op : Operation} {ec : ErrorCode}

@[grind =] theorem Operation.isFirst_cancel : op.cancel.isFirst = op.isFirst := by
  cases op <;> rfl

@[grind =] theorem Operation.cancel_eq_idle_iff : op.cancel = .idle ↔ op = .idle := by
  cases op <;> simp [Operation.cancel]

@[grind =] theorem Operation.cancel_eq_finished_iff {first : Bool} :
    op.cancel = .finished first ec ↔ op = .finished first ec := by
  cases op <;> simp [Operation.cancel]

@[grind =] theorem Operation.cancel_eq_won_iff : op.cancel = .won ec ↔ op = .won ec := by
  cases op <;> simp [Operation.cancel]

@[grind =] theorem Operation.cancel_eq_queued_iff : op.cancel = .queued ec ↔
    op = .queued ec ∨ op = .pending ∧ ec = .operationAborted := by
  cases op <;> simp [Operation.cancel, eq_comm]

@[grind =] theorem Operation.cancel_eq_between_iff : op.cancel = .between ↔ op = .between := by
  cases op <;> simp [Operation.cancel]

theorem Operation.cancel_ne_pending : op.cancel ≠ .pending := by
  cases op <;> simp [Operation.cancel]

theorem Operation.rank_le_rank_cancel (op : Operation) : op.rank ≤ op.cancel.rank := by
  cases op <;> simp [Operation.cancel, Operation.rank]

end Cancel

def ReaderPhase.rank : ReaderPhase → ℕ
  | .begun => 0
  | .readStarted => 1
  | .expirySet => 2
  | .getting => 3
  | .returned _ => 4

namespace TimedRead

/-- At most one of the handlers is the first one, and only this one touches the other operation and
the promise. -/
structure Exclusive (Length : ℕ) (s : TimedRead) : Prop where
  started : s.read = .idle ↔ s.caller = .begun
  waiting : s.timer = .idle ↔
    s.caller = .begun ∨ s.caller = .readStarted ∨ s.caller = .expirySet
  completed : s.Completed = (s.read.isFirst || s.timer.isFirst)
  one : s.read.isFirst = true → s.timer.isFirst = false
  promise : ∀ ec, s.promise = some ec ↔
    s.read = .finished true ec ∨ ec = .timedOut ∧ ∃ ec', s.timer = .finished true ec'
  returned : ∀ ec, s.caller = .returned ec → s.promise = some ec
  parted : s.read = .between → 0 < s.received
  counted : 0 < s.received → s.received < Length
  undivided : s.timer ≠ .between
  stopped : s.timer.isFirst = true → (∀ ec, s.timer ≠ .won ec) → s.read = .pending →
    0 < s.received
  late : ∀ ec, s.read = .finished false ec ∨ s.timer = .finished false ec → s.Completed = true
  expired : ∀ ec, s.timer = .queued ec → ec = .success ∨ s.Completed = true
  whole : s.broken = false
  safe : s.dangling = false
  timely : s.outlived = true → s.caller = .returned .timedOut ∧ 0 < s.received

variable {Length : ℕ} {s t : TimedRead} {l : TimedReadLabel}

theorem exclusive_start : start.Exclusive Length := by
  constructor <;> simp [start, Operation.isFirst]

theorem Exclusive.step (hs : s.Exclusive Length) (h : s.step Length l = some t) :
    t.Exclusive Length := by
  obtain ⟨hstarted, hwaiting, hcompleted, hone, hpromise, hreturned, hparted, hcounted, htimer,
    hstopped, hlate, hexpired, hwhole, hsafe, htimely⟩ := hs
  -- A step changes the place of the caller or of one operation, and looks at no more than these.
  cases l
  all_goals
    simp only [TimedRead.step] at h
    constructor <;>
      grind -ring -linarith [Operation.isFirst, Operation.cancel_ne_pending, setValue, useBuffer,
        hasReturned]

theorem Exclusive.of_run {labels : List TimedReadLabel}
    (hrun : run (TimedRead.step Length) start labels = some s) : s.Exclusive Length :=
  run_invariant_of_step (I := fun s : TimedRead => s.Exclusive Length) (fun _ _ _ hs h => hs.step h)
    exclusive_start hrun

/-- The sum of what the caller and the operations have done. -/
def rank (s : TimedRead) : ℕ := s.caller.rank + s.read.rank + s.timer.rank + 2 * s.received

theorem Exclusive.rank_lt (hs : s.Exclusive Length) (h : s.step Length l = some t) :
    s.rank < t.rank := by
  have hstarted := hs.started
  have hwaiting := hs.waiting
  have hread := Operation.rank_le_rank_cancel s.read
  have htimer := Operation.rank_le_rank_cancel s.timer
  cases l
  all_goals
    simp only [TimedRead.step] at h
    grind [rank, Operation.rank, ReaderPhase.rank, setValue, useBuffer]

theorem Exclusive.rank_le (hs : s.Exclusive Length) : s.rank ≤ 14 + 2 * Length := by
  have hcaller : s.caller.rank ≤ 4 := by
    cases s.caller <;> simp [ReaderPhase.rank]
  have hoperation : ∀ op : Operation, op.rank ≤ 5 := by
    intro op
    cases op <;> simp [Operation.rank]
  have hread := hoperation s.read
  have htimer := hoperation s.timer
  have hreceived := hs.counted
  unfold rank
  omega

theorem Exclusive.length_add_rank_le (hs : s.Exclusive Length) {labels : List TimedReadLabel}
    (hrun : run (TimedRead.step Length) s labels = some t) : labels.length + s.rank ≤ t.rank := by
  induction labels generalizing s with
  | nil =>
    obtain rfl := Option.some.inj hrun
    simp
  | cons l labels ih =>
    obtain ⟨m, hstep, hrest⟩ := run_cons_eq_some.mp hrun
    have hlt := hs.rank_lt hstep
    have hle := ih (hs.step hstep) hrest
    simp only [List.length_cons]
    omega

/-- The handler that was the first one can go on until it has set the promise. -/
theorem exists_step_of_first (hfirst : s.read.isFirst = true ∨ s.timer.isFirst = true)
    (hread : ∀ ec, s.read ≠ .finished true ec) (htimer : ∀ ec, s.timer ≠ .finished true ec) :
    ∃ l : TimedReadLabel, l.isArrival = false ∧ (s.step Length l).isSome := by
  rcases hfirst with hfirst | hfirst
  · cases hop : s.read with
    | won ec => exact ⟨.readCancelTimer, rfl, by simp [TimedRead.step, hop]⟩
    | cancelledOther ec => exact ⟨.readSetValue, rfl, by simp [TimedRead.step, hop]⟩
    | finished first ec =>
      cases first with
      | true => exact absurd hop (hread ec)
      | false => exact absurd hfirst (by simp [hop, Operation.isFirst])
    | _ => exact absurd hfirst (by simp [hop, Operation.isFirst])
  · cases hop : s.timer with
    | won ec => exact ⟨.timerCancelSocket, rfl, by simp [TimedRead.step, hop]⟩
    | cancelledOther ec => exact ⟨.timerSetValue, rfl, by simp [TimedRead.step, hop]⟩
    | finished first ec =>
      cases first with
      | true => exact absurd hop (htimer ec)
      | false => exact absurd hfirst (by simp [hop, Operation.isFirst])
    | _ => exact absurd hfirst (by simp [hop, Operation.isFirst])

/-- The timer alone brings about a value when no handler has been the first one. -/
theorem Exclusive.exists_step_of_not_completed (hs : s.Exclusive Length)
    (hcaller : s.caller = .getting) (hcompleted : s.Completed = false) :
    ∃ l : TimedReadLabel, l.isArrival = false ∧ (s.step Length l).isSome := by
  have hfirst : s.timer.isFirst = false := by
    have hboth := hs.completed
    rw [hcompleted, eq_comm, Bool.or_eq_false_iff] at hboth
    exact hboth.2
  cases htimer : s.timer with
  | idle => exact absurd (hs.waiting.mp htimer) (by simp [hcaller])
  | pending => exact ⟨.expires, rfl, by simp [TimedRead.step, htimer]⟩
  | between => exact absurd htimer hs.undivided
  | queued ec =>
    obtain rfl : ec = .success := (hs.expired ec htimer).resolve_right (by simp [hcompleted])
    exact ⟨.timerExchange, rfl, by simp [TimedRead.step, htimer, hcompleted]⟩
  | finished first ec =>
    cases first with
    | true => exact absurd hfirst (by simp [htimer, Operation.isFirst])
    | false => exact absurd (hs.late ec (.inr htimer)) (by simp [hcompleted])
  | won ec | cancelledOther ec => exact absurd hfirst (by simp [htimer, Operation.isFirst])

theorem Exclusive.exists_step (hs : s.Exclusive Length) (hcaller : ∀ ec, s.caller ≠ .returned ec) :
    ∃ l : TimedReadLabel, l.isArrival = false ∧ (s.step Length l).isSome := by
  cases hphase : s.caller with
  | begun => exact ⟨.asyncRead, rfl, by simp [TimedRead.step, hphase]⟩
  | readStarted => exact ⟨.expiresAfter, rfl, by simp [TimedRead.step, hphase]⟩
  | expirySet => exact ⟨.asyncWait, rfl, by simp [TimedRead.step, hphase]⟩
  | returned ec => exact absurd hphase (hcaller ec)
  | getting =>
    cases hpromise : s.promise with
    | some ec => exact ⟨.get, rfl, by simp [TimedRead.step, hpromise, hphase]⟩
    | none =>
      by_cases hcompleted : s.Completed = true
      · have hfirst := hs.completed
        rw [hcompleted, eq_comm, Bool.or_eq_true] at hfirst
        refine exists_step_of_first hfirst (fun ec hread => ?_) (fun ec htimer => ?_)
        · simp [(hs.promise ec).mpr (.inl hread)] at hpromise
        · simp [(hs.promise .timedOut).mpr (.inr ⟨rfl, ec, htimer⟩)] at hpromise
      · exact hs.exists_step_of_not_completed hphase (by simpa using hcompleted)

/-- In every order of the steps of the caller, the operations and their handlers: the promise is
set no more than once. The caller gets the error code that the read reported, or the timer has
expired first. After the return the handler of the timer does not use the socket, and the read
uses the socket and the buffer only if the timer expired when a part of the data had arrived. The
caller has returned after a bounded number of steps, and until then some step without the peer is
possible. -/
theorem read_returns_once (Length : ℕ) (labels : List TimedReadLabel) (s : TimedRead)
    (hrun : run (step Length) start labels = some s) :
    s.broken = false ∧ s.dangling = false ∧
    (s.outlived = true →
      s.caller = .returned .timedOut ∧ 0 < s.received ∧ s.received < Length) ∧
    (∀ ec, s.caller = .returned ec → s.read = .finished true ec ∨
      ec = .timedOut ∧ (∃ ec', s.timer = .finished true ec') ∧
        (s.read = .pending ∨ s.read = .between → 0 < s.received ∧ s.received < Length)) ∧
    labels.length ≤ 14 + 2 * Length ∧
    ((∀ ec, s.caller ≠ .returned ec) →
      ∃ l : TimedReadLabel, l.isArrival = false ∧ (s.step Length l).isSome) := by
  have hs := Exclusive.of_run hrun
  have hstart : start.Exclusive Length := exclusive_start
  have hlength := hstart.length_add_rank_le hrun
  have hrank := hs.rank_le
  refine ⟨hs.whole, hs.safe, fun hused => ?_, fun ec hreturned => ?_, by omega, hs.exists_step⟩
  · obtain ⟨htimedOut, hreceived⟩ := hs.timely hused
    exact ⟨htimedOut, hreceived, hs.counted hreceived⟩
  obtain hread | ⟨rfl, ec', htimer⟩ := (hs.promise ec).mp (hs.returned ec hreturned)
  · exact .inl hread
  · refine .inr ⟨rfl, ⟨ec', htimer⟩, fun hon => ?_⟩
    have hreceived : 0 < s.received := by
      rcases hon with hpending | hbetween
      · exact hs.stopped (by simp [htimer, Operation.isFirst]) (by simp [htimer]) hpending
      · exact hs.parted hbetween
    exact ⟨hreceived, hs.counted hreceived⟩

/-- The timer expires while a part of the data is being handled, so that its handler finds nothing
to cancel, and the next part comes after the return. -/
def sampleTimeout : List TimedReadLabel :=
  [.asyncRead, .expiresAfter, .asyncWait, .readSome 1, .expires, .timerExchange,
    .timerCancelSocket, .readMore, .timerSetValue, .get, .readSome 1]

def sampleOutlived : TimedRead where
  caller := .returned .timedOut
  received := 2
  read := .between
  timer := .finished true .success
  Completed := true
  promise := some .timedOut
  broken := false
  dangling := false
  outlived := true

theorem read_returns_once_sample :
    run (step 4) start sampleTimeout = some sampleOutlived ∧
      sampleOutlived.dangling = false ∧ 0 < sampleOutlived.received ∧
      sampleOutlived.received < 4 := by
  have hrun : run (step 4) start sampleTimeout = some sampleOutlived := by decide
  obtain ⟨-, hdangling, houtlived, -⟩ := read_returns_once 4 sampleTimeout sampleOutlived hrun
  exact ⟨hrun, hdangling, (houtlived rfl).2⟩

end TimedRead

end BeamMP
