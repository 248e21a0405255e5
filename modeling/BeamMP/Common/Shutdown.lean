import Mathlib.Tactic.Common
import BeamMP.Foundation.Execution

/-!
# The shutdown

Subsystems register handlers, and a signal, the console or a plugin asks for the shutdown. Only
the first request calls the handlers, one after the other and with the mutex held, and the third
one ends the process, in the middle of a handler if need be. Each request looks at
`AlreadyShuttingDown` and sets it in one step.
-/
namespace BeamMP

/-- Where the first request is. -/
inductive ShutdownLoop
  | notBegun
  | waiting
  | calling (i : ℕ)
  | running (i : ℕ)
  | ended
  | threw
deriving DecidableEq

/-- The mutex is held. -/
def ShutdownLoop.holdsLock : ShutdownLoop → Bool
  | .calling _ | .running _ => true
  | _ => false

/-- The first request has neither returned nor thrown. -/
def ShutdownLoop.isGoing : ShutdownLoop → Bool
  | .waiting | .calling _ | .running _ => true
  | _ => false

/-- The calls of any thread, and the steps of the first request. An empty `Handler` is `none`. -/
inductive ShutdownLabel (η : Type)
  | registerShutdownHandler (Handler : Option η)
  | gracefullyShutdown
  | lock
  | nextHandler
  | handlerReturns
  | handlerThrows

/-- The shutdown state of `Application`, beside the handlers that were called and whether the
process is over. -/
structure ShutdownState (η : Type) where
  mShutdown : Bool := false
  mShutdownHandlers : List η := []
  AlreadyShuttingDown : Bool := false
  ShutdownAttempts : UInt8 := 0
  loop : ShutdownLoop := .notBegun
  called : List η := []
  exited : Bool := false

namespace ShutdownState

variable {η : Type}

def registerShutdownHandler (s : ShutdownState η) : Option η → ShutdownState η
  | none => s
  | some Handler => { s with mShutdownHandlers := Handler :: s.mShutdownHandlers }

/-- What a request does before it asks for the mutex. -/
def gracefullyShutdown (s : ShutdownState η) : ShutdownState η :=
  if s.AlreadyShuttingDown then
    let ShutdownAttempts := s.ShutdownAttempts + 1
    { s with mShutdown := true, ShutdownAttempts, exited := ShutdownAttempts = 2 }
  else { s with mShutdown := true, AlreadyShuttingDown := true, loop := .waiting }

def nextHandler (s : ShutdownState η) (i : ℕ) : ShutdownState η :=
  match s.mShutdownHandlers[i]? with
  | some Handler => { s with loop := .running i, called := s.called ++ [Handler] }
  | none => { s with loop := .ended }

def step (s : ShutdownState η) (a : ShutdownLabel η) : Option (ShutdownState η) :=
  if s.exited then none
  else
    match a, s.loop with
    | .registerShutdownHandler Handler, loop =>
      -- another thread waits for the mutex
      if loop.holdsLock then none else some (s.registerShutdownHandler Handler)
    | .gracefullyShutdown, _ => some s.gracefullyShutdown
    | .lock, .waiting => some { s with loop := .calling 0 }
    | .nextHandler, .calling i => some (s.nextHandler i)
    | .handlerReturns, .running i => some { s with loop := .calling (i + 1) }
    | .handlerThrows, .running _ => some { s with loop := .threw }
    | _, _ => none

/-- What a step does, and when it can be taken. -/
def StepsTo (s : ShutdownState η) (a : ShutdownLabel η) (t : ShutdownState η) : Prop :=
  match a with
  | .registerShutdownHandler Handler =>
    s.loop.holdsLock = false ∧ t = s.registerShutdownHandler Handler
  | .gracefullyShutdown => t = s.gracefullyShutdown
  | .lock => s.loop = .waiting ∧ t = { s with loop := .calling 0 }
  | .nextHandler => ∃ i, s.loop = .calling i ∧ t = s.nextHandler i
  | .handlerReturns => ∃ i, s.loop = .running i ∧ t = { s with loop := .calling (i + 1) }
  | .handlerThrows => ∃ i, s.loop = .running i ∧ t = { s with loop := .threw }

theorem step_eq_some {s t : ShutdownState η} {a : ShutdownLabel η} (h : s.step a = some t) :
    s.exited = false ∧ s.StepsTo a t := by
  unfold step at h
  split_ifs at h with hexited
  refine ⟨by simpa using hexited, ?_⟩
  cases a with
  | registerShutdownHandler Handler =>
    dsimp only at h
    split_ifs at h with hlock
    exact ⟨by simpa using hlock, (Option.some.inj h).symm⟩
  | gracefullyShutdown => exact (Option.some.inj h).symm
  | lock =>
    cases hloop : s.loop with
    | waiting => exact ⟨hloop, by simpa [hloop] using h.symm⟩
    | _ => simp [hloop] at h
  | nextHandler =>
    cases hloop : s.loop with
    | calling i => exact ⟨i, hloop, by simpa [hloop] using h.symm⟩
    | _ => simp [hloop] at h
  | handlerReturns =>
    cases hloop : s.loop with
    | running i => exact ⟨i, hloop, by simpa [hloop] using h.symm⟩
    | _ => simp [hloop] at h
  | handlerThrows =>
    cases hloop : s.loop with
    | running i => exact ⟨i, hloop, by simpa [hloop] using h.symm⟩
    | _ => simp [hloop] at h

end ShutdownState

namespace ShutdownLabel

variable {η : Type}

/-- The first request goes on, and no handler throws. -/
def isOfLoop : ShutdownLabel η → Bool
  | .lock | .nextHandler | .handlerReturns => true
  | _ => false

def throws : ShutdownLabel η → Bool
  | .handlerThrows => true
  | _ => false

def isRequest : ShutdownLabel η → Bool
  | .gracefullyShutdown => true
  | _ => false

/-- How often the shutdown is asked for. -/
def requests (labels : List (ShutdownLabel η)) : ℕ := labels.countP isRequest

/-- The handlers that are registered when the first request gets the mutex, the latest first, with
the ones that are there already. -/
def handlersAtLock (handlers : List η) : List (ShutdownLabel η) → List η
  | [] => handlers
  | .lock :: _ => handlers
  | .registerShutdownHandler (some Handler) :: labels => handlersAtLock (Handler :: handlers) labels
  | _ :: labels => handlersAtLock handlers labels

end ShutdownLabel

open ShutdownLabel

namespace ShutdownState

variable {η : Type} {s t : ShutdownState η} {a : ShutdownLabel η} {n : ℕ} {handlers : List η}
  {labels : List (ShutdownLabel η)}

/-- The shutdown was asked for `n` times. -/
structure Requested (n : ℕ) (s : ShutdownState η) : Prop where
  mShutdown : s.mShutdown = decide (n ≠ 0)
  alreadyShuttingDown : s.AlreadyShuttingDown = decide (n ≠ 0)
  shutdownAttempts : s.ShutdownAttempts.toNat = n - 1
  le_three : n ≤ 3
  exited : s.exited = decide (n = 3)
  begun : s.loop = .notBegun ↔ n = 0

theorem requested_start : Requested 0 ({} : ShutdownState η) := by
  constructor <;> simp

/-- What a step does that is not a request. -/
theorem Requested.congr (h : s.Requested n) (hfields : (t.mShutdown, t.AlreadyShuttingDown,
      t.ShutdownAttempts, t.exited) = (s.mShutdown, s.AlreadyShuttingDown, s.ShutdownAttempts,
        s.exited))
    (hbegun : t.loop = .notBegun ↔ s.loop = .notBegun) : t.Requested n := by
  simp only [Prod.mk.injEq] at hfields
  obtain ⟨hmShutdown, halready, hattempts, hexited⟩ := hfields
  exact ⟨hmShutdown.trans h.mShutdown, halready.trans h.alreadyShuttingDown,
    by rw [hattempts, h.shutdownAttempts], h.le_three, hexited.trans h.exited,
    hbegun.trans h.begun⟩

theorem Requested.gracefullyShutdown (h : s.Requested n) (hrunning : s.exited = false) :
    s.gracefullyShutdown.Requested (n + 1) := by
  have hthree : n ≠ 3 := by simpa [hrunning] using h.exited
  have hle := h.le_three
  have hattempts := h.shutdownAttempts
  unfold ShutdownState.gracefullyShutdown
  by_cases hn : n = 0
  · have halready : s.AlreadyShuttingDown = false := by simpa [hn] using h.alreadyShuttingDown
    subst hn
    simp only [halready, Bool.false_eq_true, if_false]
    exact ⟨rfl, rfl, hattempts, by omega, hrunning, by simp⟩
  · have halready : s.AlreadyShuttingDown = true := by simpa [hn] using h.alreadyShuttingDown
    have hnext : (s.ShutdownAttempts + 1).toNat = n := by
      rw [UInt8.toNat_add, UInt8.toNat_one]
      omega
    have hexits : s.ShutdownAttempts + 1 = 2 ↔ n + 1 = 3 := by
      rw [← UInt8.toNat_inj, hnext]
      constructor
      · exact fun heq => congrArg (· + 1) heq
      · exact fun heq => Nat.succ.inj heq
    have hbegun : s.loop ≠ .notBegun := fun heq => hn (h.begun.mp heq)
    rw [if_pos halready]
    exact ⟨rfl, halready, hnext, by omega, decide_eq_decide.mpr hexits, by simp [hbegun]⟩

theorem Requested.nextHandler (h : s.Requested n) {i : ℕ} (hloop : s.loop = .calling i) :
    (s.nextHandler i).Requested n := by
  unfold ShutdownState.nextHandler
  split
  · exact h.congr rfl (by simp [hloop])
  · exact h.congr rfl (by simp [hloop])

theorem Requested.step (h : s.Requested n) (hstep : s.step a = some t) :
    t.Requested (n + if a.isRequest then 1 else 0) := by
  obtain ⟨hrunning, hstep⟩ := step_eq_some hstep
  cases a with
  | registerShutdownHandler Handler =>
    obtain ⟨-, rfl⟩ := hstep
    cases Handler with
    | none => exact h
    | some Handler => exact h.congr rfl Iff.rfl
  | gracefullyShutdown =>
    obtain rfl := hstep
    exact h.gracefullyShutdown hrunning
  | lock =>
    obtain ⟨hloop, rfl⟩ := hstep
    exact h.congr rfl (by simp [hloop])
  | nextHandler =>
    obtain ⟨i, hloop, rfl⟩ := hstep
    exact h.nextHandler hloop
  | handlerReturns =>
    obtain ⟨i, hloop, rfl⟩ := hstep
    exact h.congr rfl (by simp [hloop])
  | handlerThrows =>
    obtain ⟨i, hloop, rfl⟩ := hstep
    exact h.congr rfl (by simp [hloop])

theorem Requested.run (h : s.Requested n)
    (hrun : Execution.run ShutdownState.step s labels = some t) :
    t.Requested (n + requests labels) := by
  induction labels generalizing s n with
  | nil =>
    obtain rfl : s = t := by simpa using hrun
    exact h
  | cons a labels ih =>
    obtain ⟨m, hm, hrest⟩ := Execution.run_cons_eq_some.mp hrun
    have hafter := ih (h.step hm) hrest
    rw [Nat.add_assoc, Nat.add_comm _ (requests labels)] at hafter
    rw [requests, List.countP_cons]
    exact hafter

/-- Until the first request gets the mutex, handlers are only collected. -/
structure Collecting (handlers : List η) (s : ShutdownState η) : Prop where
  collected : s.mShutdownHandlers = handlers
  called : s.called = []
  begun : s.loop = .notBegun ∧ s.AlreadyShuttingDown = false ∨
    s.loop = .waiting ∧ s.AlreadyShuttingDown = true

/-- How far the calls of the handlers have come. -/
def Progress (handlers : List η) (s : ShutdownState η) : Prop :=
  match s.loop with
  | .notBegun | .waiting => False
  | .calling i => s.mShutdownHandlers = handlers ∧ s.called = handlers.take i
  | .running i => s.mShutdownHandlers = handlers ∧ s.called = handlers.take (i + 1)
  | .ended => s.called = handlers
  | .threw => s.called <+: handlers

/-- The first request has got the mutex, when there were these handlers. -/
structure Serving (handlers : List η) (s : ShutdownState η) : Prop where
  already : s.AlreadyShuttingDown = true
  progress : s.Progress handlers

theorem Progress.nextHandler {i : ℕ} (h : s.Progress handlers) (hloop : s.loop = .calling i) :
    (s.nextHandler i).Progress handlers := by
  unfold Progress at h
  rw [hloop] at h
  obtain ⟨hhandlers, hcalled⟩ := h
  unfold ShutdownState.nextHandler
  split
  · rename_i Handler hHandler
    rw [hhandlers] at hHandler
    exact ⟨hhandlers, by simp [hcalled, List.take_add_one, hHandler]⟩
  · rename_i hnone
    rw [hhandlers] at hnone
    have hlength : handlers.length ≤ i := List.getElem?_eq_none_iff.mp hnone
    exact hcalled.trans (List.take_of_length_le hlength)

/-- The handlers do not matter any more when the mutex has been released. -/
theorem Progress.registerShutdownHandler (h : s.Progress handlers)
    (hlock : s.loop.holdsLock = false) (Handler : Option η) :
    (s.registerShutdownHandler Handler).Progress handlers := by
  cases Handler with
  | none => exact h
  | some Handler =>
    unfold Progress at h ⊢
    cases hloop : s.loop with
    | notBegun => simp [hloop] at h
    | waiting => simp [hloop] at h
    | calling i => simp [hloop, ShutdownLoop.holdsLock] at hlock
    | running i => simp [hloop, ShutdownLoop.holdsLock] at hlock
    | _ => simpa [hloop, ShutdownState.registerShutdownHandler] using h

theorem Serving.step (h : s.Serving handlers) (hstep : s.step a = some t) :
    t.Serving handlers := by
  obtain ⟨-, hstep⟩ := step_eq_some hstep
  have hprogress := h.progress
  unfold Progress at hprogress
  cases a with
  | registerShutdownHandler Handler =>
    obtain ⟨hlock, rfl⟩ := hstep
    refine ⟨?_, h.progress.registerShutdownHandler hlock Handler⟩
    cases Handler <;> exact h.already
  | gracefullyShutdown =>
    obtain rfl := hstep
    unfold ShutdownState.gracefullyShutdown
    rw [if_pos h.already]
    exact ⟨h.already, h.progress⟩
  | lock =>
    obtain ⟨hloop, rfl⟩ := hstep
    rw [hloop] at hprogress
    exact hprogress.elim
  | nextHandler =>
    obtain ⟨i, hloop, rfl⟩ := hstep
    refine ⟨?_, h.progress.nextHandler hloop⟩
    unfold ShutdownState.nextHandler
    split <;> exact h.already
  | handlerReturns =>
    obtain ⟨i, hloop, rfl⟩ := hstep
    rw [hloop] at hprogress
    exact ⟨h.already, hprogress⟩
  | handlerThrows =>
    obtain ⟨i, hloop, rfl⟩ := hstep
    rw [hloop] at hprogress
    have hcalled : s.called <+: handlers := hprogress.2 ▸ List.take_prefix _ _
    exact ⟨h.already, hcalled⟩

theorem Serving.run (h : s.Serving handlers)
    (hrun : Execution.run ShutdownState.step s labels = some t) :
    t.Serving handlers :=
  Execution.run_invariant_of_step (I := fun s : ShutdownState η => s.Serving handlers)
    (fun _ _ _ hs hstep => hs.step hstep) h hrun

theorem Collecting.registerShutdownHandler (h : s.Collecting handlers) (Handler : η) :
    (s.registerShutdownHandler (some Handler)).Collecting (Handler :: handlers) :=
  ⟨congrArg (Handler :: ·) h.collected, h.called, h.begun⟩

theorem Collecting.gracefullyShutdown (h : s.Collecting handlers) :
    s.gracefullyShutdown.Collecting handlers := by
  unfold ShutdownState.gracefullyShutdown
  rcases h.begun with ⟨hloop, halready⟩ | ⟨hloop, halready⟩
  · rw [if_neg (by simp [halready])]
    exact ⟨h.collected, h.called, Or.inr ⟨rfl, rfl⟩⟩
  · rw [if_pos halready]
    exact ⟨h.collected, h.called, Or.inr ⟨hloop, halready⟩⟩

theorem Collecting.lock (h : s.Collecting handlers) (hloop : s.loop = .waiting) :
    { s with loop := .calling 0 }.Serving handlers := by
  have halready : s.AlreadyShuttingDown = true := by simpa [hloop] using h.begun
  exact ⟨halready, h.collected, by simpa using h.called⟩

/-- Before the first request gets the mutex, no handler can run. -/
theorem Collecting.run (h : s.Collecting handlers)
    (hrun : Execution.run ShutdownState.step s labels = some t) :
    t.Collecting (handlersAtLock handlers labels) ∨
      t.Serving (handlersAtLock handlers labels) := by
  induction labels generalizing s handlers with
  | nil =>
    obtain rfl : s = t := by simpa using hrun
    exact Or.inl h
  | cons a labels ih =>
    obtain ⟨m, hm, hrest⟩ := Execution.run_cons_eq_some.mp hrun
    obtain ⟨-, hm⟩ := step_eq_some hm
    cases a with
    | registerShutdownHandler Handler =>
      obtain ⟨-, rfl⟩ := hm
      cases Handler with
      | none => exact ih h hrest
      | some Handler => exact ih (h.registerShutdownHandler Handler) hrest
    | gracefullyShutdown =>
      obtain rfl := hm
      exact ih h.gracefullyShutdown hrest
    | lock =>
      obtain ⟨hloop, rfl⟩ := hm
      exact Or.inr ((h.lock hloop).run hrest)
    | nextHandler =>
      obtain ⟨i, hloop, -⟩ := hm
      exact absurd h.begun (by simp [hloop])
    | handlerReturns =>
      obtain ⟨i, hloop, -⟩ := hm
      exact absurd h.begun (by simp [hloop])
    | handlerThrows =>
      obtain ⟨i, hloop, -⟩ := hm
      exact absurd h.begun (by simp [hloop])

theorem loop_ne_threw_step (hloop : s.loop ≠ .threw) (hthrows : a.throws = false)
    (hstep : s.step a = some t) : t.loop ≠ .threw := by
  obtain ⟨-, hstep⟩ := step_eq_some hstep
  cases a with
  | registerShutdownHandler Handler =>
    obtain ⟨-, rfl⟩ := hstep
    cases Handler <;> exact hloop
  | gracefullyShutdown =>
    obtain rfl := hstep
    unfold ShutdownState.gracefullyShutdown
    split_ifs
    · exact hloop
    · simp
  | nextHandler =>
    obtain ⟨i, -, rfl⟩ := hstep
    unfold ShutdownState.nextHandler
    split <;> simp
  | lock =>
    obtain ⟨-, rfl⟩ := hstep
    simp
  | handlerReturns =>
    obtain ⟨i, -, rfl⟩ := hstep
    simp
  | handlerThrows => cases hthrows

theorem exists_step (hgoing : s.loop.isGoing = true) (hrunning : s.exited = false) :
    ∃ a : ShutdownLabel η, a.isOfLoop = true ∧ (s.step a).isSome := by
  cases hloop : s.loop with
  | waiting => exact ⟨.lock, rfl, by simp [ShutdownState.step, hrunning, hloop]⟩
  | calling i => exact ⟨.nextHandler, rfl, by simp [ShutdownState.step, hrunning, hloop]⟩
  | running i => exact ⟨.handlerReturns, rfl, by simp [ShutdownState.step, hrunning, hloop]⟩
  | _ => simp [hloop, ShutdownLoop.isGoing] at hgoing

theorem Progress.called_prefix (h : s.Progress handlers) : s.called <+: handlers := by
  unfold Progress at h
  cases hloop : s.loop with
  | notBegun => simp [hloop] at h
  | waiting => simp [hloop] at h
  | calling i =>
    rw [hloop] at h
    exact h.2 ▸ List.take_prefix _ _
  | running i =>
    rw [hloop] at h
    exact h.2 ▸ List.take_prefix _ _
  | ended =>
    rw [hloop] at h
    exact h ▸ List.prefix_rfl
  | threw =>
    rw [hloop] at h
    exact h

/-- In every run the handlers that are registered when the first request gets the mutex are called
one after the other, the latest first, and no others. The request goes on until all of them have
been called, a handler has thrown, or the process is over, which is exactly after the third
request. -/
theorem handlers_called_once (labels : List (ShutdownLabel η)) (s : ShutdownState η)
    (hrun : Execution.run step {} labels = some s) :
    s.called <+: handlersAtLock [] labels ∧
    (s.loop = .ended → s.called = handlersAtLock [] labels) ∧
    ((∀ a ∈ labels, a.throws = false) → s.loop ≠ .threw) ∧
    (s.loop = .notBegun ↔ requests labels = 0) ∧
    (s.loop.isGoing = true → s.exited = false →
      ∃ a : ShutdownLabel η, a.isOfLoop = true ∧ (s.step a).isSome) ∧
    (s.mShutdown = true ↔ requests labels ≠ 0) ∧
    requests labels ≤ 3 ∧ (s.exited = true ↔ requests labels = 3) := by
  have hrequested := requested_start.run hrun
  rw [Nat.zero_add] at hrequested
  have hstart : ({} : ShutdownState η).Collecting [] := ⟨rfl, rfl, Or.inl ⟨rfl, rfl⟩⟩
  have hcalled : s.called <+: handlersAtLock [] labels ∧
      (s.loop = .ended → s.called = handlersAtLock [] labels) := by
    rcases hstart.run hrun with h | h
    · refine ⟨h.called ▸ List.nil_prefix, fun hended => ?_⟩
      exact absurd h.begun (by simp [hended])
    · refine ⟨h.progress.called_prefix, fun hended => ?_⟩
      have hprogress := h.progress
      unfold Progress at hprogress
      rw [hended] at hprogress
      exact hprogress
  refine ⟨hcalled.1, hcalled.2, fun hnever => ?_, hrequested.begun, exists_step, ?_,
    hrequested.le_three, ?_⟩
  · have hbegun : ({} : ShutdownState η).loop ≠ .threw := ShutdownLoop.noConfusion
    have halong : Execution.Along step (fun _ a => a.throws = false) {} labels :=
      Execution.along_of_forall hnever
    exact Execution.run_invariant (I := fun s : ShutdownState η => s.loop ≠ .threw)
      (fun _ _ _ hloop hthrows hstep => loop_ne_threw_step hloop hthrows hstep) hbegun halong hrun
  · rw [hrequested.mShutdown, decide_eq_true_iff]
  · rw [hrequested.exited, decide_eq_true_iff]

/-- A second request comes while the first handler runs, and the third one while the next does. -/
def sampleShutdown : List (ShutdownLabel ℕ) :=
  [.registerShutdownHandler (some 1), .registerShutdownHandler none,
    .registerShutdownHandler (some 2), .gracefullyShutdown, .registerShutdownHandler (some 3),
    .lock, .nextHandler, .gracefullyShutdown, .handlerReturns, .nextHandler, .gracefullyShutdown]

theorem handlers_called_once_sample :
    ∃ s, Execution.run step {} sampleShutdown = some s ∧ s.called = [3, 2] ∧
      s.called <+: [3, 2, 1] ∧ s.exited = true := by
  obtain ⟨hcalled, -, -, -, -, -, -, hexited⟩ :=
    handlers_called_once sampleShutdown _ (rfl : Execution.run step {} sampleShutdown = some _)
  exact ⟨_, rfl, rfl, hcalled, hexited.mpr rfl⟩

end ShutdownState
end BeamMP
