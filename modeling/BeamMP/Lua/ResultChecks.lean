import BeamMP.Lua.StateQueues
import Mathlib.Algebra.BigOperators.Group.List.Basic

/-!
# The errors of Lua calls

`WaitForAll` waits for results one after another and logs the errors of those that get
ready in time. The others it leaves to `mResultsToCheck`, as event timers and callers
of `ReportErrors` do, and a thread goes through that list again and again and logs
the errors of the results that have become ready. The loop of `operator()` that logs the
errors of `onInit` a second time is left out.
-/
namespace BeamMP

open Execution

def CallOutcome.isLogged : Option CallOutcome → Bool
  | some (.error ErrorMessage) => ErrorMessage ≠ fnNotFoundError
  | some .success | none => false

/-- The nanoseconds of a millisecond, the unit in which a duration is compared. -/
def millisecond : ℕ := 1000000

/-- Where `WaitForAll` is with the first of the results that are left: before the condition of its
inner loop, in `sleep_for`, and behind the loop. -/
inductive WaitPhase
  | test
  | sleep
  | behind (Cancelled : Bool)
deriving DecidableEq

/-- A call of `WaitForAll` and the results that are left. `Max` is in nanoseconds. How often it has
slept for each of the results it is done with and for the first one that is left, and the results
it was not waiting for any longer, are kept beside its variables. -/
structure WaitCall where
  Results : List ℕ
  Max : Option ℕ
  left : List ℕ
  ms : ℕ := 0
  phase : WaitPhase := .test
  slept : List ℕ := []
  naps : ℕ := 0
  cancelled : List ℕ := []
deriving DecidableEq

inductive WaitEffect
  | nothing
  | log (Result : ℕ)
  | reportErrors (Result : ℕ)
deriving DecidableEq

namespace WaitCall

variable (w : WaitCall) (results : ℕ → Option CallOutcome)

def step : Option (WaitCall × WaitEffect) :=
  match w.left with
  | [] => none
  | Result :: left =>
    match w.phase with
    | .test =>
      some ({ w with phase := if (results Result).isSome then .behind false else .sleep }, .nothing)
    | .sleep =>
      some ({ w with
        ms := w.ms + 10
        naps := w.naps + 1
        phase := if w.Max.any (· < (w.ms + 10) * millisecond) then .behind true else .test },
        .nothing)
    | .behind true =>
      some ({ w with
        left
        ms := 0
        phase := .test
        slept := w.slept ++ [w.naps]
        naps := 0
        cancelled := w.cancelled ++ [Result] }, .reportErrors Result)
    | .behind false =>
      some ({ w with left, ms := 0, phase := .test, slept := w.slept ++ [w.naps], naps := 0 },
        if CallOutcome.isLogged (results Result) then .log Result else .nothing)

end WaitCall

/-- The engine with its results to check and all calls of `WaitForAll`. While `remove_if` goes
through the list, `checking` is the place it has got to, and `mResultsToCheckMutex` is locked. The
results that were handed over to `WaitForAll` or to `mResultsToCheck`, and those whose error was
logged, are kept beside. -/
structure ResultChecks (α : Type) where
  queues : LuaQueues α
  mResultsToCheck : List ℕ := []
  checking : Option ℕ := none
  waitCalls : List WaitCall := []
  handed : List ℕ := []
  logged : List ℕ := []

inductive CheckLabel (α : Type)
  | queues (l : QueueLabel α)
  | reportErrors (Results : List ℕ)
  | waitForAll (Results : List ℕ) (Max : Option ℕ)
  | wait (i : ℕ)
  | beginCheck
  | check
deriving DecidableEq

namespace ResultChecks

variable {α : Type} (s : ResultChecks α)

def start (α : Type) : ResultChecks α where
  queues := LuaQueues.start α

def perform (i : ℕ) (w : WaitCall) : WaitEffect → Option (ResultChecks α)
  | .nothing => some { s with waitCalls := s.waitCalls.set i w }
  | .log Result =>
    some { s with waitCalls := s.waitCalls.set i w, logged := s.logged ++ [Result] }
  | .reportErrors Result =>
    if s.checking = none then
      some { s with
        waitCalls := s.waitCalls.set i w
        mResultsToCheck := s.mResultsToCheck ++ [Result] }
    else none

/-- The predicate of `remove_if` for the element at `i`. -/
def checkAt (i : ℕ) : ResultChecks α :=
  match s.mResultsToCheck[i]? with
  | none => { s with checking := none }
  | some Ptr =>
    if (s.queues.results Ptr).isSome then
      { s with
        mResultsToCheck := s.mResultsToCheck.eraseIdx i
        logged :=
          if CallOutcome.isLogged (s.queues.results Ptr) then s.logged ++ [Ptr] else s.logged }
    else { s with checking := some (i + 1) }

def step : CheckLabel α → Option (ResultChecks α)
  | .queues l => (s.queues.step l).map fun queues => { s with queues }
  | .reportErrors Results =>
    if s.checking = none then
      some { s with
        mResultsToCheck := s.mResultsToCheck ++ Results
        handed := s.handed ++ Results }
    else none
  | .waitForAll Results Max =>
    some { s with
      waitCalls := s.waitCalls ++ [{ Results, Max, left := Results }]
      handed := s.handed ++ Results }
  | .wait i =>
    s.waitCalls[i]?.bind fun w => (w.step s.queues.results).bind fun r => s.perform i r.1 r.2
  | .beginCheck =>
    if s.checking = none ∧ s.mResultsToCheck ≠ [] then some { s with checking := some 0 } else none
  | .check => s.checking.map s.checkAt

def pending (r : ℕ) : ℕ :=
  s.mResultsToCheck.count r + (s.waitCalls.map fun w => w.left.count r).sum

/-- What was handed over is settled or pending, and what is settled has been ready, and its error
was logged. -/
structure Accounted (settled : List ℕ) : Prop where
  queues : s.queues.Sound
  handed : ∀ r, s.handed.count r = settled.count r + s.pending r
  ready : ∀ r ∈ settled, (s.queues.results r).isSome
  logged : s.logged = settled.filter fun r => CallOutcome.isLogged (s.queues.results r)
  waited : ∀ w ∈ s.waitCalls, w.phase = .behind false →
    ∀ r left, w.left = r :: left → (s.queues.results r).isSome

variable {s} {t : ResultChecks α} {settled : List ℕ} {i : ℕ} {w w' : WaitCall} {Ptr : ℕ}

theorem accounted_start : (start α).Accounted [] where
  queues := LuaQueues.sound_start
  handed _ := rfl
  ready _ hr := absurd hr List.not_mem_nil
  logged := rfl
  waited _ hw := absurd hw List.not_mem_nil

theorem sum_map_set {β : Type} {L : List β} (f : β → ℕ) {i : ℕ} {b b' : β}
    (h : L[i]? = some b) : ((L.set i b').map f).sum + f b = (L.map f).sum + f b' := by
  induction L generalizing i with
  | nil => simp at h
  | cons c L ih =>
    cases i with
    | zero =>
      obtain rfl : c = b := by simpa using h
      simp only [List.set_cons_zero, List.map_cons, List.sum_cons]
      omega
    | succ i =>
      have := ih (i := i) (by simpa using h)
      simp only [List.set_cons_succ, List.map_cons, List.sum_cons]
      omega

theorem left_set (hw : s.waitCalls[i]? = some w) (w' : WaitCall) (r : ℕ) :
    ((s.waitCalls.set i w').map fun w => w.left.count r).sum + w.left.count r =
      (s.waitCalls.map fun w => w.left.count r).sum + w'.left.count r :=
  sum_map_set (fun w => w.left.count r) hw

theorem Accounted.queues_step (hs : s.Accounted settled) {l : QueueLabel α}
    {queues : LuaQueues α} (h : s.queues.step l = some queues) :
    ({ s with queues } : ResultChecks α).Accounted settled := by
  have hkeep : ∀ r, (s.queues.results r).isSome → queues.results r = s.queues.results r := by
    intro r hr
    obtain ⟨outcome, hr⟩ := Option.isSome_iff_exists.mp hr
    rw [hs.queues.results_step h hr, hr]
  refine ⟨hs.queues.step h, hs.handed, fun r hr => ?_, ?_, fun w hw hphase r left hleft => ?_⟩
  · exact (hkeep r (hs.ready r hr)).symm ▸ hs.ready r hr
  · rw [hs.logged]
    refine List.filter_congr fun r hr => ?_
    rw [hkeep r (hs.ready r hr)]
  · have hready := hs.waited w hw hphase r left hleft
    exact (hkeep r hready).symm ▸ hready

theorem Accounted.reportErrors (hs : s.Accounted settled) (Results : List ℕ) :
    ({ s with
        mResultsToCheck := s.mResultsToCheck ++ Results
        handed := s.handed ++ Results } : ResultChecks α).Accounted settled := by
  refine ⟨hs.queues, fun r => ?_, hs.ready, hs.logged, hs.waited⟩
  have := hs.handed r
  simp only [pending, List.count_append] at this ⊢
  omega

theorem Accounted.waitForAll (hs : s.Accounted settled) (Results : List ℕ) (Max : Option ℕ) :
    ({ s with
        waitCalls := s.waitCalls ++ [{ Results, Max, left := Results }]
        handed := s.handed ++ Results } : ResultChecks α).Accounted settled := by
  refine ⟨hs.queues, fun r => ?_, hs.ready, hs.logged, fun w hw hphase => ?_⟩
  · have := hs.handed r
    simp only [pending, List.count_append, List.map_append, List.sum_append, List.map_cons,
      List.map_nil, List.sum_singleton] at this ⊢
    omega
  · rcases List.mem_append.mp hw with hw | hw
    · exact hs.waited w hw hphase
    · obtain rfl := List.mem_singleton.mp hw
      exact absurd hphase (by simp)

theorem Accounted.wait_on (hs : s.Accounted settled) (hw : s.waitCalls[i]? = some w)
    (hleft : w'.left = w.left)
    (hphase : w'.phase = .behind false →
      ∀ r left, w.left = r :: left → (s.queues.results r).isSome) :
    ({ s with waitCalls := s.waitCalls.set i w' } : ResultChecks α).Accounted settled := by
  refine ⟨hs.queues, fun r => ?_, hs.ready, hs.logged, fun w₁ hw₁ => ?_⟩
  · have hset := left_set hw w' r
    have hhanded := hs.handed r
    rw [hleft] at hset
    simp only [pending] at hhanded ⊢
    omega
  · rcases List.mem_or_eq_of_mem_set hw₁ with hw₁ | rfl
    · exact hs.waited w₁ hw₁
    · rw [hleft]
      exact hphase

/-- A wait that is done with the first of its results has that one less pending. -/
theorem left_set_cons (hw : s.waitCalls[i]? = some w) {r : ℕ} {left : List ℕ}
    (hold : w.left = r :: left) (hnew : w'.left = left) (r' : ℕ) :
    ((s.waitCalls.set i w').map fun w => w.left.count r').sum + [r].count r' =
      (s.waitCalls.map fun w => w.left.count r').sum := by
  have hset := left_set hw w' r'
  rw [hold, hnew, List.count_cons] at hset
  rw [List.count_singleton]
  omega

theorem Accounted.waited_set (hs : s.Accounted settled) (hphase : w'.phase = .test) :
    ∀ w₁ ∈ s.waitCalls.set i w', w₁.phase = .behind false →
      ∀ r left, w₁.left = r :: left → (s.queues.results r).isSome := by
  intro w₁ hw₁ hphase₁
  rcases List.mem_or_eq_of_mem_set hw₁ with hw₁ | rfl
  · exact hs.waited w₁ hw₁ hphase₁
  · exact absurd (hphase.symm.trans hphase₁) (by simp)

theorem Accounted.wait_cancelled (hs : s.Accounted settled) (hw : s.waitCalls[i]? = some w)
    {r : ℕ} {left : List ℕ} (hold : w.left = r :: left) (hnew : w'.left = left)
    (hphase : w'.phase = .test) :
    ({ s with
        waitCalls := s.waitCalls.set i w'
        mResultsToCheck := s.mResultsToCheck ++ [r] } : ResultChecks α).Accounted settled := by
  refine ⟨hs.queues, fun r' => ?_, hs.ready, hs.logged, hs.waited_set hphase⟩
  have hset := left_set_cons hw hold hnew r'
  have hhanded := hs.handed r'
  simp only [pending, List.count_append] at hhanded ⊢
  omega

/-- The log is complete again when a result that is ready has been looked at. -/
theorem Accounted.logged_append (hs : s.Accounted settled) (r : ℕ) :
    (if CallOutcome.isLogged (s.queues.results r) then s.logged ++ [r] else s.logged) =
      (settled ++ [r]).filter fun r => CallOutcome.isLogged (s.queues.results r) := by
  rw [List.filter_append, hs.logged]
  split_ifs with hlogged <;> simp [hlogged]

theorem Accounted.ready_append (hs : s.Accounted settled) {r : ℕ}
    (hready : (s.queues.results r).isSome) :
    ∀ r' ∈ settled ++ [r], (s.queues.results r').isSome := by
  intro r' hr'
  rcases List.mem_append.mp hr' with hr' | hr'
  · exact hs.ready r' hr'
  · exact List.mem_singleton.mp hr' ▸ hready

theorem Accounted.wait_settled (hs : s.Accounted settled) (hw : s.waitCalls[i]? = some w)
    {r : ℕ} {left : List ℕ} (hold : w.left = r :: left) (hnew : w'.left = left)
    (hphase : w'.phase = .test) (hready : (s.queues.results r).isSome) :
    ({ s with
        waitCalls := s.waitCalls.set i w'
        logged := if CallOutcome.isLogged (s.queues.results r) then s.logged ++ [r]
          else s.logged } : ResultChecks α).Accounted (settled ++ [r]) := by
  refine ⟨hs.queues, fun r' => ?_, hs.ready_append hready, hs.logged_append r,
    hs.waited_set hphase⟩
  have hset := left_set_cons hw hold hnew r'
  have hhanded := hs.handed r'
  simp only [pending, List.count_append] at hhanded ⊢
  omega

theorem Accounted.wait (hs : s.Accounted settled) (hw : s.waitCalls[i]? = some w)
    {effect : WaitEffect} (hstep : w.step s.queues.results = some (w', effect))
    (h : s.perform i w' effect = some t) : ∃ settled, t.Accounted settled := by
  have hmem : w ∈ s.waitCalls := List.mem_of_getElem? hw
  unfold WaitCall.step at hstep
  split at hstep
  · cases hstep
  · next r left hleft =>
    split at hstep
    · obtain ⟨rfl, rfl⟩ := Prod.mk.inj (Option.some.inj hstep)
      obtain rfl := Option.some.inj h
      refine ⟨settled, hs.wait_on hw rfl fun hphase r' left' hleft' => ?_⟩
      obtain ⟨rfl, rfl⟩ := List.cons.inj (hleft.symm.trans hleft')
      by_contra hready
      exact absurd hphase (by simp [hready])
    · obtain ⟨rfl, rfl⟩ := Prod.mk.inj (Option.some.inj hstep)
      obtain rfl := Option.some.inj h
      refine ⟨settled, hs.wait_on hw rfl fun hphase => ?_⟩
      dsimp only at hphase
      split_ifs at hphase
      cases hphase
    · obtain ⟨rfl, rfl⟩ := Prod.mk.inj (Option.some.inj hstep)
      simp only [perform] at h
      split_ifs at h with hfree
      obtain rfl := Option.some.inj h
      exact ⟨settled, hs.wait_cancelled hw hleft rfl rfl⟩
    · next hphase =>
      obtain ⟨rfl, rfl⟩ := Prod.mk.inj (Option.some.inj hstep)
      have hready := hs.waited w hmem hphase r left hleft
      refine ⟨settled ++ [r], ?_⟩
      have hnew : ({ w with
          left, ms := 0, phase := .test, slept := w.slept ++ [w.naps], naps := 0 } :
            WaitCall).left = left := rfl
      have hsettled := hs.wait_settled hw hleft hnew rfl hready
      split_ifs at h hsettled
      · obtain rfl := Option.some.inj h
        exact hsettled
      · obtain rfl := Option.some.inj h
        exact hsettled

theorem Accounted.checkAt (hs : s.Accounted settled) (i : ℕ) :
    ∃ settled, (s.checkAt i).Accounted settled := by
  unfold ResultChecks.checkAt
  split
  · exact ⟨settled, hs.queues, hs.handed, hs.ready, hs.logged, hs.waited⟩
  · next Ptr hPtr =>
    by_cases hready : (s.queues.results Ptr).isSome
    · rw [if_pos hready]
      refine ⟨settled ++ [Ptr], hs.queues, fun r => ?_, hs.ready_append hready,
        hs.logged_append Ptr, hs.waited⟩
      obtain ⟨hlt, rfl⟩ := List.getElem?_eq_some_iff.mp hPtr
      have hcount := (List.getElem_cons_eraseIdx_perm hlt).count_eq r
      have hhanded := hs.handed r
      rw [List.count_cons] at hcount
      simp only [pending, List.count_append, List.count_singleton] at hhanded ⊢
      omega
    · rw [if_neg hready]
      exact ⟨settled, hs.queues, hs.handed, hs.ready, hs.logged, hs.waited⟩

theorem Accounted.step (hs : s.Accounted settled) {l : CheckLabel α} (h : s.step l = some t) :
    ∃ settled, t.Accounted settled := by
  cases l with
  | queues l =>
    obtain ⟨queues, hqueues, rfl⟩ := Option.map_eq_some_iff.mp h
    exact ⟨settled, hs.queues_step hqueues⟩
  | reportErrors Results =>
    simp only [ResultChecks.step] at h
    split_ifs at h with hfree
    obtain rfl := Option.some.inj h
    exact ⟨settled, hs.reportErrors Results⟩
  | waitForAll Results Max =>
    obtain rfl := Option.some.inj h
    exact ⟨settled, hs.waitForAll Results Max⟩
  | wait i =>
    obtain ⟨w, hw, h⟩ := Option.bind_eq_some_iff.mp h
    obtain ⟨⟨w', effect⟩, hstep, h⟩ := Option.bind_eq_some_iff.mp h
    exact hs.wait hw hstep h
  | beginCheck =>
    simp only [ResultChecks.step] at h
    split_ifs at h with hfree
    obtain rfl := Option.some.inj h
    exact ⟨settled, hs.queues, hs.handed, hs.ready, hs.logged, hs.waited⟩
  | check =>
    obtain ⟨i, -, rfl⟩ := Option.map_eq_some_iff.mp h
    exact hs.checkAt i

/-- In every run, the error of a result has been logged as often as the result was handed over to
`WaitForAll` and to the list of results to check, but for the times it is still to be looked at
there; and nothing is logged for a result without an error. -/
theorem errors_logged_once (labels : List (CheckLabel α)) (s : ResultChecks α)
    (hrun : run step (start α) labels = some s) (r : ℕ) :
    (CallOutcome.isLogged (s.queues.results r) = true →
      s.logged.count r + s.pending r = s.handed.count r) ∧
    (CallOutcome.isLogged (s.queues.results r) = false → s.logged.count r = 0) := by
  obtain ⟨settled, hs⟩ : ∃ settled, s.Accounted settled :=
    run_invariant_of_step (I := fun s : ResultChecks α => ∃ settled, s.Accounted settled)
      (fun _ _ _ hs h => hs.elim fun _ hs => hs.step h) ⟨[], accounted_start⟩ hrun
  rw [hs.logged, hs.handed r]
  constructor
  · intro hlogged
    have hcount : (settled.filter fun r => CallOutcome.isLogged (s.queues.results r)).count r =
        settled.count r := List.count_filter hlogged
    rw [hcount]
  · intro hlogged
    refine List.count_eq_zero.mpr fun hmem => ?_
    exact absurd ((List.mem_filter.mp hmem).2) (by simp [hlogged])

/-- `WaitForAll` gives up on a call, which fails later and is then found in the list. -/
def sampleChecks : List (CheckLabel Unit) :=
  [.queues (.ensureStateExists LuaQueues.sampleState),
    .queues (.enqueueFunctionCall LuaQueues.sampleState LuaQueues.sampleCall),
    .waitForAll [0] (some 0), .wait 0, .wait 0, .wait 0,
    .queues (.thread LuaQueues.sampleState .checkShutdown),
    .queues (.thread LuaQueues.sampleState .takeScript),
    .queues (.thread LuaQueues.sampleState .takeCall),
    .queues (.thread LuaQueues.sampleState (.finishCall (some (.error (ascii "failed"))))),
    .beginCheck, .check, .check]

theorem errors_logged_once_sample :
    ∃ s, run step (start Unit) sampleChecks = some s ∧ s.pending 0 = 0 ∧
      s.logged.count 0 + s.pending 0 = s.handed.count 0 ∧ s.logged = [0] :=
  ⟨_, rfl, rfl, (errors_logged_once sampleChecks _ rfl 0).1 rfl, rfl⟩

/-- How often `WaitForAll` sleeps for one result at most. -/
def maxNaps (Max : ℕ) : ℕ := Max / (10 * millisecond) + 1

/-- What a call of `WaitForAll` has done, when `past` are the results it is done with. -/
structure WaitProgress (w : WaitCall) (results : ℕ → Option CallOutcome) (past : List ℕ) :
    Prop where
  split : w.Results = past ++ w.left
  done : ∀ r ∈ past, (results r).isSome ∨ r ∈ w.cancelled
  waited : w.phase = .behind false → ∀ r left, w.left = r :: left → (results r).isSome
  ms : w.ms = 10 * w.naps
  rested : w.left = [] → w.naps = 0
  each : w.slept.length = past.length
  slept : ∀ m, w.Max = some m → ∀ n ∈ w.slept, n ≤ maxNaps m
  bounded : ∀ m, w.Max = some m → w.naps ≤ maxNaps m
  inTime : ∀ m, w.Max = some m → w.phase ≠ .behind true → w.naps < maxNaps m
  patient : w.Max = none → w.cancelled = [] ∧ w.phase ≠ .behind true

section Progress

variable {results : ℕ → Option CallOutcome} {past : List ℕ} {r : ℕ} {left : List ℕ}

theorem WaitProgress.test (hw : WaitProgress w results past) (hleft : w.left = r :: left)
    (hphase : w.phase = .test) :
    WaitProgress { w with phase := if (results r).isSome then .behind false else .sleep }
      results past := by
  refine { hw with waited := fun hready r' left' hleft' => ?_, inTime := fun m hm _ => ?_,
                   patient := fun hnone => ⟨(hw.patient hnone).1, ?_⟩ }
  · obtain ⟨rfl, rfl⟩ := List.cons.inj (hleft.symm.trans hleft')
    by_contra hunready
    exact absurd hready (by simp [hunready])
  · exact hw.inTime m hm (by simp [hphase])
  · dsimp only
    split_ifs <;> simp

/-- As long as the time is not up, the call can sleep once more. -/
theorem lt_maxNaps {m naps : ℕ} (h : (10 * naps + 10) * millisecond ≤ m) :
    naps + 1 < maxNaps m := by
  have hpos : 0 < 10 * millisecond := by norm_num [millisecond]
  have hfactor : (10 * naps + 10) * millisecond = (naps + 1) * (10 * millisecond) := by ring
  exact Nat.lt_succ_of_le ((Nat.le_div_iff_mul_le hpos).mpr (hfactor ▸ h))

theorem WaitProgress.sleep (hw : WaitProgress w results past) (hleft : w.left = r :: left)
    (hphase : w.phase = .sleep) :
    WaitProgress { w with
      ms := w.ms + 10
      naps := w.naps + 1
      phase := if w.Max.any (· < (w.ms + 10) * millisecond) then .behind true else .test }
      results past := by
  refine { hw with waited := fun hready => ?_, ms := ?_, rested := fun hempty => ?_,
                   bounded := fun m hm => ?_, inTime := fun m hm hnot => ?_,
                   patient := fun hnone => ⟨(hw.patient hnone).1, ?_⟩ }
  · dsimp only at hready
    split_ifs at hready
    cases hready
  · exact (congrArg (· + 10) hw.ms).trans (Nat.mul_succ 10 w.naps).symm
  · exact absurd (hleft.symm.trans hempty) (List.cons_ne_nil r left)
  · exact hw.inTime m hm (by simp [hphase])
  · have hlate : (w.ms + 10) * millisecond ≤ m := by
      by_contra hlt
      have hmax : w.Max = some m := hm
      dsimp only at hnot
      rw [hmax, Option.any_some, if_pos (decide_eq_true (Nat.not_le.mp hlt))] at hnot
      exact hnot rfl
    rw [hw.ms] at hlate
    exact lt_maxNaps hlate
  · rw [show w.Max = none from hnone]
    exact WaitPhase.noConfusion

theorem WaitProgress.next (hw : WaitProgress w results past) (hleft : w.left = r :: left)
    {cancelled : List ℕ} (hkeep : ∀ r ∈ w.cancelled, r ∈ cancelled)
    (hdone : (results r).isSome ∨ r ∈ cancelled) (hpatient : w.Max = none → cancelled = []) :
    WaitProgress { w with
      left
      ms := 0
      phase := .test
      slept := w.slept ++ [w.naps]
      naps := 0
      cancelled } results (past ++ [r]) where
  split := by simp [hw.split, hleft]
  done r' hr' := by
    rcases List.mem_append.mp hr' with hr' | hr'
    · exact (hw.done r' hr').imp_right (hkeep r')
    · exact List.mem_singleton.mp hr' ▸ hdone
  waited hready := by cases hready
  ms := rfl
  rested _ := rfl
  each := by simp [hw.each]
  slept m hm n hn := by
    rcases List.mem_append.mp hn with hn | hn
    · exact hw.slept m hm n hn
    · exact List.mem_singleton.mp hn ▸ hw.bounded m hm
  bounded _ _ := Nat.zero_le _
  inTime _ _ _ := Nat.succ_pos _
  patient hnone := ⟨hpatient hnone, WaitPhase.noConfusion⟩

theorem WaitProgress.step {effect : WaitEffect} (hw : WaitProgress w results past)
    (h : w.step results = some (w', effect)) : ∃ past, WaitProgress w' results past := by
  unfold WaitCall.step at h
  split at h
  · cases h
  · next r left hleft =>
    split at h
    · next hphase =>
      obtain ⟨rfl, rfl⟩ := Prod.mk.inj (Option.some.inj h)
      exact ⟨past, hw.test hleft hphase⟩
    · next hphase =>
      obtain ⟨rfl, rfl⟩ := Prod.mk.inj (Option.some.inj h)
      exact ⟨past, hw.sleep hleft hphase⟩
    · next hphase =>
      obtain ⟨rfl, rfl⟩ := Prod.mk.inj (Option.some.inj h)
      refine ⟨past ++ [r], hw.next hleft (fun _ hr' => List.mem_append_left _ hr') ?_ ?_⟩
      · exact .inr (List.mem_append_right _ (List.mem_singleton.mpr rfl))
      · exact fun hnone => absurd hphase (hw.patient hnone).2
    · next hphase =>
      obtain ⟨rfl, rfl⟩ := Prod.mk.inj (Option.some.inj h)
      exact ⟨past ++ [r], hw.next hleft (fun _ hr' => hr') (.inl (hw.waited hphase r left hleft))
        fun hnone => (hw.patient hnone).1⟩

theorem waitProgress_start (results : ℕ → Option CallOutcome) (Results : List ℕ)
    (Max : Option ℕ) : WaitProgress { Results, Max, left := Results } results [] where
  split := rfl
  done r hr := absurd hr List.not_mem_nil
  waited hphase := absurd hphase (by simp)
  ms := rfl
  rested _ := rfl
  each := rfl
  slept _ _ _ hn := absurd hn List.not_mem_nil
  bounded _ _ := Nat.zero_le _
  inTime _ _ _ := Nat.succ_pos _
  patient _ := ⟨rfl, by simp⟩

theorem WaitProgress.mono {results' : ℕ → Option CallOutcome} (hw : WaitProgress w results past)
    (hkeep : ∀ r, (results r).isSome → (results' r).isSome) : WaitProgress w results' past :=
  { hw with
    done := fun r hr => (hw.done r hr).imp_left (hkeep r)
    waited := fun hphase r left hleft => hkeep r (hw.waited hphase r left hleft) }

theorem WaitProgress.sum_slept_le (hw : WaitProgress w results past) {m : ℕ}
    (hm : w.Max = some m) : w.slept.sum + w.naps ≤ w.Results.length * maxNaps m := by
  have hsum : w.slept.sum ≤ w.slept.length * maxNaps m :=
    List.sum_le_card_nsmul _ _ (hw.slept m hm)
  have hnaps : w.naps ≤ w.left.length * maxNaps m := by
    cases hleft : w.left with
    | nil =>
      rw [hw.rested hleft]
      exact Nat.zero_le _
    | cons r left =>
      rw [List.length_cons, Nat.add_mul, Nat.one_mul]
      exact (hw.bounded m hm).trans (Nat.le_add_left _ _)
  rw [hw.each] at hsum
  rw [hw.split, List.length_append, Nat.add_mul]
  exact Nat.add_le_add hsum hnaps

end Progress

def WaitsInTurn (s : ResultChecks α) : Prop :=
  s.queues.Sound ∧ ∀ w ∈ s.waitCalls, ∃ past, WaitProgress w s.queues.results past

theorem WaitsInTurn.wait (hs : s.WaitsInTurn) (hw : s.waitCalls[i]? = some w)
    {effect : WaitEffect} (hstep : w.step s.queues.results = some (w', effect))
    (h : s.perform i w' effect = some t) : t.WaitsInTurn := by
  have hset : ∀ w₁ ∈ s.waitCalls.set i w',
      ∃ past, WaitProgress w₁ s.queues.results past := by
    intro w₁ hw₁
    rcases List.mem_or_eq_of_mem_set hw₁ with hw₁ | rfl
    · exact hs.2 w₁ hw₁
    · obtain ⟨past, hprogress⟩ := hs.2 w (List.mem_of_getElem? hw)
      exact hprogress.step hstep
  cases effect with
  | nothing =>
    obtain rfl := Option.some.inj h
    exact ⟨hs.1, hset⟩
  | log Result =>
    obtain rfl := Option.some.inj h
    exact ⟨hs.1, hset⟩
  | reportErrors Result =>
    simp only [perform] at h
    split_ifs at h with hfree
    obtain rfl := Option.some.inj h
    exact ⟨hs.1, hset⟩

theorem waitCalls_checkAt (i : ℕ) :
    (s.checkAt i).waitCalls = s.waitCalls ∧ (s.checkAt i).queues = s.queues := by
  unfold ResultChecks.checkAt
  split
  · exact ⟨rfl, rfl⟩
  · split <;> exact ⟨rfl, rfl⟩

theorem WaitsInTurn.step (hs : s.WaitsInTurn) {l : CheckLabel α} (h : s.step l = some t) :
    t.WaitsInTurn := by
  cases l with
  | queues l =>
    obtain ⟨queues, hqueues, rfl⟩ := Option.map_eq_some_iff.mp h
    refine ⟨hs.1.step hqueues, fun w hw => ?_⟩
    obtain ⟨past, hprogress⟩ := hs.2 w hw
    refine ⟨past, hprogress.mono fun r hr => ?_⟩
    obtain ⟨outcome, hr⟩ := Option.isSome_iff_exists.mp hr
    exact Option.isSome_iff_exists.mpr ⟨outcome, hs.1.results_step hqueues hr⟩
  | reportErrors Results =>
    simp only [ResultChecks.step] at h
    split_ifs at h with hfree
    obtain rfl := Option.some.inj h
    exact hs
  | waitForAll Results Max =>
    obtain rfl := Option.some.inj h
    refine ⟨hs.1, fun w hw => ?_⟩
    rcases List.mem_append.mp hw with hw | hw
    · exact hs.2 w hw
    · obtain rfl := List.mem_singleton.mp hw
      exact ⟨[], waitProgress_start s.queues.results Results Max⟩
  | wait i =>
    obtain ⟨w, hw, h⟩ := Option.bind_eq_some_iff.mp h
    obtain ⟨⟨w', effect⟩, hstep, h⟩ := Option.bind_eq_some_iff.mp h
    exact hs.wait hw hstep h
  | beginCheck =>
    simp only [ResultChecks.step] at h
    split_ifs at h with hfree
    obtain rfl := Option.some.inj h
    exact hs
  | check =>
    obtain ⟨i, -, rfl⟩ := Option.map_eq_some_iff.mp h
    unfold WaitsInTurn
    rw [(waitCalls_checkAt i).1, (waitCalls_checkAt i).2]
    exact hs

/-- Whatever the other threads do, `WaitForAll` sleeps at most `Max / 10 ms + 1` times for each of
its results; when it returns, each of them is ready or was left to the list of results to check,
and with no `Max` all of them are ready. -/
theorem waitForAll_bounded (labels : List (CheckLabel α)) (s : ResultChecks α)
    (hrun : run step (start α) labels = some s) (w : WaitCall) (hw : w ∈ s.waitCalls) :
    (∀ m, w.Max = some m → (∀ n ∈ w.slept, n ≤ maxNaps m) ∧ w.naps ≤ maxNaps m ∧
      w.slept.sum + w.naps ≤ w.Results.length * maxNaps m) ∧
    w.slept.length + w.left.length = w.Results.length ∧
    (w.left = [] → ∀ r ∈ w.Results, (s.queues.results r).isSome ∨ r ∈ w.cancelled) ∧
    (w.Max = none → w.cancelled = []) := by
  have hs : s.WaitsInTurn := by
    refine run_invariant_of_step (fun _ _ _ hs h => hs.step h) ?_ hrun
    exact ⟨LuaQueues.sound_start, fun w hw => absurd hw List.not_mem_nil⟩
  obtain ⟨past, hprogress⟩ := hs.2 w hw
  refine ⟨fun m hm => ⟨hprogress.slept m hm, hprogress.bounded m hm, hprogress.sum_slept_le hm⟩,
    ?_, fun hempty r hr => ?_, fun hnone => (hprogress.patient hnone).1⟩
  · rw [hprogress.split, List.length_append, hprogress.each]
  · rw [hprogress.split, hempty, List.append_nil] at hr
    exact hprogress.done r hr

theorem waitForAll_bounded_sample :
    ∃ s w, run step (start Unit) sampleChecks = some s ∧ s.waitCalls = [w] ∧ w.Max = some 0 ∧
      w.slept = [1] ∧ ∀ n ∈ w.slept, n ≤ maxNaps 0 := by
  refine ⟨_, _, rfl, rfl, rfl, rfl, ?_⟩
  exact ((waitForAll_bounded sampleChecks _ rfl _ (List.mem_singleton.mpr rfl)).1 0 rfl).1

end ResultChecks
end BeamMP
