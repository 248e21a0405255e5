import BeamMP.Common.Bytes
import BeamMP.Foundation.KeyedList
import BeamMP.Foundation.LockScopes
import Mathlib.Data.List.Sort

/-!
# The mutexes of the Lua engine

`TriggerEvent` holds `mLuaEventsMutex` while it enqueues the handlers, which locks
`mLuaStatesMutex`. `EnsureStateExists` holds `mLuaStatesMutex` while it registers
`onInit` for a new state, which locks `mLuaEventsMutex`.
-/
namespace BeamMP

inductive LuaMutex
  | mLuaEventsMutex
  | mLuaStatesMutex
  | mTimedEventsMutex
  | mResultsToCheckMutex
deriving DecidableEq

abbrev TLuaStateId := Bytes

/-- `mLuaEvents`, the handlers of every event by state, and the keys of `mLuaStates`. -/
structure LuaData where
  mLuaEvents : List (Bytes × List (TLuaStateId × List Bytes))
  mLuaStates : List TLuaStateId
deriving DecidableEq

/-- An element of `mTimedEvents`. -/
structure TimedEvent where
  EventName : Bytes
  StateId : TLuaStateId
deriving DecidableEq

/-- The scopes that the engine locks. `timerStates` and `timerResults` are the two inner ones of
the loop over the timers. -/
inductive LuaCall
  | triggerEvent (EventName : Bytes) (IgnoreId : TLuaStateId)
  | triggerLocalEvent (StateId : TLuaStateId) (EventName : Bytes)
  | enqueueFunctionCall (StateID : TLuaStateId)
  | enqueueScript (StateID : TLuaStateId)
  | registerEvent (EventName : Bytes) (StateId : TLuaStateId) (FunctionName : Bytes)
  | getEventHandlersForState (EventName : Bytes) (StateId : TLuaStateId)
  | getLuaStateCount
  | getRegisteredEventHandlerCount
  | ensureStateExists (StateId : TLuaStateId) (DontCallOnInit : Bool)
  | initializePlugin (StateId : TLuaStateId)
  | timedEvents (expired : List TimedEvent)
  | timerStates
  | timerResults
deriving DecidableEq

namespace LuaData

variable (d : LuaData)

/-- The handlers of an event, or `none` when `mLuaEvents` has no entry for it. -/
def find (EventName : Bytes) : Option (List (TLuaStateId × List Bytes)) :=
  (KeyedList.lookup Prod.fst EventName d.mLuaEvents).map Prod.snd

def handlers (EventName : Bytes) (StateId : TLuaStateId) : List Bytes :=
  (((d.find EventName).bind (KeyedList.lookup Prod.fst StateId)).map Prod.snd).getD []

/-- `mLuaEvents[EventName][StateId]` as an lvalue, which puts an empty set where there is none. -/
def subscript (EventName : Bytes) (StateId : TLuaStateId) (f : List Bytes → List Bytes) : LuaData :=
  { d with
    mLuaEvents := KeyedList.upsert Prod.fst EventName (EventName, [])
      (fun e => (e.1, KeyedList.upsert Prod.fst StateId (StateId, []) (fun s => (s.1, f s.2)) e.2))
      d.mLuaEvents }

end LuaData

namespace LuaCall

def mutex : LuaCall → LuaMutex
  | triggerEvent .. | triggerLocalEvent .. | registerEvent .. | getEventHandlersForState ..
  | getRegisteredEventHandlerCount => .mLuaEventsMutex
  | enqueueFunctionCall _ | enqueueScript _ | getLuaStateCount | ensureStateExists ..
  | initializePlugin _ | timerStates => .mLuaStatesMutex
  | timedEvents _ => .mTimedEventsMutex
  | timerResults => .mResultsToCheckMutex

/-- `mLuaStates.at`, which throws for a state that does not exist. -/
def atState (d : LuaData) (StateID : TLuaStateId) : Option (List LuaCall) :=
  if StateID ∈ d.mLuaStates then some [] else none

/-- The code of a scope. The queues of the states have mutexes of their own, which nothing else
is locked under, and the wait for the result of `onInit` only keeps `mLuaStatesMutex` for
longer. -/
def enter : LuaCall → LuaData → LuaData × Option (List LuaCall)
  | triggerEvent EventName IgnoreId, d =>
    match d.find EventName with
    | none => (d, some [])
    | some Events =>
      (d, some (Events.flatMap fun Event => Event.2.flatMap fun _ =>
        if Event.1 ≠ IgnoreId then [enqueueFunctionCall Event.1] else []))
  | triggerLocalEvent StateId EventName, d =>
    match d.find EventName with
    | none => (d, some [])
    | some _ =>
      (d, some (getEventHandlersForState EventName StateId ::
        (d.handlers EventName StateId).map fun _ => enqueueFunctionCall StateId))
  | enqueueFunctionCall StateID, d => (d, atState d StateID)
  | enqueueScript StateID, d => (d, atState d StateID)
  | registerEvent EventName StateId FunctionName, d =>
    (d.subscript EventName StateId fun s =>
      if FunctionName ∈ s then s else s.orderedInsert (· ≤ ·) FunctionName, some [])
  | getEventHandlersForState EventName StateId, d => (d.subscript EventName StateId id, some [])
  | getLuaStateCount, d => (d, some [])
  | getRegisteredEventHandlerCount, d => (d, some [getLuaStateCount])
  | ensureStateExists StateId DontCallOnInit, d =>
    if StateId ∈ d.mLuaStates then (d, some [])
    else
      ({ d with mLuaStates := d.mLuaStates ++ [StateId] },
        some (registerEvent (ascii "onInit") StateId (ascii "onInit") ::
          if DontCallOnInit then [] else [enqueueFunctionCall StateId]))
  | initializePlugin StateId, d => (d, some [ensureStateExists StateId true])
  | timedEvents expired, d =>
    (d, some (expired.flatMap fun Timer =>
      [getEventHandlersForState Timer.EventName Timer.StateId, timerStates]))
  | timerStates, d => (d, some [timerResults])
  | timerResults, d => (d, some [])

end LuaCall

/-- The ways into the engine. A plugin enqueues its scripts when it is initialized, and a pass of
the event loop finds some of the timers expired. -/
inductive LuaEntry
  | triggerEvent (EventName : Bytes) (IgnoreId : TLuaStateId)
  | triggerLocalEvent (StateId : TLuaStateId) (EventName : Bytes)
  | enqueueFunctionCall (StateID : TLuaStateId)
  | registerEvent (EventName : Bytes) (StateId : TLuaStateId) (FunctionName : Bytes)
  | getEventHandlersForState (EventName : Bytes) (StateId : TLuaStateId)
  | getRegisteredEventHandlerCount
  | ensureStateExists (StateId : TLuaStateId) (DontCallOnInit : Bool)
  | initializePlugin (StateId : TLuaStateId) (scripts : ℕ)
  | timedEvents (expired : List TimedEvent)

def LuaEntry.calls : LuaEntry → List LuaCall
  | triggerEvent EventName IgnoreId => [.triggerEvent EventName IgnoreId]
  | triggerLocalEvent StateId EventName => [.triggerLocalEvent StateId EventName]
  | enqueueFunctionCall StateID => [.enqueueFunctionCall StateID]
  | registerEvent EventName StateId FunctionName => [.registerEvent EventName StateId FunctionName]
  | getEventHandlersForState EventName StateId => [.getEventHandlersForState EventName StateId]
  | getRegisteredEventHandlerCount => [.getRegisteredEventHandlerCount]
  | ensureStateExists StateId DontCallOnInit => [.ensureStateExists StateId DontCallOnInit]
  | initializePlugin StateId scripts =>
    .initializePlugin StateId :: List.replicate scripts (.enqueueScript StateId)
  | timedEvents expired => [.timedEvents expired]

/-- The three `std::recursive_mutex`es, and a plain one. -/
def luaEngine : LockScopes.Code LuaEntry LuaCall LuaMutex LuaData where
  calls := LuaEntry.calls
  mutex := LuaCall.mutex
  recursive m := m ≠ .mResultsToCheckMutex
  enter := LuaCall.enter

def LuaCall.isInside : LuaMutex → LuaCall → Bool
  | .mLuaEventsMutex, .enqueueFunctionCall _ | .mLuaEventsMutex, .getEventHandlersForState ..
  | .mLuaEventsMutex, .getLuaStateCount => true
  | .mLuaStatesMutex, .ensureStateExists .. | .mLuaStatesMutex, .registerEvent ..
  | .mLuaStatesMutex, .enqueueFunctionCall _ | .mLuaStatesMutex, .timerResults => true
  | .mTimedEventsMutex, .getEventHandlersForState .. | .mTimedEventsMutex, .timerStates
  | .mTimedEventsMutex, .timerResults => true
  | _, _ => false

def LuaCall.locksStates (_ : LuaData) (k : LuaCall) : Bool := k.mutex = .mLuaStatesMutex

/-- The call registers `onInit`, or will do so for a new state. -/
def LuaCall.registers (d : LuaData) : LuaCall → Bool
  | .registerEvent .. => true
  | .ensureStateExists StateId _ => StateId ∉ d.mLuaStates
  | _ => false

abbrev LuaEngine (τ : Type*) := LockScopes.State τ LuaCall LuaMutex LuaData

abbrev LuaAction (τ : Type*) := LockScopes.Action τ LuaEntry

inductive LuaCall.Makes (d : LuaData) : LuaCall → LuaCall → Prop
  | triggerEvent (EventName : Bytes) (IgnoreId StateId : TLuaStateId) :
      Makes d (.triggerEvent EventName IgnoreId) (.enqueueFunctionCall StateId)
  | localHandlers (StateId : TLuaStateId) (EventName : Bytes) :
      Makes d (.triggerLocalEvent StateId EventName) (.getEventHandlersForState EventName StateId)
  | triggerLocalEvent (StateId : TLuaStateId) (EventName : Bytes) :
      Makes d (.triggerLocalEvent StateId EventName) (.enqueueFunctionCall StateId)
  | stateCount : Makes d .getRegisteredEventHandlerCount .getLuaStateCount
  | register (EventName FunctionName : Bytes) (StateId : TLuaStateId) (DontCallOnInit : Bool)
      (new : StateId ∉ d.mLuaStates) :
      Makes d (.ensureStateExists StateId DontCallOnInit)
        (.registerEvent EventName StateId FunctionName)
  | onInit (StateId : TLuaStateId) :
      Makes d (.ensureStateExists StateId false) (.enqueueFunctionCall StateId)
  | initializePlugin (StateId : TLuaStateId) :
      Makes d (.initializePlugin StateId) (.ensureStateExists StateId true)
  | timerHandlers (expired : List TimedEvent) (EventName : Bytes) (StateId : TLuaStateId) :
      Makes d (.timedEvents expired) (.getEventHandlersForState EventName StateId)
  | timerStates (expired : List TimedEvent) : Makes d (.timedEvents expired) .timerStates
  | timerResults : Makes d .timerStates .timerResults

section Calls

variable {d : LuaData} {k c : LuaCall} {ks : List LuaCall} {m : LuaMutex}

theorem LuaCall.makes_of_mem_enter (h : (k.enter d).2 = some ks) (hc : c ∈ ks) : k.Makes d c := by
  cases k with
  | triggerEvent EventName IgnoreId =>
    simp only [enter] at h
    cases hfind : d.find EventName with
    | none =>
      rw [hfind] at h
      cases h
      cases hc
    | some Events =>
      rw [hfind] at h
      cases h
      obtain ⟨Event, -, hc⟩ := List.mem_flatMap.mp hc
      obtain ⟨-, -, hc⟩ := List.mem_flatMap.mp hc
      obtain ⟨-, rfl⟩ : _ ∧ c = .enqueueFunctionCall Event.1 := by simpa using hc
      exact .triggerEvent ..
  | triggerLocalEvent StateId EventName =>
    simp only [enter] at h
    cases hfind : d.find EventName with
    | none =>
      rw [hfind] at h
      cases h
      cases hc
    | some Events =>
      rw [hfind] at h
      cases h
      rcases List.mem_cons.mp hc with rfl | hc
      · exact .localHandlers ..
      · obtain ⟨-, -, rfl⟩ := List.mem_map.mp hc
        exact .triggerLocalEvent ..
  | ensureStateExists StateId DontCallOnInit =>
    simp only [enter] at h
    by_cases hstate : StateId ∈ d.mLuaStates
    · rw [if_pos hstate] at h
      cases h
      cases hc
    · rw [if_neg hstate] at h
      cases h
      rcases List.mem_cons.mp hc with rfl | hc
      · exact .register _ _ _ _ hstate
      · cases DontCallOnInit with
        | true => cases hc
        | false =>
          obtain rfl := List.mem_singleton.mp hc
          exact .onInit ..
  | enqueueFunctionCall StateID | enqueueScript StateID =>
    obtain ⟨-, h⟩ := Option.ite_none_right_eq_some.mp h
    cases h
    cases hc
  | registerEvent | getEventHandlersForState | getLuaStateCount | timerResults =>
    cases h
    cases hc
  | getRegisteredEventHandlerCount | initializePlugin | timerStates =>
    cases h
    obtain rfl := List.mem_singleton.mp hc
    constructor
  | timedEvents expired =>
    cases h
    obtain ⟨Timer, -, hc⟩ := List.mem_flatMap.mp hc
    rcases List.mem_pair.mp hc with rfl | rfl
    · constructor
    · constructor

theorem LuaCall.mLuaStates_subset_enter (k : LuaCall) (d : LuaData) :
    d.mLuaStates ⊆ (k.enter d).1.mLuaStates := by
  cases k with
  | ensureStateExists StateId DontCallOnInit =>
    simp only [enter]
    by_cases hstate : StateId ∈ d.mLuaStates
    · rw [if_pos hstate]
      exact List.Subset.refl _
    · rw [if_neg hstate]
      exact List.subset_append_left _ _
  | triggerEvent EventName IgnoreId | triggerLocalEvent StateId EventName =>
    simp only [enter]
    split <;> exact List.Subset.refl _
  | _ => exact List.Subset.refl _

theorem luaEngine_nesting : luaEngine.Nesting (fun m k => k.isInside m = true) where
  scope k d ks hks c hc := by
    cases LuaCall.makes_of_mem_enter hks hc <;> rfl
  around m k d ks hk hks c hc := by
    cases LuaCall.makes_of_mem_enter hks hc <;> cases m <;> first | rfl | cases hk

theorem luaEngine_foreseen_locksStates :
    luaEngine.Foreseen (fun m k => k.isInside m = true) .mLuaEventsMutex LuaCall.locksStates where
  before k d c h := h
  around k d ks hk hks c hc h := by
    cases LuaCall.makes_of_mem_enter hks hc <;> cases hk

theorem luaEngine_foreseen_registers :
    luaEngine.Foreseen (fun m k => k.isInside m = true) .mLuaStatesMutex LuaCall.registers where
  before k d c h := by
    cases c with
    | registerEvent => rfl
    | ensureStateExists StateId DontCallOnInit =>
      have hafter : StateId ∉ (k.enter d).1.mLuaStates := of_decide_eq_true h
      have hbefore : StateId ∉ d.mLuaStates := fun hmem =>
        hafter (k.mLuaStates_subset_enter d hmem)
      exact decide_eq_true hbefore
    | _ => cases h
  around k d ks hk hks c hc h := by
    cases LuaCall.makes_of_mem_enter hks hc with
    | register EventName FunctionName StateId DontCallOnInit new => exact decide_eq_true new
    | onInit => cases h
    | _ => cases hk

end Calls

namespace LuaEngine

variable {τ : Type*} [DecidableEq τ]

/-- No thread locks `mLuaEventsMutex` to enqueue a function call or count the states under it
while another one has yet to register `onInit` under `mLuaStatesMutex`, and the other way
round. -/
def takesTurns (s : LuaEngine τ) (a : LuaAction τ) : Prop :=
  luaEngine.takesTurns LuaCall.locksStates LuaCall.registers .mLuaEventsMutex .mLuaStatesMutex s a

/-- The order of the mutexes, with the two that are locked both ways round last or first of each
other. -/
def rank (eventsFirst : Bool) : LuaMutex → ℕ
  | .mTimedEventsMutex => 0
  | .mLuaEventsMutex => if eventsFirst then 1 else 2
  | .mLuaStatesMutex => if eventsFirst then 2 else 1
  | .mResultsToCheckMutex => 3

structure LockInvariant (s : LuaEngine τ) : Prop where
  owned : LockScopes.Owned s
  nested : LockScopes.Nested (fun m k => LuaCall.isInside m k = true) s
  uncrossed : LockScopes.Uncrossed LuaCall.locksStates LuaCall.registers .mLuaEventsMutex
    .mLuaStatesMutex s

variable {s s' : LuaEngine τ} {a : LuaAction τ}

theorem lockInvariant_idle (d : LuaData) :
    LockInvariant (LockScopes.State.idle d : LuaEngine τ) where
  owned := LockScopes.owned_idle d
  nested := LockScopes.nested_idle d
  uncrossed _ _ h := by cases h

theorem LockInvariant.step (h : s.LockInvariant) (hturns : s.takesTurns a)
    (hstep : LockScopes.step luaEngine s a = some s') : s'.LockInvariant where
  owned := h.owned.step hstep
  nested := h.nested.step luaEngine_nesting hstep
  uncrossed := h.uncrossed.step luaEngine_foreseen_locksStates luaEngine_foreseen_registers
    (by decide) h.nested hturns hstep

omit [DecidableEq τ] in
theorem pends_head {p : LuaData → LuaCall → Bool} {m : LuaMutex} {t : τ} {k : LuaCall}
    {rest : List (LockScopes.Instr LuaCall LuaMutex)} (hprogram : s.program t = .call k :: rest)
    (hm : LockScopes.Instr.unlock m ∈ rest) (hk : p s.data k = true) : s.pends p m t = true := by
  have hunlocks : rest.any (LockScopes.Instr.unlocks m) = true :=
    List.any_eq_true.mpr ⟨_, hm, LockScopes.unlocks_iff.mpr rfl⟩
  rw [LockScopes.State.pends, hprogram, LockScopes.pending, hk, hunlocks]
  rfl

/-- While nobody has to register `onInit`, the mutex of the events comes before that of the
states, and while nobody has to enqueue a handler it may come after it. -/
theorem LockInvariant.ranked (h : s.LockInvariant) {eventsFirst : Bool}
    (hregisters : eventsFirst = true →
      ∀ t, s.pends LuaCall.registers .mLuaStatesMutex t = false)
    (hlocks : eventsFirst = false →
      ∀ t, s.pends LuaCall.locksStates .mLuaEventsMutex t = false) :
    LockScopes.Ranked luaEngine (rank eventsFirst) s := by
  intro t k rest m hprogram hm
  have hinside : LuaCall.isInside m k = true := h.nested.inside hprogram hm
  cases m with
  | mLuaEventsMutex =>
    cases k with
    | getEventHandlersForState => exact Or.inr ⟨rfl, rfl⟩
    | enqueueFunctionCall | getLuaStateCount =>
      cases eventsFirst with
      | true => exact Or.inl Nat.one_lt_two
      | false =>
        have hpends := pends_head (p := LuaCall.locksStates) hprogram hm rfl
        rw [hlocks rfl t] at hpends
        cases hpends
    | _ => cases hinside
  | mLuaStatesMutex =>
    cases k with
    | ensureStateExists | enqueueFunctionCall => exact Or.inr ⟨rfl, rfl⟩
    | registerEvent =>
      cases eventsFirst with
      | true =>
        have hpends := pends_head (p := LuaCall.registers) hprogram hm rfl
        rw [hregisters rfl t] at hpends
        cases hpends
      | false => exact Or.inl Nat.one_lt_two
    | timerResults => cases eventsFirst <;> exact Or.inl (by decide)
    | _ => cases hinside
  | mTimedEventsMutex =>
    cases k with
    | getEventHandlersForState | timerStates | timerResults =>
      cases eventsFirst <;> exact Or.inl (Nat.succ_pos _)
    | _ => cases hinside
  | mResultsToCheckMutex => cases hinside

theorem LockInvariant.not_deadlocked (h : s.LockInvariant) :
    ¬ LockScopes.Deadlocked luaEngine s := by
  by_cases hpends : ∃ t, s.pends LuaCall.locksStates .mLuaEventsMutex t = true
  · obtain ⟨t, ht⟩ := hpends
    have hranked : LockScopes.Ranked luaEngine (rank true) s :=
      h.ranked (fun _ u => h.uncrossed t u ht) (fun hfalse => by cases hfalse)
    exact hranked.not_deadlocked h.owned
  · have hranked : LockScopes.Ranked luaEngine (rank false) s :=
      h.ranked (fun htrue => by cases htrue)
        (fun _ t => Bool.eq_false_iff.mpr fun ht => hpends ⟨t, ht⟩)
    exact hranked.not_deadlocked h.owned

/-- Whatever the threads do, there is no cycle of waits while they take turns. -/
theorem not_deadlocked_of_takesTurns (d : LuaData) (as : List (LuaAction τ))
    (hturns : Execution.Along (LockScopes.step luaEngine) takesTurns (LockScopes.State.idle d) as)
    (s : LuaEngine τ)
    (hrun : Execution.run (LockScopes.step luaEngine) (LockScopes.State.idle d) as = some s) :
    ¬ LockScopes.Deadlocked luaEngine s := by
  have hinv : s.LockInvariant :=
    Execution.run_invariant (fun _ _ _ hs hturns hstep => LockInvariant.step hs hturns hstep)
      (lockInvariant_idle d) hturns hrun
  exact hinv.not_deadlocked

instance [Fintype τ] (s : LuaEngine τ) (a : LuaAction τ) : Decidable (s.takesTurns a) :=
  inferInstanceAs (Decidable (luaEngine.takesTurns _ _ _ _ s a))

/-- A thread creates the state `a` and begins to trigger its `onInit`. -/
def triggerOnInit : List (LuaAction Bool) :=
  [.start true (.ensureStateExists (ascii "a") true), .advance true, .advance true, .advance true,
    .advance true, .start true (.triggerEvent (ascii "onInit") []), .advance true]

def enqueueMeanwhile : List (LuaAction Bool) :=
  triggerOnInit ++ [.start false (.enqueueFunctionCall (ascii "a")), .advance false]

/-- The first thread waits for the second one, but not the other way round. -/
theorem not_deadlocked_of_enqueueMeanwhile :
    ∃ s, Execution.run (LockScopes.step luaEngine) (LockScopes.State.idle ⟨[], []⟩)
        enqueueMeanwhile = some s ∧
      LockScopes.WaitsFor luaEngine s true false ∧ ¬ LockScopes.Deadlocked luaEngine s :=
  ⟨_, rfl, ⟨.enqueueFunctionCall (ascii "a"), _, _, rfl, rfl, Or.inl (by decide)⟩,
    not_deadlocked_of_takesTurns ⟨[], []⟩ enqueueMeanwhile (by decide) _ rfl⟩

def createMeanwhile : List (LuaAction Bool) :=
  triggerOnInit ++ [.start false (.ensureStateExists (ascii "b") true), .advance false]

theorem deadlocked_of_createMeanwhile :
    ∃ s, Execution.run (LockScopes.step luaEngine) (LockScopes.State.idle ⟨[], []⟩)
      createMeanwhile = some s ∧ LockScopes.Deadlocked luaEngine s := by
  refine ⟨_, rfl, true, .tail (.single (b := false) ?_) ?_⟩
  · exact ⟨.enqueueFunctionCall (ascii "a"), _, _, rfl, rfl, Or.inl (by decide)⟩
  · exact ⟨.registerEvent (ascii "onInit") (ascii "b") (ascii "onInit"), _, _, rfl, rfl,
      Or.inl (by decide)⟩

end LuaEngine
end BeamMP
