import BeamMP.Lua.JsonConversion
import BeamMP.Lua.TimedEvents

/-!
# The arguments of global events

`TriggerGlobalEvent` puts its arguments into a table, with a marker for what JSON does
not have, and passes the table as JSON. Handlers of the same state are called at once,
those of other states by the thread of their state; both unpack the JSON and put nil
for the marker.
-/
namespace BeamMP

/-- `BEAMMP_INTERNAL_NIL`. -/
def internalNil : Bytes := ascii "BEAMMP_SERVER_INTERNAL_NIL_VALUE"

/-- `JsonString` is the constructor `json`. -/
inductive TLuaValue
  | monostate
  | string (s : Bytes)
  | int (n : ℤ)
  | json (Str : Bytes)
  | bool (b : Bool)
  | map (entries : List (Bytes × Bytes))
  | float (x : LuaFloat)

structure HandlerCall where
  StateId : TLuaStateId
  FunctionName : Bytes
  Args : List LuaShape

section Trigger

variable {ρ : Type} (env : ConversionEnv) (heap : LuaHeap ρ)

def globalArgument : LuaValue ρ → LuaValue ρ
  | .nil | .function | .thread | .userdata => .string internalNil
  | Arg => Arg

/-- `Table`, which is iterated in the order in which it was filled. -/
def argumentTable (EventArgs : List (LuaValue ρ)) : List (LuaKey × LuaValue ρ) :=
  EventArgs.mapIdx fun i Arg => (.number (.integer ((i + 1 : ℕ) : ℤ)), globalArgument Arg)

def withoutMarker : LuaShape → LuaShape
  | .string s => if s = internalNil then .nil else .string s
  | value => value

/-- `JsonStringToArray`: the elements of a table up to the first nil. -/
def jsonStringToArray (env : ConversionEnv) (Str : Bytes) : Option (List LuaShape) :=
  (jsonDecode env.sol env.text Str).map fun LocalTable => LocalTable.elements.map withoutMarker

/-- `EnqueueFunctionCall`; `mLuaStates.at` throws for a state that does not exist. -/
def enqueueFunctionCall (d : LuaData) (StateID : TLuaStateId) (FunctionName : Bytes)
    (Args : List TLuaValue) (EventName : Bytes) :
    Option (TLuaStateId × QueuedFunction TLuaValue) :=
  (LuaCall.atState d StateID).map fun _ => (StateID, { FunctionName, Args, EventName })

/-- `TriggerEvent`, with what it adds to the queues of the states. -/
def triggerEventInStates (d : LuaData) (EventName : Bytes) (IgnoreId : TLuaStateId)
    (Arguments : List TLuaValue) : Option (List (TLuaStateId × QueuedFunction TLuaValue)) :=
  match d.find EventName with
  | none => some []
  | some Events =>
    (Events.flatMap fun Event => if Event.1 ≠ IgnoreId then Event.2.map (Event.1, ·) else []).mapM
      fun Function => enqueueFunctionCall d Function.1 Function.2 Arguments EventName

/-- `Lua_TriggerGlobalEvent`: what it queues for other states and the calls it makes itself. -/
def luaTriggerGlobalEvent (isFunction : TLuaStateId → Bytes → Bool) (d : LuaData)
    (mStateId : TLuaStateId) (EventName : Bytes) (EventArgs : List (LuaValue ρ)) :
    Option (List (TLuaStateId × QueuedFunction TLuaValue) × List HandlerCall) := do
  let Str ← jsonEncode env heap (argumentTable EventArgs)
  let queued ← triggerEventInStates d EventName mStateId [.json Str]
  let LocalArgs ← jsonStringToArray env Str
  let MyHandlers := (d.handlers EventName mStateId).filter (isFunction mStateId)
  some (queued, MyHandlers.map fun Handler =>
    { StateId := mStateId, FunctionName := Handler, Args := LocalArgs })

/-- What the thread of a state adds to `LuaArgs` for an argument. -/
def unpackedArg (env : ConversionEnv) : TLuaValue → Option (List LuaShape)
  | .string s => some [.string s]
  | .int n => some [.number (.integer n)]
  | .bool b => some [.boolean b]
  | .json Str => jsonStringToArray env Str
  | .monostate => some [.nil]
  | .map entries => some [.table (entries.foldl (fun table e =>
    setEntry table (.string (env.sol.storedKey e.1)) (.string e.2)) fun _ => none)]
  | .float x => some [.number (.float x)]

/-- The part of `StateThreadData::operator()` that calls a queued function. -/
def runQueuedFunction (isFunction : TLuaStateId → Bytes → Bool) (env : ConversionEnv)
    (mStateId : TLuaStateId) (TheQueuedFunction : QueuedFunction TLuaValue) :
    Option HandlerCall := do
  let FnName := TheQueuedFunction.FunctionName
  if isFunction mStateId FnName then
    let LuaArgs ← TheQueuedFunction.Args.mapM (unpackedArg env)
    some { StateId := mStateId, FunctionName := FnName, Args := LuaArgs.flatten }
  else none

def globalEventCalls (isFunction : TLuaStateId → Bytes → Bool) (d : LuaData)
    (mStateId : TLuaStateId) (EventName : Bytes) (EventArgs : List (LuaValue ρ)) :
    Option (List HandlerCall) :=
  (luaTriggerGlobalEvent env heap isFunction d mStateId EventName EventArgs).map fun r =>
    r.2 ++ r.1.filterMap fun queued => runQueuedFunction isFunction env queued.1 queued.2

end Trigger

section Calls

variable {ρ : Type} {env : ConversionEnv} {heap : LuaHeap ρ}
  {isFunction : TLuaStateId → Bytes → Bool}
  {d : LuaData} {mStateId : TLuaStateId} {EventName Str : Bytes} {delivered : List LuaShape}

/-- `mLuaEvents[EventName]` is a map, and only states that exist have handlers. -/
structure LuaData.HasHandlerStates (d : LuaData) (EventName : Bytes) : Prop where
  distinct : ∀ Events, d.find EventName = some Events → (Events.map Prod.fst).Nodup
  exist : ∀ Events, d.find EventName = some Events → ∀ Event ∈ Events, Event.1 ∈ d.mLuaStates

theorem lookup_state_of_mem {entries : List (TLuaStateId × List Bytes)}
    (hnodup : (entries.map Prod.fst).Nodup) {e : TLuaStateId × List Bytes} (he : e ∈ entries) :
    KeyedList.lookup Prod.fst e.1 entries = some e := by
  induction entries with
  | nil => exact nomatch he
  | cons e' entries ih =>
    obtain ⟨hfirst, hnodup⟩ := List.nodup_cons.mp hnodup
    rw [KeyedList.lookup_cons]
    rcases List.mem_cons.mp he with rfl | he
    · rw [if_pos rfl]
    · rw [if_neg, ih hnodup he]
      exact fun heq => hfirst (List.mem_map.mpr ⟨e, he, heq.symm⟩)

theorem LuaData.mem_handlers_iff {Events : List (TLuaStateId × List Bytes)}
    (hfind : d.find EventName = some Events) (hdistinct : (Events.map Prod.fst).Nodup)
    {StateId : TLuaStateId} {Function : Bytes} : Function ∈ d.handlers EventName StateId ↔
      ∃ Event ∈ Events, Event.1 = StateId ∧ Function ∈ Event.2 := by
  rw [LuaData.handlers, hfind, Option.bind_some]
  constructor
  · intro h
    cases hlookup : KeyedList.lookup Prod.fst StateId Events with
    | none =>
      rw [hlookup] at h
      exact nomatch h
    | some Event =>
      rw [hlookup] at h
      exact ⟨Event, KeyedList.mem_of_lookup hlookup, KeyedList.key_of_lookup hlookup, h⟩
  · rintro ⟨Event, hEvent, rfl, h⟩
    rwa [lookup_state_of_mem hdistinct hEvent]

theorem mapM_eq_some_map {α β : Type} {f : α → Option β} {g : α → β} (l : List α)
    (h : ∀ a ∈ l, f a = some (g a)) : l.mapM f = some (l.map g) := by
  induction l with
  | nil => rfl
  | cons a l ih =>
    obtain ⟨ha, hl⟩ := List.forall_mem_cons.mp h
    rw [List.mapM_cons, ha, ih hl]
    rfl

theorem exists_triggerEventInStates (hd : d.HasHandlerStates EventName)
    (Arguments : List TLuaValue) :
    ∃ queued, triggerEventInStates d EventName mStateId Arguments = some queued ∧
      ∀ q, q ∈ queued ↔ q.1 ≠ mStateId ∧ q.2.FunctionName ∈ d.handlers EventName q.1 ∧
        q.2.Args = Arguments ∧ q.2.EventName = EventName := by
  cases hfind : d.find EventName with
  | none =>
    refine ⟨[], by rw [triggerEventInStates, hfind], fun q => iff_of_false nofun ?_⟩
    rintro ⟨_, h, _⟩
    rw [LuaData.handlers, hfind] at h
    exact nomatch h
  | some Events =>
    have henqueue : triggerEventInStates d EventName mStateId Arguments =
        some ((Events.flatMap fun Event =>
          if Event.1 ≠ mStateId then Event.2.map (Event.1, ·) else []).map fun Function =>
            (Function.1, ⟨Function.2, Arguments, EventName⟩)) := by
      rw [triggerEventInStates, hfind]
      refine mapM_eq_some_map _ fun Function hFunction => ?_
      obtain ⟨Event, hEvent, hmem⟩ := List.mem_flatMap.mp hFunction
      split_ifs at hmem
      · obtain ⟨_, _, rfl⟩ := List.mem_map.mp hmem
        rw [enqueueFunctionCall, LuaCall.atState, if_pos (hd.exist Events hfind Event hEvent)]
        rfl
      · cases hmem
    refine ⟨_, henqueue, fun q => ?_⟩
    obtain ⟨StateId, FunctionName, Args, Name⟩ := q
    rw [LuaData.mem_handlers_iff hfind (hd.distinct Events hfind), List.mem_map]
    constructor
    · rintro ⟨Function, hFunction, heq⟩
      obtain ⟨Event, hEvent, hmem⟩ := List.mem_flatMap.mp hFunction
      split_ifs at hmem with hstate
      · obtain ⟨Handler, hHandler, rfl⟩ := List.mem_map.mp hmem
        cases heq
        exact ⟨hstate, ⟨Event, hEvent, rfl, hHandler⟩, rfl, rfl⟩
      · exact nomatch hmem
    · rintro ⟨hstate, ⟨Event, hEvent, rfl, hFunction⟩, rfl, rfl⟩
      refine ⟨(Event.1, FunctionName), List.mem_flatMap.mpr ⟨Event, hEvent, ?_⟩, rfl⟩
      rw [if_pos hstate]
      exact List.mem_map_of_mem hFunction

/-- Whoever handles the event is called with what the JSON unpacks to. -/
theorem exists_globalEventCalls (hd : d.HasHandlerStates EventName) {EventArgs : List (LuaValue ρ)}
    (hStr : jsonEncode env heap (argumentTable EventArgs) = some Str)
    (hArgs : jsonStringToArray env Str = some delivered) :
    ∃ calls, globalEventCalls env heap isFunction d mStateId EventName EventArgs = some calls ∧
      ∀ call, call ∈ calls ↔ call.FunctionName ∈ d.handlers EventName call.StateId ∧
        isFunction call.StateId call.FunctionName = true ∧ call.Args = delivered := by
  obtain ⟨queued, hqueued, hmem⟩ : ∃ queued,
      triggerEventInStates d EventName mStateId [.json Str] = some queued ∧ _ :=
    exists_triggerEventInStates hd [.json Str]
  have htrigger : luaTriggerGlobalEvent env heap isFunction d mStateId EventName EventArgs =
      some (queued,
        ((d.handlers EventName mStateId).filter (isFunction mStateId)).map fun Handler =>
          ⟨mStateId, Handler, delivered⟩) := by
    rw [luaTriggerGlobalEvent, hStr]
    change (triggerEventInStates d EventName mStateId [.json Str]).bind _ = _
    rw [hqueued]
    change (jsonStringToArray env Str).bind _ = _
    rw [hArgs]
    rfl
  have hrun : ∀ q ∈ queued, runQueuedFunction isFunction env q.1 q.2 =
      if isFunction q.1 q.2.FunctionName then some ⟨q.1, q.2.FunctionName, delivered⟩
      else none := by
    intro q hq
    obtain ⟨_, _, hqArgs, _⟩ := (hmem q).mp hq
    have hunpacked : q.2.Args.mapM (unpackedArg env) = some [delivered] := by
      rw [hqArgs, List.mapM_cons, unpackedArg, hArgs]
      rfl
    rw [runQueuedFunction, hunpacked]
    refine if_congr Iff.rfl ?_ rfl
    change some _ = some _
    rw [List.flatten_cons, List.flatten_nil, List.append_nil]
  refine ⟨_, by rw [globalEventCalls, htrigger]; rfl, fun call => ?_⟩
  obtain ⟨StateId, FunctionName, Args⟩ := call
  rw [List.mem_append, List.mem_map, List.mem_filterMap]
  constructor
  · rintro (⟨Handler, hHandler, heq⟩ | ⟨q, hq, hcall⟩)
    · obtain ⟨hmem, hvalid⟩ := List.mem_filter.mp hHandler
      cases heq
      exact ⟨hmem, hvalid, rfl⟩
    · rw [hrun q hq] at hcall
      split_ifs at hcall with hvalid
      obtain ⟨_, hHandler, _⟩ := (hmem q).mp hq
      cases hcall
      exact ⟨hHandler, hvalid, rfl⟩
  · rintro ⟨hHandler, hvalid, rfl⟩
    by_cases hstate : StateId = mStateId
    · subst hstate
      exact .inl ⟨FunctionName, List.mem_filter.mpr ⟨hHandler, hvalid⟩, rfl⟩
    · refine .inr ⟨(StateId, ⟨FunctionName, [.json Str], EventName⟩), ?_, ?_⟩
      · exact (hmem _).mpr ⟨hstate, hHandler, rfl, rfl⟩
      · rw [hrun _ ((hmem _).mpr ⟨hstate, hHandler, rfl, rfl⟩)]
        exact if_pos hvalid

end Calls

section Delivery

variable {ρ : Type}

/-- Two numbers are equal, of whatever subtype. -/
def LuaNumber.Equal (x y : LuaNumber) : Prop :=
  x = y ∨ ∃ q, x.value = some q ∧ y.value = some q

/-- A value arrives, or nil for a number that JSON does not have. -/
def Arrives : LuaValue ρ → LuaShape → Prop
  | .nil, s => s = .nil
  | .boolean b, s => s = .boolean b
  | .string t, s => s = .string t
  | .number x, s => (∃ y, s = .number y ∧ x.Equal y) ∨ x.value = none ∧ s = .nil
  | _, _ => False

/-- Nil, booleans, texts that are not the marker, 32-bit integers and all floats. -/
def IsArgument : LuaValue ρ → Prop
  | .nil | .boolean _ | .number (.float _) => True
  | .number (.integer n) => IsInt32 n
  | .string s => IsUtf8 s ∧ s ≠ internalNil
  | .table _ | .function | .thread | .userdata => False

/-- Not an infinity and not NaN. -/
def LuaValue.IsFinite : LuaValue ρ → Prop
  | .number x => x.value.isSome
  | _ => True

/-- What an argument looks like in the JSON array. -/
def ArgumentCarried : LuaValue ρ → Json → Prop
  | .nil, j => j = .string internalNil
  | .boolean b, j => j = .bool b
  | .string s, j => j = .string s
  | .number x, j => (∃ n : ℤ, j = .integer n ∧ x.value = some (n : ℚ)) ∨
    (∃ mantissa exponent, j = .float mantissa exponent ∧
      x.value = some (Dyadic.ofIntWithPrec mantissa (-exponent)).toRat) ∨
    j = .null ∧ x.value = none
  | _, _ => False

def deliveredElement (sol : Sol) (j : Json) : Option LuaShape :=
  (decodedValue sol j).entry.map withoutMarker

theorem isUtf8_internalNil : IsUtf8 internalNil :=
  ⟨"BEAMMP_SERVER_INTERNAL_NIL_VALUE".toList, by decide⟩

section Elements

variable {v : LuaValue ρ} {j j' : Json}

theorem argumentCarried_encodedDouble {y : LuaFloat} :
    ArgumentCarried (.number (.float y) : LuaValue ρ) (encodedDouble y) := by
  cases y with
  | finite x =>
    cases x with
    | zero => exact .inr (.inl ⟨0, 0, rfl, rfl⟩)
    | ofOdd mantissa precision hodd =>
      refine .inr (.inl ⟨mantissa, -precision, rfl, ?_⟩)
      rw [neg_neg]
      exact congrArg (fun x => some (Dyadic.toRat x)) Dyadic.ofOdd_eq_ofIntWithPrec
  | infinite | nan => exact .inr (.inr ⟨rfl, rfl⟩)

theorem exists_argumentCarried {env : ConversionEnv} (hsol : env.sol.Lawful) (hv : IsArgument v)
    (encodedTable : ρ → Option Json) :
    ∃ j, encodedValue env encodedTable (globalArgument v) = some (some j) ∧
      ArgumentCarried v j := by
  cases v with
  | nil | boolean b | string s => exact ⟨_, rfl, rfl⟩
  | table r => exact absurd hv id
  | function | thread | userdata => exact absurd hv id
  | number x =>
    refine ⟨_, rfl, ?_⟩
    cases x with
    | integer n =>
      refine .inl ⟨n, ?_, rfl⟩
      rw [encodedNumber, if_pos (hsol.isInt_integer n hv), hsol.asInt_integer n hv]
    | float y =>
      rw [encodedNumber]
      split_ifs with hint
      · exact .inl ⟨_, rfl, hsol.asInt_float y hint⟩
      · rw [hsol.asDouble_float]
        exact argumentCarried_encodedDouble

theorem ArgumentCarried.isText (hj : ArgumentCarried v j) (hv : IsArgument v) : j.IsText := by
  cases v with
  | nil =>
    obtain rfl : j = .string internalNil := hj
    exact Json.isText_string.mpr isUtf8_internalNil
  | boolean b =>
    obtain rfl : j = .bool b := hj
    exact nofun
  | string s =>
    obtain rfl : j = .string s := hj
    exact Json.isText_string.mpr hv.1
  | number x =>
    rcases hj with ⟨n, rfl, _⟩ | ⟨mantissa, exponent, rfl, _⟩ | ⟨rfl, _⟩
    · exact nofun
    · exact nofun
    · exact nofun
  | table r | function | thread | userdata => exact absurd hj id

theorem ArgumentCarried.of_equalTo (hj : ArgumentCarried v j) (h : j.EqualTo 1 j') :
    ArgumentCarried v j' := by
  cases v with
  | nil =>
    obtain rfl : j = .string internalNil := hj
    cases j' with
    | string s => exact congrArg Json.string (Eq.symm h)
    | _ => exact absurd h id
  | boolean b =>
    obtain rfl : j = .bool b := hj
    cases j' with
    | bool b' => exact congrArg Json.bool (Eq.symm h)
    | _ => exact absurd h id
  | string s =>
    obtain rfl : j = .string s := hj
    cases j' with
    | string s' => exact congrArg Json.string (Eq.symm h)
    | _ => exact absurd h id
  | number x =>
    rcases hj with ⟨n, rfl, hx⟩ | ⟨mantissa, exponent, rfl, hx⟩ | ⟨rfl, hx⟩
    · cases j' with
      | integer n' => exact .inl ⟨n', rfl, by rw [hx, show n = n' from h]⟩
      | _ => exact absurd h id
    · cases j' with
      | float mantissa' exponent' =>
        have hsame : Dyadic.ofIntWithPrec mantissa (-exponent) =
          Dyadic.ofIntWithPrec mantissa' (-exponent') := h
        exact .inr (.inl ⟨mantissa', exponent', rfl, by rw [hx, hsame]⟩)
      | _ => exact absurd h id
    · cases j' with
      | null => exact .inr (.inr ⟨rfl, hx⟩)
      | _ => exact absurd h id
  | table r | function | thread | userdata => exact absurd hj id

theorem ArgumentCarried.exists_deliveredElement (sol : Sol) (hj : ArgumentCarried v j)
    (hv : IsArgument v) (hfinite : v.IsFinite) :
    ∃ s, deliveredElement sol j = some s ∧ Arrives v s := by
  cases v with
  | nil =>
    obtain rfl : j = .string internalNil := hj
    exact ⟨.nil, rfl, rfl⟩
  | boolean b =>
    obtain rfl : j = .bool b := hj
    exact ⟨_, rfl, rfl⟩
  | string s =>
    obtain rfl : j = .string s := hj
    refine ⟨.string s, ?_, rfl⟩
    change some (if s = internalNil then LuaShape.nil else .string s) = _
    rw [if_neg hv.2]
  | number x =>
    rcases hj with ⟨n, rfl, hx⟩ | ⟨mantissa, exponent, rfl, hx⟩ | ⟨_, hx⟩
    · exact ⟨_, rfl, .inl ⟨_, rfl, .inr ⟨_, hx, rfl⟩⟩⟩
    · exact ⟨_, rfl, .inl ⟨_, rfl, .inr ⟨_, hx, rfl⟩⟩⟩
    · have hsome : x.value.isSome = true := hfinite
      rw [hx] at hsome
      exact nomatch hsome
  | table r | function | thread | userdata => exact absurd hj id

theorem ArgumentCarried.isFinite_of_isSome {sol : Sol} (hj : ArgumentCarried v j)
    (h : (deliveredElement sol j).isSome) : v.IsFinite := by
  cases v with
  | number x =>
    rcases hj with ⟨n, _, hx⟩ | ⟨mantissa, exponent, _, hx⟩ | ⟨rfl, _⟩
    · exact Option.isSome_iff_exists.mpr ⟨_, hx⟩
    · exact Option.isSome_iff_exists.mpr ⟨_, hx⟩
    · exact nomatch h
  | _ => trivial

end Elements

section Arguments

variable {env : ConversionEnv} {heap : LuaHeap ρ} {EventArgs : List (LuaValue ρ)} {js : List Json}

def EncodedAs (env : ConversionEnv) (heap : LuaHeap ρ) (v : LuaValue ρ) (j : Json) : Prop :=
  encodedValue env (encodedTable heap (jsonEncodeRecursive env heap 100)) v = some (some j)

theorem isArray_argumentTable (EventArgs : List (LuaValue ρ)) :
    isArray (argumentTable EventArgs) = true := by
  rw [isArray, List.all_eq_true]
  intro e he
  obtain ⟨i, _, rfl⟩ := List.mem_mapIdx.mp he
  rfl

theorem values_argumentTable (EventArgs : List (LuaValue ρ)) :
    (argumentTable EventArgs).map Prod.snd = EventArgs.map globalArgument := by
  apply List.ext_getElem
  · rw [List.length_map, argumentTable, List.length_mapIdx, List.length_map]
  · intro i _ _
    rw [List.getElem_map, List.getElem_map]
    simp only [argumentTable, List.getElem_mapIdx]

theorem exists_encodedEntries (hsol : env.sol.Lawful) (hargs : ∀ v ∈ EventArgs, IsArgument v) :
    ∃ js, encodedEntries (jsonEncodeRecursive env heap 101) (argumentTable EventArgs) =
        some (if EventArgs = [] then .object [] else .array js) ∧
      List.Forall₂ ArgumentCarried EventArgs js := by
  by_cases hempty : EventArgs = []
  · subst hempty
    exact ⟨[], rfl, .nil⟩
  have hne : argumentTable EventArgs ≠ [] := fun h => hempty (List.mapIdx_eq_nil_iff.mp h)
  have hadd : ∀ e ∈ argumentTable EventArgs, ∃ j, EncodedAs env heap e.2 j ∧
      ∀ json, jsonEncodeRecursive env heap 101 json e.1 e.2 true = json.pushBack j := by
    intro e he
    obtain ⟨key, hkey⟩ := exists_encodedKey_of_isArray (isArray_argumentTable EventArgs) he
    have hvalue : e.2 ∈ EventArgs.map globalArgument := by
      rw [← values_argumentTable]
      exact List.mem_map_of_mem he
    obtain ⟨v, hv, hvalue⟩ := List.mem_map.mp hvalue
    obtain ⟨j, hj, _⟩ := exists_argumentCarried hsol (hargs v hv)
      (encodedTable heap (jsonEncodeRecursive env heap 100))
    rw [hvalue] at hj
    exact ⟨j, hj, fun _ => jsonEncodeRecursive_of_encodedValue hkey hj⟩
  obtain ⟨js, hjs, hfold⟩ := foldlM_pushBack _ hadd []
  refine ⟨js, ?_, ?_⟩
  · rw [encodedEntries, if_neg (by rwa [List.isEmpty_iff]), isArray_argumentTable,
      foldlM_pushBack_null hne hadd, hfold, if_neg hempty, List.nil_append]
  · have hvalues : List.Forall₂ (EncodedAs env heap) ((argumentTable EventArgs).map Prod.snd) js :=
      List.forall₂_map_left_iff.mpr hjs
    rw [values_argumentTable, List.forall₂_map_left_iff] at hvalues
    refine ((List.forall₂_and_left _ _).mpr ⟨hargs, hvalues⟩).imp ?_
    rintro v j ⟨hv, hj⟩
    obtain ⟨j', hj', hcarried⟩ := exists_argumentCarried hsol hv
      (encodedTable heap (jsonEncodeRecursive env heap 100))
    rwa [← Option.some.inj (Option.some.inj (hj'.symm.trans hj))]

/-- What the array unpacks to, less what is nil in it. -/
theorem exists_jsonStringToArray (hsol : env.sol.Lawful) (hargs : ∀ v ∈ EventArgs, IsArgument v)
    (hjson : ∀ j, encodedEntries (jsonEncodeRecursive env heap 101) (argumentTable EventArgs) =
      some j → env.text.Inverts j) :
    ∃ Str js, jsonEncode env heap (argumentTable EventArgs) = some Str ∧
      jsonStringToArray env Str = some (js.filterMap (deliveredElement env.sol)) ∧
        List.Forall₂ ArgumentCarried EventArgs js := by
  obtain ⟨js, hencoded, hcarried⟩ : ∃ js,
      encodedEntries (jsonEncodeRecursive env heap 101) (argumentTable EventArgs) = _ ∧ _ :=
    exists_encodedEntries hsol hargs
  obtain ⟨hdump, hparse⟩ := hjson _ hencoded
  have htext : (if EventArgs = [] then Json.object [] else .array js).IsText := by
    split_ifs
    · exact Json.isText_object.mpr (List.forall_mem_nil _)
    · rw [Json.isText_array]
      intro j hj
      obtain ⟨v, hv, hcarries⟩ := exists_left_of_forall₂ hcarried hj
      exact hcarries.isText (hargs v hv)
  obtain ⟨Str, hStr⟩ := Option.isSome_iff_exists.mp (hdump.mpr htext)
  obtain ⟨j', hparsed, hequal⟩ := hparse Str hStr
  have hencode : jsonEncode env heap (argumentTable EventArgs) = some Str := by
    rw [jsonEncode, hencoded]
    exact hStr
  have hsame := hequal 2
  split_ifs at hsame with hempty
  · subst hempty
    cases j' with
    | object fields =>
      have hfields : fields = [] := by
        refine List.eq_nil_iff_forall_not_mem.mpr fun f hf => ?_
        obtain ⟨_, h, _⟩ := hsame.2.2 f hf
        cases h
      refine ⟨Str, [], hencode, ?_, .nil⟩
      rw [jsonStringToArray, jsonDecode, hparsed, hfields]
      rfl
    | _ => exact absurd hsame id
  · cases j' with
    | array js' =>
      refine ⟨Str, js', hencode, ?_, forall₂_comp (fun v j j' => ?_) hcarried hsame⟩
      · rw [jsonStringToArray, jsonDecode, hparsed]
        simp only [decodeElements_eq, Option.map_some, List.nil_append, Option.some.injEq]
        rw [← List.filterMap_eq_flatMap_toList, List.map_filterMap]
        rfl
      · exact fun hj h => hj.of_equalTo h
    | _ => exact absurd hsame id

/-- Something stands in every place exactly if every float is finite. -/
theorem forall₂_arrives_iff (hargs : ∀ v ∈ EventArgs, IsArgument v)
    (hcarried : List.Forall₂ ArgumentCarried EventArgs js) :
    List.Forall₂ Arrives EventArgs (js.filterMap (deliveredElement env.sol)) ↔
      ∀ v ∈ EventArgs, v.IsFinite := by
  constructor
  · intro h v hv
    have hlength := h.length_eq.symm.trans hcarried.length_eq
    rw [List.filterMap_length_eq_length] at hlength
    obtain ⟨j, hj, hcarries⟩ := exists_right_of_forall₂ hcarried hv
    exact hcarries.isFinite_of_isSome (hlength j hj)
  · intro hfinite
    induction hcarried with
    | nil => exact .nil
    | cons hj _ ih =>
      obtain ⟨hv, hargs⟩ := List.forall_mem_cons.mp hargs
      obtain ⟨hfinite_v, hfinite⟩ := List.forall_mem_cons.mp hfinite
      obtain ⟨s, hs, harrives⟩ := hj.exists_deliveredElement env.sol hv hfinite_v
      rw [List.filterMap_cons, hs]
      exact .cons harrives (ih hargs hfinite)

end Arguments

/-- Every handler is called, with something in the place of every argument. -/
def DeliversInPlace (env : ConversionEnv) (heap : LuaHeap ρ)
    (isFunction : TLuaStateId → Bytes → Bool) (d : LuaData) (mStateId : TLuaStateId)
    (EventName : Bytes) (EventArgs : List (LuaValue ρ)) : Prop :=
  ∃ calls, globalEventCalls env heap isFunction d mStateId EventName EventArgs = some calls ∧
    (∀ StateId Function, Function ∈ d.handlers EventName StateId →
      isFunction StateId Function = true →
        ∃ call ∈ calls, call.StateId = StateId ∧ call.FunctionName = Function) ∧
    ∀ call ∈ calls, List.Forall₂ Arrives EventArgs call.Args

section Main

variable {env : ConversionEnv} {heap : LuaHeap ρ} {isFunction : TLuaStateId → Bytes → Bool}
  {d : LuaData} {EventName : Bytes} {EventArgs : List (LuaValue ρ)}

/-- Arguments are delivered in place exactly if all floats are finite, where there is anyone to
deliver them to. -/
theorem deliversInPlace_iff (hsol : env.sol.Lawful) (hd : d.HasHandlerStates EventName)
    (hargs : ∀ v ∈ EventArgs, IsArgument v)
    (hjson : ∀ j, encodedEntries (jsonEncodeRecursive env heap 101) (argumentTable EventArgs) =
      some j → env.text.Inverts j) (mStateId : TLuaStateId) :
    DeliversInPlace env heap isFunction d mStateId EventName EventArgs ↔
      ((∃ StateId Function, Function ∈ d.handlers EventName StateId ∧
        isFunction StateId Function = true) → ∀ v ∈ EventArgs, v.IsFinite) := by
  obtain ⟨Str, js, hStr, hArray, hcarried⟩ := exists_jsonStringToArray hsol hargs hjson
  obtain ⟨calls, hcalls, hmem⟩ : ∃ calls,
      globalEventCalls env heap isFunction d mStateId EventName EventArgs = some calls ∧ _ :=
    exists_globalEventCalls hd hStr hArray
  rw [← forall₂_arrives_iff hargs hcarried]
  constructor
  · rintro ⟨calls', hcalls', hmade, hall⟩ ⟨StateId, Function, hHandler, hvalid⟩
    obtain rfl := Option.some.inj (hcalls.symm.trans hcalls')
    obtain ⟨call, hcall, _, _⟩ := hmade StateId Function hHandler hvalid
    obtain ⟨_, _, hArgs⟩ := (hmem call).mp hcall
    rw [← hArgs]
    exact hall call hcall
  · intro harrives
    refine ⟨calls, hcalls, fun StateId Function hHandler hvalid => ?_, fun call hcall => ?_⟩
    · exact ⟨⟨StateId, Function, _⟩, (hmem _).mpr ⟨hHandler, hvalid, rfl⟩, rfl, rfl⟩
    · obtain ⟨hHandler, hvalid, hArgs⟩ := (hmem call).mp hcall
      rw [hArgs]
      exact harrives ⟨_, _, hHandler, hvalid⟩

end Main

section Examples

def twoStates : LuaData where
  mLuaEvents := [(ascii "e", [(ascii "A", [ascii "f"]), (ascii "B", [ascii "g"])])]
  mLuaStates := [ascii "A", ascii "B"]

/-- The JSON library on one value. -/
def arrayText (str : Bytes) (elements : List Json) : JsonText where
  parse s := if s = str then some (.array elements) else none
  dump
    | .array _ => some str
    | _ => none

def noTables : LuaHeap Empty where
  entries := nofun
  isTable := nofun

theorem deliversInPlace_nil :
    DeliversInPlace
      { sol := .checked
        doubleToString := fun _ => []
        text := arrayText (ascii "[\"BEAMMP_SERVER_INTERNAL_NIL_VALUE\",true]")
          [.string internalNil, .bool true] }
      noTables (fun _ _ => true) twoStates (ascii "A") (ascii "e") [.nil, .boolean true] := by
  refine (deliversInPlace_iff Sol.checked_lawful ⟨?_, ?_⟩ ?_ (fun j hj => ?_) _).mpr ?_
  · intro Events hEvents
    obtain rfl : [(ascii "A", [ascii "f"]), (ascii "B", [ascii "g"])] = Events :=
      Option.some.inj hEvents
    decide
  · intro Events hEvents
    obtain rfl : [(ascii "A", [ascii "f"]), (ascii "B", [ascii "g"])] = Events :=
      Option.some.inj hEvents
    decide
  · exact List.forall_mem_cons.mpr ⟨trivial, List.forall_mem_singleton.mpr trivial⟩
  · obtain rfl : Json.array [.string internalNil, .bool true] = j := Option.some.inj hj
    refine ⟨iff_of_true rfl ?_, fun s hs =>
      ⟨.array [.string internalNil, .bool true], ?_, fun depth => ?_⟩⟩
    · rw [Json.isText_array]
      exact List.forall_mem_cons.mpr ⟨Json.isText_string.mpr isUtf8_internalNil,
        List.forall_mem_singleton.mpr nofun⟩
    · rw [← Option.some.inj hs]
      rfl
    · cases depth with
      | zero => trivial
      | succ depth =>
        refine .cons ?_ (.cons ?_ .nil)
        · cases depth with
          | zero => trivial
          | succ depth => rfl
        · cases depth with
          | zero => trivial
          | succ depth => rfl
  · exact fun _ => List.forall_mem_cons.mpr ⟨trivial, List.forall_mem_singleton.mpr trivial⟩

/-- The infinity is null in the array, and what follows moves into its place. -/
theorem not_deliversInPlace_infinite :
    (∀ v ∈ [LuaValue.number (.float (.infinite false)), .boolean true],
      IsArgument (v : LuaValue Empty)) ∧
    ¬DeliversInPlace
      { sol := .checked
        doubleToString := fun _ => []
        text := arrayText (ascii "[null,true]") [.null, .bool true] }
      noTables (fun _ _ => true) twoStates (ascii "A") (ascii "e")
      [.number (.float (.infinite false)), .boolean true] := by
  refine ⟨List.forall_mem_cons.mpr ⟨trivial, List.forall_mem_singleton.mpr trivial⟩, ?_⟩
  rintro ⟨calls, hcalls, _, hall⟩
  obtain rfl : [⟨ascii "A", ascii "f", [.boolean true]⟩, ⟨ascii "B", ascii "g", [.boolean true]⟩] =
    calls := Option.some.inj hcalls
  exact nomatch (hall _ List.mem_cons_self).length_eq

end Examples

end Delivery

end BeamMP
