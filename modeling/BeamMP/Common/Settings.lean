import BeamMP.Common.Bytes
import BeamMP.Foundation.Execution
import BeamMP.Foundation.KeyedList
import BeamMP.Foundation.Observables

/-!
# The settings

`Settings` keeps the values of the server's settings, each of one of three types,
and the names and access rights under which the console knows them. A call that
fails throws `std::logic_error`, a getter of the wrong type throws
`std::bad_variant_access`.
-/
namespace BeamMP

structure ComposedKey where
  Category : Bytes
  Key : Bytes
deriving DecidableEq

namespace Settings

inductive Key
  | Misc_ImScaredOfUpdates
  | Misc_UpdateReminderTime
  | General_Description
  | General_Tags
  | General_MaxPlayers
  | General_Name
  | General_Map
  | General_AuthKey
  | General_Private
  | General_IP
  | General_Port
  | General_MaxCars
  | General_LogChat
  | General_ResourceFolder
  | General_Debug
  | General_AllowGuests
  | General_InformationPacket
deriving DecidableEq

/-- `std::variant<std::string, bool, int>`. -/
inductive SettingsTypeVariant
  | string (s : Bytes)
  | bool (b : Bool)
  | int (n : ℤ)
deriving DecidableEq

namespace SettingsTypeVariant

def index : SettingsTypeVariant → ℕ
  | string _ => 0
  | bool _ => 1
  | int _ => 2

def string? : SettingsTypeVariant → Option Bytes
  | string s => some s
  | _ => none

def bool? : SettingsTypeVariant → Option Bool
  | bool b => some b
  | _ => none

def int? : SettingsTypeVariant → Option ℤ
  | int n => some n
  | _ => none

end SettingsTypeVariant

inductive SettingsAccessMask
  | READ_ONLY
  | READ_WRITE
  | NO_ACCESS
deriving DecidableEq

abbrev SettingsAccessControl := Key × SettingsAccessMask

end Settings

/-- `InputAccessMapping` is listed in the order in which it is iterated. -/
structure Settings where
  SettingsMap : Settings.Key → Option Settings.SettingsTypeVariant
  InputAccessMapping : List (ComposedKey × Settings.SettingsAccessControl)

/-- `std::logic_error` with the classes that are derived from it, and the exception of
`std::get`. -/
inductive SettingsException
  | logicError (what : Bytes)
  | badVariantAccess
deriving DecidableEq

abbrev SettingsM := EStateM SettingsException Settings

namespace Settings

/-- The values that the constructor sets. A literal without `std::string` becomes a string too,
since the conversion to `bool` is a narrowing one. -/
def initialValue : Key → SettingsTypeVariant
  | .General_Description => .string (ascii "BeamMP Default Description")
  | .General_Tags => .string (ascii "Freeroam")
  | .General_MaxPlayers => .int 8
  | .General_Name => .string (ascii "BeamMP Server")
  | .General_Map => .string (ascii "/levels/gridmap_v2/info.json")
  | .General_AuthKey => .string (ascii "")
  | .General_Private => .bool true
  | .General_IP => .string (ascii "::")
  | .General_Port => .int 30814
  | .General_MaxCars => .int 1
  | .General_LogChat => .bool true
  | .General_ResourceFolder => .string (ascii "Resources")
  | .General_Debug => .bool false
  | .General_AllowGuests => .bool true
  | .General_InformationPacket => .bool true
  | .Misc_ImScaredOfUpdates => .bool true
  | .Misc_UpdateReminderTime => .string (ascii "30s")

def composed (Category Key : String) : ComposedKey := ⟨ascii Category, ascii Key⟩

/-- The names and access rights that the constructor sets. -/
def initialAccess : List (ComposedKey × SettingsAccessControl) :=
  [(composed "General" "Description", .General_Description, .READ_WRITE),
    (composed "General" "Tags", .General_Tags, .READ_WRITE),
    (composed "General" "MaxPlayers", .General_MaxPlayers, .READ_WRITE),
    (composed "General" "Name", .General_Name, .READ_WRITE),
    (composed "General" "Map", .General_Map, .READ_WRITE),
    (composed "General" "AuthKey", .General_AuthKey, .NO_ACCESS),
    (composed "General" "Private", .General_Private, .READ_ONLY),
    (composed "General" "IP", .General_IP, .READ_ONLY),
    (composed "General" "Port", .General_Port, .READ_ONLY),
    (composed "General" "MaxCars", .General_MaxCars, .READ_WRITE),
    (composed "General" "LogChat", .General_LogChat, .READ_ONLY),
    (composed "General" "ResourceFolder", .General_ResourceFolder, .READ_ONLY),
    (composed "General" "Debug", .General_Debug, .READ_WRITE),
    (composed "General" "AllowGuests", .General_AllowGuests, .READ_WRITE),
    (composed "General" "InformationPacket", .General_InformationPacket, .READ_WRITE),
    (composed "Misc" "ImScaredOfUpdates", .Misc_ImScaredOfUpdates, .READ_WRITE),
    (composed "Misc" "UpdateReminderTime", .Misc_UpdateReminderTime, .READ_WRITE)]

/-- The constructor. -/
def new : Settings where
  SettingsMap key := some (initialValue key)
  InputAccessMapping := initialAccess

def assign (s : Settings) (key : Key) (value : SettingsTypeVariant) : Settings :=
  { s with SettingsMap := Function.update s.SettingsMap key (some value) }

def access (s : Settings) (keyName : ComposedKey) : Option SettingsAccessControl :=
  (KeyedList.lookup Prod.fst keyName s.InputAccessMapping).map Prod.snd

/-- The three getters by type. -/
def getAs {α : Type} (name : String) (alternative : SettingsTypeVariant → Option α) (key : Key) :
    SettingsM α := do
  let s ← EStateM.get
  match s.SettingsMap key with
  | none => throw (.logicError (ascii ("Undefined key accessed in Settings::" ++ name)))
  | some v =>
    match alternative v with
    | none => throw .badVariantAccess
    | some a => pure a

def getAsString (key : Key) : SettingsM Bytes := getAs "getAsString" (·.string?) key

def getAsInt (key : Key) : SettingsM ℤ := getAs "getAsInt" (·.int?) key

def getAsBool (key : Key) : SettingsM Bool := getAs "getAsBool" (·.bool?) key

def get (key : Key) : SettingsM SettingsTypeVariant := do
  let s ← EStateM.get
  match s.SettingsMap key with
  | none => throw (.logicError (ascii "Undefined setting key accessed in Settings::get"))
  | some v => pure v

/-- The three overloads of `set`. -/
def setAs (type : String) (key : Key) (value : SettingsTypeVariant) : SettingsM Unit := do
  let s ← EStateM.get
  match s.SettingsMap key with
  | none =>
    throw (.logicError
      (ascii ("Undefined setting key accessed in Settings::set(" ++ type ++ ")")))
  | some v =>
    if v.index ≠ value.index then
      throw (.logicError (ascii ("Wrong value type in Settings::set(" ++ type ++ "): index ") ++
        toDecimal v.index))
    else EStateM.set (s.assign key value)

def setString (key : Key) (value : Bytes) : SettingsM Unit :=
  setAs "std::string" key (.string value)

def setInt (key : Key) (value : ℤ) : SettingsM Unit := setAs "int" key (.int value)

def setBool (key : Key) (value : Bool) : SettingsM Unit := setAs "bool" key (.bool value)

/-- `"{noun} '{Category}::{Key}' is not {right} from within the runtime!"`. -/
def refusal (noun right : String) (keyName : ComposedKey) : SettingsException :=
  .logicError (ascii noun ++ ascii " '" ++ keyName.Category ++ ascii "::" ++ keyName.Key ++
    ascii "' is not " ++ ascii right ++ ascii " from within the runtime!")

def getConsoleInputAccessMapping (keyName : ComposedKey) : SettingsM SettingsAccessControl := do
  let s ← EStateM.get
  match s.access keyName with
  | none =>
    throw (.logicError
      (ascii "Unknown key name accessed in Settings::getConsoleInputAccessMapping"))
  | some acl =>
    if acl.2 = .NO_ACCESS then throw (refusal "Setting" "accessible" keyName) else pure acl

/-- The three overloads of `setConsoleInputAccessMapping`. -/
def setConsoleInputAccess (noun type : String) (keyName : ComposedKey)
    (value : SettingsTypeVariant) : SettingsM Unit := do
  let s ← EStateM.get
  match s.access keyName with
  | none =>
    throw (.logicError
      (ascii "Unknown key name accessed in Settings::setConsoleInputAccessMapping"))
  | some (_, .NO_ACCESS) => throw (refusal noun "accessible" keyName)
  | some (_, .READ_ONLY) => throw (refusal noun "writeable" keyName)
  | some (key, .READ_WRITE) =>
    match s.SettingsMap key with
    | none => throw (.logicError (ascii "unordered_map::at"))
    | some v =>
      if v.index ≠ value.index then
        throw (.logicError (ascii
          ("Wrong value type in Settings::setConsoleInputAccessMapping: expected " ++ type)))
      else EStateM.set (s.assign key value)

def setConsoleString (keyName : ComposedKey) (value : Bytes) : SettingsM Unit :=
  setConsoleInputAccess "Setting" "std::string" keyName (.string value)

def setConsoleInt (keyName : ComposedKey) (value : ℤ) : SettingsM Unit :=
  setConsoleInputAccess "Key" "int" keyName (.int value)

def setConsoleBool (keyName : ComposedKey) (value : Bool) : SettingsM Unit :=
  setConsoleInputAccess "Key" "bool" keyName (.bool value)

section Outcomes

open Observables

variable {s : Settings} {key : Key} {keyName : ComposedKey} {value : SettingsTypeVariant}

theorem getAs_cases {α : Type} (name : String) (alternative : SettingsTypeVariant → Option α) :
    (∃ e, getAs name alternative key s = .error e s) ∨
      ∃ v a, s.SettingsMap key = some v ∧ alternative v = some a ∧
        getAs name alternative key s = .ok a s := by
  rw [getAs, bind_of_ok (show EStateM.get s = .ok s s from rfl)]
  cases s.SettingsMap key with
  | none => exact .inl ⟨_, rfl⟩
  | some v =>
    dsimp only
    cases halternative : alternative v with
    | none => exact .inl ⟨_, rfl⟩
    | some a => exact .inr ⟨v, a, rfl, halternative, rfl⟩

theorem getAs_of_some {α : Type} {name : String} {alternative : SettingsTypeVariant → Option α}
    {v : SettingsTypeVariant} {a : α} (hv : s.SettingsMap key = some v)
    (ha : alternative v = some a) : getAs name alternative key s = .ok a s := by
  rw [getAs, bind_of_ok (show EStateM.get s = .ok s s from rfl), hv]
  dsimp only
  rw [ha]
  rfl

theorem get_cases :
    (∃ e, get key s = .error e s) ∨ ∃ v, s.SettingsMap key = some v ∧ get key s = .ok v s := by
  rw [get, bind_of_ok (show EStateM.get s = .ok s s from rfl)]
  cases s.SettingsMap key with
  | none => exact .inl ⟨_, rfl⟩
  | some v => exact .inr ⟨v, rfl, rfl⟩

theorem get_of_some {v : SettingsTypeVariant} (hv : s.SettingsMap key = some v) :
    get key s = .ok v s := by
  rw [get, bind_of_ok (show EStateM.get s = .ok s s from rfl), hv]
  rfl

theorem setAs_of_index {v : SettingsTypeVariant} (type : String) (hv : s.SettingsMap key = some v)
    (hindex : v.index = value.index) : setAs type key value s = .ok () (s.assign key value) := by
  rw [setAs, bind_of_ok (show EStateM.get s = .ok s s from rfl), hv]
  dsimp only
  rw [if_neg (not_not_intro hindex)]
  rfl

theorem assign_self {v : SettingsTypeVariant} (hv : s.SettingsMap key = some v) :
    s.assign key v = s := by
  rw [assign, ← hv, Function.update_eq_self]

theorem getConsoleInputAccessMapping_cases :
    (∃ e, getConsoleInputAccessMapping keyName s = .error e s) ∨
      ∃ acl, s.access keyName = some acl ∧ acl.2 ≠ .NO_ACCESS ∧
        getConsoleInputAccessMapping keyName s = .ok acl s := by
  rw [getConsoleInputAccessMapping, bind_of_ok (show EStateM.get s = .ok s s from rfl)]
  cases s.access keyName with
  | none => exact .inl ⟨_, rfl⟩
  | some acl =>
    dsimp only
    split_ifs with hmask
    · exact .inl ⟨_, rfl⟩
    · exact .inr ⟨acl, rfl, hmask, rfl⟩

/-- A setter leaves the settings alone and throws, or it gives the key a value of the type the
key has. -/
theorem setAs_cases (type : String) (key : Key) (value : SettingsTypeVariant) :
    (∃ e, setAs type key value s = .error e s) ∨
      ∃ v, s.SettingsMap key = some v ∧ v.index = value.index ∧
        setAs type key value s = .ok () (s.assign key value) := by
  rw [setAs, bind_of_ok (show EStateM.get s = .ok s s from rfl)]
  cases s.SettingsMap key with
  | none => exact .inl ⟨_, rfl⟩
  | some v =>
    dsimp only
    by_cases hindex : v.index = value.index
    · rw [if_neg (not_not_intro hindex)]
      exact .inr ⟨v, rfl, hindex, rfl⟩
    · rw [if_pos hindex]
      exact .inl ⟨_, rfl⟩

theorem setConsoleInputAccess_cases (noun type : String) (keyName : ComposedKey)
    (value : SettingsTypeVariant) :
    (∃ e, setConsoleInputAccess noun type keyName value s = .error e s) ∨
      ∃ key v, s.access keyName = some (key, .READ_WRITE) ∧ s.SettingsMap key = some v ∧
        v.index = value.index ∧
        setConsoleInputAccess noun type keyName value s = .ok () (s.assign key value) := by
  rw [setConsoleInputAccess, bind_of_ok (show EStateM.get s = .ok s s from rfl)]
  match s.access keyName with
  | none => exact .inl ⟨_, rfl⟩
  | some (_, .NO_ACCESS) => exact .inl ⟨_, rfl⟩
  | some (_, .READ_ONLY) => exact .inl ⟨_, rfl⟩
  | some (key, .READ_WRITE) =>
    dsimp only
    cases hv : s.SettingsMap key with
    | none => exact .inl ⟨_, rfl⟩
    | some v =>
      dsimp only
      by_cases hindex : v.index = value.index
      · rw [if_neg (not_not_intro hindex)]
        exact .inr ⟨key, v, rfl, hv, hindex, rfl⟩
      · rw [if_pos hindex]
        exact .inl ⟨_, rfl⟩

end Outcomes

/-- A call of a member function, with the value of an overload as an alternative. -/
inductive Call
  | getAsString (key : Key)
  | getAsInt (key : Key)
  | getAsBool (key : Key)
  | get (key : Key)
  | set (key : Key) (value : SettingsTypeVariant)
  | getConsoleInputAccessMapping (keyName : ComposedKey)
  | setConsoleInputAccessMapping (keyName : ComposedKey) (value : SettingsTypeVariant)

namespace Call

def setOverload (key : Key) : SettingsTypeVariant → SettingsM Unit
  | .string value => setString key value
  | .int value => setInt key value
  | .bool value => setBool key value

def setConsoleOverload (keyName : ComposedKey) : SettingsTypeVariant → SettingsM Unit
  | .string value => setConsoleString keyName value
  | .int value => setConsoleInt keyName value
  | .bool value => setConsoleBool keyName value

def exec : Call → SettingsM Unit
  | .getAsString key => discard (Settings.getAsString key)
  | .getAsInt key => discard (Settings.getAsInt key)
  | .getAsBool key => discard (Settings.getAsBool key)
  | .get key => discard (Settings.get key)
  | .set key value => setOverload key value
  | .getConsoleInputAccessMapping keyName => discard (Settings.getConsoleInputAccessMapping keyName)
  | .setConsoleInputAccessMapping keyName value => setConsoleOverload keyName value

/-- The key a call is about, if there is one. -/
def addressed (s : Settings) : Call → Option Key
  | .getAsString key | .getAsInt key | .getAsBool key | .get key | .set key _ => some key
  | .getConsoleInputAccessMapping keyName | .setConsoleInputAccessMapping keyName _ =>
    (s.access keyName).map Prod.fst

def isConsoleSetter : Call → Bool
  | .setConsoleInputAccessMapping _ _ => true
  | _ => false

open Observables

variable {s : Settings}

/-- How a call can end: it throws and leaves the settings alone, it returns and changes nothing,
or it gives the addressed key another value of its type, from the console only if the key is
writable there. -/
inductive Outcome (s : Settings) (call : Call) : Prop
  | throws (e : SettingsException) (h : call.exec s = .error e s)
  | reads (h : call.exec s = .ok () s)
  | writes (key : Key) (value v : SettingsTypeVariant) (haddressed : call.addressed s = some key)
      (hv : s.SettingsMap key = some v) (hindex : v.index = value.index)
      (h : call.exec s = .ok () (s.assign key value))
      (hconsole : call.isConsoleSetter = true →
        ∃ keyName, s.access keyName = some (key, .READ_WRITE))

variable {call : Call}

theorem Outcome.of_discard {α : Type} {m : SettingsM α} {P : Prop}
    (hexec : call.exec = discard m) (h : (∃ e, m s = .error e s) ∨ P)
    (hP : P → ∃ a, m s = .ok a s) : Outcome s call := by
  rcases h with ⟨e, he⟩ | hp
  · refine .throws e ?_
    simp only [hexec, discard, Functor.mapConst, EStateM.map, Function.comp, he]
  · obtain ⟨a, ha⟩ := hP hp
    refine .reads ?_
    simp only [hexec, discard, Functor.mapConst, EStateM.map, Function.comp, ha]

theorem Outcome.of_getAs {α : Type} {name : String} {alternative : SettingsTypeVariant → Option α}
    {key : Key} (hexec : call.exec = discard (getAs name alternative key)) : Outcome s call := by
  refine .of_discard hexec (getAs_cases name alternative) ?_
  rintro ⟨v, a, -, -, ha⟩
  exact ⟨a, ha⟩

theorem Outcome.of_setAs {type : String} {key : Key} {value : SettingsTypeVariant}
    (hexec : call.exec = setAs type key value) (haddressed : call.addressed s = some key)
    (hconsole : call.isConsoleSetter = false) : Outcome s call := by
  rcases setAs_cases (s := s) type key value with ⟨e, he⟩ | ⟨v, hv, hindex, hset⟩
  · exact .throws e (hexec ▸ he)
  · refine .writes key value v haddressed hv hindex (hexec ▸ hset) fun h => ?_
    rw [hconsole] at h
    cases h

theorem Outcome.of_setConsoleInputAccess {noun type : String} {keyName : ComposedKey}
    {value : SettingsTypeVariant}
    (hexec : call.exec = setConsoleInputAccess noun type keyName value)
    (haddressed : call.addressed s = (s.access keyName).map Prod.fst) : Outcome s call := by
  rcases setConsoleInputAccess_cases (s := s) noun type keyName value with
    ⟨e, he⟩ | ⟨key, v, haccess, hv, hindex, hset⟩
  · exact .throws e (hexec ▸ he)
  · refine .writes key value v ?_ hv hindex (hexec ▸ hset) fun _ => ⟨keyName, haccess⟩
    rw [haddressed, haccess]
    rfl

theorem outcome (s : Settings) (call : Call) : Outcome s call := by
  cases call with
  | getAsString key => exact .of_getAs rfl
  | getAsInt key => exact .of_getAs rfl
  | getAsBool key => exact .of_getAs rfl
  | get key =>
    refine .of_discard rfl get_cases ?_
    rintro ⟨v, -, hv⟩
    exact ⟨v, hv⟩
  | set key value =>
    cases value with
    | string value => exact .of_setAs rfl rfl rfl
    | bool value => exact .of_setAs rfl rfl rfl
    | int value => exact .of_setAs rfl rfl rfl
  | getConsoleInputAccessMapping keyName =>
    refine .of_discard rfl getConsoleInputAccessMapping_cases ?_
    rintro ⟨acl, -, -, hacl⟩
    exact ⟨acl, hacl⟩
  | setConsoleInputAccessMapping keyName value =>
    cases value with
    | string value => exact .of_setConsoleInputAccess rfl rfl
    | bool value => exact .of_setConsoleInputAccess rfl rfl
    | int value => exact .of_setConsoleInputAccess rfl rfl

end Call

/-- Every key has the type it was constructed with, and the access rights are those of the
constructor. -/
structure WellTyped (s : Settings) : Prop where
  index : ∀ key, ∃ v, s.SettingsMap key = some v ∧ v.index = (initialValue key).index
  access : s.InputAccessMapping = initialAccess

theorem new_wellTyped : new.WellTyped where
  index key := ⟨initialValue key, rfl, rfl⟩
  access := rfl

theorem initialAccess_nodup : (initialAccess.map fun entry => entry.2.1).Nodup := by decide

/-- The getter of the type that the key was constructed with. -/
def ReturnsAs (s : Settings) (key : Key) : SettingsTypeVariant → Prop
  | .string _ => ∃ v, getAsString key s = .ok v s
  | .int _ => ∃ v, getAsInt key s = .ok v s
  | .bool _ => ∃ v, getAsBool key s = .ok v s

open Observables Execution

variable {s : Settings}

theorem WellTyped.assign (hs : s.WellTyped) {key : Key} {value v : SettingsTypeVariant}
    (hv : s.SettingsMap key = some v) (hindex : v.index = value.index) :
    (s.assign key value).WellTyped where
  index k := by
    by_cases hk : k = key
    · subst hk
      obtain ⟨w, hw, hwindex⟩ := hs.index k
      obtain rfl : v = w := Option.some.inj (hv.symm.trans hw)
      exact ⟨value, Function.update_self .., hindex.symm.trans hwindex⟩
    · obtain ⟨w, hw, hwindex⟩ := hs.index k
      exact ⟨w, (Function.update_of_ne hk ..).trans hw, hwindex⟩
  access := hs.access

theorem WellTyped.returnsAs (hs : s.WellTyped) (key : Key) :
    s.ReturnsAs key (initialValue key) := by
  obtain ⟨v, hv, hindex⟩ := hs.index key
  cases hinitial : initialValue key with
  | string _ =>
    cases v with
    | string a => exact ⟨a, getAs_of_some hv rfl⟩
    | _ => simp [hinitial, SettingsTypeVariant.index] at hindex
  | bool _ =>
    cases v with
    | bool a => exact ⟨a, getAs_of_some hv rfl⟩
    | _ => simp [hinitial, SettingsTypeVariant.index] at hindex
  | int _ =>
    cases v with
    | int a => exact ⟨a, getAs_of_some hv rfl⟩
    | _ => simp [hinitial, SettingsTypeVariant.index] at hindex

/-- The settings as a system whose steps are calls, which all are possible. -/
def step (s : Settings) (call : Call) : Option Settings := some (final call.exec s)

theorem WellTyped.step (hs : s.WellTyped) {call : Call} {t : Settings}
    (h : s.step call = some t) : t.WellTyped := by
  obtain rfl := Option.some.inj h
  unfold final
  cases call.outcome s with
  | throws e he =>
    rw [he]
    exact hs
  | reads hreads =>
    rw [hreads]
    exact hs
  | writes key value v _ hv hindex hset _ =>
    rw [hset]
    exact hs.assign hv hindex

/-- What a call may do to the settings. -/
structure Call.Contract (s : Settings) (call : Call) : Prop where
  throws : threw call.exec s = true → (final call.exec s).SettingsMap = s.SettingsMap
  others : ∀ key, call.addressed s ≠ some key →
    (final call.exec s).SettingsMap key = s.SettingsMap key
  console : call.isConsoleSetter = true → ∀ entry ∈ s.InputAccessMapping,
    entry.2.2 ≠ .READ_WRITE →
    (final call.exec s).SettingsMap entry.2.1 = s.SettingsMap entry.2.1

theorem WellTyped.entry_unique (hs : s.WellTyped) {key : Key} {keyName : ComposedKey}
    {entry : ComposedKey × SettingsAccessControl} {mask : SettingsAccessMask}
    (hentry : entry ∈ s.InputAccessMapping) (haccess : s.access keyName = some (key, mask))
    (hkey : entry.2.1 = key) : entry.2.2 = mask := by
  obtain ⟨found, hfound, hacl⟩ := Option.map_eq_some_iff.mp haccess
  have hmem := KeyedList.mem_of_lookup hfound
  rw [hs.access] at hentry hmem
  have hsame : entry.2.1 = found.2.1 := by rw [hkey, hacl]
  rw [List.inj_on_of_nodup_map initialAccess_nodup hentry hmem hsame, hacl]

theorem WellTyped.contract (hs : s.WellTyped) (call : Call) : call.Contract s := by
  cases call.outcome s with
  | throws e he =>
    have hfinal : final call.exec s = s := by rw [final, he]
    exact ⟨fun _ => by rw [hfinal], fun _ _ => by rw [hfinal], fun _ _ _ _ => by rw [hfinal]⟩
  | reads hreads =>
    have hfinal : final call.exec s = s := by rw [final, hreads]
    exact ⟨fun _ => by rw [hfinal], fun _ _ => by rw [hfinal], fun _ _ _ _ => by rw [hfinal]⟩
  | writes key value v haddressed hv hindex hset hconsole =>
    have hfinal : final call.exec s = s.assign key value := by rw [final, hset]
    have hother : ∀ k, k ≠ key → (final call.exec s).SettingsMap k = s.SettingsMap k := by
      intro k hk
      rw [hfinal]
      exact Function.update_of_ne hk ..
    refine ⟨fun hthrew => ?_, fun k hk => hother k ?_, fun hsetter entry hentry hmask => ?_⟩
    · rw [threw, hset] at hthrew
      cases hthrew
    · rintro rfl
      exact hk haddressed
    · obtain ⟨keyName, haccess⟩ := hconsole hsetter
      exact hother _ fun hkey => hmask (hs.entry_unique hentry haccess hkey)

/-- Along every sequence of calls every key keeps the type it was constructed with, so that the
getter of this type returns; no call that throws changes a setting, none changes a setting
other than the one it addresses, and none from the console one that is not writable there. -/
theorem settings_invariants (calls : List Call) (s : Settings)
    (hs : Visits step new calls s) :
    (∀ key, ∃ v, s.SettingsMap key = some v ∧ v.index = (initialValue key).index) ∧
    (∀ key, s.ReturnsAs key (initialValue key)) ∧
    ∀ call : Call, call.Contract s := by
  obtain ⟨bs, -, hrun⟩ := hs
  have hwf : s.WellTyped :=
    run_invariant_of_step (fun s call t hs h => hs.step h) new_wellTyped hrun
  exact ⟨hwf.index, hwf.returnsAs, hwf.contract⟩

theorem settings_invariants_after_set :
    (final (Call.set .General_MaxPlayers (.int 12)).exec new).ReturnsAs .General_MaxPlayers
      (.int 8) :=
  (settings_invariants [.set .General_MaxPlayers (.int 12)] _
    ⟨_, List.prefix_rfl, rfl⟩).2.1 .General_MaxPlayers

end Settings
end BeamMP
