import BeamMP.Common.Settings

/-!
# The configuration file

`FlushToFile` writes the settings as a TOML document and `ParseFromFile` reads them
back, each from a list of its own, where an environment variable that is set
overrides the file. The comments of the document, which the parser skips, and
failures of the file system are left out. The TOML library is a parameter.
-/
namespace BeamMP

open Settings

/-- `toml::value`, with the kinds that the code tells apart. -/
inductive Toml
  | empty
  | boolean (b : Bool)
  | integer (n : ℤ)
  | string (s : Bytes)
  | table (entries : List (Bytes × Toml))
  | other

namespace Toml

/-- The value of `v[key]`. An empty value becomes a table, what is not there is made empty, and
any other kind of value throws. -/
def index (v : Toml) (key : Bytes) : Option Toml :=
  match v with
  | .empty => some .empty
  | .table entries =>
    match KeyedList.lookup Prod.fst key entries with
    | some entry => some entry.2
    | none => some .empty
  | _ => none

/-- `v[key] = x`. -/
def put (v : Toml) (key : Bytes) (x : Toml) : Option Toml :=
  match v with
  | .empty => some (.table [(key, x)])
  | .table entries =>
    some (.table (KeyedList.upsert Prod.fst key (key, x) (fun entry => (entry.1, x)) entries))
  | _ => none

/-- The value of `data[category][key]`. -/
def index₂ (data : Toml) (category key : Bytes) : Option Toml :=
  (data.index category).bind (·.index key)

def put₂ (data : Toml) (category key : Bytes) (x : Toml) : Option Toml := do
  let table ← data.index category
  let table ← table.put key x
  data.put category table

end Toml

/-- `toml::format` and `toml::parse`, which throws on a text that is no TOML document. -/
structure TomlLibrary where
  format : Toml → Bytes
  parse : Bytes → Option Toml

inductive ConfigException
  | settings (e : SettingsException)
  | toml

abbrev ConfigM := EStateM ConfigException Settings

namespace ConfigM

/-- A call of a member function of `Application::Settings`. -/
def ofSettings {α : Type} (m : SettingsM α) : ConfigM α := fun s =>
  match m s with
  | .ok a t => .ok a t
  | .error e t => .error (.settings e) t

def ofToml {α : Type} : Option α → ConfigM α
  | some a => pure a
  | none => throw .toml

end ConfigM

namespace TConfig

open ConfigM

def StrGeneral : Bytes := ascii "General"
def StrMisc : Bytes := ascii "Misc"
def StrDebug : Bytes := ascii "Debug"
def EnvStrDebug : Bytes := ascii "BEAMMP_DEBUG"
def StrPrivate : Bytes := ascii "Private"
def EnvStrPrivate : Bytes := ascii "BEAMMP_PRIVATE"
def StrIP : Bytes := ascii "IP"
def EnvStrIP : Bytes := ascii "BEAMMP_IP"
def StrPort : Bytes := ascii "Port"
def EnvStrPort : Bytes := ascii "BEAMMP_PORT"
def StrMaxCars : Bytes := ascii "MaxCars"
def EnvStrMaxCars : Bytes := ascii "BEAMMP_MAX_CARS"
def StrMaxPlayers : Bytes := ascii "MaxPlayers"
def EnvStrMaxPlayers : Bytes := ascii "BEAMMP_MAX_PLAYERS"
def StrMap : Bytes := ascii "Map"
def EnvStrMap : Bytes := ascii "BEAMMP_MAP"
def StrName : Bytes := ascii "Name"
def EnvStrName : Bytes := ascii "BEAMMP_NAME"
def StrDescription : Bytes := ascii "Description"
def EnvStrDescription : Bytes := ascii "BEAMMP_DESCRIPTION"
def StrTags : Bytes := ascii "Tags"
def EnvStrTags : Bytes := ascii "BEAMMP_TAGS"
def StrResourceFolder : Bytes := ascii "ResourceFolder"
def EnvStrResourceFolder : Bytes := ascii "BEAMMP_RESOURCE_FOLDER"
def StrAuthKey : Bytes := ascii "AuthKey"
def EnvStrAuthKey : Bytes := ascii "BEAMMP_AUTH_KEY"
def StrLogChat : Bytes := ascii "LogChat"
def EnvStrLogChat : Bytes := ascii "BEAMMP_LOG_CHAT"
def StrAllowGuests : Bytes := ascii "AllowGuests"
def EnvStrAllowGuests : Bytes := ascii "BEAMMP_ALLOW_GUESTS"
def StrInformationPacket : Bytes := ascii "InformationPacket"
def EnvStrInformationPacket : Bytes := ascii "BEAMMP_INFORMATION_PACKET"
def StrHideUpdateMessages : Bytes := ascii "ImScaredOfUpdates"
def EnvStrHideUpdateMessages : Bytes := ascii "BEAMMP_IM_SCARED_OF_UPDATES"
def StrUpdateReminderTime : Bytes := ascii "UpdateReminderTime"
def EnvStrUpdateReminderTime : Bytes := ascii "BEAMMP_UPDATE_REMINDER_TIME"

inductive Getter
  | getAsString
  | getAsInt
  | getAsBool
deriving DecidableEq

structure FlushLine where
  category : Bytes
  name : Bytes
  getter : Getter
  key : Key

def flushLines : List FlushLine :=
  [⟨StrGeneral, StrAuthKey, .getAsString, .General_AuthKey⟩,
    ⟨StrGeneral, StrLogChat, .getAsBool, .General_LogChat⟩,
    ⟨StrGeneral, StrDebug, .getAsBool, .General_Debug⟩,
    ⟨StrGeneral, StrPrivate, .getAsBool, .General_Private⟩,
    ⟨StrGeneral, StrInformationPacket, .getAsBool, .General_InformationPacket⟩,
    ⟨StrGeneral, StrAllowGuests, .getAsBool, .General_AllowGuests⟩,
    ⟨StrGeneral, StrIP, .getAsString, .General_IP⟩,
    ⟨StrGeneral, StrPort, .getAsInt, .General_Port⟩,
    ⟨StrGeneral, StrName, .getAsString, .General_Name⟩,
    ⟨StrGeneral, StrTags, .getAsString, .General_Tags⟩,
    ⟨StrGeneral, StrMaxCars, .getAsInt, .General_MaxCars⟩,
    ⟨StrGeneral, StrMaxPlayers, .getAsInt, .General_MaxPlayers⟩,
    ⟨StrGeneral, StrMap, .getAsString, .General_Map⟩,
    ⟨StrGeneral, StrDescription, .getAsString, .General_Description⟩,
    ⟨StrGeneral, StrResourceFolder, .getAsString, .General_ResourceFolder⟩,
    ⟨StrMisc, StrHideUpdateMessages, .getAsBool, .Misc_ImScaredOfUpdates⟩,
    ⟨StrMisc, StrUpdateReminderTime, .getAsString, .Misc_UpdateReminderTime⟩]

def FlushLine.value (line : FlushLine) : ConfigM Toml :=
  match line.getter with
  | .getAsString => do
    let s ← ofSettings (getAsString line.key)
    pure (.string s)
  | .getAsInt => do
    let n ← ofSettings (getAsInt line.key)
    pure (.integer n)
  | .getAsBool => do
    let b ← ofSettings (getAsBool line.key)
    pure (.boolean b)

/-- The document that `FlushToFile` makes, from what the lines before have made. -/
def flushData : List FlushLine → Toml → ConfigM Toml
  | [], data => pure data
  | line :: rest, data => do
    let x ← line.value
    let data ← ofToml (data.put₂ line.category line.name x)
    flushData rest data

def header : Bytes := ascii (
  "# This is the BeamMP-Server config file.\n" ++
  "# Help & Documentation: `https://docs.beammp.com/server/server-maintenance/`\n" ++
  "# IMPORTANT: Fill in the AuthKey with the key you got from " ++
  "`https://keymaster.beammp.com/` on the left under \"Keys\"\n")

/-- The environment: what `getenv` answers. -/
abbrev Environment := Bytes → Option Bytes

def nonEmpty (env : Environment) (name : Bytes) : Option Bytes :=
  (env name).filter (· ≠ [])

/-- `strtol` in base 10: blanks and a sign are skipped, what follows the digits is ignored, and a
number outside of `long` becomes the next one inside. -/
def strtol (s : Bytes) : ℤ :=
  let (negative, rest) := splitSign (s.dropWhile isSpace)
  let n : ℤ := digitsValue (rest.takeWhile isDigit)
  max (-2 ^ 63) (min (2 ^ 63 - 1) (if negative then -n else n))

def toInt (n : ℤ) : ℤ := n.bmod (2 ^ 32)

structure ReadLine where
  category : Bytes
  name : Bytes
  override : Bytes
  key : Key

/-- `std::getenv` of the override, if it has a name and is set to something. -/
def envp (env : Environment) (override : Bytes) : Option Bytes :=
  if override = [] then none else nonEmpty env override

/-- `TryReadValue`. A value of another type is passed over with a warning. -/
def tryReadValue (env : Environment) (table : Toml) (line : ReadLine) : ConfigM Unit :=
  match envp env line.override with
  | some envp => do
    match ← ofSettings (Settings.get line.key) with
    | .string _ => ofSettings (setString line.key envp)
    | .int _ => ofSettings (setInt line.key (toInt (strtol envp)))
    | .bool _ =>
      ofSettings (setBool line.key (decide (envp = ascii "1" ∨ envp = ascii "true")))
  | none => do
    match ← ofSettings (Settings.get line.key) with
    | .string _ =>
      match ← ofToml (table.index₂ line.category line.name) with
      | .string s => ofSettings (setString line.key s)
      | _ => pure ()
    | .int _ =>
      match ← ofToml (table.index₂ line.category line.name) with
      | .integer n => ofSettings (setInt line.key (toInt n))
      | _ => pure ()
    | .bool _ =>
      match ← ofToml (table.index₂ line.category line.name) with
      | .boolean b => ofSettings (setBool line.key b)
      | _ => pure ()

/-- The variable whose value names another variable, for two of the keys. -/
def indirect (env : Environment) (provider name : Bytes) : Bytes :=
  (nonEmpty env provider).getD name

def readLines (env : Environment) : List ReadLine :=
  [⟨StrGeneral, StrDebug, EnvStrDebug, .General_Debug⟩,
    ⟨StrGeneral, StrPrivate, EnvStrPrivate, .General_Private⟩,
    ⟨StrGeneral, StrInformationPacket, EnvStrInformationPacket, .General_InformationPacket⟩,
    ⟨StrGeneral, StrPort, indirect env (ascii "BEAMMP_PROVIDER_PORT_ENV") EnvStrPort,
      .General_Port⟩,
    ⟨StrGeneral, StrIP, indirect env (ascii "BEAMMP_PROVIDER_IP_ENV") EnvStrIP, .General_IP⟩,
    ⟨StrGeneral, StrMaxCars, EnvStrMaxCars, .General_MaxCars⟩,
    ⟨StrGeneral, StrMaxPlayers, EnvStrMaxPlayers, .General_MaxPlayers⟩,
    ⟨StrGeneral, StrMap, EnvStrMap, .General_Map⟩,
    ⟨StrGeneral, StrName, EnvStrName, .General_Name⟩,
    ⟨StrGeneral, StrDescription, EnvStrDescription, .General_Description⟩,
    ⟨StrGeneral, StrTags, EnvStrTags, .General_Tags⟩,
    ⟨StrGeneral, StrResourceFolder, EnvStrResourceFolder, .General_ResourceFolder⟩,
    ⟨StrGeneral, StrAuthKey, EnvStrAuthKey, .General_AuthKey⟩,
    ⟨StrGeneral, StrLogChat, EnvStrLogChat, .General_LogChat⟩,
    ⟨StrGeneral, StrAllowGuests, EnvStrAllowGuests, .General_AllowGuests⟩,
    ⟨StrMisc, StrHideUpdateMessages, EnvStrHideUpdateMessages, .Misc_ImScaredOfUpdates⟩,
    ⟨StrMisc, StrUpdateReminderTime, EnvStrUpdateReminderTime, .Misc_UpdateReminderTime⟩]

end TConfig

/-- The settings, the config file and the state of `TConfig`. -/
structure TConfig where
  settings : Settings
  file : Bytes := []
  disableConfig : Bool := false
  failed : Bool := false

namespace TConfig

open ConfigM

variable (lib : TomlLibrary) (env : Environment) (c : TConfig)

def flushToFile : Except ConfigException TConfig :=
  match flushData flushLines .empty c.settings with
  | .ok data s => .ok { c with settings := s, file := header ++ lib.format data }
  | .error e _ => .error e

/-- The `try` block of `ParseFromFile`. -/
def readFile : ConfigM Unit := do
  let data ← if c.disableConfig then pure .empty else ofToml (lib.parse c.file)
  (readLines env).forM (tryReadValue env data)

def parseFromFile : Except ConfigException TConfig :=
  match readFile lib env c c.settings with
  | .error _ s => .ok { c with settings := s, failed := true }
  | .ok _ s => do
    let c := { c with settings := s }
    let c ← if c.disableConfig then .ok c else flushToFile lib c
    match getAsString .General_AuthKey c.settings with
    | .ok authKey _ => .ok (if authKey = [] then { c with failed := true } else c)
    | .error e _ => .error (.settings e)

end TConfig

namespace Toml

def isTable : Toml → Bool
  | .empty | .table _ => true
  | _ => false

def Readable (data : Toml) : Prop :=
  ∀ category ∈ [TConfig.StrGeneral, TConfig.StrMisc],
    ∃ table, data.index category = some table ∧ table.isTable = true

variable {data v x : Toml} {key category : Bytes}

theorem isTable_of_index (h : v.index key = some x) : v.isTable = true := by
  cases v with
  | empty | table => rfl
  | _ => cases h

theorem exists_index (h : v.isTable = true) (key : Bytes) : ∃ x, v.index key = some x := by
  cases v with
  | empty => exact ⟨_, rfl⟩
  | table entries =>
    cases hlookup : KeyedList.lookup Prod.fst key entries with
    | some entry => exact ⟨entry.2, by simp only [index, hlookup]⟩
    | none => exact ⟨.empty, by simp only [index, hlookup]⟩
  | _ => cases h

theorem put_spec (h : v.isTable = true) (key : Bytes) (x : Toml) :
    ∃ w, v.put key x = some w ∧ w.isTable = true ∧ w.index key = some x ∧
      ∀ j, j ≠ key → w.index j = v.index j := by
  cases v with
  | empty =>
    refine ⟨.table [(key, x)], rfl, rfl, ?_, fun j hj => ?_⟩
    · simp [index, KeyedList.lookup_cons]
    · simp [index, KeyedList.lookup, Ne.symm hj]
  | table entries =>
    refine ⟨.table (KeyedList.upsert Prod.fst key (key, x) (fun entry => (entry.1, x)) entries),
      rfl, rfl, ?_, fun j hj => ?_⟩
    · simp only [index]
      rw [KeyedList.lookup_upsert]
      · intro entry
        rfl
      · rfl
    · simp only [index]
      rw [KeyedList.lookup_upsert_of_ne hj]
      · intro entry
        rfl
      · rfl
  | _ => cases h

theorem Readable.exists_index₂ (h : data.Readable)
    (hcategory : category ∈ [TConfig.StrGeneral, TConfig.StrMisc]) (key : Bytes) :
    ∃ x, data.index₂ category key = some x := by
  obtain ⟨table, htable, hindexable⟩ := h category hcategory
  obtain ⟨x, hx⟩ := exists_index hindexable key
  exact ⟨x, by rw [index₂, htable, Option.bind_some, hx]⟩

theorem readable_empty : Readable .empty := fun _ _ => ⟨.empty, rfl, rfl⟩

theorem Readable.put₂ (h : data.Readable)
    (hcategory : category ∈ [TConfig.StrGeneral, TConfig.StrMisc]) (key : Bytes) (x : Toml) :
    ∃ w, data.put₂ category key x = some w ∧ w.Readable ∧ w.index₂ category key = some x ∧
      ∀ c j, (c, j) ≠ (category, key) → w.index₂ c j = data.index₂ c j := by
  obtain ⟨table, htable, hindexable⟩ := h category hcategory
  obtain ⟨table', hput, htable', hself, hother⟩ := put_spec hindexable key x
  obtain ⟨w, hw, -, hcat, hcats⟩ := put_spec (isTable_of_index htable) category table'
  refine ⟨w, ?_, ?_, ?_, ?_⟩
  · simp [Toml.put₂, htable, hput, hw]
  · intro c hc
    by_cases heq : c = category
    · exact ⟨table', heq ▸ hcat, htable'⟩
    · rw [hcats c heq]
      exact h c hc
  · rw [index₂, hcat, Option.bind_some, hself]
  · intro c j hne
    by_cases heq : c = category
    · subst heq
      have hj : j ≠ key := fun hj => hne (by rw [hj])
      rw [index₂, hcat, Option.bind_some, hother j hj, index₂, htable, Option.bind_some]
    · rw [index₂, hcats c heq, index₂]

end Toml

namespace Settings.SettingsTypeVariant

/-- The value as a TOML document holds it. -/
def toToml : SettingsTypeVariant → Toml
  | .string s => .string s
  | .bool b => .boolean b
  | .int n => .integer n

def ofEnv (envp : Bytes) : SettingsTypeVariant → SettingsTypeVariant
  | .string _ => .string envp
  | .bool _ => .bool (decide (envp = ascii "1" ∨ envp = ascii "true"))
  | .int _ => .int (TConfig.toInt (TConfig.strtol envp))

/-- A value of the same type, read from a document; a value of another type there is ignored. -/
def ofToml : Toml → SettingsTypeVariant → SettingsTypeVariant
  | .string s, .string _ => .string s
  | .boolean b, .bool _ => .bool b
  | .integer n, .int _ => .int (TConfig.toInt n)
  | _, v => v

def getter : SettingsTypeVariant → TConfig.Getter
  | .string _ => .getAsString
  | .bool _ => .getAsBool
  | .int _ => .getAsInt

end Settings.SettingsTypeVariant

namespace Settings

/-- Every key has a value of the type it was constructed with. -/
def Typed (s : Settings) : Prop :=
  ∀ key, ∃ v, s.SettingsMap key = some v ∧ v.index = (initialValue key).index

/-- What the settings hold, where an `int` is one. -/
structure Holds (s : Settings) : Prop where
  typed : s.Typed
  int_range : ∀ key n, s.SettingsMap key = some (.int n) → -2 ^ 31 ≤ n ∧ n < 2 ^ 31

end Settings

namespace TConfig

open ConfigM Observables

variable {s : Settings} {env : Environment} {data : Toml}

theorem ofSettings_of_ok {α : Type} {m : SettingsM α} {a : α} {t : Settings}
    (h : m s = .ok a t) : ofSettings m s = .ok a t := by
  rw [ofSettings, h]

theorem ofToml_some {α : Type} {o : Option α} {a : α} (h : o = some a) :
    ofToml o s = .ok a s := by
  rw [h]
  rfl

/-- The value that a line of `ParseFromFile` gives to a key with value `v`. -/
def ReadLine.newValue (env : Environment) (data : Toml) (line : ReadLine)
    (v : SettingsTypeVariant) : SettingsTypeVariant :=
  match envp env line.override with
  | some envp => v.ofEnv envp
  | none =>
    match data.index₂ line.category line.name with
    | some x => v.ofToml x
    | none => v

variable (env) in
theorem tryReadValue_eq {line : ReadLine} {v : SettingsTypeVariant}
    (hv : s.SettingsMap line.key = some v) {x : Toml}
    (hx : data.index₂ line.category line.name = some x) :
    tryReadValue env data line s = .ok () (s.assign line.key (line.newValue env data v)) := by
  have hget := ofSettings_of_ok (get_of_some hv)
  unfold tryReadValue ReadLine.newValue
  cases henv : envp env line.override with
  | some envp =>
    dsimp only
    rw [bind_of_ok hget]
    cases v with
    | string | bool | int => exact ofSettings_of_ok (setAs_of_index _ hv rfl)
  | none =>
    have hindex : ofToml (some x) s = .ok x s := ofToml_some rfl
    have hkept : (pure () : ConfigM Unit) s = .ok () (s.assign line.key v) := by
      rw [assign_self hv]
      rfl
    dsimp only
    rw [bind_of_ok hget, hx]
    cases v with
    | string a =>
      dsimp only
      rw [bind_of_ok hindex]
      cases x with
      | string b => exact ofSettings_of_ok (setAs_of_index _ hv rfl)
      | _ => exact hkept
    | bool a =>
      dsimp only
      rw [bind_of_ok hindex]
      cases x with
      | boolean b => exact ofSettings_of_ok (setAs_of_index _ hv rfl)
      | _ => exact hkept
    | int a =>
      dsimp only
      rw [bind_of_ok hindex]
      cases x with
      | integer n => exact ofSettings_of_ok (setAs_of_index _ hv rfl)
      | _ => exact hkept

variable (env) in
/-- Lines about different keys each give their own key its new value, and no other one. -/
theorem forM_tryReadValue (hdata : data.Readable) {lines : List ReadLine}
    (hnodup : (lines.map ReadLine.key).Nodup)
    (hcategory : ∀ line ∈ lines, line.category ∈ [StrGeneral, StrMisc])
    (hs : ∀ key, ∃ v, s.SettingsMap key = some v) :
    ∃ t, lines.forM (tryReadValue env data) s = .ok () t ∧
      (∀ line ∈ lines, ∀ v, s.SettingsMap line.key = some v →
        t.SettingsMap line.key = some (line.newValue env data v)) ∧
      ∀ key, key ∉ lines.map ReadLine.key → t.SettingsMap key = s.SettingsMap key := by
  induction lines generalizing s with
  | nil =>
    have hkept : ∀ key, key ∉ ([] : List ReadLine).map ReadLine.key →
        s.SettingsMap key = s.SettingsMap key := fun _ _ => rfl
    exact ⟨s, rfl, List.forall_mem_nil _, hkept⟩
  | cons line lines ih =>
    obtain ⟨hnew, hnodup⟩ := List.nodup_cons.mp hnodup
    obtain ⟨hhead, htail⟩ := List.forall_mem_cons.mp hcategory
    obtain ⟨v, hv⟩ := hs line.key
    obtain ⟨x, hx⟩ := hdata.exists_index₂ hhead line.name
    have hstep := tryReadValue_eq env hv hx
    have hs' : ∀ key, ∃ w,
        (s.assign line.key (line.newValue env data v)).SettingsMap key = some w := by
      intro key
      by_cases hkey : key = line.key
      · subst hkey
        exact ⟨_, Function.update_self ..⟩
      · obtain ⟨w, hw⟩ := hs key
        exact ⟨w, (Function.update_of_ne hkey ..).trans hw⟩
    obtain ⟨t, ht, hvalues, hothers⟩ := ih hnodup htail hs'
    refine ⟨t, ?_, ?_, ?_⟩
    · exact (bind_of_ok hstep).trans ht
    · intro l hl w hw
      rcases List.mem_cons.mp hl with rfl | hl
      · obtain rfl : v = w := Option.some.inj (hv.symm.trans hw)
        rw [hothers _ hnew]
        exact Function.update_self ..
      · have hne : l.key ≠ line.key := fun heq => hnew (heq ▸ List.mem_map_of_mem hl)
        exact hvalues l hl w ((Function.update_of_ne hne ..).trans hw)
    · intro key hkey
      obtain ⟨hne, hkey⟩ := List.ne_and_not_mem_of_not_mem_cons hkey
      rw [hothers key hkey]
      exact Function.update_of_ne hne ..

theorem FlushLine.value_eq {line : FlushLine} {v : SettingsTypeVariant}
    (hv : s.SettingsMap line.key = some v) (hgetter : v.getter = line.getter) :
    line.value s = .ok v.toToml s := by
  unfold FlushLine.value
  rw [← hgetter]
  cases v with
  | string | bool | int => exact bind_of_ok (ofSettings_of_ok (getAs_of_some hv rfl))

theorem flushData_eq (hdata : data.Readable) {lines : List FlushLine}
    (hnodup : (lines.map fun line => (line.category, line.name)).Nodup)
    (hcategory : ∀ line ∈ lines, line.category ∈ [StrGeneral, StrMisc])
    (hs : ∀ line ∈ lines, ∃ v, s.SettingsMap line.key = some v ∧ v.getter = line.getter) :
    ∃ w, flushData lines data s = .ok w s ∧ w.Readable ∧
      (∀ line ∈ lines, ∀ v, s.SettingsMap line.key = some v →
        w.index₂ line.category line.name = some v.toToml) ∧
      ∀ c j, (c, j) ∉ lines.map (fun line => (line.category, line.name)) →
        w.index₂ c j = data.index₂ c j := by
  induction lines generalizing data with
  | nil =>
    have hkept : ∀ c j, (c, j) ∉ ([] : List FlushLine).map
        (fun line => (line.category, line.name)) → data.index₂ c j = data.index₂ c j :=
      fun _ _ _ => rfl
    exact ⟨data, rfl, hdata, List.forall_mem_nil _, hkept⟩
  | cons line lines ih =>
    obtain ⟨hnew, hnodup⟩ := List.nodup_cons.mp hnodup
    obtain ⟨hhead, htail⟩ := List.forall_mem_cons.mp hcategory
    obtain ⟨⟨v, hv, hgetter⟩, hrest⟩ := List.forall_mem_cons.mp hs
    obtain ⟨data', hput, hdata', hself, hother⟩ := hdata.put₂ hhead line.name v.toToml
    obtain ⟨w, hw, hreadable, hvalues, hothers⟩ := ih hdata' hnodup htail hrest
    refine ⟨w, ?_, hreadable, ?_, ?_⟩
    · rw [flushData, bind_of_ok (FlushLine.value_eq hv hgetter), bind_of_ok (ofToml_some hput)]
      exact hw
    · intro l hl v' hv'
      rcases List.mem_cons.mp hl with rfl | hl
      · obtain rfl : v = v' := Option.some.inj (hv.symm.trans hv')
        rw [hothers _ _ hnew, hself]
      · exact hvalues l hl v' hv'
    · intro c j hcj
      obtain ⟨hne, hcj⟩ := List.ne_and_not_mem_of_not_mem_cons hcj
      rw [hothers c j hcj, hother c j hne]

/-- What a line of `ParseFromFile` reads, and where. -/
def ReadLine.place (line : ReadLine) : Key × Bytes × Bytes := (line.key, line.category, line.name)

def FlushLine.place (line : FlushLine) : Key × Bytes × Bytes :=
  (line.key, line.category, line.name)

/-- The environment changes the overrides only. -/
theorem readLines_place (env : Environment) :
    (readLines env).map ReadLine.place = (readLines fun _ => none).map ReadLine.place := rfl

theorem exists_flushLine {line : ReadLine} (hline : line ∈ readLines env) :
    ∃ l ∈ flushLines, l.place = line.place := by
  have hall : ∀ place ∈ (readLines fun _ => none).map ReadLine.place,
      place ∈ flushLines.map FlushLine.place := by decide +kernel
  have hmem : line.place ∈ (readLines env).map ReadLine.place := List.mem_map_of_mem hline
  exact List.mem_map.mp (hall _ (readLines_place env ▸ hmem))

theorem readLines_nodup (env : Environment) : ((readLines env).map ReadLine.key).Nodup := by
  have hkeys : (readLines env).map ReadLine.key = (readLines fun _ => none).map ReadLine.key := rfl
  rw [hkeys]
  decide

theorem exists_readLine (env : Environment) (key : Key) :
    ∃ line ∈ readLines env, line.key = key := by
  have hkeys : (readLines env).map ReadLine.key = (readLines fun _ => none).map ReadLine.key := rfl
  have hmem : key ∈ (readLines env).map ReadLine.key := by
    rw [hkeys]
    cases key <;> decide
  simpa using hmem

theorem flushLines_nodup :
    (flushLines.map fun line => (line.category, line.name)).Nodup := by decide +kernel

theorem flushLines_category : ∀ line ∈ flushLines, line.category ∈ [StrGeneral, StrMisc] := by
  decide +kernel

theorem flushLines_getter : ∀ line ∈ flushLines, (initialValue line.key).getter = line.getter := by
  decide

theorem readLines_category {line : ReadLine} (hline : line ∈ readLines env) :
    line.category ∈ [StrGeneral, StrMisc] := by
  obtain ⟨l, hl, hplace⟩ := exists_flushLine hline
  have hcategory : l.category = line.category :=
    congrArg (fun place : Key × Bytes × Bytes => place.2.1) hplace
  exact hcategory ▸ flushLines_category l hl

theorem getter_eq_of_index {v w : SettingsTypeVariant} (h : v.index = w.index) :
    v.getter = w.getter := by
  cases v <;> cases w <;> first | rfl | cases h

theorem newValue_index (env : Environment) (data : Toml) (line : ReadLine)
    (v : SettingsTypeVariant) : (line.newValue env data v).index = v.index := by
  unfold ReadLine.newValue
  split
  · cases v <;> rfl
  · split
    · next x _ => cases v <;> cases x <;> rfl
    · rfl

variable {lib : TomlLibrary} {t : Settings}

variable (env) in
theorem flushData_of_typed (hs : s.Typed) :
    ∃ w, TConfig.flushData flushLines .empty s = .ok w s ∧ w.Readable ∧
      ∀ line ∈ readLines env, ∀ v, s.SettingsMap line.key = some v →
        w.index₂ line.category line.name = some v.toToml := by
  have hgetters : ∀ line ∈ flushLines, ∃ v, s.SettingsMap line.key = some v ∧
      v.getter = line.getter := by
    intro line hline
    obtain ⟨v, hv, hindex⟩ := hs line.key
    exact ⟨v, hv, (getter_eq_of_index hindex).trans (flushLines_getter line hline)⟩
  obtain ⟨w, hw, hreadable, hvalues, -⟩ :=
    flushData_eq Toml.readable_empty flushLines_nodup flushLines_category hgetters
  refine ⟨w, hw, hreadable, fun line hline v hv => ?_⟩
  obtain ⟨l, hl, hplace⟩ := exists_flushLine hline
  obtain ⟨hkey, hcategory, hname⟩ : l.key = line.key ∧ l.category = line.category ∧
      l.name = line.name := by
    simpa [FlushLine.place, ReadLine.place] using hplace
  have hvalue := hvalues l hl v (hkey.symm ▸ hv)
  rwa [hcategory, hname] at hvalue

theorem flushToFile_of_flushData {c : TConfig} {w : Toml}
    (hw : TConfig.flushData flushLines .empty c.settings = .ok w c.settings) :
    c.flushToFile lib = .ok { c with file := header ++ lib.format w } := by
  unfold flushToFile
  rw [hw]

theorem parseFromFile_eq (ht : t.Typed) {file : Bytes} (hparse : lib.parse file = some data)
    (hdata : data.Readable) :
    ∃ c, parseFromFile lib env { settings := t, file := file } = .ok c ∧
      ∀ line ∈ readLines env, ∀ v, t.SettingsMap line.key = some v →
        c.settings.SettingsMap line.key = some (line.newValue env data v) := by
  have hsome : ∀ key, ∃ v, t.SettingsMap key = some v := fun key =>
    (ht key).imp fun _ h => h.1
  obtain ⟨u, hu, hvalues, -⟩ := forM_tryReadValue env hdata (readLines_nodup env)
    (fun _ hline => readLines_category hline) hsome
  have hread : readFile lib env { settings := t, file := file } t = .ok () u :=
    (bind_of_ok (ofToml_some hparse)).trans hu
  have htyped : u.Typed := by
    intro key
    obtain ⟨line, hline, rfl⟩ := exists_readLine env key
    obtain ⟨v, hv, hindex⟩ := ht line.key
    exact ⟨_, hvalues line hline v hv, (newValue_index env data line v).trans hindex⟩
  obtain ⟨w, hw, -⟩ := flushData_of_typed env htyped
  have hflush : flushToFile lib { settings := u, file := file } =
      .ok { settings := u, file := header ++ lib.format w } := flushToFile_of_flushData hw
  obtain ⟨authKey, hauthKey⟩ : ∃ authKey, getAsString .General_AuthKey u = .ok authKey u := by
    obtain ⟨v, hv, hindex⟩ := htyped .General_AuthKey
    cases v with
    | string a => exact ⟨a, getAs_of_some hv rfl⟩
    | _ => simp [initialValue, SettingsTypeVariant.index] at hindex
  have hresult : parseFromFile lib env { settings := t, file := file } =
      .ok (if authKey = [] then
        { settings := u, file := header ++ lib.format w, failed := true }
      else { settings := u, file := header ++ lib.format w }) := by
    simp only [parseFromFile, hread, hflush, Bool.false_eq_true, if_false, bind, Except.bind,
      hauthKey]
  refine ⟨_, hresult, fun line hline v hv => ?_⟩
  split_ifs with hempty
  · exact hvalues line hline v hv
  · exact hvalues line hline v hv

/-- Reading back what was written, over any value of the same type. -/
theorem ofToml_toToml {v w : SettingsTypeVariant} (hindex : v.index = w.index)
    (hrange : ∀ n, w = .int n → -2 ^ 31 ≤ n ∧ n < 2 ^ 31) : v.ofToml w.toToml = w := by
  cases w with
  | string a => cases v <;> first | rfl | cases hindex
  | bool a => cases v <;> first | rfl | cases hindex
  | int n =>
    obtain ⟨hlow, hhigh⟩ := hrange n rfl
    have hn : toInt n = n := Int.bmod_eq_of_le_mul_two (by omega) (by omega)
    cases v with
    | int m => simp [SettingsTypeVariant.toToml, SettingsTypeVariant.ofToml, hn]
    | _ => cases hindex

/-- Without overrides, `ParseFromFile` restores what `FlushToFile` has written. -/
theorem round_trip (hs : s.Holds) (ht : t.Holds)
    (hlib : ∀ w, TConfig.flushData flushLines .empty s = .ok w s →
      lib.parse (header ++ lib.format w) = some w) (old : Bytes) :
    ∃ c, flushToFile lib { settings := s, file := old } = .ok c ∧
      ((∀ line ∈ readLines env, envp env line.override = none) →
        ∃ c', parseFromFile lib env { c with settings := t } = .ok c' ∧
          ∀ key, c'.settings.SettingsMap key = s.SettingsMap key) := by
  obtain ⟨w, hw, hreadable, hvalues⟩ := flushData_of_typed env hs.typed
  refine ⟨_, flushToFile_of_flushData hw, fun henv => ?_⟩
  obtain ⟨c', hc', hnew⟩ := parseFromFile_eq ht.typed (hlib w hw) hreadable
  refine ⟨c', hc', fun key => ?_⟩
  obtain ⟨line, hline, rfl⟩ := exists_readLine env key
  obtain ⟨v, hv, hvindex⟩ := ht.typed line.key
  obtain ⟨x, hx, hxindex⟩ := hs.typed line.key
  rw [hnew line hline v hv, hx, ReadLine.newValue, henv line hline, hvalues line hline x hx]
  have hrange : ∀ n, x = .int n → -2 ^ 31 ≤ n ∧ n < 2 ^ 31 := by
    rintro n rfl
    exact hs.int_range line.key n hx
  exact congrArg some (ofToml_toToml (hvindex.trans hxindex.symm) hrange)

/-- The settings survive the file, an override wins over any file that can be read, and every
other key is as that file has it. -/
theorem config_file_and_overrides (lib : TomlLibrary) (env : Environment) (s t : Settings)
    (old file : Bytes) (data : Toml) (hs : s.Holds) (ht : t.Holds)
    (hlib : ∀ w, TConfig.flushData flushLines .empty s = .ok w s →
      lib.parse (header ++ lib.format w) = some w)
    (hparse : lib.parse file = some data) (hdata : data.Readable) :
    (∃ c, flushToFile lib { settings := s, file := old } = .ok c ∧
      ((∀ line ∈ readLines env, envp env line.override = none) →
        ∃ c', parseFromFile lib env { c with settings := t } = .ok c' ∧
          ∀ key, c'.settings.SettingsMap key = s.SettingsMap key)) ∧
    (∀ key, ∃ line ∈ readLines env, line.key = key) ∧
    ∃ c', parseFromFile lib env { settings := t, file := file } = .ok c' ∧
      ∀ line ∈ readLines env, ∀ v, t.SettingsMap line.key = some v →
        (∀ e, envp env line.override = some e →
          c'.settings.SettingsMap line.key = some (v.ofEnv e)) ∧
        ∀ x, envp env line.override = none → data.index₂ line.category line.name = some x →
          c'.settings.SettingsMap line.key = some (v.ofToml x) := by
  refine ⟨round_trip hs ht hlib old, exists_readLine env, ?_⟩
  obtain ⟨c', hc', hnew⟩ := parseFromFile_eq ht.typed hparse hdata
  refine ⟨c', hc', fun line hline v hv => ⟨fun e he => ?_, fun x hnone hx => ?_⟩⟩
  · rw [hnew line hline v hv, ReadLine.newValue, he]
  · rw [hnew line hline v hv, ReadLine.newValue, hnone, hx]

def newDocument : Toml :=
  match TConfig.flushData flushLines .empty new with
  | .ok data _ => data
  | .error _ _ => .empty

def tomlLine (entry : Bytes × Toml) : Bytes :=
  let value := match entry.2 with
    | .string s => ascii "\"" ++ s ++ ascii "\""
    | .integer n => toDecimal n
    | .boolean b => ascii (if b then "true" else "false")
    | _ => []
  entry.1 ++ ascii " = " ++ value ++ ascii "\n"

def sampleFormat : Toml → Bytes
  | .table sections => sections.flatMap fun x =>
    match x with
    | (name, .table entries) =>
      ascii "[" ++ name ++ ascii "]\n" ++ entries.flatMap tomlLine ++ ascii "\n"
    | _ => []
  | _ => []

/-- What the library does with the document for new settings. -/
def sampleToml : TomlLibrary where
  format := sampleFormat
  parse text := if text = header ++ sampleFormat newDocument then some newDocument else none

def portEnv : Environment := fun name => if name = EnvStrPort then some (ascii "1234") else none

theorem new_holds : new.Holds where
  typed key := ⟨initialValue key, rfl, rfl⟩
  int_range key n h := by
    cases key <;> cases h <;> decide

theorem sampleToml_parse {w : Toml}
    (hw : TConfig.flushData flushLines .empty new = .ok w new) :
    sampleToml.parse (header ++ sampleToml.format w) = some w := by
  have hdocument : newDocument = w := by rw [newDocument, hw]
  subst hdocument
  simp [sampleToml]

/-- The file for new settings, read with another port in the environment. -/
theorem new_file_with_port :
    ∃ c, parseFromFile sampleToml portEnv
        { settings := new, file := header ++ sampleToml.format newDocument } = .ok c ∧
      c.settings.SettingsMap .General_Port = some (.int 1234) := by
  obtain ⟨w, hw, hreadable, -⟩ := flushData_of_typed portEnv new_holds.typed
  have hdocument : newDocument = w := by rw [newDocument, hw]
  subst hdocument
  obtain ⟨-, -, c, hc, hlines⟩ := config_file_and_overrides sampleToml portEnv new new []
    (header ++ sampleToml.format newDocument) newDocument new_holds new_holds
    (fun _ h => sampleToml_parse h) (sampleToml_parse hw) hreadable
  have hport : (⟨StrGeneral, StrPort, EnvStrPort, .General_Port⟩ : ReadLine) ∈
      readLines portEnv := by
    have hindirect :
        indirect portEnv (ascii "BEAMMP_PROVIDER_PORT_ENV") EnvStrPort = EnvStrPort := by
      decide
    simp [readLines, hindirect]
  have hoverride : envp portEnv EnvStrPort = some (ascii "1234") := by decide
  have hvalue := (hlines _ hport (.int 30814) rfl).1 _ hoverride
  refine ⟨c, hc, hvalue.trans ?_⟩
  decide

theorem tryReadValue_error {line : ReadLine} {v : SettingsTypeVariant}
    (hv : s.SettingsMap line.key = some v) (henv : envp env line.override = none)
    (hdata : data.index₂ line.category line.name = none) :
    tryReadValue env data line s = .error .toml s := by
  have hget := ofSettings_of_ok (get_of_some hv)
  unfold tryReadValue
  rw [henv]
  dsimp only
  rw [bind_of_ok hget, hdata]
  cases v <;> rfl

/-- What the library does with a document in which `General` is a number. -/
def numberToml : TomlLibrary where
  format := sampleFormat
  parse text :=
    if text = ascii "General = 3\n" then some (.table [(StrGeneral, .integer 3)]) else none

/-- Where `General` is no table, reading stops before the override of the port. -/
theorem override_not_reached :
    ∃ c, parseFromFile numberToml portEnv
        { settings := new, file := ascii "General = 3\n" } = .ok c ∧
      envp portEnv EnvStrPort = some (ascii "1234") ∧
      c.settings.SettingsMap .General_Port ≠
        some ((initialValue .General_Port).ofEnv (ascii "1234")) := by
  have hparse : numberToml.parse (ascii "General = 3\n") =
      some (.table [(StrGeneral, .integer 3)]) := by simp [numberToml]
  have hdebug : tryReadValue portEnv (.table [(StrGeneral, .integer 3)])
      ⟨StrGeneral, StrDebug, EnvStrDebug, .General_Debug⟩ new = .error .toml new :=
    tryReadValue_error rfl (by decide) (by simp [Toml.index₂, Toml.index, KeyedList.lookup])
  have hread : readFile numberToml portEnv { settings := new, file := ascii "General = 3\n" } new =
      .error .toml new := by
    refine (bind_of_ok (ofToml_some hparse)).trans ?_
    simp only [readLines, List.forM_eq_forM, List.forM_cons, bind, EStateM.bind, hdebug]
  refine ⟨{ settings := new, file := ascii "General = 3\n", failed := true }, ?_, by decide, ?_⟩
  · simp only [parseFromFile, hread]
  · decide

end TConfig

end BeamMP
