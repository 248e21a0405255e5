import BeamMP.Common.Settings
import BeamMP.Foundation.Noninterference

/-!
# The console command `settings`

`TConsole::Command_Settings` reads and writes the settings through their access
rights. What it writes to the console is kept in the order in which it is written.
-/
namespace BeamMP

open Settings

/-- `WriteRaw`, and `beammp_errorf`, which adds where and when. -/
inductive ConsoleLine
  | raw (text : Bytes)
  | error (text : Bytes)
deriving DecidableEq

/-- The settings, the console, the last `lastCall` of the heartbeat and the replies to
information requests. -/
structure AppState where
  settings : Settings
  console : List ConsoleLine := []
  lastCall : Bytes := []
  replies : List Bytes := []

inductive AppException
  | settings (e : SettingsException)
  | json

abbrev AppM := EStateM AppException AppState

namespace AppM

/-- A call of a member function of `Application::Settings`. -/
def ofSettings {α : Type} (m : SettingsM α) : AppM α := fun s =>
  match m s.settings with
  | .ok a t => .ok a { s with settings := t }
  | .error e t => .error (.settings e) { s with settings := t }

def write (line : ConsoleLine) : AppM Unit :=
  modify fun s => { s with console := s.console ++ [line] }

def writeRaw (text : Bytes) : AppM Unit := write (.raw text)

def errorf (text : Bytes) : AppM Unit := write (.error text)

/-- `catch (std::logic_error& e)`. -/
def catchLogicError (m : AppM Unit) (handler : Bytes → AppM Unit) : AppM Unit :=
  tryCatch m fun
    | .settings (.logicError what) => handler what
    | e => throw e

/-- `std::stoi`, whose exceptions are logic errors with the function's name. -/
def stoi (s : Bytes) : AppM ℤ :=
  match stoiPrefix s with
  | some n => pure n
  | none => throw (.settings (.logicError (ascii "stoi")))

end AppM

namespace TConsole

open AppM

def sHelpString : Bytes := ascii (
  "\n    Settings:\n" ++
  "        settings help                               displays this help\n" ++
  "        settings list                               lists all settings\n" ++
  "        settings get <category> <setting>           " ++
  "prints current value of specified setting\n" ++
  "        settings set <category> <setting> <value>   sets specified setting to value\n" ++
  "        ")

def writeHelp : AppM Unit := writeRaw (ascii "BeamMP-Server Console: " ++ sHelpString)

/-- `fmt::format("{}", v)` of the alternative that is held. -/
def formatValue : SettingsTypeVariant → Bytes
  | .string s => s
  | .int n => toDecimal n
  | .bool b => ascii (if b then "true" else "false")

/-- `fmt::format("{}", key)`. -/
def formatKey (key : ComposedKey) : Bytes := key.Category ++ ascii "::" ++ key.Key

/-- A setting that the console may see. -/
def readSetting (keyName : ComposedKey) : AppM SettingsTypeVariant := do
  let acl ← ofSettings (getConsoleInputAccessMapping keyName)
  ofSettings (Settings.get acl.1)

def settingsGet : List Bytes → AppM Unit
  | Category :: Key :: _ =>
    catchLogicError
      (do
        let keyValue ← readSetting ⟨Category, Key⟩
        writeRaw (ascii "'" ++ formatKey ⟨Category, Key⟩ ++ ascii "' = " ++ formatValue keyValue))
      fun what => errorf (ascii "Error when getting key: " ++ what)
  | _ => do
    errorf (ascii "'settings get' needs at least two arguments!")
    writeHelp

/-- `"{}::{} := {}"`. -/
def writeAssigned (keyName : ComposedKey) (value : Bytes) : AppM Unit :=
  writeRaw (formatKey keyName ++ ascii " := " ++ value)

def assignSetting (keyName : ComposedKey) (value : Bytes) : SettingsTypeVariant → AppM Unit
  | .string _ => do
    ofSettings (setConsoleString keyName value)
    writeAssigned keyName value
  | .int _ => do
    let n ← AppM.stoi value
    ofSettings (setConsoleInt keyName n)
    let n ← AppM.stoi value
    writeAssigned keyName (toDecimal n)
  | .bool _ =>
    if value = ascii "true" then do
      ofSettings (setConsoleBool keyName true)
      writeAssigned keyName (ascii "true")
    else if value = ascii "false" then do
      ofSettings (setConsoleBool keyName false)
      writeAssigned keyName (ascii "false")
    else
      errorf (ascii "Error when setting key: " ++ formatKey keyName ++
        ascii (" : Unknown literal, use either 'true', or 'false' " ++ "to set boolean values."))

def settingsSet : List Bytes → AppM Unit
  | Category :: Key :: value :: _ =>
    catchLogicError
      (do
        let keyType ← readSetting ⟨Category, Key⟩
        assignSetting ⟨Category, Key⟩ value keyType)
      fun what => errorf (ascii "Exception when setting settings key via console: " ++ what)
  | _ => do
    errorf (ascii "'settings set' needs at least three arguments!")
    writeHelp

/-- One round of the loop over the access map. -/
def listSetting (entry : ComposedKey × SettingsAccessControl) : AppM Unit :=
  if entry.2.2 ≠ .NO_ACCESS then
    catchLogicError
      (do
        let keyValue ← readSetting entry.1
        writeRaw (formatKey entry.1 ++ ascii " = " ++ formatValue keyValue))
      fun what => errorf (ascii "Error when getting key: " ++ what)
  else pure ()

def settingsList : AppM Unit := do
  let s ← EStateM.get
  s.settings.InputAccessMapping.forM listSetting

def commandSettings : List Bytes → AppM Unit
  | [] => do
    errorf (ascii "No arguments specified for command 'settings'!")
    writeHelp
  | front :: args =>
    if front = ascii "help" then writeHelp
    else if front = ascii "get" then settingsGet args
    else if front = ascii "set" then settingsSet args
    else if front = ascii "list" then settingsList
    else do
      errorf (ascii "Unknown argument for command 'settings': " ++ front)
      writeHelp

end TConsole

open Noninterference

/-- Two settings with the values `a` and `b` for the authentication key and no other difference,
where the console may not see this key. -/
structure Settings.SameButAuthKey (a b : Option SettingsTypeVariant) (s t : Settings) : Prop where
  left : s.SettingsMap .General_AuthKey = a
  right : t.SettingsMap .General_AuthKey = b
  others : ∀ key, key ≠ .General_AuthKey → s.SettingsMap key = t.SettingsMap key
  access : s.InputAccessMapping = t.InputAccessMapping
  hidden : ∀ entry ∈ s.InputAccessMapping, entry.2.1 = .General_AuthKey → entry.2.2 = .NO_ACCESS

namespace Settings

variable {a b : Option SettingsTypeVariant} {s t : Settings} {key : Key} {keyName : ComposedKey}

theorem SameButAuthKey.access_eq (h : s.SameButAuthKey a b t) (keyName : ComposedKey) :
    t.access keyName = s.access keyName := by
  unfold Settings.access
  rw [h.access]

/-- What the console may see under a name is not the authentication key. -/
theorem SameButAuthKey.ne_of_access (h : s.SameButAuthKey a b t) {acl : SettingsAccessControl}
    (hacl : s.access keyName = some acl) (hmask : acl.2 ≠ .NO_ACCESS) :
    acl.1 ≠ .General_AuthKey := by
  obtain ⟨entry, hentry, rfl⟩ := Option.map_eq_some_iff.mp hacl
  exact fun hkey => hmask (h.hidden entry (KeyedList.mem_of_lookup hentry) hkey)

theorem SameButAuthKey.assign (h : s.SameButAuthKey a b t) (hkey : key ≠ .General_AuthKey)
    (value : SettingsTypeVariant) :
    (s.assign key value).SameButAuthKey a b (t.assign key value) where
  left := (Function.update_of_ne (Ne.symm hkey) ..).trans h.left
  right := (Function.update_of_ne (Ne.symm hkey) ..).trans h.right
  others k hk := by
    by_cases hsame : k = key
    · subst hsame
      simp [Settings.assign]
    · exact (Function.update_of_ne hsame ..).trans
        ((h.others k hk).trans (Function.update_of_ne hsame ..).symm)
  access := h.access
  hidden := h.hidden

theorem alike_getAs {α : Type} (name : String) (alternative : SettingsTypeVariant → Option α)
    (hkey : key ≠ .General_AuthKey) :
    Alike (SameButAuthKey a b) (fun _ => True) (getAs name alternative key)
      (getAs name alternative key) := by
  refine alike_get_bind fun s t h => ?_
  rw [← h.others key hkey]
  cases s.SettingsMap key with
  | none => exact .error h
  | some v =>
    dsimp only
    cases alternative v with
    | none => exact .error h
    | some x => exact .ok trivial h

theorem alike_get (hkey : key ≠ .General_AuthKey) :
    Alike (SameButAuthKey a b) (fun _ => True) (get key) (get key) := by
  refine alike_get_bind fun s t h => ?_
  rw [← h.others key hkey]
  cases s.SettingsMap key with
  | none => exact .error h
  | some v => exact .ok trivial h

theorem alike_getConsoleInputAccessMapping :
    Alike (SameButAuthKey a b) (fun acl => acl.1 ≠ .General_AuthKey)
      (getConsoleInputAccessMapping keyName) (getConsoleInputAccessMapping keyName) := by
  refine alike_get_bind fun s t h => ?_
  rw [h.access_eq keyName]
  cases hacl : s.access keyName with
  | none => exact .error h
  | some acl =>
    dsimp only
    split_ifs with hmask
    · exact .error h
    · exact .ok (h.ne_of_access hacl hmask) h

theorem alike_setConsoleInputAccess (noun type : String) (value : SettingsTypeVariant) :
    Alike (SameButAuthKey a b) (fun _ => True) (setConsoleInputAccess noun type keyName value)
      (setConsoleInputAccess noun type keyName value) := by
  refine alike_get_bind fun s t h => ?_
  rw [h.access_eq keyName]
  match hacl : s.access keyName with
  | none => exact .error h
  | some (_, .NO_ACCESS) => exact .error h
  | some (_, .READ_ONLY) => exact .error h
  | some (key, .READ_WRITE) =>
    have hkey : key ≠ .General_AuthKey := h.ne_of_access hacl nofun
    dsimp only
    rw [← h.others key hkey]
    cases s.SettingsMap key with
    | none => exact .error h
    | some v =>
      dsimp only
      split_ifs
      · exact .error h
      · exact .ok trivial (h.assign hkey value)

end Settings

/-- Two states that differ in the authentication key at most. -/
structure AppState.SameButAuthKey (a b : Option SettingsTypeVariant) (s t : AppState) : Prop where
  settings : s.settings.SameButAuthKey a b t.settings
  console : s.console = t.console
  lastCall : s.lastCall = t.lastCall
  replies : s.replies = t.replies

namespace AppM

variable {a b : Option SettingsTypeVariant}

/-- The computation runs the same with both keys, and returns or throws the same. -/
abbrev HidesAuthKey {α : Type} (a b : Option SettingsTypeVariant) (m : AppM α) : Prop :=
  Alike (AppState.SameButAuthKey a b) (fun _ => True) m m

theorem alike_ofSettings {α : Type} {Q : α → Prop} {m : SettingsM α}
    (hm : Alike (Settings.SameButAuthKey a b) Q m m) :
    Alike (AppState.SameButAuthKey a b) Q (ofSettings m) (ofSettings m) := by
  intro s t h
  have hend := hm _ _ h.settings
  unfold ofSettings
  generalize m s.settings = r, m t.settings = r' at hend ⊢
  cases hend with
  | ok hQ hR => exact .ok hQ ⟨hR, h.console, h.lastCall, h.replies⟩
  | error hR => exact .error ⟨hR, h.console, h.lastCall, h.replies⟩

theorem hidesAuthKey_write (line : ConsoleLine) : HidesAuthKey a b (write line) := by
  refine alike_modify fun s t h => ⟨h.settings, ?_, h.lastCall, h.replies⟩
  dsimp only
  rw [h.console]

theorem hidesAuthKey_catchLogicError {m : AppM Unit} {handler : Bytes → AppM Unit}
    (hm : HidesAuthKey a b m) (h : ∀ what, HidesAuthKey a b (handler what)) :
    HidesAuthKey a b (catchLogicError m handler) := by
  refine hm.handle fun e => ?_
  match e with
  | .settings (.logicError what) => exact h what
  | .settings .badVariantAccess => exact alike_throw _
  | .json => exact alike_throw _

theorem hidesAuthKey_stoi (s : Bytes) : HidesAuthKey a b (AppM.stoi s) := by
  unfold AppM.stoi
  cases stoiPrefix s with
  | none => exact alike_throw _
  | some n => exact alike_pure trivial

end AppM

namespace TConsole

open AppM

variable {a b : Option SettingsTypeVariant}

theorem hidesAuthKey_readSetting (keyName : ComposedKey) : HidesAuthKey a b (readSetting keyName) :=
  (alike_ofSettings alike_getConsoleInputAccessMapping).bind fun _ hkey =>
    alike_ofSettings (alike_get hkey)

theorem hidesAuthKey_settingsGet (args : List Bytes) : HidesAuthKey a b (settingsGet args) := by
  match args with
  | Category :: Key :: _ =>
    refine hidesAuthKey_catchLogicError ?_ fun what => hidesAuthKey_write _
    exact (hidesAuthKey_readSetting _).bind fun _ _ => hidesAuthKey_write _
  | [] | [_] => exact (hidesAuthKey_write _).bind fun _ _ => hidesAuthKey_write _

theorem hidesAuthKey_assignSetting (keyName : ComposedKey) (value : Bytes)
    (keyType : SettingsTypeVariant) : HidesAuthKey a b (assignSetting keyName value keyType) := by
  have hset : ∀ (noun type : String) (v : SettingsTypeVariant) (text : Bytes),
      HidesAuthKey a b (do
        ofSettings (setConsoleInputAccess noun type keyName v)
        writeAssigned keyName text) := by
    intro noun type v text
    exact (alike_ofSettings (alike_setConsoleInputAccess noun type v)).bind
      fun _ _ => hidesAuthKey_write _
  cases keyType with
  | string _ => exact hset _ _ _ _
  | int _ =>
    refine (hidesAuthKey_stoi value).bind fun n _ => ?_
    refine (alike_ofSettings (alike_setConsoleInputAccess _ _ _)).bind fun _ _ => ?_
    exact (hidesAuthKey_stoi value).bind fun n _ => hidesAuthKey_write _
  | bool _ =>
    unfold assignSetting
    split_ifs
    · exact hset _ _ _ _
    · exact hset _ _ _ _
    · exact hidesAuthKey_write _

theorem hidesAuthKey_settingsSet (args : List Bytes) : HidesAuthKey a b (settingsSet args) := by
  match args with
  | Category :: Key :: value :: _ =>
    refine hidesAuthKey_catchLogicError ?_ fun what => hidesAuthKey_write _
    exact (hidesAuthKey_readSetting _).bind fun keyType _ => hidesAuthKey_assignSetting _ _ keyType
  | [] | [_] | [_, _] => exact (hidesAuthKey_write _).bind fun _ _ => hidesAuthKey_write _

theorem hidesAuthKey_listSetting (entry : ComposedKey × SettingsAccessControl) :
    HidesAuthKey a b (listSetting entry) := by
  unfold listSetting
  split_ifs
  · refine hidesAuthKey_catchLogicError ?_ fun what => hidesAuthKey_write _
    exact (hidesAuthKey_readSetting _).bind fun _ _ => hidesAuthKey_write _
  · exact alike_pure trivial

theorem hidesAuthKey_settingsList : HidesAuthKey a b settingsList := by
  refine alike_get_bind fun s t h => ?_
  rw [← h.settings.access]
  exact alike_forM (fun entry _ => hidesAuthKey_listSetting entry) s t h

theorem hidesAuthKey_commandSettings (args : List Bytes) :
    HidesAuthKey a b (commandSettings args) := by
  cases args with
  | nil => exact (hidesAuthKey_write _).bind fun _ _ => hidesAuthKey_write _
  | cons front args =>
    simp only [commandSettings]
    split_ifs
    · exact hidesAuthKey_write _
    · exact hidesAuthKey_settingsGet args
    · exact hidesAuthKey_settingsSet args
    · exact hidesAuthKey_settingsList
    · exact (hidesAuthKey_write _).bind fun _ _ => hidesAuthKey_write _

end TConsole
end BeamMP
