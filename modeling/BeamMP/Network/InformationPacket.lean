import BeamMP.Common.Json
import BeamMP.Console.SettingsCommand
import BeamMP.Network.Frames

/-!
# The heartbeat call and the information packet

`THeartbeatThread::GenerateCall` keeps the text of the call before it adds the
authentication key, and a request `I` is answered with the text that was kept. The
replies and the console are the same whatever the key is, and the key stays as it is.
-/
namespace BeamMP

open Settings

/-- What `GenerateCall` reads from the server, the resource manager and the application. -/
structure ServerInfo where
  ClientCount : ℕ
  ServerVersionString : Bytes
  ClientMinimumVersion : Bytes
  TrimmedList : Bytes
  MaxModSize : ℕ
  ModsLoaded : ℕ
  Names : List Bytes

namespace AppM

variable {a b : Option SettingsTypeVariant}

def getPlayers (info : ServerInfo) : Bytes := info.Names.flatMap (· ++ ascii ";")

/-- The object `Ret` before the authentication key is added. -/
def callObject (info : ServerInfo) : AppM Json := do
  let maxPlayers ← ofSettings (getAsInt .General_MaxPlayers)
  let port ← ofSettings (getAsInt .General_Port)
  let map ← ofSettings (getAsString .General_Map)
  let isPrivate ← ofSettings (getAsBool .General_Private)
  let name ← ofSettings (getAsString .General_Name)
  let tags ← ofSettings (getAsString .General_Tags)
  let guests ← ofSettings (getAsBool .General_AllowGuests)
  let desc ← ofSettings (getAsString .General_Description)
  pure (.object
    [(ascii "players", .string (toDecimal info.ClientCount)),
      (ascii "maxplayers", .string (toDecimal maxPlayers)),
      (ascii "port", .string (toDecimal port)),
      (ascii "map", .string map),
      (ascii "private", .string (ascii (if isPrivate then "true" else "false"))),
      (ascii "version", .string info.ServerVersionString),
      (ascii "clientversion", .string info.ClientMinimumVersion),
      (ascii "name", .string name),
      (ascii "tags", .string tags),
      (ascii "guests", .string (ascii (if guests then "true" else "false"))),
      (ascii "modlist", .string info.TrimmedList),
      (ascii "modstotalsize", .string (toDecimal info.MaxModSize)),
      (ascii "modstotal", .string (toDecimal info.ModsLoaded)),
      (ascii "playerslist", .string (getPlayers info)),
      (ascii "desc", .string desc)])

/-- `dump`, which throws on a text that is not valid. -/
def dump (lib : JsonText) (j : Json) : AppM Bytes :=
  match lib.dump j with
  | some text => pure text
  | none => throw .json

/-- `GenerateCall`: the text that is kept, then the object with the key in it. -/
def generateCall (lib : JsonText) (info : ServerInfo) : AppM Bytes := do
  let Ret ← callObject info
  let text ← dump lib Ret
  modify fun s => { s with lastCall := text }
  let uuid ← ofSettings (getAsString .General_AuthKey)
  dump lib (Ret.setMember (ascii "uuid") (.string uuid))

/-- The code `I` in `Identify`. -/
def informationRequest : AppM Unit := do
  let enabled ← ofSettings (getAsBool .General_InformationPacket)
  let s ← EStateM.get
  let Data := if enabled then s.lastCall else []
  EStateM.set { s with replies := s.replies ++ [sizeBytes Data.length ++ Data] }

open Observables Noninterference

theorem hidesAuthKey_ofSettings_getAs {α : Type} {name : String}
    {alternative : SettingsTypeVariant → Option α} {key : Key} (hkey : key ≠ .General_AuthKey) :
    HidesAuthKey a b (ofSettings (getAs name alternative key)) :=
  alike_ofSettings (alike_getAs name alternative hkey)

theorem hidesAuthKey_callObject (info : ServerInfo) : HidesAuthKey a b (callObject info) := by
  refine (hidesAuthKey_ofSettings_getAs (by decide)).bind fun maxPlayers _ => ?_
  refine (hidesAuthKey_ofSettings_getAs (by decide)).bind fun port _ => ?_
  refine (hidesAuthKey_ofSettings_getAs (by decide)).bind fun map _ => ?_
  refine (hidesAuthKey_ofSettings_getAs (by decide)).bind fun isPrivate _ => ?_
  refine (hidesAuthKey_ofSettings_getAs (by decide)).bind fun name _ => ?_
  refine (hidesAuthKey_ofSettings_getAs (by decide)).bind fun tags _ => ?_
  refine (hidesAuthKey_ofSettings_getAs (by decide)).bind fun guests _ => ?_
  refine (hidesAuthKey_ofSettings_getAs (by decide)).bind fun desc _ => ?_
  exact alike_pure trivial

theorem hidesAuthKey_dump (lib : JsonText) (j : Json) : HidesAuthKey a b (dump lib j) := by
  unfold dump
  cases lib.dump j with
  | none => exact alike_throw _
  | some text => exact alike_pure trivial

theorem hidesAuthKey_keepCall (text : Bytes) :
    HidesAuthKey a b (modify fun s => { s with lastCall := text }) :=
  alike_modify fun _ _ h => ⟨h.settings, h.console, rfl, h.replies⟩

theorem fixes_dump (lib : JsonText) (j : Json) : Fixes id (dump lib j) := by
  unfold dump
  cases lib.dump j with
  | none => exact fixes_throw _
  | some text => exact fixes_pure _

theorem fixes_ofSettings_getAs {α : Type} (name : String)
    (alternative : SettingsTypeVariant → Option α) (key : Key) :
    Fixes id (ofSettings (getAs name alternative key)) := by
  intro s
  have hcases : (∃ e, getAs name alternative key s.settings = .error e s.settings) ∨
      ∃ v a, s.settings.SettingsMap key = some v ∧ alternative v = some a ∧
        getAs name alternative key s.settings = .ok a s.settings := getAs_cases name alternative
  rcases hcases with ⟨e, he⟩ | ⟨v, x, -, -, hx⟩
  · simp only [final, ofSettings, he]
  · simp only [final, ofSettings, hx]

/-- After the text is kept, the key is read and nothing is written. -/
theorem finalAlike_generateCall (lib : JsonText) (info : ServerInfo) :
    FinalAlike (AppState.SameButAuthKey a b) (generateCall lib info) (generateCall lib info) := by
  refine (hidesAuthKey_callObject info).bind_finalAlike fun Ret _ => ?_
  refine (hidesAuthKey_dump lib Ret).bind_finalAlike fun text _ => ?_
  refine (hidesAuthKey_keepCall text).bind_finalAlike fun _ _ => ?_
  have htail : Fixes id (do
      let uuid ← ofSettings (getAsString .General_AuthKey)
      dump lib (Ret.setMember (ascii "uuid") (.string uuid))) :=
    (fixes_ofSettings_getAs _ _ _).bind fun _ => fixes_dump lib _
  exact finalAlike_of_fixes htail htail

theorem hidesAuthKey_informationRequest : HidesAuthKey a b informationRequest := by
  refine (hidesAuthKey_ofSettings_getAs (by decide)).bind fun enabled _ => ?_
  refine alike_get_bind fun s t h => .ok trivial ⟨h.settings, h.console, h.lastCall, ?_⟩
  dsimp only
  rw [h.lastCall, h.replies]

end AppM

/-- A console command `settings`, a call of the heartbeat thread, or an information request. -/
inductive AppOp
  | settings (args : List Bytes)
  | generateCall (info : ServerInfo)
  | informationRequest

namespace AppState

open Noninterference Observables AppM

variable (lib : JsonText) {a b : Option SettingsTypeVariant}

def exec : AppOp → AppM Unit
  | .settings args => TConsole.commandSettings args
  | .generateCall info => discard (AppM.generateCall lib info)
  | .informationRequest => AppM.informationRequest

/-- The state after the operations, an exception having been caught by the caller of each. -/
def run (s : AppState) (ops : List AppOp) : AppState :=
  ops.foldl (fun s op => final (exec lib op) s) s

/-- The state with another authentication key, or without one. -/
def withAuthKey (s : AppState) (authKey : Option SettingsTypeVariant) : AppState :=
  { s with settings := { s.settings with
      SettingsMap := Function.update s.settings.SettingsMap .General_AuthKey authKey } }

theorem finalAlike_exec (op : AppOp) :
    FinalAlike (SameButAuthKey a b) (exec lib op) (exec lib op) := by
  cases op with
  | settings args => exact (TConsole.hidesAuthKey_commandSettings args).finalAlike
  | generateCall info => exact (finalAlike_generateCall lib info).discard
  | informationRequest => exact hidesAuthKey_informationRequest.finalAlike

theorem hidden_initialAccess :
    ∀ entry ∈ initialAccess, entry.2.1 = .General_AuthKey → entry.2.2 = .NO_ACCESS := by
  simp [initialAccess]

theorem sameButAuthKey_withAuthKey {s : AppState}
    (haccess : s.settings.InputAccessMapping.Perm initialAccess)
    (authKey : Option SettingsTypeVariant) :
    SameButAuthKey (s.settings.SettingsMap .General_AuthKey) authKey s (s.withAuthKey authKey) where
  settings :=
    { left := rfl
      right := by simp [withAuthKey]
      others := fun _ hkey => (Function.update_of_ne hkey ..).symm
      access := rfl
      hidden := fun entry hentry => hidden_initialAccess entry (haccess.subset hentry) }
  console := rfl
  lastCall := rfl
  replies := rfl

theorem SameButAuthKey.eq_withAuthKey {s t : AppState} (h : SameButAuthKey a b s t) :
    t = s.withAuthKey b := by
  have hmap : t.settings.SettingsMap =
      Function.update s.settings.SettingsMap .General_AuthKey b := by
    funext key
    by_cases hkey : key = .General_AuthKey
    · rw [hkey, h.settings.right, Function.update_self]
    · rw [Function.update_of_ne hkey, h.settings.others key hkey]
  rcases s with ⟨⟨_, _⟩, _, _, _⟩
  rcases t with ⟨⟨_, _⟩, _, _, _⟩
  simp only [withAuthKey, mk.injEq, Settings.mk.injEq]
  exact ⟨⟨hmap, h.settings.access.symm⟩, h.console.symm, h.lastCall.symm, h.replies.symm⟩

/-- Another authentication key leads to the same console and the same replies, in a run of
commands, calls and requests in any order; only the key differs in the end, and no key changes. -/
theorem authKey_noninterference (lib : JsonText) (s : AppState)
    (haccess : s.settings.InputAccessMapping.Perm initialAccess)
    (authKey : Option SettingsTypeVariant) (ops : List AppOp) :
    ((s.withAuthKey authKey).run lib ops).console = (s.run lib ops).console ∧
      ((s.withAuthKey authKey).run lib ops).replies = (s.run lib ops).replies ∧
      (s.withAuthKey authKey).run lib ops = (s.run lib ops).withAuthKey authKey ∧
      (s.run lib ops).settings.SettingsMap .General_AuthKey =
        s.settings.SettingsMap .General_AuthKey := by
  have hrun : SameButAuthKey (s.settings.SettingsMap .General_AuthKey) authKey (s.run lib ops)
      ((s.withAuthKey authKey).run lib ops) :=
    finalAlike_foldl (finalAlike_exec lib) ops (sameButAuthKey_withAuthKey haccess authKey)
  exact ⟨hrun.console.symm, hrun.replies.symm, hrun.eq_withAuthKey, hrun.settings.left⟩

/-- The settings of the constructor and another key, which the console is asked for. -/
theorem authKey_noninterference_of_new :
    (AppState.mk Settings.new [] [] []).settings.InputAccessMapping.Perm initialAccess ∧
      (((AppState.mk Settings.new [] [] []).withAuthKey (some (.string (ascii "k")))).run
          ⟨fun _ => none, fun _ => some (ascii "call")⟩
          [.settings [ascii "get", ascii "General", ascii "AuthKey"],
            .generateCall ⟨0, [], [], [], 0, 0, []⟩, .informationRequest]).replies =
        ((AppState.mk Settings.new [] [] []).run ⟨fun _ => none, fun _ => some (ascii "call")⟩
          [.settings [ascii "get", ascii "General", ascii "AuthKey"],
            .generateCall ⟨0, [], [], [], 0, 0, []⟩, .informationRequest]).replies :=
  ⟨.refl _, (authKey_noninterference _ _ (.refl _) _ _).2.1⟩

end AppState
end BeamMP
