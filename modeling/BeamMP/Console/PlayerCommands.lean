import BeamMP.Lua.Plugins
import BeamMP.Server.HandlerAgreement
import BeamMP.Server.PluginCalls

/-!
# The command `kick`

The console kicks a player by the name. Case does not matter, and it is enough that one of the
two names starts with the other one; the first player found is kicked.
-/
namespace BeamMP

open Bytes Observables

def stringStartsWith (What StartsWith : Bytes) : Bool :=
  StartsWith.length ≤ What.length && substr What 0 (some StartsWith.length) = StartsWith

def nameCompare (Name1 Name2 : Bytes) : Bool :=
  let Name1 := Name1.map tolower
  let Name2 := Name2.map tolower
  stringStartsWith Name1 Name2 || stringStartsWith Name2 Name1

def concatArgs (args : List Bytes) (space : UInt8) : Bytes :=
  let Result := args.foldl (fun Result arg => Result ++ (arg ++ [space])) []
  substr Result 0 (some (Result.length - 1))

/-- The text that `EnsureArgsCount` refuses the arguments with. -/
def argsCountError (args : List Bytes) (n : ℕ) : Option Bytes :=
  if n = 0 && !args.isEmpty then some (ascii "This command expects no arguments.")
  else if args.length ≠ n then
    some (ascii "Expected " ++ toDecimal n ++ ascii " argument(s), instead got " ++
      toDecimal args.length)
  else none

/-- The same for a range of counts. -/
def argsRangeError (args : List Bytes) (min max : ℕ) : Option Bytes :=
  if min = max then argsCountError args min
  else if args.length > max then
    some (ascii "Too many arguments. At most " ++ toDecimal max ++
      ascii " argument(s) expected, got " ++ toDecimal args.length ++ ascii " instead.")
  else if args.length < min then
    some (ascii "Too few arguments. At least " ++ toDecimal min ++
      ascii " argument(s) expected, got " ++ toDecimal args.length ++ ascii " instead.")
  else none

/-- `size_t(-1)`. -/
def sizeMax : ℕ := 2 ^ 64 - 1

namespace ServerM

variable {κ : Type} [DecidableEq κ] (env : ServerEnv κ)

/-- The iteration of `Command_Kick`, which stops at the first player with a matching name. -/
def kickFirst (Name Reason : Bytes) : List κ → ServerM κ Bool
  | [] => pure false
  | c :: clients => do
    let Locked ← getClient c
    if nameCompare Locked.name Name then do
      clientKick env c Reason
      pure true
    else kickFirst Name Reason clients

def kickReason (rest : List Bytes) : Bytes :=
  if rest.isEmpty then ascii "Kicked by server console" else concatArgs rest ' '.toUInt8

/-- `Command_Kick`, with the line that it writes. -/
def commandKick (args : List Bytes) : ServerM κ Bytes :=
  match argsRangeError args 1 sizeMax, args with
  | some error, _ => pure error
  | none, [] => throw .outOfRange
  | none, Name :: rest => do
    let Reason := kickReason rest
    let s ← get
    let Kicked ← kickFirst env Name Reason s.clients
    if !Kicked then
      pure (ascii "Error: No player with name matching '" ++ Name ++ ascii "' was found.")
    else
      pure (ascii "Kicked player '" ++ Name ++ ascii "' for reason: '" ++ Reason ++ ascii "'.")

end ServerM

theorem stringStartsWith_iff {What StartsWith : Bytes} :
    stringStartsWith What StartsWith = true ↔ StartsWith <+: What := by
  unfold stringStartsWith
  rw [Bool.and_eq_true, decide_eq_true_iff, decide_eq_true_iff]
  constructor
  · rintro ⟨-, htake⟩
    exact List.prefix_iff_eq_take.mpr htake.symm
  · intro hstart
    exact ⟨hstart.length_le, (List.prefix_iff_eq_take.mp hstart).symm⟩

theorem nameCompare_iff {Name1 Name2 : Bytes} :
    nameCompare Name1 Name2 = true ↔
      Name1.map tolower <+: Name2.map tolower ∨ Name2.map tolower <+: Name1.map tolower := by
  unfold nameCompare
  rw [Bool.or_eq_true, stringStartsWith_iff, stringStartsWith_iff, or_comm]

theorem argsRangeError_of_le {args : List Bytes} (hsome : args ≠ [])
    (hmax : args.length ≤ sizeMax) : argsRangeError args 1 sizeMax = none := by
  have hlength : 0 < args.length := List.length_pos_iff.mpr hsome
  unfold argsRangeError
  rw [if_neg (by decide), if_neg (by omega), if_neg (by omega)]

section

variable {κ : Type} [DecidableEq κ] {env : ServerEnv κ} {s : ServerState κ} {Name Reason : Bytes}

/-- The player that `kick` finds. -/
def ServerState.kickTarget (s : ServerState κ) (Name : Bytes) : Option κ :=
  s.clients.find? fun c => nameCompare (s.client c).name Name

namespace ServerM

/-- The iteration is the search for the first match. -/
theorem kickFirst_eq (clients : List κ) :
    kickFirst env Name Reason clients s =
      (match clients.find? fun c => nameCompare (s.client c).name Name with
      | none => (pure false : ServerM κ Bool)
      | some c => do
        clientKick env c Reason
        pure true) s := by
  induction clients with
  | nil => rfl
  | cons c clients ih =>
    have hread : getClient c s = .ok (s.client c) s := rfl
    unfold kickFirst
    rw [bind_of_ok hread, List.find?_cons]
    cases hmatch : nameCompare (s.client c).name Name with
    | true => rfl
    | false =>
      rw [if_neg Bool.false_ne_true]
      exact ih

theorem returns_clientKick (c : κ) (R : Bytes) : Returns (clientKick env c R) := by
  have hdisconnect : Returns (disconnectClient c : ServerM κ Unit) := returns_modify _
  exact (returns_tcpSend c _ false).bind fun _ => hdisconnect

theorem final_commandKick {rest : List Bytes} (hmax : (Name :: rest).length ≤ sizeMax) :
    final (commandKick env (Name :: rest)) s =
      match s.kickTarget Name with
      | none => s
      | some c => final (clientKick env c (kickReason rest)) s := by
  have hargs : argsRangeError (Name :: rest) 1 sizeMax = none :=
    argsRangeError_of_le (List.cons_ne_nil _ _) hmax
  have hread : (get : ServerM κ (ServerState κ)) s = .ok s s := rfl
  unfold commandKick
  rw [hargs]
  dsimp only
  rw [final_bind, hread]
  dsimp only
  rw [final_bind, kickFirst_eq]
  unfold ServerState.kickTarget
  cases s.clients.find? fun c => nameCompare (s.client c).name Name with
  | none => rfl
  | some c =>
    obtain ⟨u, t, ht⟩ := @returns_clientKick κ _ env c (kickReason rest) s
    dsimp only
    rw [bind_of_ok ht]
    unfold final
    rw [ht]
    rfl

theorem clientKick_disconnects (c : κ) (R : Bytes) :
    ((final (clientKick env c R) s).client c).disconnected = true := by
  obtain ⟨sent, t, ht⟩ := @returns_tcpSend κ env _ c (ascii "K" ++ R) false s
  unfold clientKick
  rw [final_bind, ht]
  have hfinal : final (disconnectClient c) t =
      t.update c fun d => { d with disconnected := true } := rfl
  dsimp only
  rw [hfinal, ServerState.update_self]

/-- `kick` disconnects the first player whose name matches, that is, one of the two names is the
start of the other one, and the others hear nothing of it. -/
theorem kick_reaches_one_player (env : ServerEnv κ) (s : ServerState κ) (Name : Bytes)
    (rest : List Bytes) (hmax : (Name :: rest).length ≤ sizeMax) (d : κ) :
    (final (commandKick env (Name :: rest)) s).core = s.core ∧
      (s.kickTarget Name = some d →
        ((final (commandKick env (Name :: rest)) s).client d).disconnected = true ∧
          ((s.client d).name.map tolower <+: Name.map tolower ∨
            Name.map tolower <+: (s.client d).name.map tolower)) ∧
      (s.kickTarget Name ≠ some d →
        (final (commandKick env (Name :: rest)) s).heard d = s.heard d) := by
  rw [final_commandKick hmax]
  cases htarget : s.kickTarget Name with
  | none => exact ⟨rfl, fun hd => absurd hd (by simp), fun _ => rfl⟩
  | some c =>
    refine ⟨clientKick_core env c _ s, ?_, ?_⟩
    · intro hd
      obtain rfl : c = d := Option.some.inj hd
      have hmatch : nameCompare (s.client c).name Name = true := by
        simpa using List.find?_some htarget
      exact ⟨clientKick_disconnects c _, nameCompare_iff.mp hmatch⟩
    · intro hd
      have hne : c ≠ d := fun heq => hd (congrArg some heq)
      exact clientKick_heard hne _ s

end ServerM

/-- The player with ID 0 is called `bob`, and the one with ID 1 `bobby`. -/
def bobAndBobby : ServerState Bool where
  clients := [false, true]
  client d := { id := d.toNat, name := ascii (if d then "bobby" else "bob"), mIsSynced := true }

/-- A full name may reach another player. -/
theorem kick_bobby_reaches_bob :
    ((final (ServerM.commandKick quietEnv [ascii "bobby"]) bobAndBobby).client
        false).disconnected = true ∧
      (final (ServerM.commandKick quietEnv [ascii "bobby"]) bobAndBobby).heard true =
        bobAndBobby.heard true :=
  ⟨(ServerM.kick_reaches_one_player quietEnv bobAndBobby (ascii "bobby") [] (by decide)
      false).2.1 (by decide) |>.1,
    (ServerM.kick_reaches_one_player quietEnv bobAndBobby (ascii "bobby") [] (by decide)
      true).2.2 (by decide)⟩

end
end BeamMP
