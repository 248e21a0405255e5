import BeamMP.Foundation.Programs
import BeamMP.Server.ParseVehicle

/-!
# Admission of a client

`Authentication` from the point where the backend has accepted the key: the scan
for stale clients, the results of `onPlayerAuth`, the player limit and the
insertion into `mClients`. Every connection has a thread and a client of its own;
the threads interleave between the sections that touch `mClients` or another
client, and clients are disconnected and removed meanwhile.
-/
namespace BeamMP

open Programs

/-- `size_t` of an `int`. -/
def sizeT (n : ℤ) : ℕ := (n % 2 ^ 64).toNat

structure AuthSettings where
  allowGuests : Bool
  maxPlayers : ℤ

/-- `NotAllowed`, `Reason` where `NotAllowedWithReason` is set, and `BypassLimit`. -/
structure AuthVerdict where
  notAllowed : Bool
  reason : Option Bytes
  bypassLimit : Bool

/-- The loop over the results of `onPlayerAuth`, which ends at the first 1. -/
def scanResults : List LuaResult → Bool → Bool × Bool
  | [], bypassLimit => (false, bypassLimit)
  | .int n :: results, bypassLimit =>
    if n = 1 then (true, bypassLimit)
    else if n = 2 then scanResults results true
    else scanResults results bypassLimit
  | _ :: results, bypassLimit => scanResults results bypassLimit

def stringReason (results : List LuaResult) : Option Bytes :=
  results.findSome? fun
    | .string s => some s
    | _ => none

namespace AuthVerdict

def denied (v : AuthVerdict) : Bool := v.notAllowed || v.reason.isSome

def ofResults (settings : AuthSettings) (isGuest : Bool) (results : List LuaResult) :
    AuthVerdict where
  notAllowed := (scanResults results false).1
  reason :=
    match stringReason results with
    | some reason => some reason
    | none =>
      if !settings.allowGuests && isGuest then
        some (ascii
          "No guests are allowed on this server! To join, sign up at: forum.beammp.com.")
      else none
  bypassLimit := (scanResults results false).2

def withCount (settings : AuthSettings) (count : ℕ) (v : AuthVerdict) : AuthVerdict :=
  if sizeT settings.maxPlayers ≤ count && !v.bypassLimit then
    { v with reason := some (ascii "Server full!") }
  else v

def kickReason (v : AuthVerdict) : Bytes :=
  match v.reason with
  | some reason => reason
  | none => ascii "you are not allowed on the server!"

end AuthVerdict

/-- What `Authentication` does in one step, besides local work. -/
inductive AuthSection (γ : Type)
  | copyClients
  | visit (d : γ)
  | clientCount
  | clientKick (reason : Bytes)
  | postPlayerAuth (denied : Bool) (reason : Bytes)
  | insertClient

def AuthSection.Answer {γ : Type} : AuthSection γ → Type
  | .copyClients => List γ
  | .visit _ => Bool
  | .clientCount => ℕ
  | .clientKick _ | .postPlayerAuth _ _ | .insertClient => Unit

abbrev AuthProgram (γ : Type) := Program (AuthSection.Answer (γ := γ))

namespace AuthProgram

variable {γ : Type}

def locked (k : AuthSection γ) : AuthProgram γ k.Answer := .perform k

def copyClients : AuthProgram γ (List γ) := locked .copyClients
def visit (d : γ) : AuthProgram γ Bool := locked (.visit d)
def clientCount : AuthProgram γ ℕ := locked .clientCount
def clientKick (reason : Bytes) : AuthProgram γ Unit := locked (.clientKick reason)
def postPlayerAuth (denied : Bool) (reason : Bytes) : AuthProgram γ Unit :=
  locked (.postPlayerAuth denied reason)
def insertClient : AuthProgram γ Unit := locked .insertClient

/-- `ForEachClient` with the stale client scan, which stops at the first match. -/
def scan : List γ → AuthProgram γ Unit
  | [] => pure ()
  | d :: clients => do
    let stop ← visit d
    if stop then pure () else scan clients

def verdict (settings : AuthSettings) (v : AuthVerdict) : AuthProgram γ AuthVerdict :=
  if v.denied then pure v
  else do
    let count ← clientCount
    pure (v.withCount settings count)

def kickIfDenied (v : AuthVerdict) : AuthProgram γ Unit :=
  if v.denied then clientKick v.kickReason else pure ()

/-- What follows the verdict. -/
def finish (v : AuthVerdict) : AuthProgram γ Unit := do
  kickIfDenied v
  postPlayerAuth v.denied (v.reason.getD [])
  if v.denied then pure () else insertClient

/-- `Authentication` of a client with this guest flag and these answers to `onPlayerAuth`. -/
def authentication (settings : AuthSettings) (isGuest : Bool) (results : List LuaResult) :
    AuthProgram γ Unit := do
  let clients ← copyClients
  scan clients
  let v ← verdict settings (.ofResults settings isGuest results)
  finish v

end AuthProgram

/-- `mClients` and the connection state of every client. The last two lists are history: the
threads that have copied `mClients` and those that have found room for their client, in
both cases until they are done with it. -/
structure AuthState (γ : Type) where
  clients : List γ
  disconnected : γ → Bool
  created : γ → Bool
  kicked : List (γ × Bytes)
  postPlayerAuth : List (γ × Bool × Bytes)
  scanned : List γ
  admitted : List γ

/-- `c` is the client of a new connection; `order` is one in which the set `mClients` may
be iterated. -/
inductive AuthAction (γ : Type)
  | authentication (c : γ) (results : List LuaResult)
  | advance (c : γ) (order : List γ)
  | disconnect (c : γ)
  | removeClient (c : γ)

abbrev AuthThreads (γ : Type) := Threads (AuthSection.Answer (γ := γ)) (AuthState γ) γ

namespace AuthState

variable {γ : Type}

def start (γ : Type) : AuthState γ where
  clients := []
  disconnected _ := false
  created _ := false
  kicked := []
  postPlayerAuth := []
  scanned := []
  admitted := []

variable [DecidableEq γ] (settings : AuthSettings) (identity : γ → Bytes × Bool)

def create (s : AuthState γ) (c : γ) : AuthState γ :=
  { s with created := Function.update s.created c true }

def disconnect (s : AuthState γ) (c : γ) : AuthState γ :=
  { s with disconnected := Function.update s.disconnected c true }

def removeClient (s : AuthState γ) (c : γ) : AuthState γ :=
  { s with clients := s.clients.filter (· ≠ c) }

/-- A section of the thread of client `c`. -/
def exec (c : γ) (order : List γ) : (k : AuthSection γ) → AuthState γ → k.Answer × AuthState γ
  | .copyClients, s =>
    (if order.Perm s.clients then order else s.clients, { s with scanned := c :: s.scanned })
  | .visit d, s =>
    if identity d = identity c then (true, s.disconnect d) else (false, s)
  | .clientCount, s =>
    (s.clients.length,
      if s.clients.length < sizeT settings.maxPlayers then
        { s with admitted := c :: s.admitted }
      else s)
  | .clientKick reason, s =>
    ((), { s.disconnect c with
      kicked := s.kicked ++ [(c, reason)]
      scanned := s.scanned.erase c })
  | .postPlayerAuth denied reason, s =>
    ((), { s with postPlayerAuth := s.postPlayerAuth ++ [(c, denied, reason)] })
  | .insertClient, s =>
    ((), { s with
      clients := if c ∈ s.clients then s.clients else s.clients ++ [c]
      scanned := s.scanned.erase c
      admitted := s.admitted.erase c })

end AuthState

namespace AuthThreads

variable {γ : Type} (settings : AuthSettings) (identity : γ → Bytes × Bool)

def start (γ : Type) : AuthThreads γ := .idle (AuthSection.Answer (γ := γ)) γ (AuthState.start γ)

variable [DecidableEq γ]

def step (s : AuthThreads γ) : AuthAction γ → Option (AuthThreads γ)
  | .authentication c results =>
    if s.shared.created c then none
    else
      Threads.start { s with shared := s.shared.create c } c
        (AuthProgram.authentication settings (identity c).2 results)
  | .advance c order => s.advance (AuthState.exec settings identity) c order
  | .disconnect c => some { s with shared := s.shared.disconnect c }
  | .removeClient c => some { s with shared := s.shared.removeClient c }

end AuthThreads
end BeamMP
