import BeamMP.Foundation.Execution
import BeamMP.Server.VehicleOwnership

/-!
# The calls of plugins

The functions of the Lua API that send something to players or remove a vehicle. A call is
for one player, who is looked up by the ID, or for everybody if the ID is -1; what it answers
is a pair of a flag and an error text.
-/
namespace BeamMP

open Bytes Observables

namespace ServerM

variable {κ : Type}

/-- `GetClient`. -/
def findClient (ID : ℤ) : ServerM κ (Option κ) := do
  let s ← get
  pure (s.clients.find? fun d => (s.client d).id = ID)

variable [DecidableEq κ] (env : ServerEnv κ)

/-- `InternalTriggerClientEvent`. -/
def triggerClientEvent (PlayerID : ℤ) (EventName Data : Bytes) : ServerM κ (Bool × Bytes) :=
  let Packet := ascii "E:" ++ EventName ++ ascii ":" ++ Data
  if PlayerID = -1 then do
    sendToAll env none Packet true true
    pure (true, [])
  else do
    match ← findClient PlayerID with
    | none => pure (false, ascii "Invalid Player ID")
    | some d => do
      let c ← getClient d
      if !c.mIsSyncing && !c.mIsSynced then pure (false, ascii "Player hasn't joined yet")
      else if ← respond env d Packet true false then pure (true, [])
      else do
        clientKick env d (ascii "Disconnected after failing to receive packets")
        pure (false, ascii "Respond failed, dropping client")

def dropPlayer (ID : ℤ) (MaybeReason : Option Bytes) : ServerM κ (Bool × Bytes) := do
  match ← findClient ID with
  | none => pure (false, ascii "Player does not exist")
  | some d => do
    clientKick env d (MaybeReason.getD (ascii "No reason"))
    pure (true, [])

/-- The common body of the calls that show something to a player. A failed `Respond` changes
the text only: the flag is set after it in any case. -/
def message (Packet unsynced failed : Bytes) (ID : ℤ) : ServerM κ (Bool × Bytes) :=
  if ID = -1 then do
    sendToAll env none Packet true true
    pure (true, [])
  else do
    match ← findClient ID with
    | none => pure (false, ascii "Invalid Player ID")
    | some d => do
      let c ← getClient d
      if !c.mIsSynced then pure (false, unsynced)
      else if ← respond env d Packet true false then pure (true, [])
      else pure (true, failed)

def sendChatMessage (ID : ℤ) (Message : Bytes) : ServerM κ (Bool × Bytes) :=
  message env (ascii "C:Server: " ++ Message) (ascii "Player still syncing data") [] ID

def sendNotification (ID : ℤ) (Message Icon Category : Bytes) : ServerM κ (Bool × Bytes) :=
  message env (ascii "n" ++ Category ++ ascii ":" ++ Icon ++ ascii ":" ++ Message)
    (ascii "Player is not synced yet") (ascii "Failed to send packet") ID

/-- `MP.RemoveVehicle` for the client that was found. -/
def removeVehicleOf (PID VID : ℤ) (c : κ) : ServerM κ (Bool × Bytes) := do
  let data ← getCarData c VID
  if data.isNull then pure (false, ascii "Vehicle does not exist")
  else do
    let _ ← triggerEvent env (ascii "onVehicleDeleted") [.int PID, .int VID]
    sendToAll env none (destroyPacket PID VID) true true
    updateVehicles c (·.deleteCar VID)
    pure (true, [])

/-- `MP.RemoveVehicle`. -/
def removeVehicle (PID VID : ℤ) : ServerM κ (Bool × Bytes) := do
  match ← findClient PID with
  | none => pure (false, ascii "Invalid Player ID")
  | some c => removeVehicleOf env PID VID c

end ServerM

inductive MessageCall
  | triggerClientEvent (PlayerID : ℤ) (EventName Data : Bytes)
  | sendChatMessage (ID : ℤ) (Message : Bytes)
  | sendNotification (ID : ℤ) (Message Icon Category : Bytes)
  | dropPlayer (ID : ℤ) (MaybeReason : Option Bytes)

variable {κ : Type}

def ServerState.joined (s : ServerState κ) (d : κ) : Bool :=
  (s.client d).mIsSynced || (s.client d).mIsSyncing

structure Heard where
  mPacketsSync : List Bytes
  sent : List (Transport × Bytes)
  disconnected : Bool
deriving DecidableEq

section

variable [DecidableEq κ]

def ServerState.heard (s : ServerState κ) (d : κ) : Heard where
  mPacketsSync := (s.client d).mPacketsSync
  sent := (s.sent.filter fun e => e.1 = d).map Prod.snd
  disconnected := (s.client d).disconnected

namespace MessageCall

variable (env : ServerEnv κ)

def run : MessageCall → ServerM κ (Bool × Bytes)
  | .triggerClientEvent PlayerID EventName Data =>
    ServerM.triggerClientEvent env PlayerID EventName Data
  | .sendChatMessage ID Message => ServerM.sendChatMessage env ID Message
  | .sendNotification ID Message Icon Category =>
    ServerM.sendNotification env ID Message Icon Category
  | .dropPlayer ID MaybeReason => ServerM.dropPlayer env ID MaybeReason

/-- Whether a call is for a client: messages are for those that have joined only. -/
def reaches (a : MessageCall) (s : ServerState κ) (d : κ) : Bool :=
  match a with
  | .triggerClientEvent ID _ _ | .sendChatMessage ID _ | .sendNotification ID _ _ _ =>
    s.joined d && (ID = -1 || ID = (s.client d).id)
  | .dropPlayer ID _ => ID = (s.client d).id

/-- Calls go on after one that throws. -/
def step (s : ServerState κ) (a : MessageCall) : Option (ServerState κ) :=
  some (final (a.run env) s)

end MessageCall

namespace ServerM

variable {d e : κ} {env : ServerEnv κ}

theorem updateClient_heard (hne : e ≠ d) (g : ServerClient → ServerClient) :
    Fixes (fun s => s.heard d) (updateClient e g) := by
  apply fixes_modify
  intro s
  unfold ServerState.heard
  rw [s.update_of_ne hne.symm]
  rfl

theorem transmit_heard (hne : e ≠ d) (transport : Transport) (Data : Bytes) :
    Fixes (fun s => s.heard d) (transmit e transport Data) := by
  apply fixes_modify
  intro s
  simp [ServerState.heard, hne]

theorem sent_heard (hne : e ≠ d) {sends : ServerState κ → Bool} :
    Fixes (fun s => s.heard d)
      (do
        let s ← get
        if sends s then pure true
        else do
          disconnectClient e
          pure false : ServerM κ Bool) := by
  apply fixes_get_bind
  intro s
  split_ifs
  · exact fixes_pure true
  · exact (updateClient_heard hne _).bind fun _ => fixes_pure false

theorem tcpSend_heard (hne : e ≠ d) (Data : Bytes) (IsSync : Bool) :
    Fixes (fun s => s.heard d) (tcpSend env e Data IsSync) := by
  apply (fixes_getClient e).bind
  intro c
  cases BeamMP.tcpSend c.mIsSyncing Data IsSync with
  | enqueue Data => exact (updateClient_heard hne _).bind fun _ => fixes_pure true
  | drop => exact fixes_pure true
  | write ToSend => exact (transmit_heard hne .tcp ToSend).bind fun _ => sent_heard hne

theorem udpSend_heard (hne : e ≠ d) (Data : Bytes) :
    Fixes (fun s => s.heard d) (udpSend env e Data) := by
  apply (fixes_getClient e).bind
  intro c
  split_ifs
  · exact fixes_pure true
  · apply (fixes_compressLarge env Data).bind
    intro Data
    exact (transmit_heard hne .udp Data).bind fun _ => sent_heard hne

theorem respond_heard (hne : e ≠ d) (MSG : Bytes) (Rel isSync : Bool) :
    Fixes (fun s => s.heard d) (respond env e MSG Rel isSync) := by
  unfold respond
  cases MSG with
  | nil => exact fixes_throw _
  | cons C rest =>
    dsimp only
    split_ifs
    · exact (fixes_compressLarge env _).bind fun _ => tcpSend_heard hne _ isSync
    · exact tcpSend_heard hne _ isSync
    · exact udpSend_heard hne _

theorem clientKick_heard (hne : e ≠ d) (R : Bytes) :
    Fixes (fun s => s.heard d) (clientKick env e R) :=
  (tcpSend_heard hne _ false).bind fun _ => updateClient_heard hne _

/-- What a client hears as long as it has not joined. -/
def heardOutside (d : κ) (s : ServerState κ) : Option Heard :=
  if s.joined d then none else some (s.heard d)

theorem fixes_heardOutside {α : Type} {m : ServerM κ α} (hcore : Fixes ServerState.core m)
    (hheard : Fixes (fun s => s.heard d) m) : Fixes (heardOutside d) m := by
  intro s
  have hjoined : (final m s).joined d = s.joined d :=
    hcore.map (fun t : ServerState κ => t.joined d) s
  have hsame : (final m s).heard d = s.heard d := hheard s
  unfold heardOutside
  rw [hjoined, hsame]

theorem sendToClient_heardOutside (Data : Bytes) (Rel : Bool) (e : κ) :
    Fixes (heardOutside d) (sendToClient env Data Rel e) := by
  by_cases hne : e = d
  · subst hne
    intro s
    have hjoined : (final (sendToClient env Data Rel e) s).joined e = s.joined e :=
      (sendToClient_core env Data Rel e).map (fun t : ServerState κ => t.joined e) s
    unfold heardOutside
    rw [hjoined]
    cases hs : s.joined e with
    | true => rfl
    | false =>
      have hskip : sendToClient env Data Rel e s = .ok () s := by
        have hread : getClient e s = .ok (s.client e) s := rfl
        unfold sendToClient
        rw [bind_of_ok hread]
        unfold ServerState.joined at hs
        rw [hs]
        rfl
      unfold final
      rw [hskip]
  · apply fixes_heardOutside (sendToClient_core env Data Rel e)
    apply (fixes_getClient e).bind
    intro c
    split_ifs
    · cases sendToAllRoute env.zlib Data Rel with
      | none => exact fixes_throw _
      | some route =>
        cases route with
        | enqueue Packet => exact updateClient_heard hne _
        | udp Data => exact (udpSend_heard hne Data).bind fun _ => fixes_pure ()
    · exact fixes_pure ()

theorem sendToAll_heardOutside (c : Option κ) (Data : Bytes) (Self Rel : Bool) :
    Fixes (heardOutside d) (sendToAll env c Data Self Rel) := by
  unfold sendToAll
  split_ifs
  · exact fixes_throw _
  · apply fixes_get_bind
    intro s
    apply fixes_forM
    intro e
    split_ifs
    · exact sendToClient_heardOutside Data Rel e
    · exact fixes_pure ()

theorem heard_of_heardOutside {s t : ServerState κ} (hsame : heardOutside d t = heardOutside d s)
    (h : s.joined d = false) : t.heard d = s.heard d := by
  unfold heardOutside at hsame
  rw [h] at hsame
  cases ht : t.joined d with
  | true => simp [ht] at hsame
  | false => simpa [ht] using hsame

theorem broadcast_heard {s : ServerState κ} (h : s.joined d = false) (Packet : Bytes)
    (answer : Bool × Bytes) :
    (final (do
      sendToAll env none Packet true true
      pure answer) s).heard d = s.heard d := by
  have hfixes : Fixes (heardOutside d) (do
      sendToAll env none Packet true true
      pure answer) := (sendToAll_heardOutside _ _ _ _).bind fun _ => fixes_pure answer
  exact heard_of_heardOutside (hfixes s) h

omit [DecidableEq κ] in
/-- The two ways to go on after the search for a client, which has the ID if it was found. -/
theorem findClient_bind_fixes {ω : Type*} {f : ServerState κ → ω} {s : ServerState κ} {α : Type}
    {ID : ℤ} {k : Option κ → ServerM κ α} (hnone : Fixes f (k none))
    (hsome : ∀ e, (s.client e).id = ID → f (final (k (some e)) s) = f s) :
    f (final (findClient ID >>= k) s) = f s := by
  have hread : findClient ID s = .ok (s.clients.find? fun e => (s.client e).id = ID) s := rfl
  rw [final_bind, hread]
  dsimp only
  cases hfound : s.clients.find? fun e => (s.client e).id = ID with
  | none => exact hnone s
  | some e => exact hsome e (by simpa using List.find?_some hfound)

end ServerM

namespace MessageCall

variable {env : ServerEnv κ} {s t : ServerState κ} {d : κ}

omit [DecidableEq κ] in
theorem findClient_core (ID : ℤ) {α : Type} {k : Option κ → ServerM κ α}
    (hk : ∀ found, Fixes ServerState.core (k found)) :
    Fixes ServerState.core (ServerM.findClient ID >>= k) := by
  have hfind : Fixes ServerState.core (ServerM.findClient ID : ServerM κ (Option κ)) :=
    fixes_get_bind fun _ => fixes_pure _
  exact hfind.bind hk

/-- The two kinds of messages differ in what they answer, and in what they do when a packet
cannot be sent. -/
theorem message_core {ID : ℤ} {Packet : Bytes} {answer : Bool × Bytes}
    {k : Option κ → ServerM κ (Bool × Bytes)} (hk : ∀ found, Fixes ServerState.core (k found)) :
    Fixes ServerState.core (if ID = -1 then do
        ServerM.sendToAll env none Packet true true
        pure answer
      else ServerM.findClient ID >>= k) := by
  split_ifs
  · exact (ServerM.sendToAll_core env _ _ _ _).bind fun _ => fixes_pure _
  · exact findClient_core ID hk

theorem answered_fixes {ω : Type*} {f : ServerState κ → ω} {e : κ} {Packet : Bytes}
    {refuses : ServerClient → Bool} {unsynced answer : Bool × Bytes} {k : ServerM κ (Bool × Bytes)}
    (hrespond : Fixes f (ServerM.respond env e Packet true false)) (hk : Fixes f k) :
    Fixes f (do
      let c ← ServerM.getClient e
      if refuses c then pure unsynced
      else if ← ServerM.respond env e Packet true false then pure answer
      else k) := by
  apply (ServerM.fixes_getClient e).bind
  intro c
  split_ifs
  · exact fixes_pure _
  · apply hrespond.bind
    intro sent
    split_ifs
    · exact fixes_pure _
    · exact hk

theorem messageCall_core (Packet unsynced failed : Bytes) (ID : ℤ) :
    Fixes ServerState.core (ServerM.message env Packet unsynced failed ID) := by
  apply message_core
  intro found
  cases found with
  | none => exact fixes_pure _
  | some e => exact answered_fixes (ServerM.respond_core env e _ _ _) (fixes_pure _)

theorem run_core (a : MessageCall) : Fixes ServerState.core (a.run env) := by
  cases a with
  | triggerClientEvent PlayerID EventName Data =>
    apply message_core
    intro found
    cases found with
    | none => exact fixes_pure _
    | some e =>
      apply answered_fixes (ServerM.respond_core env e _ _ _)
      exact (ServerM.clientKick_core env e _).bind fun _ => fixes_pure _
  | sendChatMessage ID Message => exact messageCall_core _ _ _ ID
  | sendNotification ID Message Icon Category => exact messageCall_core _ _ _ ID
  | dropPlayer ID MaybeReason =>
    apply findClient_core
    intro found
    cases found with
    | none => exact fixes_pure _
    | some e => exact (ServerM.clientKick_core env e _).bind fun _ => fixes_pure _

/-- A message that does not reach a client, where `k` is what is done with the client that is
found. -/
theorem message_heard {ID : ℤ} (h : (s.joined d && (ID = -1 || ID = (s.client d).id)) = false)
    {Packet : Bytes} {answer : Bool × Bytes} {k : Option κ → ServerM κ (Bool × Bytes)}
    (hnone : Fixes (fun s => s.heard d) (k none))
    (hskip : s.joined d = false → final (k (some d)) s = s)
    (hother : ∀ e, e ≠ d → Fixes (fun s => s.heard d) (k (some e))) :
    (final (if ID = -1 then do
        ServerM.sendToAll env none Packet true true
        pure answer
      else ServerM.findClient ID >>= k) s).heard d = s.heard d := by
  split_ifs with hall
  · exact ServerM.broadcast_heard (by simpa [hall] using h) Packet answer
  · apply ServerM.findClient_bind_fixes (f := fun s => s.heard d) hnone
    intro e he
    by_cases hed : e = d
    · subst hed
      rw [hskip (by simpa [he] using h)]
    · exact hother e hed s

theorem messageCall_heard {ID : ℤ}
    (h : (s.joined d && (ID = -1 || ID = (s.client d).id)) = false)
    (Packet unsynced failed : Bytes) :
    (final (ServerM.message env Packet unsynced failed ID) s).heard d = s.heard d := by
  apply message_heard h (fixes_pure _)
  · intro hjoined
    have hread : ServerM.getClient d s = .ok (s.client d) s := rfl
    have hunsynced : (s.client d).mIsSynced = false := by
      unfold ServerState.joined at hjoined
      simpa using (Bool.or_eq_false_iff.mp hjoined).1
    dsimp only
    rw [final_bind, hread]
    simp [hunsynced]
  · intro e hne
    exact answered_fixes (ServerM.respond_heard hne _ _ _) (fixes_pure _)

theorem run_heard {a : MessageCall} (h : a.reaches s d = false) :
    (final (a.run env) s).heard d = s.heard d := by
  cases a with
  | triggerClientEvent PlayerID EventName Data =>
    apply message_heard h (fixes_pure _)
    · intro hjoined
      have hread : ServerM.getClient d s = .ok (s.client d) s := rfl
      obtain ⟨hsynced, hsyncing⟩ := Bool.or_eq_false_iff.mp hjoined
      dsimp only
      rw [final_bind, hread]
      simp [hsynced, hsyncing]
    · intro e hne
      apply answered_fixes (ServerM.respond_heard hne _ _ _)
      exact (ServerM.clientKick_heard hne _).bind fun _ => fixes_pure _
  | sendChatMessage ID Message => exact messageCall_heard h _ _ _
  | sendNotification ID Message Icon Category => exact messageCall_heard h _ _ _
  | dropPlayer ID MaybeReason =>
    unfold run ServerM.dropPlayer
    refine ServerM.findClient_bind_fixes (f := fun s => s.heard d) (fixes_pure _) ?_
    intro e he
    have hne : e ≠ d := by
      rintro rfl
      simp [reaches, he] at h
    exact (ServerM.clientKick_heard hne _).bind (fun _ => fixes_pure _) s

omit [DecidableEq κ] in
theorem reaches_core (a : MessageCall) (s : ServerState κ) (d : κ) :
    a.reaches s.core d = a.reaches s d := by cases a <;> rfl

/-- Whoever no call is for hears nothing of any of them: messages to others, to everybody while
the client has not joined, or to the client itself while it has not, and the dropping of
others. -/
theorem heard_unchanged (env : ServerEnv κ) (calls : List MessageCall) (s t : ServerState κ)
    (d : κ) (hcalls : ∀ a ∈ calls, a.reaches s d = false)
    (hrun : Execution.run (step env) s calls = some t) : t.heard d = s.heard d := by
  induction calls generalizing s with
  | nil =>
    cases hrun
    rfl
  | cons a calls ih =>
    obtain ⟨m, hstep, hrest⟩ := Execution.run_cons_eq_some.mp hrun
    cases hstep
    have hcore : (final (a.run env) s).core = s.core := run_core a s
    have hothers : ∀ b ∈ calls, b.reaches (final (a.run env) s) d = false := by
      intro b hb
      rw [← reaches_core, hcore, reaches_core]
      exact hcalls b (List.mem_cons_of_mem a hb)
    exact (ih _ hothers hrest).trans (run_heard (hcalls a List.mem_cons_self))

end MessageCall
end

/-- A message to the player with ID 0 and the dropping of that player, while the one with ID 1 is
in the game. -/
theorem heard_unchanged_by_others :
    ∃ t, Execution.run (MessageCall.step quietEnv) twoClients
        [.sendChatMessage 0 (ascii "hi"), .dropPlayer 0 none] = some t ∧
      t.heard true = twoClients.heard true :=
  ⟨_, rfl, MessageCall.heard_unchanged quietEnv
    [.sendChatMessage 0 (ascii "hi"), .dropPlayer 0 none] twoClients _ true (by decide) rfl⟩

end BeamMP
