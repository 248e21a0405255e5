import BeamMP.Foundation.Execution
import BeamMP.Network.SendFile

/-!
# The thread of a client

`Authentication` puts the client into `mClients` and calls `TCPClient`, which takes
it out again when the connection is over. An exception in the receive loop is
caught there; one in `SyncResources` goes up to `Identify`, where nothing takes
the client out of `mClients`.
-/
namespace BeamMP

/-- Where the thread is. `ended` says whether an exception has ended it. -/
inductive SessionPhase
  | authenticated
  | tcpClient
  | syncing
  | connected
  | receiving
  | leaving
  | ended (exception : Bool)
deriving DecidableEq

/-- Whether `mClients` is to contain the client in a phase. -/
def SessionPhase.isActive : SessionPhase → Bool
  | .authenticated | .ended _ => false
  | _ => true

def SessionPhase.hasEnded : SessionPhase → Bool
  | .ended _ => true
  | _ => false

structure Session where
  phase : SessionPhase
  disconnected : Bool
  registered : Bool
deriving DecidableEq

def Session.start : Session := ⟨.authenticated, false, false⟩

/-- A packet read by `SyncResources`, with the mods, the folder and the answers of the system
at that time. -/
structure SyncRead where
  Data : Bytes
  mods : List TMod
  fs : FileSystem
  io : DownloadIO

/-- The end of a call of `GlobalParser`. -/
inductive ParserResult
  | returned (disconnected : Bool)
  | threw
deriving DecidableEq

inductive SessionAction
  | insertClient
  | tcpClient (sent : Bool)
  | syncRead (r : SyncRead)
  | onConnect (sent : Bool)
  | receive (Data : Bytes) (result : ParserResult)
  | onDisconnect
  | disconnect

/-- What `Parse` does to the client, unless it is still running. -/
structure Parsed where
  disconnected : Bool
  threw : Bool
deriving DecidableEq

variable (folder : ResourceFolder) (dump : List TMod → Option Bytes)

/-- `Parse`. The dump of the mods throws for names that are not UTF-8. -/
def parse (r : SyncRead) : Option Parsed :=
  match r.Data with
  | [] => some ⟨false, false⟩
  | Code :: rest =>
    if Code = 'f'.toUInt8 then
      let d := sendFile folder r.mods r.fs rest r.io
      if d.running then none else some ⟨d.disconnected, d.threw⟩
    else if Code = 'S'.toUInt8 && rest.head? = some 'R'.toUInt8 then
      match dump r.mods with
      | none => some ⟨false, true⟩
      | some _ => some ⟨!r.io.tcpSend, false⟩
    else some ⟨false, false⟩

/-- Whether a packet makes `Parse` throw: a request for something that is not a regular file or
whose status cannot be read, and a request for mods that cannot be dumped. -/
def parseThrows (r : SyncRead) : Bool :=
  match r.Data with
  | [] => false
  | Code :: rest =>
    if Code = 'f'.toUInt8 then
      hasFilename rest && !listedProtected r.mods (filename rest) &&
        match r.fs.status (folder.client (filename rest)).cstr with
        | .failed | .other => true
        | .notFound | .regular _ => false
    else Code = 'S'.toUInt8 && rest.head? = some 'R'.toUInt8 && (dump r.mods).isNone

namespace Session

/-- One iteration of the loop of `SyncResources`. -/
def syncStep (s : Session) (r : SyncRead) : Option Session :=
  if s.disconnected then some { s with phase := .connected }
  else if r.Data = [] then some { s with disconnected := true, phase := .connected }
  else if r.Data = ascii "Done" then some { s with phase := .connected }
  else
    (parse folder dump r).map fun p =>
      if p.threw then { s with disconnected := p.disconnected, phase := .ended true }
      else { s with disconnected := p.disconnected }

/-- One iteration of the receive loop of `TCPClient`. -/
def receiveStep (s : Session) (Data : Bytes) (result : ParserResult) : Session :=
  if s.disconnected then { s with phase := .leaving }
  else if Data = [] then { s with disconnected := true, phase := .leaving }
  else
    match result with
    | .returned disconnected => { s with disconnected := disconnected }
    | .threw => { s with disconnected := true, phase := .leaving }

/-- A step of the thread, or another thread that disconnects the client. -/
def step (s : Session) : SessionAction → Option Session
  | .insertClient =>
    if s.phase = .authenticated then some { s with registered := true, phase := .tcpClient }
    else none
  | .tcpClient sent =>
    if s.phase = .tcpClient then
      if s.disconnected then some { s with registered := false, phase := .ended false }
      else some { s with disconnected := !sent, phase := .syncing }
    else none
  | .syncRead r => if s.phase = .syncing then s.syncStep folder dump r else none
  | .onConnect sent =>
    if s.phase = .connected then
      some { s with disconnected := s.disconnected || !sent, phase := .receiving }
    else none
  | .receive Data result => if s.phase = .receiving then some (s.receiveStep Data result) else none
  | .onDisconnect =>
    if s.phase = .leaving then
      some { s with disconnected := true, registered := false, phase := .ended false }
    else none
  | .disconnect => some { s with disconnected := true }

/-- A client whose thread has ended is not a member of `mClients`. -/
def Unregistered (s : Session) : Prop := s.phase.hasEnded = true → s.registered = false

/-- An iteration of `SyncResources` that begins while the client is connected does not handle a
packet that makes `Parse` throw. -/
def handlesQuietly (s : Session) : SessionAction → Bool
  | .syncRead r => !(s.phase = .syncing && !s.disconnected && parseThrows folder dump r)
  | _ => true

variable {folder dump} {s t : Session} {a : SessionAction}

theorem sendFile_threw {mods : List TMod} {fs : FileSystem} {UnsafeName : Bytes}
    {io : DownloadIO} : (sendFile folder mods fs UnsafeName io).threw =
      (hasFilename UnsafeName && !listedProtected mods (filename UnsafeName) &&
        match fs.status (folder.client (filename UnsafeName)).cstr with
        | .failed | .other => true
        | .notFound | .regular _ => false) := by
  unfold sendFile
  cases hasFilename UnsafeName with
  | false => simp [Download.reply]
  | true =>
    cases listedProtected mods (filename UnsafeName) with
    | true => simp
    | false =>
      cases fs.status (folder.client (filename UnsafeName)).cstr with
      | regular content =>
        simp only [sendFileToClient]
        split_ifs <;> simp_all [Download.reply]
      | _ => simp [Download.reply]

theorem parse_threw {r : SyncRead} {p : Parsed} (h : parse folder dump r = some p) :
    p.threw = parseThrows folder dump r := by
  unfold parse at h
  unfold parseThrows
  cases hData : r.Data with
  | nil =>
    rw [hData] at h
    cases h
    rfl
  | cons Code rest =>
    rw [hData] at h
    simp only at h ⊢
    by_cases hf : Code = 'f'.toUInt8
    · rw [if_pos hf] at h ⊢
      cases hrunning : (sendFile folder r.mods r.fs rest r.io).running with
      | true => simp [hrunning] at h
      | false =>
        rw [hrunning] at h
        cases h
        exact sendFile_threw
    · rw [if_neg hf] at h ⊢
      cases hSR : (decide (Code = 'S'.toUInt8) && rest.head? = some 'R'.toUInt8) with
      | false =>
        rw [hSR] at h
        cases h
        rfl
      | true =>
        rw [hSR] at h
        cases hdump : dump r.mods with
        | none =>
          rw [hdump] at h
          cases h
          rfl
        | some Data =>
          rw [hdump] at h
          cases h
          rfl

/-- A client is a member of `mClients` exactly while its thread runs the phases between
`InsertClient` and `RemoveClient`. -/
def Registered (s : Session) : Prop := s.registered = s.phase.isActive

theorem Registered.unregistered (h : s.Registered) : s.Unregistered := by
  intro hended
  unfold Registered at h
  cases hphase : s.phase with
  | ended exception => rw [h, hphase]; rfl
  | _ => simp [hphase, SessionPhase.hasEnded] at hended

theorem parseThrows_of_done {r : SyncRead} (h : r.Data = [] ∨ r.Data = ascii "Done") :
    parseThrows folder dump r = false := by
  unfold parseThrows
  rcases h with h | h
  · rw [h]
  · rw [h]
    rfl

/-- An iteration of `SyncResources` ends the thread exactly when `Parse` throws, and goes on in
a phase between `InsertClient` and `RemoveClient` otherwise. -/
theorem syncStep_cases {r : SyncRead} (h : s.syncStep folder dump r = some t)
    (hphase : s.phase = .syncing) :
    t.registered = s.registered ∧
      if !s.disconnected && parseThrows folder dump r then t.phase = .ended true
      else t.phase.isActive = true := by
  unfold syncStep at h
  by_cases hdisconnected : s.disconnected = true
  · rw [if_pos hdisconnected] at h
    cases h
    simp [hdisconnected, SessionPhase.isActive]
  · rw [if_neg hdisconnected] at h
    by_cases hempty : r.Data = []
    · rw [if_pos hempty] at h
      cases h
      simp [parseThrows_of_done (Or.inl hempty), SessionPhase.isActive]
    · rw [if_neg hempty] at h
      by_cases hDone : r.Data = ascii "Done"
      · rw [if_pos hDone] at h
        cases h
        simp [parseThrows_of_done (Or.inr hDone), SessionPhase.isActive]
      · rw [if_neg hDone] at h
        obtain ⟨p, hp, rfl⟩ := Option.map_eq_some_iff.mp h
        rw [← parse_threw hp]
        cases hthrew : p.threw with
        | true => simp [hdisconnected]
        | false => simp [hphase, SessionPhase.isActive]

theorem receiveStep_cases (s : Session) (Data : Bytes) (result : ParserResult)
    (hphase : s.phase = .receiving) :
    (s.receiveStep Data result).registered = s.registered ∧
      (s.receiveStep Data result).phase.isActive = true := by
  unfold receiveStep
  by_cases hdisconnected : s.disconnected = true
  · rw [if_pos hdisconnected]
    exact ⟨rfl, rfl⟩
  · rw [if_neg hdisconnected]
    by_cases hempty : Data = []
    · rw [if_pos hempty]
      exact ⟨rfl, rfl⟩
    · rw [if_neg hempty]
      cases result with
      | returned disconnected => exact ⟨rfl, by rw [hphase]; rfl⟩
      | threw => exact ⟨rfl, rfl⟩

theorem registered_of_isActive (hregistered : s.registered = true)
    (hactive : s.phase.isActive = true) : s.Registered := by
  rw [Registered, hregistered, hactive]

theorem Registered.registered_eq_true (h : s.Registered) {phase : SessionPhase}
    (hphase : s.phase = phase) (hactive : phase.isActive = true) : s.registered = true := by
  rw [h, hphase, hactive]

theorem handlesQuietly_syncRead {r : SyncRead} (hphase : s.phase = .syncing) :
    s.handlesQuietly folder dump (.syncRead r) =
      !(!s.disconnected && parseThrows folder dump r) := by
  simp [Session.handlesQuietly, hphase]

theorem Registered.step (h : s.Registered) (hquiet : s.handlesQuietly folder dump a = true)
    (hstep : s.step folder dump a = some t) : t.Registered := by
  cases a with
  | insertClient =>
    obtain ⟨-, hstep⟩ := Option.ite_none_right_eq_some.mp hstep
    cases hstep
    rfl
  | tcpClient sent =>
    obtain ⟨hphase, hstep⟩ := Option.ite_none_right_eq_some.mp hstep
    split_ifs at hstep
    · cases hstep
      rfl
    · cases hstep
      exact registered_of_isActive (h.registered_eq_true hphase rfl) rfl
  | syncRead r =>
    obtain ⟨hphase, hstep⟩ := Option.ite_none_right_eq_some.mp hstep
    obtain ⟨hregistered, hcases⟩ := syncStep_cases hstep hphase
    have hthrows : (!s.disconnected && parseThrows folder dump r) = false := by
      simpa only [handlesQuietly_syncRead hphase, Bool.not_eq_true'] using hquiet
    rw [hthrows, if_neg Bool.false_ne_true] at hcases
    exact registered_of_isActive (hregistered.trans (h.registered_eq_true hphase rfl)) hcases
  | onConnect sent =>
    obtain ⟨hphase, hstep⟩ := Option.ite_none_right_eq_some.mp hstep
    cases hstep
    exact registered_of_isActive (h.registered_eq_true hphase rfl) rfl
  | receive Data result =>
    obtain ⟨hphase, hstep⟩ := Option.ite_none_right_eq_some.mp hstep
    cases hstep
    obtain ⟨hregistered, hactive⟩ := receiveStep_cases s Data result hphase
    exact registered_of_isActive (hregistered.trans (h.registered_eq_true hphase rfl)) hactive
  | onDisconnect =>
    obtain ⟨-, hstep⟩ := Option.ite_none_right_eq_some.mp hstep
    cases hstep
    rfl
  | disconnect =>
    cases hstep
    exact h

theorem Registered.handlesQuietly (h : s.Registered) (hstep : s.step folder dump a = some t)
    (ht : t.Unregistered) : s.handlesQuietly folder dump a = true := by
  cases a with
  | syncRead r =>
    obtain ⟨hphase, hstep⟩ := Option.ite_none_right_eq_some.mp hstep
    obtain ⟨hregistered, hcases⟩ := syncStep_cases hstep hphase
    cases hthrows : (!s.disconnected && parseThrows folder dump r) with
    | true =>
      rw [hthrows, if_pos rfl] at hcases
      have hleft : t.registered = false := ht (by rw [hcases]; rfl)
      rw [hregistered, h.registered_eq_true hphase rfl] at hleft
      cases hleft
    | false => rw [handlesQuietly_syncRead hphase, hthrows, Bool.not_false]
  | _ => rfl

/-- A client whose thread has ended has left `mClients`, in every state of an execution, if and
only if `SyncResources` does not handle a packet that makes `Parse` throw. -/
theorem unregistered_iff_handlesQuietly (folder : ResourceFolder)
    (dump : List TMod → Option Bytes) (as : List SessionAction) :
    (∀ s, Execution.Visits (step folder dump) start as s → s.Unregistered) ↔
      Execution.Along (step folder dump) (fun s a => s.handlesQuietly folder dump a = true)
        start as :=
  Execution.always_iff_along (I := Registered) (fun _ hs => hs.unregistered)
    (fun _ _ _ hs hquiet hstep => hs.step hquiet hstep)
    (fun _ _ _ hs hstep ht => hs.handlesQuietly hstep ht) rfl

/-- A file system in which every path is that of a directory. -/
def onlyDirectories : FileSystem where
  status _ := .other
  dots_not_regular _ _ _ := rfl

/-- A request for the parent directory: `exists` finds it, and `file_size` throws. -/
def requestParent : SyncRead := ⟨ascii "f..", [], onlyDirectories, ⟨true, true, []⟩⟩

theorem not_unregistered_after_directory :
    ∃ s, Execution.run (step ⟨ascii "Resources", by decide⟩ fun _ => some (ascii "[]")) start
        [.insertClient, .tcpClient true, .syncRead requestParent] = some s ∧
      s.phase = .ended true ∧ ¬ s.Unregistered :=
  ⟨⟨.ended true, false, true⟩, by decide, rfl, by simp [Unregistered, SessionPhase.hasEnded]⟩

end Session
end BeamMP
