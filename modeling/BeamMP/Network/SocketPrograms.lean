import BeamMP.Foundation.Programs
import BeamMP.Network.Frames
import BeamMP.Network.SendFile

/-!
# The TCP socket of a client

`Disconnect`, `TCPSend`, `TCPRcv`, `ClientKick`, `SendFileToClient` and `Looper` as
programs, for one client whose socket any number of threads use. A section is one
access to a field of the client, or one operation on the socket, whose result the
system decides. A loop without an end in the source gets a number of rounds.
-/
namespace BeamMP
open Programs

inductive EDisconnectState
  | connected
  | disconnecting
  | disconnected
deriving DecidableEq

inductive SocketOp
  | write
  | read
  | sendfile
deriving DecidableEq

/-- The functions the protocol uses to do TCP IO. -/
inductive SocketCall
  | tcpSend (IsSync : Bool)
  | tcpRcv
  | sendFileToClient
deriving DecidableEq

/-- An operation on the socket carries whether its call started late, which is after a
`Disconnect` returned true. -/
inductive SocketSection
  | enter (call : SocketCall)
  | compareExchange
  | isOpen
  | shutdown
  | close
  | store
  | returnTrue
  | isDisconnected
  | isSyncing (late : Bool)
  | isSynced
  | nameEmpty
  | expired
  | enqueuePacket (Data : Bytes)
  | missedPacketQueueSize
  | popPacket
  | clearPackets
  | write (late : Bool) (ToSend : Bytes)
  | read (late : Bool) (n : ℕ)
  | openFile (late : Bool) (Size : ℕ)
  | nativeHandle
  | sendfile (late : Bool) (socket : Bool) (count : ℕ)

abbrev SocketSection.Answer : SocketSection → Type
  | .enter _ | .compareExchange | .isOpen | .isDisconnected | .isSyncing _ | .isSynced
  | .nameEmpty | .expired | .write _ _ | .openFile _ _ | .nativeHandle => Bool
  | .shutdown | .close | .store | .returnTrue | .enqueuePacket _ | .clearPackets => Unit
  | .missedPacketQueueSize => ℕ
  | .popPacket | .read _ _ => Option Bytes
  | .sendfile _ _ _ => SendfileResult

abbrev SocketProgram := Program SocketSection.Answer

namespace SocketProgram

def locked (k : SocketSection) : SocketProgram k.Answer := .perform k

def enter (call : SocketCall) : SocketProgram Bool := locked (.enter call)
def compareExchange : SocketProgram Bool := locked .compareExchange
def isOpen : SocketProgram Bool := locked .isOpen
def shutdown : SocketProgram Unit := locked .shutdown
def close : SocketProgram Unit := locked .close
def store : SocketProgram Unit := locked .store
def returnTrue : SocketProgram Unit := locked .returnTrue
def isDisconnected : SocketProgram Bool := locked .isDisconnected
def isSyncing (late : Bool) : SocketProgram Bool := locked (.isSyncing late)
def isSynced : SocketProgram Bool := locked .isSynced
def nameEmpty : SocketProgram Bool := locked .nameEmpty
def expired : SocketProgram Bool := locked .expired
def enqueuePacket (Data : Bytes) : SocketProgram Unit := locked (.enqueuePacket Data)
def missedPacketQueueSize : SocketProgram ℕ := locked .missedPacketQueueSize
def popPacket : SocketProgram (Option Bytes) := locked .popPacket
def clearPackets : SocketProgram Unit := locked .clearPackets
def write (late : Bool) (ToSend : Bytes) : SocketProgram Bool := locked (.write late ToSend)
def read (late : Bool) (n : ℕ) : SocketProgram (Option Bytes) := locked (.read late n)
def openFile (late : Bool) (Size : ℕ) : SocketProgram Bool := locked (.openFile late Size)
def nativeHandle : SocketProgram Bool := locked .nativeHandle
def sendfile (late socket : Bool) (count : ℕ) : SocketProgram SendfileResult :=
  locked (.sendfile late socket count)

/-- `shutdown` and `close` of a socket that is open. -/
def closeSocket (open_ : Bool) : SocketProgram Unit :=
  if open_ then do
    shutdown
    close
  else pure ()

/-- What the winner of the test does in `Disconnect`. -/
def disconnectWinner : SocketProgram Bool := do
  let open_ ← isOpen
  closeSocket open_
  store
  returnTrue
  pure true

/-- `Disconnect`. A call that loses the test returns false in the same section. -/
def disconnect : SocketProgram Bool := do
  let won ← compareExchange
  if won then disconnectWinner else pure false

def disconnectClient : SocketProgram Unit := do
  let _ ← disconnect
  pure ()

/-- What `TCPSend` does once it knows what becomes of the packet. -/
def tcpSendAction (late : Bool) : SendAction → SocketProgram Bool
  | .enqueue Data => do
    enqueuePacket Data
    pure true
  | .drop => pure true
  | .write ToSend => do
    let written ← write late ToSend
    if written then pure true
    else do
      disconnectClient
      pure false

/-- The test of `IsSyncing`, which `TCPSend` makes only for `!IsSync`. -/
def testSyncing (late IsSync : Bool) : SocketProgram Bool :=
  if IsSync then pure false else isSyncing late

def tcpSend (Data : Bytes) (IsSync : Bool) : SocketProgram Bool := do
  let late ← enter (.tcpSend IsSync)
  let syncing ← testSyncing late IsSync
  tcpSendAction late (BeamMP.tcpSend syncing Data IsSync)

def clientKick (R : Bytes) : SocketProgram Unit := do
  let _ ← tcpSend (ascii "K" ++ R) false
  disconnectClient

variable (z : Zlib)

/-- The second read of `TCPRcv`, which is left out for an empty packet with a timeout. -/
def readData (late WithTimeout : Bool) (Header : ℕ) : SocketProgram Bytes :=
  if WithTimeout && Header = 0 then pure (decodeData z [])
  else do
    let Data ← read late Header
    pure ((Data.map (decodeData z)).getD [])

def maxHeaderSize (isUnauthenticated : Bool) : ℤ :=
  if isUnauthenticated then 4096 else (100 * MB : ℕ)

/-- `TCPRcv` once it has read the header. -/
def receive (late WithTimeout : Bool) (HeaderData : Bytes) : SocketProgram Bytes :=
  let Header := headerValue HeaderData
  if Header < 0 then do
    clientKick (ascii "Invalid packet - header negative")
    pure []
  else do
    let isUnauthenticated ← nameEmpty
    if Header < maxHeaderSize isUnauthenticated then readData z late WithTimeout Header.toNat
    else do
      clientKick (ascii "Header size limit exceeded")
      pure []

def tcpRcv (WithTimeout : Bool) : SocketProgram Bytes := do
  let late ← enter .tcpRcv
  let disconnected ← isDisconnected
  if disconnected then pure []
  else do
    let HeaderData ← read late 4
    match HeaderData with
    | none => pure []
    | some HeaderData => receive z late WithTimeout HeaderData

/-- The loop of `SendFileToClient` for a number of rounds. -/
def sendfileLoop (late socket : Bool) (Size : ℕ) : ℕ → ℕ → SocketProgram Unit
  | 0, _ => pure ()
  | rounds + 1, TotalSent =>
    if TotalSent < Size then do
      let SentNow ← sendfile late socket (Size - TotalSent)
      match SentNow with
      | .sent n =>
        if 0 < n then sendfileLoop late socket Size rounds (TotalSent + n) else disconnectClient
      | .eintr | .eagain => sendfileLoop late socket Size rounds TotalSent
      | .error => disconnectClient
    else pure ()

def sendFileToClient (Size rounds : ℕ) : SocketProgram Unit := do
  let late ← enter .sendFileToClient
  let opened ← openFile late Size
  if opened then do
    let socket ← nativeHandle
    sendfileLoop late socket Size rounds 0
  else pure ()

/-- The inner loop of `Looper`, which sends the packets of the queue. -/
def sendMissedPackets : ℕ → SocketProgram Unit
  | 0 => pure ()
  | rounds + 1 => do
    let size ← missedPacketQueueSize
    if 0 < size then do
      let QData ← popPacket
      match QData with
      | none => pure ()
      | some QData => do
        let sent ← tcpSend QData true
        if sent then sendMissedPackets rounds
        else do
          disconnectClient
          clearPackets
    else pure ()

/-- The condition under which `Looper` sends the packets of the queue. -/
def hasMissedPackets : SocketProgram Bool := do
  let syncing ← isSyncing false
  if syncing then pure false
  else do
    let synced ← isSynced
    if synced then do
      let size ← missedPacketQueueSize
      pure (size ≠ 0)
    else pure false

def looper : ℕ → SocketProgram Unit
  | 0 => pure ()
  | rounds + 1 => do
    let gone ← expired
    if gone then pure ()
    else do
      let disconnected ← isDisconnected
      if disconnected then pure ()
      else do
        let missed ← hasMissedPackets
        if missed then sendMissedPackets rounds else pure ()
        looper rounds

end SocketProgram

/-- What a thread may run on the client. -/
inductive SocketTask
  | disconnect
  | tcpSend (Data : Bytes) (IsSync : Bool)
  | tcpRcv (WithTimeout : Bool)
  | sendFileToClient (Size rounds : ℕ)
  | looper (rounds : ℕ)
  | clientKick (R : Bytes)

def SocketTask.program (z : Zlib) : SocketTask → SocketProgram Unit
  | .disconnect => SocketProgram.disconnectClient
  | .tcpSend Data IsSync => do
    let _ ← SocketProgram.tcpSend Data IsSync
    pure ()
  | .tcpRcv WithTimeout => do
    let _ ← SocketProgram.tcpRcv z WithTimeout
    pure ()
  | .sendFileToClient Size rounds => SocketProgram.sendFileToClient Size rounds
  | .looper rounds => SocketProgram.looper rounds
  | .clientKick R => SocketProgram.clientKick R

/-- The fields of the client that other code changes as well. -/
structure SocketClient where
  mName : Bytes
  mIsSyncing : Bool
  mIsSynced : Bool
  mPacketsSync : List Bytes
  expired : Bool

/-- The client and its socket. The last four fields are history: the calls of `Disconnect`
that have won the test and not returned, the results of those that have returned, those
that have closed the socket, and the operations on the socket. -/
structure SocketState (τ : Type) where
  mDisconnectState : EDisconnectState
  isOpen : Bool
  client : SocketClient
  underWay : List τ
  returned : List (τ × Bool)
  closedBy : List τ
  ops : List (SocketOp × Bool)

/-- The results of the system. -/
structure SocketIO where
  write : Bool
  read : Option Bytes
  opens : Bool
  sendfile : SendfileResult

namespace SocketState

variable {τ : Type}

/-- A new client with an open socket. -/
def start (τ : Type) (client : SocketClient) : SocketState τ where
  mDisconnectState := .connected
  isOpen := true
  client := client
  underWay := []
  returned := []
  closedBy := []
  ops := []

def hasReturnedTrue (s : SocketState τ) : Bool := s.returned.any (·.2)

def record (s : SocketState τ) (op : SocketOp) (late : Bool) : SocketState τ :=
  { s with ops := s.ops ++ [(op, late)] }

variable [DecidableEq τ]

/-- A section of a thread. An operation on a socket that is closed fails; `sendfile` gets the
handle the socket had when the call asked for it. -/
def exec (t : τ) (io : SocketIO) : (k : SocketSection) → SocketState τ → k.Answer × SocketState τ
  | .enter _, s => (s.hasReturnedTrue, s)
  | .compareExchange, s =>
    if s.mDisconnectState = .connected then
      (true, { s with mDisconnectState := .disconnecting, underWay := t :: s.underWay })
    else (false, { s with returned := s.returned ++ [(t, false)] })
  | .isOpen, s => (s.isOpen, s)
  | .shutdown, s => ((), s)
  | .close, s => ((), { s with isOpen := false, closedBy := s.closedBy ++ [t] })
  | .store, s => ((), { s with mDisconnectState := .disconnected })
  | .returnTrue, s =>
    ((), { s with underWay := s.underWay.erase t, returned := s.returned ++ [(t, true)] })
  | .isDisconnected, s => (s.mDisconnectState ≠ .connected, s)
  | .isSyncing _, s => (s.client.mIsSyncing, s)
  | .isSynced, s => (s.client.mIsSynced, s)
  | .nameEmpty, s => (s.client.mName = [], s)
  | .expired, s => (s.client.expired, s)
  | .enqueuePacket Data, s =>
    ((), { s with client := { s.client with mPacketsSync := s.client.mPacketsSync ++ [Data] } })
  | .missedPacketQueueSize, s => (s.client.mPacketsSync.length, s)
  | .popPacket, s =>
    (s.client.mPacketsSync.head?,
      { s with client := { s.client with mPacketsSync := s.client.mPacketsSync.tail } })
  | .clearPackets, s => ((), { s with client := { s.client with mPacketsSync := [] } })
  | .write late _, s => (s.isOpen && io.write, s.record .write late)
  | .read late n, s =>
    (if s.isOpen then io.read.filter (·.length = n) else none, s.record .read late)
  | .openFile _ _, s => (io.opens, s)
  | .nativeHandle, s => (s.isOpen, s)
  | .sendfile late socket count, s =>
    (if socket then
        match io.sendfile with
        | .sent n => .sent (min n count)
        | r => r
      else .error,
      s.record .sendfile late)

end SocketState

/-- `update` is a change of the client by code outside the modelled functions. -/
inductive SocketStep (τ : Type)
  | run (t : τ) (task : SocketTask)
  | advance (t : τ) (io : SocketIO)
  | update (client : SocketClient)

abbrev SocketThreads (τ : Type) := Threads SocketSection.Answer (SocketState τ) τ

namespace SocketThreads

variable {τ : Type}

def start (τ : Type) (client : SocketClient) : SocketThreads τ :=
  .idle SocketSection.Answer τ (SocketState.start τ client)

variable [DecidableEq τ] (z : Zlib)

def step (s : SocketThreads τ) : SocketStep τ → Option (SocketThreads τ)
  | .run t task => Threads.start s t (task.program z)
  | .advance t io => s.advance SocketState.exec t io
  | .update client => some { s with shared := { s.shared with client := client } }

end SocketThreads
end BeamMP
