import BeamMP.Network.SocketPrograms

/-!
# The end of a client's socket

`Disconnect` tests and sets the disconnect state in one step, so that one call wins and
closes the socket. `TCPRcv` asks `IsDisconnected` before it touches the socket, and
`TCPSend` and `SendFileToClient` do not.
-/
namespace BeamMP
open Programs

namespace SocketState

variable {τ : Type}

def Dead (s : SocketState τ) : Prop := s.mDisconnectState ≠ .connected

/-- A client that is disconnected has a dead socket. -/
structure SocketDead (s : SocketState τ) : Prop where
  returns_true_once : (s.returned.filter (·.2)).length ≤ 1
  closes_once : s.closedBy.length ≤ 1
  one_winner : s.returned ≠ [] → s.underWay = [] →
    ∃ t, s.returned.filter (·.2) = [(t, true)] ∧ s.closedBy = [t]
  no_late_op : ∀ op ∈ s.ops, op.2 = false

/-- Where the single disconnect stands: nobody has asked for it, its winner is at work on
the socket, or it is done. -/
inductive Phase (s : SocketState τ) : Prop
  | connected (hstate : s.mDisconnectState = .connected) (hopen : s.isOpen = true)
      (hunderWay : s.underWay = []) (hreturned : s.returned = []) (hclosed : s.closedBy = [])
  | closing (t : τ) (hdead : s.Dead) (hunderWay : s.underWay = [t])
      (hreturned : s.returned.filter (·.2) = [])
      (hclosed : s.closedBy = [] ∨ s.closedBy = [t])
  | closed (t : τ) (hdead : s.Dead) (hunderWay : s.underWay = [])
      (hreturned : s.returned.filter (·.2) = [(t, true)]) (hclosed : s.closedBy = [t])

/-- A section that does not let a late call get to the socket: a `TCPSend` for the queue is
not called late, a late one finds the client syncing, and a late `SendFileToClient` finds no
file or an empty one. -/
def noLateSend (io : SocketIO) : SocketSection → SocketState τ → Prop
  | .enter (.tcpSend true), s => s.hasReturnedTrue = false
  | .isSyncing late, s => late = true → s.client.mIsSyncing = true
  | .openFile late Size, _ => late = true → io.opens = false ∨ Size = 0
  | _, _ => True

instance (io : SocketIO) (s : SocketState τ) : ∀ k, Decidable (noLateSend io k s)
  | .enter (.tcpSend true) => inferInstanceAs (Decidable (s.hasReturnedTrue = false))
  | .isSyncing late => inferInstanceAs (Decidable (late = true → s.client.mIsSyncing = true))
  | .openFile late Size => inferInstanceAs (Decidable (late = true → io.opens = false ∨ Size = 0))
  | .enter (.tcpSend false) | .enter .tcpRcv | .enter .sendFileToClient | .compareExchange
  | .isOpen | .shutdown | .close | .store | .returnTrue | .isDisconnected | .isSynced
  | .nameEmpty | .expired | .enqueuePacket _ | .missedPacketQueueSize | .popPacket
  | .clearPackets | .write _ _ | .read _ _ | .nativeHandle | .sendfile _ _ _ => isTrue trivial

theorem phase_start (client : SocketClient) : (start τ client).Phase :=
  .connected rfl rfl rfl rfl rfl

theorem Phase.socketDead {s : SocketState τ} (h : s.Phase)
    (hlate : ∀ op ∈ s.ops, op.2 = false) : s.SocketDead := by
  refine ⟨?_, ?_, ?_, hlate⟩
  · cases h with
    | connected _ _ _ hreturned _ => simp [hreturned]
    | closing t _ _ hreturned _ => simp [hreturned]
    | closed t _ _ hreturned _ => simp [hreturned]
  · cases h with
    | connected _ _ _ _ hclosed => simp [hclosed]
    | closing t _ _ _ hclosed => rcases hclosed with hclosed | hclosed <;> simp [hclosed]
    | closed t _ _ _ hclosed => simp [hclosed]
  · intro hne hunderWay
    cases h with
    | connected _ _ _ hreturned _ => exact absurd hreturned hne
    | closing t _ hself _ _ => rw [hself] at hunderWay; cases hunderWay
    | closed t _ _ hreturned hclosed => exact ⟨t, hreturned, hclosed⟩

theorem Phase.dead_of_hasReturnedTrue {s : SocketState τ} (h : s.Phase)
    (htrue : s.hasReturnedTrue = true) : s.Dead := by
  cases h with
  | connected _ _ _ hreturned _ => simp [hasReturnedTrue, hreturned] at htrue
  | closing t hdead _ _ _ => exact hdead
  | closed t hdead _ _ _ => exact hdead

/-- What `Phase` and the other threads see of the socket. -/
structure SameSocket (s s' : SocketState τ) : Prop where
  state : s'.mDisconnectState = s.mDisconnectState
  isOpen : s'.isOpen = s.isOpen
  underWay : s'.underWay = s.underWay
  returned : s'.returned = s.returned
  closedBy : s'.closedBy = s.closedBy

theorem Phase.of_same {s s' : SocketState τ} (h : s.Phase) (hsame : SameSocket s s') :
    s'.Phase := by
  obtain ⟨hs, ho, hu, hr, hc⟩ := hsame
  cases h with
  | connected h₁ h₂ h₃ h₄ h₅ =>
    exact .connected (hs.trans h₁) (ho.trans h₂) (hu.trans h₃) (hr.trans h₄) (hc.trans h₅)
  | closing t h₁ h₂ h₃ h₄ =>
    refine .closing t (fun h => h₁ (hs.symm.trans h)) (hu.trans h₂) (by rw [hr, h₃]) ?_
    rwa [hc]
  | closed t h₁ h₂ h₃ h₄ =>
    exact .closed t (fun h => h₁ (hs.symm.trans h)) (hu.trans h₂) (by rw [hr, h₃])
      (hc.trans h₄)

end SocketState

/-- The sections that leave the socket as it is, apart from its history of operations. -/
def SocketSection.quiet : SocketSection → Bool
  | .compareExchange | .close | .store | .returnTrue => false
  | _ => true

/-- The section is no operation on the socket of a call that started late. -/
def SocketSection.timely : SocketSection → Prop
  | .write late _ | .read late _ | .sendfile late _ _ => late = false
  | _ => True

namespace DeadSocket
open SocketState SocketProgram

variable {τ : Type} (P : Prop)

/-- What a thread relies on: a dead client stays dead, and while the thread is the winner
of the test the socket is its own. -/
def rely (t : τ) (s s' : SocketState τ) : Prop :=
  (s.Dead → s'.Dead) ∧
    (s.Dead → s.underWay = [t] →
      s'.underWay = [t] ∧ s'.isOpen = s.isOpen ∧ s'.closedBy = s.closedBy)

/-- The invariant, where the operations count for those who run under the guard. -/
structure Kept (s : SocketState τ) : Prop where
  phase : s.Phase
  timely : P → ∀ op ∈ s.ops, op.2 = false

def guar (t : τ) (s s' : SocketState τ) : Prop :=
  (Kept P s → Kept P s') ∧ ∀ u, u ≠ t → rely u s s'

/-- The states in which a thread executes a section. -/
def allowed (io : SocketIO) (k : SocketSection) (s : SocketState τ) : Prop :=
  Kept P s ∧ (P → noLateSend io k s)

structure Won (t : τ) (s : SocketState τ) : Prop where
  dead : s.Dead
  underWay : s.underWay = [t]
  isOpen : s.isOpen = true
  closedBy : s.closedBy = []

structure Shut (t : τ) (s : SocketState τ) : Prop where
  dead : s.Dead
  underWay : s.underWay = [t]
  closedBy : s.closedBy = [t]

variable {P} {t : τ}

theorem won_stable : Stable (rely t) (Won t) := by
  intro s s' h hrely
  obtain ⟨hunderWay, hopen, hclosed⟩ := hrely.2 h.dead h.underWay
  exact ⟨hrely.1 h.dead, hunderWay, hopen.trans h.isOpen, hclosed.trans h.closedBy⟩

theorem shut_stable : Stable (rely t) (Shut t) := by
  intro s s' h hrely
  obtain ⟨hunderWay, -, hclosed⟩ := hrely.2 h.dead h.underWay
  exact ⟨hrely.1 h.dead, hunderWay, hclosed.trans h.closedBy⟩

/-- The winner may do with the socket what it likes, as long as the client stays dead. -/
theorem rely_of_winner {s s' : SocketState τ} (hunderWay : s.underWay = [t]) (hdead : s'.Dead)
    {u : τ} (hne : u ≠ t) : rely u s s' := by
  refine ⟨fun _ => hdead, fun _ hself => ?_⟩
  rw [hunderWay] at hself
  exact absurd (List.singleton_inj.mp hself).symm hne

theorem returned_of_winner {s : SocketState τ} (hphase : s.Phase) (hunderWay : s.underWay = [t]) :
    s.returned.filter (·.2) = [] := by
  cases hphase with
  | connected _ _ hnone _ _ => rw [hnone] at hunderWay; cases hunderWay
  | closing u _ _ hreturned _ => exact hreturned
  | closed u _ hnone _ _ => rw [hnone] at hunderWay; cases hunderWay

/-- The winner keeps the guarantee by a section after which it has closed the socket. -/
theorem guar_of_shut {s s' : SocketState τ} (hunderWay : s.underWay = [t]) (hshut : Shut t s')
    (hreturned : s'.returned = s.returned) (hops : s'.ops = s.ops) : guar P t s s' := by
  constructor
  · intro hkept
    have hnone : s'.returned.filter (·.2) = [] := by
      rw [hreturned]
      exact returned_of_winner hkept.phase hunderWay
    exact ⟨.closing t hshut.dead hshut.underWay hnone (Or.inr hshut.closedBy),
      hops ▸ hkept.timely⟩
  · exact fun u hne => rely_of_winner hunderWay hshut.dead hne

variable [DecidableEq τ] (P t)

abbrev Keeps {α : Type} (post : α → SocketState τ → Prop) (p : SocketProgram α)
    (pre : SocketState τ → Prop) : Prop :=
  Meets (SocketState.exec t) (allowed P) (rely t) (guar P t) post p pre

variable {P} {t}

theorem sameSocket_of_quiet {k : SocketSection} (hk : k.quiet = true) (io : SocketIO)
    (s : SocketState τ) : SameSocket s (SocketState.exec t io k s).2 := by
  cases k with
  | compareExchange | close | store | returnTrue => cases hk
  | _ => exact ⟨rfl, rfl, rfl, rfl, rfl⟩

theorem ops_of_timely {k : SocketSection} (hk : k.timely) (io : SocketIO) (s : SocketState τ)
    (h : ∀ op ∈ s.ops, op.2 = false) :
    ∀ op ∈ (SocketState.exec t io k s).2.ops, op.2 = false := by
  have happend : ∀ (op : SocketOp) (late : Bool), late = false →
      ∀ op' ∈ s.ops ++ [(op, late)], op'.2 = false := by
    intro op late hlate op' hmem
    rcases List.mem_append.mp hmem with hmem | hmem
    · exact h op' hmem
    · cases List.mem_singleton.mp hmem
      exact hlate
  cases k with
  | write late ToSend => exact happend .write late hk
  | read late n => exact happend .read late hk
  | sendfile late socket count => exact happend .sendfile late hk
  | compareExchange =>
    by_cases hs : s.mDisconnectState = .connected <;> simpa [SocketState.exec, hs] using h
  | _ => exact h

theorem guar_of_quiet {k : SocketSection} (hk : k.quiet = true) (htimely : P → k.timely)
    (io : SocketIO) (s : SocketState τ) : guar P t s (SocketState.exec t io k s).2 := by
  have hsame := sameSocket_of_quiet (t := t) hk io s
  constructor
  · intro h
    exact ⟨h.phase.of_same hsame, fun hP => ops_of_timely (htimely hP) io s (h.timely hP)⟩
  · intro u _
    refine ⟨fun hdead heq => hdead (hsame.state.symm.trans heq), fun _ hunderWay => ?_⟩
    exact ⟨hsame.underWay.trans hunderWay, hsame.isOpen, hsame.closedBy⟩

theorem keeps_locked {k : SocketSection} {pre : SocketState τ → Prop}
    {post : k.Answer → SocketState τ → Prop} (hstable : ∀ x, Stable (rely t) (post x))
    (h : ∀ io s, pre s → allowed P io k s →
      guar P t s (SocketState.exec t io k s).2 ∧
        post (SocketState.exec t io k s).1 (SocketState.exec t io k s).2) :
    Keeps P t post (locked k) pre :=
  meets_perform hstable h

theorem keeps_quiet {k : SocketSection} {pre : SocketState τ → Prop} {Q : k.Answer → Prop}
    (hk : k.quiet = true) (htimely : P → k.timely)
    (h : ∀ io s, pre s → allowed P io k s → Q (SocketState.exec t io k s).1) :
    Keeps P t (fun x _ => Q x) (locked k) pre := by
  apply keeps_locked
  · exact fun _ _ _ hQ _ => hQ
  · exact fun io s hpre hallowed => ⟨guar_of_quiet hk htimely io s, h io s hpre hallowed⟩

/-- A program that a thread may run at any time. -/
abbrev Safe {α : Type} (P : Prop) (t : τ) (p : SocketProgram α) : Prop :=
  Keeps P t (fun _ _ => True) p (fun _ => True)

theorem safe_quiet {k : SocketSection} (hk : k.quiet = true) (htimely : P → k.timely) :
    Safe P t (locked k) :=
  keeps_quiet hk htimely fun _ _ _ _ => trivial

theorem safe_pure {α : Type} (a : α) : Safe P t (pure a : SocketProgram α) :=
  meets_pure fun _ _ => trivial

theorem keeps_compareExchange :
    Keeps P t (fun won s => won = true → Won t s) compareExchange (fun _ => True) := by
  apply keeps_locked (k := .compareExchange)
  · exact fun _ _ _ h hrely hwon => won_stable _ _ (h hwon) hrely
  · intro io s _ hallowed
    by_cases hstate : s.mDisconnectState = .connected
    · have halive : ¬ s.Dead := fun h => h hstate
      cases hallowed.1.phase with
      | closing u hdead _ _ _ => exact absurd hdead halive
      | closed u hdead _ _ _ => exact absurd hdead halive
      | connected _ hopen hunderWay hreturned hclosed =>
        have hdead : (SocketState.exec t io .compareExchange s).2.Dead := by
          simp [SocketState.exec, hstate, SocketState.Dead]
        refine ⟨⟨fun h => ⟨?_, fun hP => ?_⟩, fun u _ => ⟨fun _ => hdead, ?_⟩⟩, fun _ => ?_⟩
        · refine .closing t hdead ?_ ?_ (Or.inl ?_) <;>
            simp [SocketState.exec, hstate, hunderWay, hreturned, hclosed]
        · simpa [SocketState.exec, hstate] using h.timely hP
        · exact fun h => absurd h halive
        · refine ⟨hdead, ?_, ?_, ?_⟩ <;>
            simp [SocketState.exec, hstate, hunderWay, hopen, hclosed]
    · have hexec : SocketState.exec t io .compareExchange s =
          (false, { s with returned := s.returned ++ [(t, false)] }) := by
        simp [SocketState.exec, hstate]
      rw [hexec]
      refine ⟨⟨fun h => ⟨?_, h.timely⟩, fun u _ => ⟨fun h => h, ?_⟩⟩, fun h => by cases h⟩
      · cases h.phase with
        | connected halive _ _ _ _ => exact absurd halive hstate
        | closing u hdead hunderWay hreturned hclosed =>
          exact .closing u hdead hunderWay (by simpa using hreturned) hclosed
        | closed u hdead hunderWay hreturned hclosed =>
          exact .closed u hdead hunderWay (by simpa using hreturned) hclosed
      · exact fun _ hunderWay => ⟨hunderWay, rfl, rfl⟩

theorem keeps_isOpen : Keeps P t (fun open_ s => open_ = true ∧ Won t s) isOpen (Won t) := by
  apply keeps_locked (k := .isOpen)
  · exact fun _ s s' h hrely => ⟨h.1, won_stable s s' h.2 hrely⟩
  · exact fun io s h _ =>
      ⟨guar_of_quiet (k := .isOpen) rfl (fun _ => trivial) io s, h.isOpen, h⟩

theorem keeps_shutdown : Keeps P t (fun _ => Won t) shutdown (Won t) := by
  apply keeps_locked (k := .shutdown)
  · exact fun _ => won_stable
  · exact fun io s h _ => ⟨guar_of_quiet (k := .shutdown) rfl (fun _ => trivial) io s, h⟩

theorem keeps_close : Keeps P t (fun _ => Shut t) close (Won t) := by
  apply keeps_locked (k := .close)
  · exact fun _ => shut_stable
  · intro io s h _
    have hclosed : s.closedBy ++ [t] = [t] := by rw [h.closedBy, List.nil_append]
    have hshut : Shut t (SocketState.exec t io .close s).2 := ⟨h.dead, h.underWay, hclosed⟩
    exact ⟨guar_of_shut h.underWay hshut rfl rfl, hshut⟩

theorem keeps_store : Keeps P t (fun _ => Shut t) store (Shut t) := by
  apply keeps_locked (k := .store)
  · exact fun _ => shut_stable
  · intro io s h _
    have hdead : (SocketState.exec t io .store s).2.Dead := by
      simp [SocketState.exec, SocketState.Dead]
    have hshut : Shut t (SocketState.exec t io .store s).2 := ⟨hdead, h.underWay, h.closedBy⟩
    exact ⟨guar_of_shut h.underWay hshut rfl rfl, hshut⟩

theorem keeps_returnTrue : Keeps P t (fun _ _ => True) returnTrue (Shut t) := by
  apply keeps_locked (k := .returnTrue)
  · exact fun _ _ _ _ _ => trivial
  · intro io s h _
    have hdead : (SocketState.exec t io .returnTrue s).2.Dead := h.dead
    refine ⟨⟨fun hkept => ⟨?_, hkept.timely⟩, fun u hne => ?_⟩, trivial⟩
    · have hreturned := returned_of_winner hkept.phase h.underWay
      refine .closed t hdead ?_ ?_ h.closedBy
      · simp [SocketState.exec, h.underWay]
      · simp [SocketState.exec, hreturned]
    · exact rely_of_winner h.underWay hdead hne

theorem safe_disconnect : Safe P t disconnect := by
  apply keeps_compareExchange.bind
  intro won
  cases won with
  | false => exact meets_pure fun _ _ => trivial
  | true =>
    have hwinner : Keeps P t (fun _ _ => True) disconnectWinner (Won t) := by
      apply keeps_isOpen.bind
      intro open_
      cases open_ with
      | false =>
        have hnone : Keeps P t (fun _ _ => True) (do store; returnTrue; pure true)
            (fun _ => False) := meets_of_fact fun h => h.elim
        exact hnone.mono (fun _ h => by cases h.1) (fun _ _ h => h)
      | true =>
        have hclose : Keeps P t (fun _ => Shut t) (closeSocket true) (Won t) :=
          keeps_shutdown.bind fun _ => keeps_close
        apply (hclose.mono (fun _ h => h.2) (fun _ _ h => h)).bind
        intro _
        apply keeps_store.bind
        intro _
        apply keeps_returnTrue.bind
        exact fun _ => meets_pure fun _ _ => trivial
    exact hwinner.mono (fun _ h => h rfl) (fun _ _ h => h)

theorem safe_disconnectClient : Safe P t disconnectClient :=
  safe_disconnect.bind fun _ => safe_pure ()

/-- A late `TCPSend` for the queue is ruled out when it starts. -/
theorem keeps_enter_tcpSend (IsSync : Bool) :
    Keeps P t (fun late _ => IsSync = true → P → late = false) (enter (.tcpSend IsSync))
      (fun _ => True) := by
  apply keeps_quiet (k := .enter (.tcpSend IsSync)) rfl fun _ => trivial
  intro io s _ hallowed hsync hP
  subst hsync
  exact hallowed.2 hP

theorem keeps_testSyncing {late IsSync : Bool} (h : IsSync = true → P → late = false) :
    Keeps P t (fun syncing _ => (!IsSync && syncing) = false → P → late = false)
      (testSyncing late IsSync) (fun _ => True) := by
  cases IsSync with
  | true => exact meets_pure fun _ _ _ => h rfl
  | false =>
    apply keeps_quiet (k := .isSyncing late) rfl fun _ => trivial
    intro io s _ hallowed hidle hP
    have hguard : late = true → s.client.mIsSyncing = true := hallowed.2 hP
    have hnot : s.client.mIsSyncing = false := by simpa [SocketState.exec] using hidle
    cases late with
    | false => rfl
    | true =>
      rw [hguard rfl] at hnot
      cases hnot

theorem safe_tcpSendAction {late : Bool} {a : SendAction}
    (h : ∀ ToSend, a = .write ToSend → P → late = false) : Safe P t (tcpSendAction late a) := by
  cases a with
  | enqueue Data =>
    have henqueue : Safe P t (enqueuePacket Data) := safe_quiet rfl fun _ => trivial
    exact henqueue.bind fun _ => safe_pure true
  | drop => exact safe_pure true
  | write ToSend =>
    have hwrite : Safe P t (write late ToSend) := safe_quiet rfl (h ToSend rfl)
    apply hwrite.bind
    intro written
    cases written with
    | true => exact safe_pure true
    | false => exact safe_disconnectClient.bind fun _ => safe_pure false

theorem safe_tcpSend (Data : Bytes) (IsSync : Bool) :
    Safe P t (SocketProgram.tcpSend Data IsSync) := by
  apply (keeps_enter_tcpSend IsSync).bind
  intro late
  apply meets_of_fact
  intro hsync
  apply (keeps_testSyncing hsync).bind
  intro syncing
  apply meets_of_fact
  intro hlate
  apply safe_tcpSendAction
  intro ToSend hwrite
  apply hlate
  by_contra hqueued
  have hqueued : (!IsSync && syncing) = true := by simpa using hqueued
  unfold BeamMP.tcpSend at hwrite
  rw [if_pos hqueued] at hwrite
  cases Data with
  | nil => cases hwrite
  | cons C rest =>
    dsimp only at hwrite
    split_ifs at hwrite

theorem safe_clientKick (R : Bytes) : Safe P t (clientKick R) :=
  (safe_tcpSend _ _).bind fun _ => safe_disconnectClient

theorem keeps_enter_tcpRcv :
    Keeps P t (fun late s => late = true → s.Dead) (enter .tcpRcv) (fun _ => True) := by
  apply keeps_locked (k := .enter .tcpRcv)
  · exact fun _ _ _ h hrely hlate => hrely.1 (h hlate)
  · intro io s _ hallowed
    refine ⟨guar_of_quiet (k := .enter .tcpRcv) rfl (fun _ => trivial) io s, ?_⟩
    exact hallowed.1.phase.dead_of_hasReturnedTrue

theorem keeps_isDisconnected {late : Bool} :
    Keeps P t (fun disconnected _ => disconnected = false → late = false) isDisconnected
      (fun s => late = true → s.Dead) := by
  apply keeps_quiet (k := .isDisconnected) rfl fun _ => trivial
  intro io s hdead _ halive
  have halive : s.mDisconnectState = .connected := by simpa [SocketState.exec] using halive
  cases late with
  | false => rfl
  | true => exact absurd halive (hdead rfl)

variable {z : Zlib}

theorem safe_readData {late : Bool} (hlate : late = false) (WithTimeout : Bool) (Header : ℕ) :
    Safe P t (readData z late WithTimeout Header) := by
  unfold readData
  split_ifs
  · exact safe_pure _
  · have hread : Safe P t (SocketProgram.read late Header) := safe_quiet rfl fun _ => hlate
    exact hread.bind fun _ => safe_pure _

theorem safe_receive {late : Bool} (hlate : late = false) (WithTimeout : Bool)
    (HeaderData : Bytes) : Safe P t (receive z late WithTimeout HeaderData) := by
  have hkicked : ∀ R, Safe P t (do clientKick R; pure ([] : Bytes)) := fun R =>
    (safe_clientKick R).bind fun _ => safe_pure _
  unfold receive
  dsimp only
  split_ifs with hnegative
  · exact hkicked _
  · have hname : Safe P t nameEmpty := safe_quiet rfl fun _ => trivial
    apply hname.bind
    intro isUnauthenticated
    split_ifs
    · exact safe_readData hlate _ _
    · exact hkicked _

theorem safe_tcpRcv (WithTimeout : Bool) : Safe P t (SocketProgram.tcpRcv z WithTimeout) := by
  apply keeps_enter_tcpRcv.bind
  intro late
  apply keeps_isDisconnected.bind
  intro disconnected
  apply meets_of_fact
  intro hlate
  cases disconnected with
  | true => exact safe_pure _
  | false =>
    have hread : Safe P t (SocketProgram.read late 4) := safe_quiet rfl fun _ => hlate rfl
    apply hread.bind
    intro HeaderData
    cases HeaderData with
    | none => exact safe_pure _
    | some HeaderData => exact safe_receive (hlate rfl) _ _

theorem safe_sendfileLoop {late socket : Bool} {Size : ℕ}
    (hlate : P → late = false ∨ Size = 0) (rounds TotalSent : ℕ) :
    Safe P t (SocketProgram.sendfileLoop late socket Size rounds TotalSent) := by
  induction rounds generalizing TotalSent with
  | zero => exact safe_pure _
  | succ rounds ih =>
    unfold SocketProgram.sendfileLoop
    split_ifs with hless
    · have hsend : Safe P t (sendfile late socket (Size - TotalSent)) := by
        apply safe_quiet rfl
        intro hP
        rcases hlate hP with hlate | hempty
        · exact hlate
        · omega
      apply hsend.bind
      intro SentNow
      cases SentNow with
      | sent n =>
        dsimp only
        split_ifs
        · exact ih _
        · exact safe_disconnectClient
      | eintr | eagain => exact ih _
      | error => exact safe_disconnectClient
    · exact safe_pure _

/-- A late `SendFileToClient` gets to the loop only with an empty file. -/
theorem keeps_openFile {late : Bool} {Size : ℕ} :
    Keeps P t (fun opened _ => opened = true → P → late = false ∨ Size = 0)
      (openFile late Size) (fun _ => True) := by
  apply keeps_quiet (k := .openFile late Size) rfl fun _ => trivial
  intro io s _ hallowed hopened hP
  have hguard : late = true → io.opens = false ∨ Size = 0 := hallowed.2 hP
  have hopens : io.opens = true := hopened
  cases late with
  | false => exact Or.inl rfl
  | true =>
    rcases hguard rfl with hfailed | hempty
    · rw [hopens] at hfailed
      cases hfailed
    · exact Or.inr hempty

theorem safe_sendFileToClient (Size rounds : ℕ) :
    Safe P t (SocketProgram.sendFileToClient Size rounds) := by
  have henter : Safe P t (enter .sendFileToClient) := safe_quiet rfl fun _ => trivial
  apply henter.bind
  intro late
  apply keeps_openFile.bind
  intro opened
  apply meets_of_fact
  intro hlate
  cases opened with
  | false => exact safe_pure _
  | true =>
    have hhandle : Safe P t nativeHandle := safe_quiet rfl fun _ => trivial
    exact hhandle.bind fun _ => safe_sendfileLoop (hlate rfl) _ _

theorem safe_sendMissedPackets (rounds : ℕ) : Safe P t (sendMissedPackets rounds) := by
  induction rounds with
  | zero => exact safe_pure _
  | succ rounds ih =>
    have hsize : Safe P t missedPacketQueueSize := safe_quiet rfl fun _ => trivial
    have hpop : Safe P t popPacket := safe_quiet rfl fun _ => trivial
    have hclear : Safe P t clearPackets := safe_quiet rfl fun _ => trivial
    apply hsize.bind
    intro size
    split_ifs
    · apply hpop.bind
      intro QData
      cases QData with
      | none => exact safe_pure _
      | some QData =>
        apply (safe_tcpSend QData true).bind
        intro sent
        cases sent with
        | true => exact ih
        | false => exact safe_disconnectClient.bind fun _ => hclear
    · exact safe_pure _

theorem safe_hasMissedPackets : Safe P t hasMissedPackets := by
  have hsyncing : Safe P t (isSyncing false) := safe_quiet rfl fun _ => trivial
  have hsynced : Safe P t isSynced := safe_quiet rfl fun _ => trivial
  have hsize : Safe P t missedPacketQueueSize := safe_quiet rfl fun _ => trivial
  apply hsyncing.bind
  intro syncing
  cases syncing with
  | true => exact safe_pure _
  | false =>
    apply hsynced.bind
    intro synced
    cases synced with
    | true => exact hsize.bind fun _ => safe_pure _
    | false => exact safe_pure _

theorem safe_looper (rounds : ℕ) : Safe P t (looper rounds) := by
  induction rounds with
  | zero => exact safe_pure _
  | succ rounds ih =>
    have hexpired : Safe P t expired := safe_quiet rfl fun _ => trivial
    have hdisconnected : Safe P t isDisconnected := safe_quiet rfl fun _ => trivial
    apply hexpired.bind
    intro gone
    cases gone with
    | true => exact safe_pure _
    | false =>
      apply hdisconnected.bind
      intro disconnected
      cases disconnected with
      | true => exact safe_pure _
      | false =>
        apply safe_hasMissedPackets.bind
        intro missed
        cases missed with
        | true => exact (safe_sendMissedPackets rounds).bind fun _ => ih
        | false => exact ih

theorem safe_task (task : SocketTask) : Safe P t (task.program z) := by
  cases task with
  | disconnect => exact safe_disconnectClient
  | tcpSend Data IsSync => exact (safe_tcpSend Data IsSync).bind fun _ => safe_pure _
  | tcpRcv WithTimeout => exact (safe_tcpRcv WithTimeout).bind fun _ => safe_pure _
  | sendFileToClient Size rounds => exact safe_sendFileToClient Size rounds
  | looper rounds => exact safe_looper rounds
  | clientKick R => exact safe_clientKick R

end DeadSocket

namespace SocketThreads

variable {τ : Type} [DecidableEq τ] {z : Zlib}

def NoLateSend (s : SocketThreads τ) : SocketStep τ → Prop
  | .advance t io => ∀ k ∈ (s.program t).head?, SocketState.noLateSend io k s.shared
  | _ => True

instance (s : SocketThreads τ) : ∀ a, Decidable (s.NoLateSend a)
  | .advance t io =>
    inferInstanceAs (Decidable (∀ k ∈ (s.program t).head?, SocketState.noLateSend io k s.shared))
  | .run _ _ | .update _ => isTrue trivial

/-- Every thread keeps the phases of the disconnect, and under the guard the socket is not
touched by a late call. -/
def Kept (P : Prop) (s : SocketThreads τ) : Prop :=
  s.Sound SocketState.exec (fun _ => DeadSocket.allowed P) DeadSocket.rely (DeadSocket.guar P)
    (DeadSocket.Kept P)

variable {P : Prop} {s t : SocketThreads τ}

theorem kept_start (P : Prop) (client : SocketClient) : (start τ client).Kept P :=
  Threads.idle_sound
    { phase := SocketState.phase_start client
      timely := fun _ _ hmem => absurd hmem List.not_mem_nil }

/-- Step lemma, where only those who run under the guard need to know of it. -/
theorem Kept.step {a : SocketStep τ} (h : s.Kept P) (hguard : P → s.NoLateSend a)
    (hstep : s.step z a = some t) : t.Kept P := by
  cases a with
  | run u task => exact h.start (DeadSocket.safe_task task) hstep
  | advance u io =>
    apply Threads.Sound.advance h _ _ _ hstep
    · exact fun u v hne _ _ hguar => hguar.2 v hne
    · exact fun u _ _ hI hguar => hguar.1 hI
    · intro k next hcall
      exact ⟨h.invariant, fun hP => hguard hP k (by simp [hcall, Program.head?])⟩
  | update client =>
    cases hstep
    have hsame : s.shared.SameSocket { s.shared with client := client } :=
      ⟨rfl, rfl, rfl, rfl, rfl⟩
    apply Threads.Sound.interfere h _
    · exact ⟨h.invariant.phase.of_same hsame, h.invariant.timely⟩
    · exact fun u => ⟨fun hdead => hdead, fun _ hunderWay => ⟨hunderWay, rfl, rfl⟩⟩

theorem dead_step {a : SocketStep τ} (hdead : s.shared.Dead) (hstep : s.step z a = some t) :
    t.shared.Dead := by
  cases a with
  | run u task =>
    cases Threads.start_cases hstep
    exact hdead
  | advance u io =>
    obtain ⟨k, next, -, rfl⟩ := Threads.advance_cases hstep
    cases k with
    | compareExchange =>
      have hnot : s.shared.mDisconnectState ≠ .connected := hdead
      simp [SocketState.exec, hnot, SocketState.Dead]
    | store => simp [SocketState.exec, SocketState.Dead]
    | _ => exact hdead
  | update client =>
    cases hstep
    exact hdead

/-- In any run one call of `Disconnect` at most returns true and closes the socket. -/
theorem phase_of_run {client : SocketClient} {as : List (SocketStep τ)}
    (hrun : Execution.run (step z) (start τ client) as = some s) : s.shared.Phase := by
  have hkept : s.Kept False := by
    apply Execution.run_invariant_of_step _ (kept_start False client) hrun
    exact fun s a t h hstep => h.step (fun hP => hP.elim) hstep
  exact hkept.invariant.phase

/-- When no late call of `TCPSend` or `SendFileToClient` gets to the socket, a client that
is disconnected has a dead socket, and it is never connected again. -/
theorem socketDead_of_noLateSend (z : Zlib) (client : SocketClient) (as : List (SocketStep τ))
    (has : Execution.Along (step z) NoLateSend (start τ client) as) (s : SocketThreads τ)
    (hrun : Execution.run (step z) (start τ client) as = some s) :
    s.shared.SocketDead ∧
      ∀ bs t, Execution.run (step z) s bs = some t → s.shared.Dead → t.shared.Dead := by
  have hkept : s.Kept True := by
    apply Execution.run_invariant _ (kept_start True client) has hrun
    exact fun s a t h hguard hstep => h.step (fun _ => hguard) hstep
  refine ⟨(phase_of_run hrun).socketDead (hkept.invariant.timely trivial), ?_⟩
  intro bs t hrun' hdead
  exact Execution.run_invariant_of_step (fun s a t h hstep => dead_step h hstep) hdead hrun'

/-- A run in which one thread disconnects the client, and then another one runs a task. Every
write succeeds, and nothing can be read. -/
def afterDisconnect (task : SocketTask) (sections : ℕ) : List (SocketStep Bool) :=
  .run false .disconnect :: List.replicate 6 (.advance false ⟨true, none, true, .error⟩) ++
    .run true task :: List.replicate sections (.advance true ⟨true, none, true, .error⟩)

/-- A `TCPRcv` that starts after the disconnect gives up before it reads. -/
theorem socketDead_after_late_receive :
    ∃ s, Execution.run (step ⟨fun n => n, fun _ _ => .bufError, fun _ _ => .bufError⟩)
        (start Bool ⟨ascii "a", false, true, [], false⟩)
        (afterDisconnect (.tcpRcv false) 2) = some s ∧ s.shared.SocketDead :=
  ⟨_, rfl, (socketDead_of_noLateSend ⟨fun n => n, fun _ _ => .bufError, fun _ _ => .bufError⟩
    ⟨ascii "a", false, true, [], false⟩ (afterDisconnect (.tcpRcv false) 2) (by decide) _ rfl).1⟩

/-- A client is kicked after its disconnect, and the packet that says so goes to `write`. -/
theorem not_socketDead_after_late_kick :
    ∃ s, Execution.run (step ⟨fun n => n, fun _ _ => .bufError, fun _ _ => .bufError⟩)
        (start Bool ⟨ascii "a", false, true, [], false⟩)
        (afterDisconnect (.clientKick []) 3) = some s ∧
      s.shared.returned = [(false, true)] ∧ s.shared.ops = [(.write, true)] ∧
      ¬ s.shared.SocketDead := by
  refine ⟨_, rfl, by decide, by decide, fun h => ?_⟩
  exact absurd (h.no_late_op (.write, true) (by decide)) (by decide)

end SocketThreads
end BeamMP
