import BeamMP.Common.Json
import BeamMP.Foundation.Execution
import BeamMP.Network.Frames

/-!
# The size limit before authentication

`TCPRcv` takes a client with an empty name to be unauthenticated and limits its
packets to 4096 bytes. But a client is called `Unknown Client` until the backend
has accepted it, and the backend may accept an empty name, because `size` of a
JSON string is 1. So the limit applies to the wrong connections.
-/
namespace BeamMP

structure Identity where
  name : Bytes
  roles : Bytes
  isGuest : Bool
  identifiers : List (Bytes × Bytes)

/-- `SetIdentifier(Raw.substr(0, SepIndex), Raw.substr(SepIndex + 1))`. -/
def splitIdentifier (Raw : Bytes) : Bytes × Bytes :=
  match Bytes.find Raw ':' 0 with
  | none => (Raw, Raw)
  | some SepIndex => (Bytes.substr Raw 0 (some SepIndex), Bytes.substr Raw (SepIndex + 1) none)

/-- The loop over the identifiers, which an identifier that is not a string leaves by an
exception. -/
def readIdentifiers : List Json → Option (List (Bytes × Bytes))
  | [] => some []
  | .string Raw :: rest => (readIdentifiers rest).map (splitIdentifier Raw :: ·)
  | _ :: _ => none

/-- What the backend's reply does: it is accepted, or the client is kicked, in the last case
after the name has been set. -/
inductive ReplyResult
  | accepted (identity : Identity)
  | rejected (reason : Bytes)
  | threwLate (name : Bytes) (reason : Bytes)

def invalidKey : Bytes := ascii "Invalid key! Please restart your game."

/-- The check of the reply's members, and the members it needs. -/
def replyMembers (AuthRes : Json) : Option (Option (Bytes × Bytes × Bool × List Json)) := do
  let username ← AuthRes.index (ascii "username")
  let roles ← AuthRes.index (ascii "roles")
  let guest ← AuthRes.index (ascii "guest")
  let identifiers ← AuthRes.index (ascii "identifiers")
  match username, roles, guest, identifiers with
  | .string name, .string role, .bool isGuest, .array ids =>
    return if 0 < (Json.string name).size then some (name, role, isGuest, ids) else none
  | _, _, _, _ => return none

def backendReply (lib : JsonText) (AuthResStr : Bytes) : ReplyResult :=
  match lib.parse AuthResStr with
  | none => .rejected invalidKey
  | some AuthRes =>
    match replyMembers AuthRes with
    | none => .rejected invalidKey
    | some none => .rejected (ascii "Invalid authentication data!")
    | some (some (name, roles, isGuest, ids)) =>
      match readIdentifiers ids with
      | none => .threwLate name invalidKey
      | some identifiers => .accepted { name, roles, isGuest, identifiers }

inductive AuthPhase
  | starting
  | versionPacket
  | sendAccepted
  | keyPacket
  | backend
  | accepted
  | kicked
deriving DecidableEq

/-- A connection. `accepted` is the identity the backend has given it. -/
structure Connection where
  name : Bytes
  disconnected : Bool
  phase : AuthPhase
  accepted : Option Identity

/-- The steps of `Authentication`, and the packets read after it. `stream` is what the socket
delivers while a packet is read, and `none` in place of a reply is an exception. -/
inductive ConnectionAction
  | begin (serverStarting : Bool)
  | receiveVersion (stream : Bytes)
  | sendAccepted (sent : Bool)
  | receiveKey (stream : Bytes)
  | backendReply (AuthResStr : Option Bytes)
  | receive (stream : Bytes)
  | disconnect

def ConnectionAction.stream : ConnectionAction → Option Bytes
  | .receiveVersion stream | .receiveKey stream | .receive stream => some stream
  | .begin _ | .sendAccepted _ | .backendReply _ | .disconnect => none

namespace Connection

/-- A `TClient` as `CreateClient` makes it. -/
def start : Connection where
  name := ascii "Unknown Client"
  disconnected := false
  phase := .starting
  accepted := none

variable (z : Zlib) (lib : JsonText) (isOutdated : Bytes → Bool) (s : Connection)

def tcpRcv (stream : Bytes) : Received := BeamMP.tcpRcv z ⟨s.name, s.disconnected, stream⟩

def kick : Connection := { s with disconnected := true, phase := .kicked }

/-- The test of the version packet; `isOutdated` is the comparison of the launcher version. -/
def versionAccepted (Data : Bytes) : Bool :=
  decide (3 < Data.length) && decide (ascii "VC" <+: Data) &&
    !isOutdated (Data.drop 2 ++ ascii ".0")

def step (s : Connection) : ConnectionAction → Option Connection
  | .begin serverStarting =>
    if s.phase = .starting then
      some (if serverStarting then s.kick else { s with phase := .versionPacket })
    else none
  | .receiveVersion stream =>
    if s.phase = .versionPacket then
      let r := s.tcpRcv z stream
      let s := { s with disconnected := r.client.disconnected }
      some (if versionAccepted isOutdated r.data then { s with phase := .sendAccepted } else s.kick)
    else none
  | .sendAccepted sent =>
    if s.phase = .sendAccepted then
      some { s with disconnected := s.disconnected || !sent, phase := .keyPacket }
    else none
  | .receiveKey stream =>
    if s.phase = .keyPacket then
      let r := s.tcpRcv z stream
      let s := { s with disconnected := r.client.disconnected }
      some (if r.data = [] ∨ 50 < r.data.length then s.kick else { s with phase := .backend })
    else none
  | .backendReply AuthResStr =>
    if s.phase = .backend then
      match AuthResStr.map (BeamMP.backendReply lib) with
      | none | some (.rejected _) => some s.kick
      | some (.threwLate name _) => some { s.kick with name := name }
      | some (.accepted identity) =>
        some { s with name := identity.name, phase := .accepted, accepted := some identity }
    else none
  | .receive stream =>
    if s.phase = .accepted then
      some { s with disconnected := (s.tcpRcv z stream).client.disconnected }
    else none
  | .disconnect => some { s with disconnected := true }

/-- `maxHeaderSize` of `TCPRcv`. -/
def maxHeaderSize : ℤ := if s.name = [] then 4096 else (100 * MB : ℕ)

/-- The limit `TCPRcv` is meant to have for a header that has arrived, which it refuses by a kick:
packets from 4096 bytes on are for clients with an accepted identity, and those may send up to
100 MiB. -/
def LimitRespected (a : ConnectionAction) : Prop :=
  ∀ stream ∈ a.stream, ∀ split ∈ Framing.takeExactly 4 stream, s.disconnected = false →
    ((s.tcpRcv z stream).kicked = none → 4096 ≤ headerValue split.1 → s.accepted.isSome) ∧
    (s.accepted.isSome → 0 ≤ headerValue split.1 → headerValue split.1 < (100 * MB : ℕ) →
      (s.tcpRcv z stream).kicked = none)

/-- A header from 4096 up to 100 MiB comes only after the backend has accepted the client
under a name that is not empty. -/
def LargeAfterName (a : ConnectionAction) : Prop :=
  ∀ stream ∈ a.stream, ∀ split ∈ Framing.takeExactly 4 stream, s.disconnected = false →
    4096 ≤ headerValue split.1 → headerValue split.1 < (100 * MB : ℕ) →
      ∃ identity ∈ s.accepted, identity.name ≠ []

instance (a : ConnectionAction) : Decidable (s.LimitRespected z a) :=
  inferInstanceAs (Decidable (∀ _ ∈ _, ∀ _ ∈ _, _ → (_ → _ → _) ∧ (_ → _ → _ → _)))

/-- The limit is respected in every step of a run, and the test `GetName().empty()` tells in each of
its states whether an identity has been accepted. -/
structure PreAuthLimit (as : List ConnectionAction) : Prop where
  respected : Execution.Along (step z lib isOutdated) (LimitRespected z) start as
  encoded : ∀ s, Execution.Visits (step z lib isOutdated) start as s →
    (s.name = [] ↔ s.accepted = none)

/-- A connected client has the accepted name, and before that the name it was made with. -/
def Named : Prop :=
  s.disconnected = false →
    s.name = match s.accepted with
      | some identity => identity.name
      | none => ascii "Unknown Client"

variable {z lib isOutdated s} {t : Connection} {a : ConnectionAction} {Header : ℤ}

/-- What `TCPRcv` does with a complete header: it kicks the client, or it allocates and reads a
packet of that size. -/
theorem tcpRcv_kicked {stream HeaderData rest : Bytes}
    (hstream : Framing.takeExactly 4 stream = some (HeaderData, rest))
    (hconnected : s.disconnected = false) :
    (s.tcpRcv z stream).kicked = none ↔
      0 ≤ headerValue HeaderData ∧ headerValue HeaderData < s.maxHeaderSize := by
  simp only [tcpRcv, BeamMP.tcpRcv, hconnected, hstream, maxHeaderSize]
  generalize (if s.name = [] then (4096 : ℤ) else (100 * MB : ℕ)) = limit
  by_cases hneg : headerValue HeaderData < 0
  · simp [hneg]
  · have hnonneg : 0 ≤ headerValue HeaderData := Int.not_lt.mp hneg
    by_cases hlimit : headerValue HeaderData < limit
    · simp only [if_neg hneg, if_pos hlimit]
      cases Framing.takeExactly (headerValue HeaderData).toNat rest <;> simp [hnonneg, hlimit]
    · simp [hneg, hlimit]

theorem connected_of_tcpRcv {stream : Bytes}
    (h : (s.tcpRcv z stream).client.disconnected = false) : s.disconnected = false := by
  cases hs : s.disconnected with
  | false => rfl
  | true => simp [tcpRcv, BeamMP.tcpRcv, hs] at h

theorem start_named : start.Named := fun _ => rfl

theorem Named.of_kept (h : s.Named)
    (hkept : t.disconnected = false →
      s.disconnected = false ∧ t.name = s.name ∧ t.accepted = s.accepted) : t.Named := by
  intro ht
  obtain ⟨hs, hname, haccepted⟩ := hkept ht
  rw [hname, haccepted]
  exact h hs

theorem Named.kick : s.kick.Named := by
  intro h
  cases h

theorem Named.step (h : s.Named) (hstep : s.step z lib isOutdated a = some t) : t.Named := by
  cases a with
  | begin serverStarting =>
    obtain ⟨-, heq⟩ := Option.ite_none_right_eq_some.mp hstep
    cases heq
    cases serverStarting with
    | true => exact Named.kick
    | false => exact h
  | receiveVersion stream =>
    obtain ⟨-, heq⟩ := Option.ite_none_right_eq_some.mp hstep
    cases heq
    split_ifs
    · exact h.of_kept fun ht => ⟨connected_of_tcpRcv ht, rfl, rfl⟩
    · exact Named.kick
  | sendAccepted sent =>
    obtain ⟨-, heq⟩ := Option.ite_none_right_eq_some.mp hstep
    cases heq
    exact h.of_kept fun ht => ⟨(Bool.or_eq_false_iff.mp ht).1, rfl, rfl⟩
  | receiveKey stream =>
    obtain ⟨-, heq⟩ := Option.ite_none_right_eq_some.mp hstep
    cases heq
    split_ifs
    · exact Named.kick
    · exact h.of_kept fun ht => ⟨connected_of_tcpRcv ht, rfl, rfl⟩
  | backendReply AuthResStr =>
    simp only [Connection.step] at hstep
    split_ifs at hstep
    split at hstep
    case h_4 identity _ =>
      cases hstep
      exact fun _ => rfl
    all_goals
      cases hstep
      intro ht
      cases ht
  | receive stream =>
    obtain ⟨-, heq⟩ := Option.ite_none_right_eq_some.mp hstep
    cases heq
    exact h.of_kept fun ht => ⟨connected_of_tcpRcv ht, rfl, rfl⟩
  | disconnect =>
    cases hstep
    intro ht
    cases ht

/-- Before an identity is accepted, the test `GetName().empty()` of a connected client fails. -/
theorem Named.name_ne_nil (h : s.Named) (hconnected : s.disconnected = false)
    (hnone : s.accepted = none) : s.name ≠ [] := by
  rw [h hconnected, hnone]
  decide

theorem Named.limitRespected_iff (h : s.Named) : s.LimitRespected z a ↔ s.LargeAfterName a := by
  apply forall₂_congr
  intro stream _
  apply forall₂_congr
  rintro ⟨HeaderData, rest⟩ hsplit
  apply imp_congr_right
  intro hconnected
  have hMB : (4096 : ℤ) < (100 * MB : ℕ) := by decide
  rw [tcpRcv_kicked hsplit hconnected]
  cases haccepted : s.accepted with
  | none =>
    have hname := h.name_ne_nil hconnected haccepted
    simp only [maxHeaderSize, if_neg hname, Option.isSome_none, Option.not_mem_none, false_and,
      exists_false, Bool.false_eq_true, false_implies, and_true, imp_false]
    omega
  | some identity =>
    have hname : s.name = identity.name := by
      rw [h hconnected, haccepted]
    simp only [maxHeaderSize, hname, Option.isSome_some, Option.mem_some_iff, exists_eq_left']
    by_cases hempty : identity.name = []
    · simp only [hempty, if_true, ne_eq, not_true_eq_false, true_implies, implies_true, true_and,
        imp_false]
      omega
    · simp only [hempty, if_false, ne_eq, not_false_eq_true, true_implies, implies_true, true_and,
        iff_true]
      omega

/-- In no run does `GetName().empty()` tell whether an identity has been accepted: before that no
connected client is taken to be unauthenticated. The limit itself is respected in a run if and
only if each header from 4096 up to 100 MiB comes after the backend has accepted the client under
a name that is not empty. -/
theorem not_preAuthLimit (z : Zlib) (lib : JsonText) (isOutdated : Bytes → Bool)
    (as : List ConnectionAction) :
    ¬ PreAuthLimit z lib isOutdated as ∧
    (∀ s, Execution.Visits (step z lib isOutdated) start as s →
      s.disconnected = false → s.accepted = none → s.name ≠ []) ∧
    (Execution.Along (step z lib isOutdated) (LimitRespected z) start as ↔
      Execution.Along (step z lib isOutdated) LargeAfterName start as) := by
  refine ⟨?_, ?_, ?_⟩
  · intro h
    have hname : start.name = [] :=
      (h.encoded start (Execution.visits_start start as)).mpr rfl
    exact absurd hname (by decide)
  · rintro s ⟨bs, -, hrun⟩
    have hnamed : s.Named :=
      Execution.run_invariant_of_step (fun _ _ _ h hstep => h.step hstep) start_named hrun
    exact hnamed.name_ne_nil
  · exact Execution.along_congr (fun _ _ _ h hstep => h.step hstep)
      (fun _ _ h => h.limitRespected_iff) start_named

/-- A header of 4096 in the place of the version packet is accepted. -/
theorem not_preAuthLimit_before_version :
    ¬ PreAuthLimit storingZlib ⟨fun _ => none, fun _ => none⟩ (fun _ => false)
      [.begin false, .receiveVersion [0, 16, 0, 0]] := by
  intro h
  exact absurd h.respected (by decide)

end Connection
end BeamMP
