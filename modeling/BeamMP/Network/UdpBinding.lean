import BeamMP.Common.Bytes
import BeamMP.Foundation.Execution
import Mathlib.Data.Int.Basic

/-!
# The UDP endpoint of a client

`OnConnect` gives a client its ID and later a magic, which goes to the client over TCP.
The first datagram that brings the magic back binds the client to the endpoint it came
from; from then on `UDPServerMain` hands datagrams from that endpoint to `GlobalParser`.
Datagrams arrive at any time and from anywhere.
-/
namespace BeamMP

structure Endpoint where
  address : Bytes
  port : UInt16
deriving DecidableEq

/-- `udp::endpoint { }`. -/
def Endpoint.default : Endpoint := ⟨[0, 0, 0, 0], 0⟩

/-- Where the client's thread is in `OnConnect`. -/
inductive ConnectPhase
  | fresh
  | identified
  | ready
deriving DecidableEq

/-- The fields of a client that `UDPServerMain` reads and writes. -/
structure UdpClient where
  mID : ℤ := -1
  mUDPAddress : Endpoint := .default
  mIsUDPConnected : Bool := false
  mMagic : Bytes := []
  onConnect : ConnectPhase := .fresh
deriving DecidableEq

/-- A call of `GlobalParser` with `udp = true`. -/
structure UdpCall (κ : Type) where
  client : κ
  source : Endpoint
  packet : Bytes
deriving DecidableEq

/-- `clients` is `mClients`; the calls of `GlobalParser` and the answered pings are history. -/
structure UdpServer (κ : Type) where
  clients : List κ
  client : κ → UdpClient
  calls : List (UdpCall κ)
  pings : List Endpoint

/-- A step of a client's thread, or a datagram. The set `mClients` is iterated in some order,
and `GlobalParser` may throw. -/
inductive UdpAction (κ : Type)
  | insertClient (c : κ)
  | setID (c : κ) (id : ℕ)
  | setMagic (c : κ) (buf : Bytes)
  | removeClient (c : κ)
  | datagram (source : Endpoint) (Data : Bytes) (order : List κ) (threw : Bool)

namespace UdpServer

variable {κ : Type}

def start (κ : Type) : UdpServer κ where
  clients := []
  client _ := {}
  calls := []
  pings := []

/-- `uint8_t(Data.at(0)) - 1` as a `uint8_t`. -/
def datagramID (Code : UInt8) : ℤ := (Code - 1).toNat

/-- The client waits for the datagram with its magic. -/
def Awaiting (c : UdpClient) : Prop :=
  c.mUDPAddress = .default ∧ c.mIsUDPConnected = false ∧ c.mMagic ≠ []

instance (c : UdpClient) : Decidable (Awaiting c) :=
  inferInstanceAs (Decidable (_ ∧ _ ∧ _))

def parse (s : UdpServer κ) (c : κ) (source : Endpoint) (packet : Bytes) : UdpServer κ :=
  { s with calls := s.calls ++ [⟨c, source, packet⟩] }

variable [DecidableEq κ]

def update (s : UdpServer κ) (c : κ) (f : UdpClient → UdpClient) : UdpServer κ :=
  { s with client := Function.update s.client c (f (s.client c)) }

/-- The magic is used up when the client is bound to an endpoint. -/
def bind (s : UdpServer κ) (c : κ) (source : Endpoint) : UdpServer κ :=
  s.update c fun d => { d with mMagic := [], mUDPAddress := source, mIsUDPConnected := true }

/-- The iteration of `UDPServerMain` over the clients. The first two bytes are erased before
the call; where there is only one, the erase is undefined and leaves nothing here. -/
def visit (source : Endpoint) (ID : ℤ) (threw : Bool) :
    List κ → Bytes → UdpServer κ → UdpServer κ
  | [], _, s => s
  | c :: clients, Data, s =>
    if (s.client c).mID = ID then
      if Awaiting (s.client c) then
        if Data.length ≠ 66 then s
        else if Data.drop 2 ≠ (s.client c).mMagic then s
        else s.bind c source
      else if (s.client c).mUDPAddress = source then
        let s := s.parse c source (Data.drop 2)
        if threw then s else visit source ID threw clients (Data.drop 2) s
      else s
    else visit source ID threw clients Data s

/-- What `UDPServerMain` does with a datagram. -/
def receive (s : UdpServer κ) (source : Endpoint) (Data : Bytes) (order : List κ)
    (threw : Bool) : UdpServer κ :=
  match Data with
  | [] => s
  | Code :: rest =>
    if Code = 'P'.toUInt8 ∧ rest = [] then { s with pings := s.pings ++ [source] }
    else if 2 < (Code :: rest).idxOf ':'.toUInt8 then s
    else visit source (datagramID Code) threw order (Code :: rest) s

/-- One step. Each client's thread goes through `OnConnect` once, where `RAND_bytes` fills a
buffer of 64 bytes. -/
def step (s : UdpServer κ) : UdpAction κ → Option (UdpServer κ)
  | .insertClient c => if c ∈ s.clients then none else some { s with clients := c :: s.clients }
  | .setID c id =>
    if (s.client c).onConnect = .fresh then
      some (s.update c fun d => { d with mID := id, onConnect := .identified })
    else none
  | .setMagic c buf =>
    if (s.client c).onConnect = .identified ∧ buf.length = 64 then
      some (s.update c fun d => { d with mMagic := buf, onConnect := .ready })
    else none
  | .removeClient c => some { s with clients := s.clients.filter (· ≠ c) }
  | .datagram source Data order threw =>
    if order.Perm s.clients then some (s.receive source Data order threw) else none

/-- Distinct clients have distinct IDs, as far as they have been given one. -/
def DistinctIDs (s : UdpServer κ) : Prop :=
  ∀ c ∈ s.clients, ∀ d ∈ s.clients, (s.client c).mID = (s.client d).mID →
    0 ≤ (s.client c).mID → c = d

instance (s : UdpServer κ) : Decidable s.DistinctIDs :=
  inferInstanceAs (Decidable (∀ c ∈ s.clients, ∀ d ∈ s.clients, _ → _ → _))

end UdpServer

/-- Datagrams do not come from the default endpoint. -/
def UdpAction.hasSource {κ : Type} : UdpAction κ → Bool
  | .datagram source _ _ _ => source ≠ .default
  | _ => true

namespace UdpServer

variable {κ : Type}

/-- The address of a client, its magic and the flag go together. -/
structure EndpointsBound (s : UdpServer κ) : Prop where
  connected_iff : ∀ c, (s.client c).mIsUDPConnected = true ↔ (s.client c).mUDPAddress ≠ .default
  magic_empty : ∀ c, (s.client c).mUDPAddress ≠ .default → (s.client c).mMagic = []
  parsed_from_bound : ∀ call ∈ s.calls,
    call.source = (s.client call.client).mUDPAddress ∧ call.source ≠ .default

/-- The invariant: a client that has or had a magic is through with `OnConnect`, and so gets no
other one. -/
structure Inv (s : UdpServer κ) : Prop extends s.EndpointsBound where
  nodup : s.clients.Nodup
  ready : ∀ c, (s.client c).mUDPAddress ≠ .default ∨ (s.client c).mMagic ≠ [] →
    (s.client c).onConnect = .ready

theorem inv_start : (start κ).Inv where
  connected_iff c := by simp [start]
  magic_empty c _ := rfl
  parsed_from_bound call hcall := absurd hcall List.not_mem_nil
  nodup := List.nodup_nil
  ready c h := h.elim (absurd rfl) (absurd rfl)

variable [DecidableEq κ]

/-- What a datagram can do: nothing, get a ping answered, bind a client that waits for it, or
get to the parser as a packet of the client that is bound to its source. -/
inductive Demultiplexed (s : UdpServer κ) (source : Endpoint) (Data : Bytes) :
    UdpServer κ → Prop
  | ignored : Demultiplexed s source Data s
  | pinged : Demultiplexed s source Data { s with pings := s.pings ++ [source] }
  | bound (c : κ) (hawaiting : Awaiting (s.client c)) (hsize : Data.length = 66)
      (hmagic : Data.drop 2 = (s.client c).mMagic) : Demultiplexed s source Data (s.bind c source)
  | parsed (c : κ) (hsource : (s.client c).mUDPAddress = source) :
      Demultiplexed s source Data (s.parse c source (Data.drop 2))

variable {s t : UdpServer κ} {source : Endpoint} {Data : Bytes} {threw : Bool}

theorem visit_of_forall_ne {ID : ℤ} (clients : List κ) (Data : Bytes)
    (h : ∀ c ∈ clients, (s.client c).mID ≠ ID) : visit source ID threw clients Data s = s := by
  induction clients with
  | nil => rfl
  | cons c clients ih =>
    have hc : (s.client c).mID ≠ ID := h c List.mem_cons_self
    unfold visit
    rw [if_neg hc]
    exact ih fun d hd => h d (List.mem_cons_of_mem c hd)

theorem visit_demultiplexed {ID : ℤ} {clients : List κ} (hnodup : clients.Nodup)
    (hdistinct : ∀ c ∈ clients, ∀ d ∈ clients, (s.client c).mID = ID → (s.client d).mID = ID →
      c = d) : Demultiplexed s source Data (visit source ID threw clients Data s) := by
  induction clients with
  | nil => exact .ignored
  | cons c clients ih =>
    obtain ⟨hnot, hnodup⟩ := List.nodup_cons.mp hnodup
    unfold visit
    split_ifs with hID hawaiting hsize hmagic hsource hthrew
    · exact .ignored
    · exact .ignored
    · exact .bound c hawaiting (not_not.mp hsize) (not_not.mp hmagic)
    · exact .parsed c hsource
    · have hrest : ∀ d ∈ clients, ((s.parse c source (Data.drop 2)).client d).mID ≠ ID := by
        intro d hd heq
        have hsame := hdistinct c List.mem_cons_self d (List.mem_cons_of_mem c hd) hID heq
        exact hnot (hsame ▸ hd)
      dsimp only
      rw [visit_of_forall_ne clients _ hrest]
      exact .parsed c hsource
    · exact .ignored
    · apply ih hnodup
      intro d hd e he
      exact hdistinct d (List.mem_cons_of_mem c hd) e (List.mem_cons_of_mem c he)

theorem datagramID_nonneg (Code : UInt8) : 0 ≤ datagramID Code := Int.natCast_nonneg _

theorem receive_demultiplexed {order : List κ} (hnodup : order.Nodup)
    (hsame : ∀ c, c ∈ order ↔ c ∈ s.clients) (hids : s.DistinctIDs) :
    Demultiplexed s source Data (s.receive source Data order threw) := by
  unfold receive
  cases Data with
  | nil => exact .ignored
  | cons Code rest =>
    dsimp only
    split_ifs
    · exact .pinged
    · exact .ignored
    · apply visit_demultiplexed hnodup
      intro c hc d hd hcID hdID
      apply hids c ((hsame c).mp hc) d ((hsame d).mp hd) (hcID.trans hdID.symm)
      rw [hcID]
      exact datagramID_nonneg Code

theorem update_client_self (s : UdpServer κ) (c : κ) (f : UdpClient → UdpClient) :
    (s.update c f).client c = f (s.client c) := Function.update_self _ _ _

theorem update_client_of_ne (s : UdpServer κ) {c d : κ} (h : d ≠ c) (f : UdpClient → UdpClient) :
    (s.update c f).client d = s.client d := Function.update_of_ne h _ _

/-- `OnConnect` does not touch the address and the flag, and it is not through with a client
that is bound. -/
theorem Inv.onConnect {c : κ} {f : UdpClient → UdpClient} (h : s.Inv)
    (haddress : (f (s.client c)).mUDPAddress = (s.client c).mUDPAddress)
    (hflag : (f (s.client c)).mIsUDPConnected = (s.client c).mIsUDPConnected)
    (hunready : (s.client c).onConnect ≠ .ready)
    (hready : (f (s.client c)).mMagic ≠ [] → (f (s.client c)).onConnect = .ready) :
    (s.update c f).Inv := by
  have hunbound : (s.client c).mUDPAddress = .default := by
    by_contra hbound
    exact hunready (h.ready c (Or.inl hbound))
  have haddresses : ∀ d, ((s.update c f).client d).mUDPAddress = (s.client d).mUDPAddress := by
    intro d
    by_cases hd : d = c
    · rw [hd, update_client_self, haddress]
    · rw [s.update_client_of_ne hd]
  refine ⟨⟨fun d => ?_, fun d hbound => ?_, fun call hcall => ?_⟩, h.nodup, fun d hd => ?_⟩
  · by_cases hd : d = c
    · rw [hd, update_client_self, haddress, hflag]
      exact h.connected_iff c
    · rw [s.update_client_of_ne hd]
      exact h.connected_iff d
  · rw [haddresses] at hbound
    have hne : d ≠ c := fun heq => hbound (heq ▸ hunbound)
    rw [s.update_client_of_ne hne]
    exact h.magic_empty d hbound
  · rw [haddresses]
    exact h.parsed_from_bound call hcall
  · by_cases hne : d = c
    · rw [hne, update_client_self] at hd ⊢
      rcases hd with hbound | hmagic
      · rw [haddress] at hbound
        exact absurd hunbound hbound
      · exact hready hmagic
    · rw [s.update_client_of_ne hne] at hd ⊢
      exact h.ready d hd

theorem Inv.bind {c : κ} (h : s.Inv) (hawaiting : Awaiting (s.client c))
    (hsource : source ≠ .default) : (s.bind c source).Inv := by
  refine ⟨⟨fun d => ?_, fun d hbound => ?_, fun call hcall => ?_⟩, h.nodup, fun d hd => ?_⟩
  · unfold UdpServer.bind
    by_cases hd : d = c
    · rw [hd, update_client_self]
      exact ⟨fun _ => hsource, fun _ => rfl⟩
    · rw [s.update_client_of_ne hd]
      exact h.connected_iff d
  · unfold UdpServer.bind at hbound ⊢
    by_cases hd : d = c
    · rw [hd, update_client_self]
    · rw [s.update_client_of_ne hd] at hbound ⊢
      exact h.magic_empty d hbound
  · obtain ⟨heq, hne⟩ := h.parsed_from_bound call hcall
    have hother : call.client ≠ c := by
      intro hself
      rw [heq, hself] at hne
      exact hne hawaiting.1
    unfold UdpServer.bind
    rw [s.update_client_of_ne hother]
    exact ⟨heq, hne⟩
  · unfold UdpServer.bind at hd ⊢
    by_cases hne : d = c
    · rw [hne, update_client_self]
      exact h.ready c (Or.inr hawaiting.2.2)
    · rw [s.update_client_of_ne hne] at hd ⊢
      exact h.ready d hd

theorem Inv.demultiplexed (h : s.Inv) (hsource : source ≠ .default)
    (hstep : Demultiplexed s source Data t) : t.Inv := by
  cases hstep with
  | ignored => exact h
  | pinged => exact ⟨⟨h.connected_iff, h.magic_empty, h.parsed_from_bound⟩, h.nodup, h.ready⟩
  | bound c hawaiting hsize hmagic => exact h.bind hawaiting hsource
  | parsed c hself =>
    refine ⟨⟨h.connected_iff, h.magic_empty, fun call hcall => ?_⟩, h.nodup, h.ready⟩
    rcases List.mem_append.mp hcall with hcall | hcall
    · exact h.parsed_from_bound call hcall
    · cases List.mem_singleton.mp hcall
      exact ⟨hself.symm, hsource⟩

theorem step_demultiplexed {order : List κ} (h : s.Inv) (hids : s.DistinctIDs)
    (hstep : s.step (.datagram source Data order threw) = some t) :
    Demultiplexed s source Data t := by
  simp only [step] at hstep
  split_ifs at hstep with hperm
  cases hstep
  exact receive_demultiplexed (hperm.nodup_iff.mpr h.nodup) (fun _ => hperm.mem_iff) hids

theorem Inv.step {a : UdpAction κ} (h : s.Inv) (hsource : a.hasSource = true)
    (hids : s.DistinctIDs) (hstep : s.step a = some t) : t.Inv := by
  cases a with
  | insertClient c =>
    simp only [UdpServer.step] at hstep
    split_ifs at hstep with hnew
    cases hstep
    exact ⟨⟨h.connected_iff, h.magic_empty, h.parsed_from_bound⟩,
      List.nodup_cons.mpr ⟨hnew, h.nodup⟩, h.ready⟩
  | setID c id =>
    simp only [UdpServer.step] at hstep
    split_ifs at hstep with hfresh
    cases hstep
    have hunready : (s.client c).onConnect ≠ .ready := by
      rw [hfresh]
      decide
    refine h.onConnect rfl rfl hunready fun hmagic => ?_
    exact absurd (h.ready c (Or.inr hmagic)) hunready
  | setMagic c buf =>
    simp only [UdpServer.step] at hstep
    split_ifs at hstep with hidentified
    cases hstep
    have hunready : (s.client c).onConnect ≠ .ready := by
      rw [hidentified.1]
      decide
    exact h.onConnect rfl rfl hunready fun _ => rfl
  | removeClient c =>
    cases hstep
    exact ⟨⟨h.connected_iff, h.magic_empty, h.parsed_from_bound⟩, h.nodup.filter _, h.ready⟩
  | datagram source Data order threw =>
    have hne : source ≠ .default := by simpa [UdpAction.hasSource] using hsource
    exact h.demultiplexed hne (step_demultiplexed h hids hstep)

/-- An address changes only by the datagram that brings back the magic of a client that is not
bound. -/
theorem address_change {a : UdpAction κ} (h : s.Inv) (hids : s.DistinctIDs)
    (hstep : s.step a = some t) {c : κ}
    (hchange : (t.client c).mUDPAddress ≠ (s.client c).mUDPAddress) :
    (s.client c).mUDPAddress = .default ∧
      ∃ Data order threw, a = .datagram (t.client c).mUDPAddress Data order threw ∧
        Data.length = 66 ∧ Data.drop 2 = (s.client c).mMagic := by
  have hupdate : ∀ (d : κ) (f : UdpClient → UdpClient),
      (f (s.client d)).mUDPAddress = (s.client d).mUDPAddress →
      ((s.update d f).client c).mUDPAddress = (s.client c).mUDPAddress := by
    intro d f hf
    by_cases hc : c = d
    · rw [hc, update_client_self, hf]
    · rw [s.update_client_of_ne hc]
  cases a with
  | insertClient d =>
    simp only [step] at hstep
    split_ifs at hstep
    cases hstep
    exact absurd rfl hchange
  | setID d id =>
    simp only [step] at hstep
    split_ifs at hstep
    cases hstep
    exact absurd (hupdate d _ rfl) hchange
  | setMagic d buf =>
    simp only [step] at hstep
    split_ifs at hstep
    cases hstep
    exact absurd (hupdate d _ rfl) hchange
  | removeClient d =>
    cases hstep
    exact absurd rfl hchange
  | datagram source Data order threw =>
    cases step_demultiplexed h hids hstep with
    | ignored => exact absurd rfl hchange
    | pinged => exact absurd rfl hchange
    | parsed d hself => exact absurd rfl hchange
    | bound d hawaiting hsize hmagic =>
      unfold UdpServer.bind at hchange ⊢
      by_cases hc : c = d
      · subst hc
        rw [update_client_self]
        exact ⟨hawaiting.1, Data, order, threw, rfl, hsize, hmagic⟩
      · rw [s.update_client_of_ne hc] at hchange
        exact absurd rfl hchange

theorem inv_run {as : List (UdpAction κ)} (h : s.Inv) (hsource : ∀ a ∈ as, a.hasSource = true)
    (hids : Execution.Along step (fun s _ => s.DistinctIDs) s as)
    (hrun : Execution.run step s as = some t) :
    t.Inv ∧ ∀ c, (s.client c).mUDPAddress ≠ .default →
      (t.client c).mUDPAddress = (s.client c).mUDPAddress := by
  have hguard := hids.and (Execution.along_of_forall hsource)
  refine Execution.run_invariant (I := fun t => t.Inv ∧ ∀ c, (s.client c).mUDPAddress ≠ .default →
    (t.client c).mUDPAddress = (s.client c).mUDPAddress) ?_ ⟨h, fun _ _ => rfl⟩ hguard hrun
  rintro u a v ⟨hu, hsame⟩ ⟨hids, hsource⟩ hstep
  refine ⟨hu.step hsource hids hstep, fun c hbound => ?_⟩
  have hu_same := hsame c hbound
  by_contra hne
  rw [← hu_same] at hbound hne
  exact hbound (address_change hu hids hstep hne).1

/-- In every run, with datagrams from anywhere: the flag, the magic and the parsed packets go
with the address; the address changes only from the default one to the source of the datagram
that brings the magic back; and a client that is bound stays so, without a magic. -/
theorem endpointsBound_of_run (as : List (UdpAction κ)) (hsource : ∀ a ∈ as, a.hasSource = true)
    (hids : Execution.Along step (fun s _ => s.DistinctIDs) (start κ) as) (s : UdpServer κ)
    (hrun : Execution.run step (start κ) as = some s) :
    s.EndpointsBound ∧
    (∀ a t, s.DistinctIDs → s.step a = some t → ∀ c,
      (t.client c).mUDPAddress ≠ (s.client c).mUDPAddress →
      (s.client c).mUDPAddress = .default ∧
        ∃ Data order threw, a = .datagram (t.client c).mUDPAddress Data order threw ∧
          Data.length = 66 ∧ Data.drop 2 = (s.client c).mMagic) ∧
    ∀ bs t, (∀ a ∈ bs, a.hasSource = true) →
      Execution.Along step (fun s _ => s.DistinctIDs) s bs → Execution.run step s bs = some t →
      ∀ c, (s.client c).mUDPAddress ≠ .default →
        (t.client c).mUDPAddress = (s.client c).mUDPAddress ∧ (t.client c).mMagic = [] := by
  have hinv : s.Inv := (inv_run inv_start hsource hids hrun).1
  refine ⟨hinv.toEndpointsBound, ?_, ?_⟩
  · exact fun a t hids hstep c hchange => address_change hinv hids hstep hchange
  · intro bs t hsource hids hrun c hbound
    obtain ⟨ht, hsame⟩ := inv_run hinv hsource hids hrun
    refine ⟨hsame c hbound, ht.magic_empty c ?_⟩
    rw [hsame c hbound]
    exact hbound

/-- A client gets its magic, brings it back, and sends a packet; after that somebody else sends
the same datagrams. -/
def handshake : List (UdpAction Unit) :=
  [.insertClient (), .setID () 0, .setMagic () (List.replicate 64 7),
    .datagram ⟨[127, 0, 0, 1], 5000⟩ ([1, 58] ++ List.replicate 64 7) [()] false,
    .datagram ⟨[127, 0, 0, 1], 5000⟩ ([1, 58] ++ ascii "p") [()] false,
    .datagram ⟨[127, 0, 0, 2], 6000⟩ ([1, 58] ++ List.replicate 64 7) [()] false,
    .datagram ⟨[127, 0, 0, 2], 6000⟩ ([1, 58] ++ ascii "p") [()] false]

theorem endpointsBound_after_handshake :
    ∃ s, Execution.run step (start Unit) handshake = some s ∧ s.EndpointsBound ∧
      (s.client ()).mUDPAddress = ⟨[127, 0, 0, 1], 5000⟩ ∧
      s.calls = [⟨(), ⟨[127, 0, 0, 1], 5000⟩, ascii "p"⟩] :=
  ⟨_, rfl, (endpointsBound_of_run handshake (by decide) (by decide) _ rfl).1, by decide, by decide⟩

end UdpServer
end BeamMP
