import BeamMP.Network.UdpBinding
import BeamMP.Server.GlobalParser

/-!
# The bytes of a datagram

`UDPServerMain` reads the first byte of a datagram for the ID of its client and
erases two bytes before the packet goes to `GlobalParser`. The position of the
first `:` is the only test of the length, and a datagram of one byte passes it.
`GlobalParser` takes the buffer by reference, so that a further client with the
same ID is served from what is left of it.
-/
namespace BeamMP

open Bytes

inductive BufferEvent
  | front (size : ℕ)
  | eraseTwo (size : ℕ)
  | globalParser (Packet : Bytes)

/-- `Data.at(0)` and the erase of two bytes need as many. -/
def BufferEvent.inside : BufferEvent → Bool
  | .front size => 0 < size
  | .eraseTwo size => 2 ≤ size
  | .globalParser _ => true

def BufferEvent.parsed : BufferEvent → Option Bytes
  | .globalParser Packet => some Packet
  | _ => none

/-- A client as the iteration finds it, and whether `GlobalParser` throws for its packet. -/
structure UdpVisit where
  client : UdpClient
  threw : Bool

/-- What is left of a buffer that `GlobalParser` took. -/
def leftByParser (z : Zlib) (Packet : Bytes) : Bytes :=
  match decodePacket z Packet with
  | .ok Packet => Packet
  | .error _ => Packet.drop 4

/-- The iteration of `UDPServerMain` over the clients, with what it does to the buffer. A client
that waits for its magic ends it in any case. -/
def visitLog (z : Zlib) (source : Endpoint) (ID : ℤ) : List UdpVisit → Bytes → List BufferEvent
  | [], _ => []
  | v :: visits, Data =>
    if v.client.mID = ID then
      if UdpServer.Awaiting v.client then []
      else if v.client.mUDPAddress = source then
        if Data.length < 2 then [.eraseTwo Data.length]
        else .eraseTwo Data.length :: .globalParser (Data.drop 2) ::
          if v.threw then [] else visitLog z source ID visits (leftByParser z (Data.drop 2))
      else []
    else visitLog z source ID visits Data

/-- What `UDPServerMain` does with a datagram. -/
def receiveLog (z : Zlib) (source : Endpoint) (Data : Bytes) (visits : List UdpVisit) :
    List BufferEvent :=
  match Data with
  | [] => []
  | Code :: rest =>
    (if rest = [] then [.front (Code :: rest).length] else []) ++
      if Code = 'P'.toUInt8 ∧ rest = [] then []
      else if 2 < (Code :: rest).idxOf ':'.toUInt8 then []
      else .front (Code :: rest).length ::
        visitLog z source (UdpServer.datagramID Code) visits (Code :: rest)

def StaysInside (log : List BufferEvent) : Prop := ∀ e ∈ log, e.inside = true

instance (log : List BufferEvent) : Decidable (StaysInside log) :=
  inferInstanceAs (Decidable (∀ e ∈ log, _))

def UdpVisit.Parses (source : Endpoint) (v : UdpVisit) : Prop :=
  ¬UdpServer.Awaiting v.client ∧ v.client.mUDPAddress = source

def addressed (ID : ℤ) (visits : List UdpVisit) : List UdpVisit :=
  visits.filter (·.client.mID = ID)

def bufferAfter (z : Zlib) (Data : Bytes) (k : ℕ) : Bytes :=
  (fun Data => leftByParser z (Data.drop 2))^[k] Data

def PassesTests (Data : Bytes) : Prop :=
  Data ≠ [] ∧ Data ≠ ascii "P" ∧ Data.idxOf ':'.toUInt8 ≤ 2

/-- A client whose packet is parsed, behind others whose packets were parsed, finds two bytes in
the buffer. -/
def LongEnough (z : Zlib) (source : Endpoint) (ID : ℤ) (visits : List UdpVisit) (Data : Bytes) :
    Prop :=
  ∀ before v after, addressed ID visits = before ++ v :: after →
    (∀ w ∈ before, w.Parses source ∧ w.threw = false) → v.Parses source →
    2 ≤ (bufferAfter z Data before.length).length

section Log

variable {z : Zlib} {source : Endpoint} {ID : ℤ} {v : UdpVisit} {visits : List UdpVisit}
  {Data : Bytes}

theorem bufferAfter_succ (k : ℕ) :
    bufferAfter z Data (k + 1) = bufferAfter z (leftByParser z (Data.drop 2)) k := by
  unfold bufferAfter
  rw [Function.iterate_succ_apply]

theorem longEnough_of_ne (h : v.client.mID ≠ ID) :
    LongEnough z source ID (v :: visits) Data ↔ LongEnough z source ID visits Data := by
  have hskip : addressed ID (v :: visits) = addressed ID visits := by simp [addressed, h]
  unfold LongEnough
  rw [hskip]

theorem longEnough_of_stops (h : v.client.mID = ID) (hstops : ¬v.Parses source) :
    LongEnough z source ID (v :: visits) Data := by
  intro before w after hsplit hbefore hw
  have hfirst : addressed ID (v :: visits) = v :: addressed ID visits := by simp [addressed, h]
  rw [hfirst] at hsplit
  cases before with
  | nil =>
    cases hsplit
    exact absurd hw hstops
  | cons u before =>
    obtain ⟨rfl, -⟩ := List.cons.inj hsplit
    exact absurd (hbefore v List.mem_cons_self).1 hstops

theorem longEnough_of_parses (h : v.client.mID = ID) (hparses : v.Parses source) :
    LongEnough z source ID (v :: visits) Data ↔
      2 ≤ Data.length ∧
        (v.threw = false → LongEnough z source ID visits (leftByParser z (Data.drop 2))) := by
  have hfirst : addressed ID (v :: visits) = v :: addressed ID visits := by simp [addressed, h]
  unfold LongEnough
  rw [hfirst]
  constructor
  · intro hlong
    refine ⟨hlong [] v (addressed ID visits) rfl (fun w hw => nomatch hw) hparses, ?_⟩
    intro hthrew before w after hsplit hbefore hw
    have hbefore' : ∀ u ∈ v :: before, u.Parses source ∧ u.threw = false := by
      intro u hu
      rcases List.mem_cons.mp hu with rfl | hu
      · exact ⟨hparses, hthrew⟩
      · exact hbefore u hu
    have hle := hlong (v :: before) w after (by rw [hsplit]; rfl) hbefore' hw
    rw [List.length_cons, bufferAfter_succ] at hle
    exact hle
  · rintro ⟨hlength, hrest⟩ before w after hsplit hbefore hw
    cases before with
    | nil => exact hlength
    | cons u before =>
      obtain ⟨rfl, hafter⟩ := List.cons.inj hsplit
      rw [List.length_cons, bufferAfter_succ]
      exact hrest (hbefore v List.mem_cons_self).2 before w after hafter
        (fun u hu => hbefore u (List.mem_cons_of_mem v hu)) hw

theorem staysInside_cons {e : BufferEvent} {log : List BufferEvent} :
    StaysInside (e :: log) ↔ e.inside = true ∧ StaysInside log := List.forall_mem_cons

theorem staysInside_nil : StaysInside [] := fun _ he => nomatch he

/-- Induction on the clients still to come; the buffer is what the ones before left. -/
theorem staysInside_visitLog_iff (z : Zlib) (source : Endpoint) (ID : ℤ)
    (visits : List UdpVisit) (Data : Bytes) :
    StaysInside (visitLog z source ID visits Data) ↔ LongEnough z source ID visits Data := by
  induction visits generalizing Data with
  | nil =>
    refine iff_of_true staysInside_nil fun before v after hsplit => ?_
    exact absurd hsplit.symm (List.append_ne_nil_of_right_ne_nil before (List.cons_ne_nil v after))
  | cons v visits ih =>
    unfold visitLog
    by_cases hid : v.client.mID = ID
    · rw [if_pos hid]
      by_cases hawaiting : UdpServer.Awaiting v.client
      · rw [if_pos hawaiting]
        exact iff_of_true staysInside_nil (longEnough_of_stops hid fun h => h.1 hawaiting)
      · rw [if_neg hawaiting]
        by_cases hsource : v.client.mUDPAddress = source
        · rw [if_pos hsource, longEnough_of_parses hid ⟨hawaiting, hsource⟩]
          by_cases hshort : Data.length < 2
          · rw [if_pos hshort, staysInside_cons]
            simp only [BufferEvent.inside, decide_eq_true_eq]
            exact ⟨fun h => absurd h.1 (by omega), fun h => absurd h.1 (by omega)⟩
          · rw [if_neg hshort, staysInside_cons, staysInside_cons]
            simp only [BufferEvent.inside, decide_eq_true_eq, true_and]
            refine and_congr_right fun _ => ?_
            cases v.threw with
            | true => exact iff_of_true staysInside_nil (fun h => nomatch h)
            | false => exact (ih _).trans ⟨fun h _ => h, fun h => h rfl⟩
        · rw [if_neg hsource]
          exact iff_of_true staysInside_nil (longEnough_of_stops hid fun h => hsource h.2)
    · rw [if_neg hid, longEnough_of_ne hid]
      exact ih Data

end Log

/-- The loop stays inside the buffer exactly when the datagram is sorted out before it gets to
the clients, or each client it is parsed for finds two bytes in the buffer. -/
theorem receiveLog_staysInside_iff (z : Zlib) (source : Endpoint) (Data : Bytes)
    (visits : List UdpVisit) :
    StaysInside (receiveLog z source Data visits) ↔
      (PassesTests Data →
        LongEnough z source (UdpServer.datagramID (Data.headD 0)) visits Data) := by
  cases Data with
  | nil => exact iff_of_true staysInside_nil fun h => absurd rfl h.1
  | cons Code rest =>
    have hping : (Code = 'P'.toUInt8 ∧ rest = []) ↔ Code :: rest = ascii "P" := by
      simp [ascii]
    have hfront : StaysInside (if rest = [] then [.front (Code :: rest).length] else []) := by
      by_cases hrest : rest = []
      · rw [if_pos hrest, staysInside_cons]
        exact ⟨by simp [BufferEvent.inside], staysInside_nil⟩
      · rw [if_neg hrest]
        exact staysInside_nil
    have hsplit : ∀ log, StaysInside ((if rest = [] then [.front (Code :: rest).length] else [])
        ++ log) ↔ StaysInside log := by
      intro log
      refine List.forall_mem_append.trans ⟨fun h => h.2, fun h => ⟨hfront, h⟩⟩
    unfold receiveLog
    rw [hsplit]
    by_cases hP : Code = 'P'.toUInt8 ∧ rest = []
    · rw [if_pos hP]
      exact iff_of_true staysInside_nil fun h => absurd (hping.mp hP) h.2.1
    · rw [if_neg hP]
      by_cases hsep : 2 < (Code :: rest).idxOf ':'.toUInt8
      · rw [if_pos hsep]
        refine iff_of_true staysInside_nil fun h => ?_
        have hle : (Code :: rest).idxOf ':'.toUInt8 ≤ 2 := h.2.2
        omega
      · rw [if_neg hsep, staysInside_cons, staysInside_visitLog_iff]
        have hpasses : PassesTests (Code :: rest) :=
          ⟨List.cons_ne_nil Code rest, fun h => hP (hping.mpr h), by omega⟩
        exact ⟨fun h _ => h.2, fun h => ⟨by simp [BufferEvent.inside], h hpasses⟩⟩

/-- A client that is bound to the endpoint of its launcher sends a datagram of one byte, its
ID. -/
theorem not_staysInside_of_one_byte :
    ∃ s, Execution.run UdpServer.step (UdpServer.start Unit) UdpServer.handshake = some s ∧
      ¬StaysInside (receiveLog storingZlib ⟨[127, 0, 0, 1], 5000⟩ [1] [⟨s.client (), false⟩]) :=
  ⟨_, rfl, by decide⟩

section Unique

variable {z : Zlib} {source : Endpoint} {Data : Bytes}

variable {κ : Type} {s : UdpServer κ}

theorem visitLog_of_forall_ne {ID : ℤ} {threw : Bool} (clients : List κ) (Data : Bytes)
    (h : ∀ c ∈ clients, (s.client c).mID ≠ ID) :
    visitLog z source ID (clients.map fun c => ⟨s.client c, threw⟩) Data = [] := by
  induction clients with
  | nil => rfl
  | cons c clients ih =>
    rw [List.map_cons]
    unfold visitLog
    rw [if_neg (h c List.mem_cons_self)]
    exact ih fun d hd => h d (List.mem_cons_of_mem c hd)

variable [DecidableEq κ]

/-- Without a second client of the same ID, the packets of the buffer are the ones the server
has on record. -/
theorem visit_calls {ID : ℤ} {threw : Bool} {clients : List κ} (hnodup : clients.Nodup)
    (hdistinct : ∀ c ∈ clients, ∀ d ∈ clients, (s.client c).mID = ID → (s.client d).mID = ID →
      c = d) (hlength : 2 ≤ Data.length) :
    (UdpServer.visit source ID threw clients Data s).calls.map (·.packet) =
      s.calls.map (·.packet) ++
        (visitLog z source ID (clients.map fun c => ⟨s.client c, threw⟩) Data).filterMap
          BufferEvent.parsed := by
  induction clients with
  | nil => simp [UdpServer.visit, visitLog]
  | cons c clients ih =>
    obtain ⟨hnot, hnodup⟩ := List.nodup_cons.mp hnodup
    rw [List.map_cons]
    unfold UdpServer.visit visitLog
    by_cases hid : (s.client c).mID = ID
    · have hothers : ∀ d ∈ clients, (s.client d).mID ≠ ID := by
        intro d hd hsame
        obtain rfl := hdistinct c List.mem_cons_self d (List.mem_cons_of_mem c hd) hid hsame
        exact hnot hd
      rw [if_pos hid, if_pos hid]
      by_cases hawaiting : UdpServer.Awaiting (s.client c)
      · rw [if_pos hawaiting, if_pos hawaiting]
        split_ifs <;> simp [UdpServer.bind, UdpServer.update]
      · rw [if_neg hawaiting, if_neg hawaiting]
        by_cases hsource : (s.client c).mUDPAddress = source
        · rw [if_pos hsource, if_pos hsource, if_neg (not_lt.mpr hlength)]
          have hvisit : UdpServer.visit source ID threw clients (Data.drop 2)
              (s.parse c source (Data.drop 2)) = s.parse c source (Data.drop 2) :=
            UdpServer.visit_of_forall_ne clients (Data.drop 2) hothers
          simp only [hvisit, visitLog_of_forall_ne clients _ hothers, ite_self]
          simp only [UdpServer.parse, List.map_append]
          rfl
        · rw [if_neg hsource, if_neg hsource]
          simp
    · rw [if_neg hid, if_neg hid]
      exact ih hnodup fun d hd e he =>
        hdistinct d (List.mem_cons_of_mem c hd) e (List.mem_cons_of_mem c he)

end Unique

end BeamMP
