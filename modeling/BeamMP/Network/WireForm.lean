import BeamMP.Server.VehicleOwnership

/-!
# Unicast and broadcast

`Respond` sends a packet itself; `SendToAll` puts what goes over TCP into the queue
of the client, from which `Looper` sends it. Both choose the transport and whether
to compress by rules that are written out twice. For a client that is synced the
bytes on the wire are the same.
-/
namespace BeamMP

open Observables

section Wire

variable {κ α : Type}

/-- What a computation gives to the sockets. -/
def transmitted (m : ServerM κ α) (s : ServerState κ) : List (κ × Transport × Bytes) :=
  (final m s).sent.drop s.sent.length

/-- What a computation puts into the queue of a client. -/
def enqueued (m : ServerM κ α) (d : κ) (s : ServerState κ) : List Bytes :=
  ((final m s).client d).mPacketsSync.drop (s.client d).mPacketsSync.length

/-- Whether a computation throws, what it transmits, and what it adds to a queue. -/
structure Yields (m : ServerM κ α) (d : κ) (s : ServerState κ) (throws : Bool)
    (out : List (κ × Transport × Bytes)) (queued : List Bytes) : Prop where
  threw_eq : threw m s = throws
  sent_eq : (final m s).sent = s.sent ++ out
  queue_eq : ((final m s).client d).mPacketsSync = (s.client d).mPacketsSync ++ queued

variable {m : ServerM κ α} {d : κ} {s : ServerState κ} {throws : Bool}
  {out : List (κ × Transport × Bytes)} {queued : List Bytes}

theorem Yields.transmitted_eq (h : Yields m d s throws out queued) : transmitted m s = out := by
  rw [transmitted, h.sent_eq, List.drop_left]

theorem Yields.enqueued_eq (h : Yields m d s throws out queued) : enqueued m d s = queued := by
  rw [enqueued, h.queue_eq, List.drop_left]

theorem yields_pure (a : α) : Yields (pure a : ServerM κ α) d s false [] [] :=
  ⟨rfl, (List.append_nil _).symm, (List.append_nil _).symm⟩

theorem yields_throw (e : ServerException) : Yields (throw e : ServerM κ α) d s true [] [] :=
  ⟨rfl, (List.append_nil _).symm, (List.append_nil _).symm⟩

theorem Yields.bind {β : Type} {k : α → ServerM κ β} {out' : List (κ × Transport × Bytes)}
    {queued' : List Bytes} (hm : Yields m d s false out queued)
    (hk : ∀ a, Yields (k a) d (final m s) throws out' queued') :
    Yields (m >>= k) d s throws (out ++ out') (queued ++ queued') := by
  obtain ⟨a, ha⟩ := exists_ok_of_not_threw hm.threw_eq
  have hrun : (m >>= k) s = k a (final m s) := bind_of_ok ha
  have hfinal : final (m >>= k) s = final (k a) (final m s) := by
    unfold final
    rw [hrun]
    rfl
  refine ⟨?_, ?_, ?_⟩
  · rw [← (hk a).threw_eq]
    unfold threw
    rw [hrun]
  · rw [hfinal, (hk a).sent_eq, hm.sent_eq, List.append_assoc]
  · rw [hfinal, (hk a).queue_eq, hm.queue_eq, List.append_assoc]

theorem Yields.discard (hm : Yields m d s throws out queued) :
    Yields (do let _ ← m; pure () : ServerM κ Unit) d s throws out queued := by
  cases throws with
  | false =>
    have hbind := hm.bind fun _ => yields_pure ()
    rw [List.append_nil, List.append_nil] at hbind
    exact hbind
  | true =>
    obtain ⟨hthrew, hfinal⟩ := final_bind_of_threw (k := fun _ => pure ()) hm.threw_eq
    exact ⟨hthrew, hfinal ▸ hm.sent_eq, hfinal ▸ hm.queue_eq⟩

theorem yields_get_bind {k : ServerState κ → ServerM κ α}
    (h : Yields (k s) d s throws out queued) : Yields (get >>= k) d s throws out queued :=
  ⟨h.threw_eq, h.sent_eq, h.queue_eq⟩

theorem yields_getClient_bind {c : κ} {k : ServerClient → ServerM κ α}
    (h : Yields (k (s.client c)) d s throws out queued) :
    Yields (ServerM.getClient c >>= k) d s throws out queued :=
  ⟨h.threw_eq, h.sent_eq, h.queue_eq⟩

theorem yields_transmit (c : κ) (transport : Transport) (Data : Bytes) :
    Yields (ServerM.transmit c transport Data) d s false [(c, transport, Data)] [] :=
  ⟨rfl, rfl, (List.append_nil _).symm⟩

theorem yields_enqueuePacket [DecidableEq κ] (Packet : Bytes) :
    Yields (ServerM.enqueuePacket d Packet) d s false [] [Packet] := by
  refine ⟨rfl, (List.append_nil _).symm, ?_⟩
  exact congrArg ServerClient.mPacketsSync
    (s.update_self d fun c => { c with mPacketsSync := c.mPacketsSync ++ [Packet] })

theorem yields_disconnectClient [DecidableEq κ] :
    Yields (ServerM.disconnectClient d) d s false [] [] := by
  refine ⟨rfl, (List.append_nil _).symm, ?_⟩
  have hself := congrArg ServerClient.mPacketsSync
    (s.update_self d fun c => { c with disconnected := true })
  exact hself.trans (List.append_nil _).symm

/-- `CompressProperly` of a packet of more than 400 bytes. -/
def compressed (z : Zlib) (Data : Bytes) : Option Bytes :=
  if 400 < Data.length then compressProperly z Data else some Data

theorem compressLarge_eq {env : ServerEnv κ} (Data : Bytes) :
    ServerM.compressLarge env Data = ServerM.orThrow .compression (compressed env.zlib Data) := by
  unfold ServerM.compressLarge compressed
  split_ifs <;> rfl

theorem yields_compressLarge_bind {env : ServerEnv κ} {Data : Bytes} {k : Bytes → ServerM κ α}
    (h : ∀ Packet, compressed env.zlib Data = some Packet →
      Yields (k Packet) d s false (send Packet) (queue Packet)) :
    Yields (ServerM.compressLarge env Data >>= k) d s (compressed env.zlib Data).isNone
      ((compressed env.zlib Data).toList.flatMap send)
      ((compressed env.zlib Data).toList.flatMap queue) := by
  rw [compressLarge_eq]
  cases hcompressed : compressed env.zlib Data with
  | none => exact yields_throw _
  | some Packet =>
    have hPacket := h Packet hcompressed
    simp only [Option.toList_some, List.flatMap_cons, List.flatMap_nil, List.append_nil]
    exact ⟨hPacket.threw_eq, hPacket.sent_eq, hPacket.queue_eq⟩

end Wire

namespace ServerM

variable {κ : Type} [DecidableEq κ] {env : ServerEnv κ} {d : κ} {s : ServerState κ}

/-- What follows a `write` or a `send_to` can only disconnect the client. -/
theorem sent_yields (sends : ServerState κ → Bool) :
    Yields
      (do
        let s ← get
        if sends s then pure true
        else do
          disconnectClient d
          pure false : ServerM κ Bool) d s false [] [] := by
  apply yields_get_bind
  split_ifs
  · exact yields_pure true
  · exact yields_disconnectClient.bind fun _ => yields_pure false

variable (env)

/-- A client that is not syncing gets its packet at once, and `Looper` sends in any case. -/
theorem tcpSend_yields (Data : Bytes) {IsSync : Bool}
    (h : IsSync = true ∨ (s.client d).mIsSyncing = false) :
    Yields (tcpSend env d Data IsSync) d s false [(d, .tcp, sizeHeader.frame Data)] [] := by
  have hwrite : BeamMP.tcpSend (s.client d).mIsSyncing Data IsSync =
      .write (sizeHeader.frame Data) := by
    unfold BeamMP.tcpSend
    rcases h with h | h <;> simp [h]
  apply yields_getClient_bind
  rw [hwrite]
  exact (yields_transmit d .tcp _).bind fun _ => sent_yields _

/-- The bytes that `SendLarge` and an enqueued packet put on the wire. -/
theorem sendLarge_yields (Data : Bytes) (isSync : Bool)
    (h : (s.client d).mIsSyncing = false) :
    Yields (sendLarge env d Data isSync) d s (compressed env.zlib Data).isNone
      ((compressed env.zlib Data).toList.flatMap fun Packet =>
        [(d, .tcp, sizeHeader.frame Packet)])
      ((compressed env.zlib Data).toList.flatMap fun _ => []) :=
  yields_compressLarge_bind fun Packet _ => tcpSend_yields env Packet (Or.inr h)

theorem deliver_yields (Data : Bytes) :
    Yields (deliver env d ((compressed env.zlib Data).map .enqueue)) d s
      (compressed env.zlib Data).isNone [] (compressed env.zlib Data).toList := by
  cases compressed env.zlib Data with
  | none => exact yields_throw _
  | some Packet => exact yields_enqueuePacket Packet

theorem udpSend_yields (Data : Bytes) :
    ∃ throws out, Yields (udpSend env d Data) d s throws out [] := by
  by_cases hskip : (!(s.client d).mIsUDPConnected || (s.client d).disconnected) = true
  · refine ⟨false, [], yields_getClient_bind ?_⟩
    rw [if_pos hskip]
    exact yields_pure true
  · refine ⟨(compressed env.zlib Data).isNone,
      (compressed env.zlib Data).toList.flatMap fun Data => [(d, .udp, Data)],
      yields_getClient_bind ?_⟩
    have hqueue : [] = (compressed env.zlib Data).toList.flatMap fun _ => ([] : List Bytes) := by
      simp
    rw [if_neg hskip, hqueue]
    exact yields_compressLarge_bind fun Packet _ =>
      (yields_transmit d .udp Packet).bind fun _ => sent_yields env.udpSends

theorem sendToAllRoute_eq (z : Zlib) (C : UInt8) (rest : Bytes) (Rel : Bool) :
    sendToAllRoute z (C :: rest) Rel =
      if Rel || C ∈ ascii "WYVE" || 1024 < z.compressBound (C :: rest).length then
        if C ∈ ascii "OT" || 1000 < (C :: rest).length then
          (compressed z (C :: rest)).map .enqueue
        else some (.enqueue (C :: rest))
      else some (.udp (C :: rest)) := by
  simp only [sendToAllRoute, compressed]
  split_ifs <;> rfl

theorem sendToClient_yields {Data : Bytes} {Rel throws : Bool}
    {out : List (κ × Transport × Bytes)} {queued : List Bytes}
    (hsynced : (s.client d).mIsSynced = true)
    (h : Yields (deliver env d (sendToAllRoute env.zlib Data Rel)) d s throws out queued) :
    Yields (sendToClient env Data Rel d) d s throws out queued := by
  apply yields_getClient_bind
  rw [if_pos (by rw [hsynced]; rfl)]
  exact h

variable (c : κ)

/-- `Respond` and the handling of a synced client by `SendToAll` end alike and put the same bytes
on the same transport, with the `TCPSend` of `Looper` for what is in the queue. -/
theorem respond_sameWire_sendToAll {packet : Bytes} (hne : packet ≠ []) (Rel isSync : Bool)
    (s t : ServerState κ) (hsynced : (s.client c).mIsSynced = true)
    (hsyncing : (s.client c).mIsSyncing = false) :
    threw (respond env c packet Rel isSync) s = threw (sendToClient env packet Rel c) s ∧
    transmitted (respond env c packet Rel isSync) s =
      transmitted (sendToClient env packet Rel c) s ++
        (enqueued (sendToClient env packet Rel c) c s).flatMap fun QData =>
          transmitted (tcpSend env c QData true) t := by
  obtain ⟨C, rest, rfl⟩ := List.exists_cons_of_ne_nil hne
  have hlooper : ∀ QData, transmitted (tcpSend env c QData true) t =
      [(c, .tcp, sizeHeader.frame QData)] := fun QData =>
    (tcpSend_yields env QData (Or.inl rfl)).transmitted_eq
  simp only [hlooper]
  have hroute := sendToAllRoute_eq env.zlib C rest Rel
  have hbroadcast : ∀ throws out queued,
      Yields (deliver env c (sendToAllRoute env.zlib (C :: rest) Rel)) c s throws out queued →
      Yields (sendToClient env (C :: rest) Rel c) c s throws out queued := fun _ _ _ =>
    sendToClient_yields env hsynced
  unfold respond goesByTcp
  dsimp only
  split_ifs at hroute ⊢ with htcp hlarge
  · rw [hroute] at hbroadcast
    have hunicast := sendLarge_yields env (C :: rest) isSync hsyncing
    have hqueued := hbroadcast _ _ _ (deliver_yields env (C :: rest))
    rw [hunicast.threw_eq, hqueued.threw_eq, hunicast.transmitted_eq, hqueued.transmitted_eq,
      hqueued.enqueued_eq]
    exact ⟨rfl, rfl⟩
  · rw [hroute] at hbroadcast
    have hunicast : Yields (tcpSend env c (C :: rest) isSync) c s false
        [(c, .tcp, sizeHeader.frame (C :: rest))] [] := tcpSend_yields env _ (Or.inr hsyncing)
    have hqueued := hbroadcast _ _ _ (yields_enqueuePacket (C :: rest))
    rw [hunicast.threw_eq, hqueued.threw_eq, hunicast.transmitted_eq, hqueued.transmitted_eq,
      hqueued.enqueued_eq]
    exact ⟨rfl, rfl⟩
  · rw [hroute] at hbroadcast
    obtain ⟨throws, out, hunicast⟩ : ∃ throws out,
        Yields (udpSend env c (C :: rest)) c s throws out [] := udpSend_yields env _
    have hdirect := hbroadcast _ _ _ hunicast.discard
    rw [hunicast.threw_eq, hdirect.threw_eq, hunicast.transmitted_eq, hdirect.transmitted_eq,
      hdirect.enqueued_eq]
    exact ⟨rfl, (List.append_nil out).symm⟩

end ServerM

/-- A reliable edit of a vehicle, which goes through the queue when it is broadcast. -/
theorem respond_sameWire_edit :
    transmitted (ServerM.respond quietEnv false (ascii "Oc:1-0:\x7b\x7d") true false) twoClients =
      transmitted (ServerM.sendToClient quietEnv (ascii "Oc:1-0:\x7b\x7d") true false) twoClients ++
        (enqueued (ServerM.sendToClient quietEnv (ascii "Oc:1-0:\x7b\x7d") true false) false
          twoClients).flatMap fun QData =>
            transmitted (ServerM.tcpSend quietEnv false QData true) twoClients :=
  (ServerM.respond_sameWire_sendToAll quietEnv false (by decide) true false twoClients twoClients
    rfl rfl).2

end BeamMP
