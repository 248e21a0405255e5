import BeamMP.Network.Frames

/-!
# The round trip of a stream of packets

Whatever `SendLarge` and `TCPSend` write to a client that is not syncing, repeated
`TCPRcv` calls read back packet by packet, whether a packet was compressed or not.
-/
namespace BeamMP

/-- A call that sends one packet. -/
inductive SendCall
  | sendLarge (Data : Bytes) (isSync : Bool)
  | tcpSend (Data : Bytes) (IsSync : Bool)

def SendCall.packet : SendCall → Bytes
  | .sendLarge Data _ => Data
  | .tcpSend Data _ => Data

/-- The bytes that reach the socket. -/
def SendAction.written : SendAction → Bytes
  | .write ToSend => ToSend
  | _ => []

/-- A packet that can be told apart from a failed read and from compressed data. -/
structure Sendable (Data : Bytes) : Prop where
  ne_nil : Data ≠ []
  size_le : Data.length ≤ maxDecompressionBufferSize
  not_marked : ¬ ascii "ABG:" <+: Data

variable (z : Zlib)

def SendCall.action (isSyncing : Bool) : SendCall → Option SendAction
  | .sendLarge Data isSync => BeamMP.sendLarge z isSyncing Data isSync
  | .tcpSend Data IsSync => some (BeamMP.tcpSend isSyncing Data IsSync)

/-- The bytes that the calls write in order to a client that is not syncing. -/
def streamOf : List SendCall → Option Bytes
  | [] => some []
  | s :: ss => (s.action z false).bind fun a => (streamOf ss).map (a.written ++ ·)

/-- The frame of a call on the wire: `SendLarge` compresses the packets longer than 400 bytes, and
these only. -/
def OnWire : SendCall → Bytes → Prop
  | .sendLarge Data _, frame =>
    if 400 < Data.length then
      ∃ y, z.compress (z.compressBound Data.length) Data = .ok y ∧
        frame = sizeHeader.frame (ascii "ABG:" ++ y)
    else frame = sizeHeader.frame Data
  | .tcpSend Data _, frame => frame = sizeHeader.frame Data

/-- Read packets until a read is empty, as the loop of `TCPClient` does, but no more than
a number of them. -/
def rcvPackets : ℕ → Receiver → List Bytes × Receiver
  | 0, c => ([], c)
  | n + 1, c =>
    let r := tcpRcv z c
    if r.data = [] then ([], r.client)
    else (r.data :: (rcvPackets n r.client).1, (rcvPackets n r.client).2)

variable {z}

theorem tcpSend_of_not_syncing (Data : Bytes) (IsSync : Bool) :
    tcpSend false Data IsSync = .write (sizeHeader.frame Data) := by
  simp [tcpSend]

/-- Every call writes one frame, in the form that its packet has on the wire, which is within
the limit of the receiver and decodes to the packet. -/
theorem Zlib.Lawful.action_spec (hz : z.Lawful) {s : SendCall} (hs : Sendable s.packet) :
    ∃ Data, s.action z false = some (.write (sizeHeader.frame Data)) ∧
      OnWire z s (sizeHeader.frame Data) ∧ Data.length < 100 * MB ∧
      decodeData z Data = s.packet := by
  have hbound := hs.size_le
  have hmax : 2 * maxDecompressionBufferSize + 68 < 100 * MB := by decide
  cases s with
  | sendLarge Data isSync =>
    simp only [SendCall.packet, SendCall.action, sendLarge, OnWire] at hs hbound ⊢
    split_ifs with hlarge
    · obtain ⟨w, hw, hcompress, -⟩ := hz.exists_comp Data
      have hy : compressProperly z Data = some (ascii "ABG:" ++ w) := by simp [compressProperly, hw]
      obtain ⟨hdecode, hlen⟩ := hz.decodeData_compressProperly hy hbound
      refine ⟨ascii "ABG:" ++ w, ?_, ⟨w, hcompress, rfl⟩, by omega, hdecode⟩
      simp only [hy, Option.map_some, tcpSend_of_not_syncing]
    · refine ⟨Data, ?_, rfl, by omega, decodeData_of_not_prefix hs.not_marked⟩
      rw [tcpSend_of_not_syncing]
  | tcpSend Data IsSync =>
    simp only [SendCall.packet, SendCall.action, OnWire] at hs hbound ⊢
    refine ⟨Data, ?_, rfl, by omega, decodeData_of_not_prefix hs.not_marked⟩
    rw [tcpSend_of_not_syncing]

theorem rcvPackets_nil (n : ℕ) (name : Bytes) :
    rcvPackets z n ⟨name, false, []⟩ = ([], ⟨name, false, []⟩) := by
  cases n with
  | zero => rfl
  | succ n => rfl

/-- What the calls write is, frame by frame, the packets in their form on the wire; it is read
back as the same list of packets, and nothing is left. -/
theorem rcvPackets_streamOf (z : Zlib) (hz : z.Lawful) (name : Bytes) (hname : name ≠ [])
    (calls : List SendCall) (hcalls : ∀ s ∈ calls, Sendable s.packet) :
    ∃ stream, streamOf z calls = some stream ∧
      (∃ frames, stream = frames.flatten ∧ List.Forall₂ (OnWire z) calls frames) ∧
      ∀ n, calls.length ≤ n →
        rcvPackets z n ⟨name, false, stream⟩ =
          (calls.map SendCall.packet, ⟨name, false, []⟩) := by
  induction calls with
  | nil => exact ⟨[], rfl, ⟨[], rfl, .nil⟩, fun n _ => rcvPackets_nil n name⟩
  | cons s ss ih =>
    obtain ⟨stream, hstream, ⟨frames, hflatten, hframes⟩, hread⟩ :=
      ih fun t ht => hcalls t (List.mem_cons_of_mem _ ht)
    have hs := hcalls s List.mem_cons_self
    obtain ⟨Data, haction, hwire, hsize, hdecode⟩ := hz.action_spec hs
    refine ⟨sizeHeader.frame Data ++ stream, ?_, ?_, ?_⟩
    · simp [streamOf, haction, hstream, SendAction.written]
    · exact ⟨sizeHeader.frame Data :: frames, by rw [hflatten, List.flatten_cons],
        .cons hwire hframes⟩
    · intro n hn
      cases n with
      | zero => simp at hn
      | succ n =>
        have hrcv : tcpRcv z ⟨name, false, sizeHeader.frame Data ++ stream⟩ =
            ⟨s.packet, ⟨name, false, stream⟩, none⟩ := by
          rw [← hdecode]
          exact tcpRcv_frame (c := ⟨name, false, []⟩) rfl hname hsize
        have hrest := hread n (Nat.le_of_succ_le_succ hn)
        simp [rcvPackets, hrcv, hs.ne_nil, hrest]

/-- A chat message of 402 bytes, which is compressed, and a position request in one stream. -/
theorem rcvPackets_two_packets :
    ∃ stream, streamOf storingZlib
        [.sendLarge (ascii "C:" ++ List.replicate 400 104) false, .tcpSend (ascii "p") true] =
          some stream ∧
      (∃ frames, stream = frames.flatten ∧ List.Forall₂ (OnWire storingZlib)
        [.sendLarge (ascii "C:" ++ List.replicate 400 104) false, .tcpSend (ascii "p") true]
        frames) ∧
      ∀ n, 2 ≤ n → rcvPackets storingZlib n ⟨ascii "player", false, stream⟩ =
        ([ascii "C:" ++ List.replicate 400 104, ascii "p"], ⟨ascii "player", false, []⟩) :=
  rcvPackets_streamOf storingZlib storingZlib_lawful (ascii "player") (by decide)
    [.sendLarge (ascii "C:" ++ List.replicate 400 104) false, .tcpSend (ascii "p") true] (by
      intro s hs
      rcases List.mem_cons.mp hs with rfl | hs
      · exact ⟨by decide +kernel, by decide +kernel, by decide +kernel⟩
      · obtain rfl := List.mem_singleton.mp hs
        exact ⟨by decide, by decide, by decide⟩)

end BeamMP
