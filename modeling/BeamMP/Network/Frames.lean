import BeamMP.Common.Compression
import BeamMP.Foundation.Framing

/-!
# The TCP protocol

A packet travels as a header of 4 bytes, which is its size as a signed number in
little-endian order, followed by the data. Data that starts with `ABG:` is
compressed. The socket of a client is the list of the bytes its peer has yet to
be read; a read that fails or times out is one that finds too few of them.
-/
namespace BeamMP

def int32 (n : ℕ) : ℤ := (BitVec.ofNat 32 n).toInt

/-- The object representation of `int32_t(n)`. -/
def sizeBytes (n : ℕ) : Bytes :=
  [UInt8.ofNat n, UInt8.ofNat (n / 256), UInt8.ofNat (n / 65536), UInt8.ofNat (n / 16777216)]

/-- The `int32_t` that 4 bytes represent. -/
def headerValue (HeaderData : Bytes) : ℤ :=
  int32 (HeaderData.foldr (fun b n => b.toNat + 256 * n) 0)

theorem int32_eq_self {n : ℕ} (h : n < 2 ^ 31) : int32 n = n := by
  rw [int32, BitVec.toInt_eq_toNat_of_lt] <;> simp <;> omega

theorem int32_nonneg_iff {n : ℕ} (h : n < 2 ^ 32) : 0 ≤ int32 n ↔ n < 2 ^ 31 := by
  rw [int32, BitVec.toInt_eq_toNat_cond]
  simp
  omega

theorem headerValue_sizeBytes {n : ℕ} (h : n < 2 ^ 31) : headerValue (sizeBytes n) = n := by
  have hsum : (sizeBytes n).foldr (fun b n => b.toNat + 256 * n) 0 = n := by
    simp [sizeBytes]
    omega
  rw [headerValue, hsum, int32_eq_self h]

theorem ofNat_eq_of_mod {n : ℕ} {b : UInt8} (h : n % 256 = b.toNat) : UInt8.ofNat n = b := by
  apply UInt8.toNat_inj.mp
  simpa using h

theorem sizeBytes_headerValue {h : Bytes} (hlen : h.length = 4) (hnonneg : 0 ≤ headerValue h) :
    (headerValue h).toNat < 2 ^ 31 ∧ sizeBytes (headerValue h).toNat = h := by
  match h, hlen with
  | [b0, b1, b2, b3], _ =>
    have h0 := b0.toNat_lt
    have h1 := b1.toNat_lt
    have h2 := b2.toNat_lt
    have h3 := b3.toNat_lt
    simp only [headerValue, List.foldr] at hnonneg ⊢
    have hlt := (int32_nonneg_iff (by omega)).mp hnonneg
    rw [int32_eq_self hlt]
    refine ⟨by omega, ?_⟩
    simp only [sizeBytes, Int.toNat_natCast]
    rw [ofNat_eq_of_mod (b := b0) (by omega), ofNat_eq_of_mod (b := b1) (by omega),
      ofNat_eq_of_mod (b := b2) (by omega), ofNat_eq_of_mod (b := b3) (by omega)]

/-- The header of the protocol carries the sizes that are not negative as `int32_t`. -/
def sizeHeader : Framing.Header UInt8 where
  width := 4
  limit := 2 ^ 31
  encode := sizeBytes
  decode h := if headerValue h < 0 then none else some (headerValue h).toNat
  width_pos := by decide
  length_encode _ := rfl
  decode_encode n hn := by simp [headerValue_sizeBytes hn]
  encode_of_decode h n hlen hdecode := by
    obtain ⟨hneg, heq⟩ := Option.ite_none_left_eq_some.mp hdecode
    cases heq
    exact sizeBytes_headerValue hlen (Int.not_lt.mp hneg)

inductive SendAction
  | enqueue (Data : Bytes)
  | drop
  | write (ToSend : Bytes)
deriving DecidableEq

/-- `TCPSend`: packets to a client that is syncing wait in its queue or get lost. -/
def tcpSend (isSyncing : Bool) (Data : Bytes) (IsSync : Bool) : SendAction :=
  if !IsSync && isSyncing then
    match Data with
    | [] => .drop
    | C :: _ => if C ∈ ascii "OACE" then .enqueue Data else .drop
  else .write (sizeHeader.frame Data)

variable (z : Zlib)

/-- `SendLarge`, where `none` is the exception of `Comp`. -/
def sendLarge (isSyncing : Bool) (Data : Bytes) (isSync : Bool) : Option SendAction :=
  if 400 < Data.length then (compressProperly z Data).map fun Data => tcpSend isSyncing Data isSync
  else some (tcpSend isSyncing Data isSync)

/-- A client as `TCPRcv` sees it: its name, whether it is disconnected, and the bytes that
its socket will deliver before it fails. -/
structure Receiver where
  name : Bytes
  disconnected : Bool
  stream : Bytes
deriving DecidableEq

/-- The result of `TCPRcv`, the client after it, and the reason of a kick. -/
structure Received where
  data : Bytes
  client : Receiver
  kicked : Option Bytes
deriving DecidableEq

def MB : ℕ := 1024 * 1024

/-- The end of `TCPRcv`, where both exceptions of `DeComp` make the packet empty. -/
def decodeData (Data : Bytes) : Bytes :=
  if ascii "ABG:" <+: Data then
    match deComp z (Data.drop 4) with
    | .ok output => output
    | .error _ => []
  else Data

def tcpRcv (c : Receiver) : Received :=
  if c.disconnected then ⟨[], c, none⟩
  else
    match Framing.takeExactly 4 c.stream with
    | none => ⟨[], { c with stream := [] }, none⟩
    | some (HeaderData, rest) =>
      let Header := headerValue HeaderData
      let maxHeaderSize : ℤ := if c.name = [] then 4096 else (100 * MB : ℕ)
      if Header < 0 then
        ⟨[], { c with disconnected := true, stream := rest },
          some (ascii "Invalid packet - header negative")⟩
      else if Header < maxHeaderSize then
        match Framing.takeExactly Header.toNat rest with
        | none => ⟨[], { c with stream := [] }, none⟩
        | some (Data, rest) => ⟨decodeData z Data, { c with stream := rest }, none⟩
      else
        ⟨[], { c with disconnected := true, stream := rest },
          some (ascii "Header size limit exceeded")⟩

variable {z} {c : Receiver}

/-- A complete frame at the front of the stream is read, and only that. -/
theorem tcpRcv_frame {Data rest : Bytes} (hconnected : c.disconnected = false) (hname : c.name ≠ [])
    (hsize : Data.length < 100 * MB) :
    tcpRcv z { c with stream := sizeHeader.frame Data ++ rest } =
      ⟨decodeData z Data, { c with stream := rest }, none⟩ := by
  have hlimit : (100 * MB : ℕ) < 2 ^ 31 := by decide
  have hheader : headerValue (sizeBytes Data.length) = Data.length :=
    headerValue_sizeBytes (hsize.trans hlimit)
  have htake : Framing.takeExactly 4 (sizeHeader.frame Data ++ rest) =
      some (sizeBytes Data.length, Data ++ rest) := by
    rw [Framing.Header.frame, List.append_assoc]
    exact Framing.takeExactly_of_length _ rfl
  have hnonneg : ¬ ((Data.length : ℕ) : ℤ) < 0 := by omega
  have hbelow : ((Data.length : ℕ) : ℤ) < (100 * MB : ℕ) := by exact_mod_cast hsize
  simp only [tcpRcv, hconnected, htake, hheader, hname, hnonneg, hbelow, if_true, if_false,
    Int.toNat_natCast, Framing.takeExactly_append, Bool.false_eq_true]

theorem decodeData_of_not_prefix {Data : Bytes} (h : ¬ ascii "ABG:" <+: Data) :
    decodeData z Data = Data := if_neg h

theorem Zlib.Lawful.decodeData_compressProperly (hz : z.Lawful) {Data y : Bytes}
    (hy : compressProperly z Data = some y) (hsize : Data.length ≤ maxDecompressionBufferSize) :
    decodeData z y = Data ∧ y.length ≤ 2 * Data.length + 68 := by
  obtain ⟨w, hw, -, hlen⟩ := hz.exists_comp Data
  obtain rfl : ascii "ABG:" ++ w = y := by simpa [compressProperly, hw] using hy
  have hdrop : (ascii "ABG:" ++ w).drop 4 = w := rfl
  have hlength : (ascii "ABG:" ++ w).length = w.length + 4 := by simp [ascii]
  refine ⟨?_, by omega⟩
  rw [decodeData, if_pos (List.prefix_append _ _), hdrop, hz.deComp_comp hw hsize]

end BeamMP
