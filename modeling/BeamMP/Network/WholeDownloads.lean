import BeamMP.Network.SendFile

/-!
# Downloads that are whole

After the packet `AG` the bytes of the file follow without a header, so a client that
gets less than the whole file has to be disconnected.
-/
namespace BeamMP

namespace SendfileResult

/-- The loop goes on after this result. -/
def keepsGoing : SendfileResult → Bool
  | sent n => 0 < n
  | eintr | eagain => true
  | error => false

def count : SendfileResult → ℕ
  | sent n => n
  | eintr | eagain | error => 0

end SendfileResult

def sentTotal (results : List SendfileResult) : ℕ := (results.map SendfileResult.count).sum

section Loop

variable {content : Bytes} {ToSendTotal TotalSent : ℕ} {results : List SendfileResult}

theorem sendfileLoop_of_not_lt (h : ¬TotalSent < ToSendTotal) :
    sendfileLoop content ToSendTotal TotalSent results = ([], some false) := by
  cases results with
  | nil => rw [sendfileLoop, if_neg h]
  | cons r results => simp only [sendfileLoop, if_neg h]

theorem sendfileLoop_sent_of_lt (h : TotalSent < ToSendTotal) {n : ℕ} (hn : 0 < n) :
    sendfileLoop content ToSendTotal TotalSent (.sent n :: results) =
      ((content.drop TotalSent).take (min n (ToSendTotal - TotalSent)) ++
          (sendfileLoop content ToSendTotal
            (TotalSent + min n (ToSendTotal - TotalSent)) results).1,
        (sendfileLoop content ToSendTotal (TotalSent + min n (ToSendTotal - TotalSent))
          results).2) := by
  simp only [sendfileLoop, if_pos h]
  rw [if_pos (by omega)]

theorem sendfileLoop_running_iff (results : List SendfileResult) :
    ∀ {TotalSent}, (sendfileLoop content ToSendTotal TotalSent results).2 = none ↔
      (∀ r ∈ results, r.keepsGoing = true) ∧ TotalSent + sentTotal results < ToSendTotal := by
  induction results with
  | nil =>
    intro TotalSent
    simp [sendfileLoop, sentTotal]
  | cons r results ih =>
    intro TotalSent
    have htotal : sentTotal (r :: results) = r.count + sentTotal results := List.sum_cons
    rw [htotal, List.forall_mem_cons]
    by_cases hlt : TotalSent < ToSendTotal
    · cases r with
      | sent n =>
        rcases Nat.eq_zero_or_pos n with rfl | hn
        · simp [sendfileLoop, hlt, SendfileResult.keepsGoing]
        · rw [sendfileLoop_sent_of_lt hlt hn]
          refine ih.trans ?_
          have hgo : (SendfileResult.sent n).keepsGoing = true := decide_eq_true hn
          rw [and_iff_right hgo]
          refine and_congr_right fun _ => ?_
          rw [SendfileResult.count]
          omega
      | eintr | eagain =>
        simp only [sendfileLoop, if_pos hlt]
        rw [ih, SendfileResult.count, Nat.zero_add]
        exact and_congr_left' ⟨fun h => ⟨rfl, h⟩, fun h => h.2⟩
      | error => simp [sendfileLoop, hlt, SendfileResult.keepsGoing]
    · rw [sendfileLoop_of_not_lt hlt]
      refine iff_of_false (Option.some_ne_none _) ?_
      rintro ⟨-, h⟩
      omega

/-- A loop that ends without disconnecting the client has sent the rest of the file. -/
theorem sendfileLoop_eq_drop (results : List SendfileResult) :
    ∀ {TotalSent}, (sendfileLoop content content.length TotalSent results).2 = some false →
      (sendfileLoop content content.length TotalSent results).1 = content.drop TotalSent := by
  induction results with
  | nil =>
    intro TotalSent h
    rw [sendfileLoop] at h ⊢
    split_ifs at h with hlt
    exact (List.drop_of_length_le (by omega)).symm
  | cons r results ih =>
    intro TotalSent h
    by_cases hlt : TotalSent < content.length
    · cases r with
      | sent n =>
        rcases Nat.eq_zero_or_pos n with rfl | hn
        · simp [sendfileLoop, hlt] at h
        · rw [sendfileLoop_sent_of_lt hlt hn] at h ⊢
          dsimp only
          rw [ih h, ← List.drop_drop, List.take_append_drop]
      | eintr | eagain =>
        simp only [sendfileLoop, if_pos hlt] at h ⊢
        exact ih h
      | error => simp [sendfileLoop, hlt] at h
    · rw [sendfileLoop_of_not_lt hlt]
      exact (List.drop_of_length_le (by omega)).symm

end Loop

section Download

variable (folder : ResourceFolder) (mods : List TMod) (fs : FileSystem) (UnsafeName : Bytes)

/-- The answers of the system to a download whose packet `AG` is sent, after so many calls of
`sendfile`. -/
def downloadOutcomes (opens : Bool) (outcomes : ℕ → SendfileResult) (rounds : ℕ) : DownloadIO :=
  ⟨true, opens, (List.range rounds).map outcomes⟩

/-- `SendFile` sends `AG` for a file with this content. -/
structure AgreesToSend (content : Bytes) : Prop where
  hasFilename : hasFilename UnsafeName = true
  notProtected : listedProtected mods (filename UnsafeName) = false
  isFile : fs.status (folder.client (filename UnsafeName)).cstr = .regular content

/-- All bytes of the file were sent, each once and in order, or the client is disconnected. -/
def Download.EndsWell (d : Download) (content : Bytes) : Prop :=
  d.running = false ∧ (d.raw = content ∨ d.disconnected = true)

/-- A download that is agreed to ends well after some calls of `sendfile`. -/
def AllOrDisconnect (opens : Bool) (outcomes : ℕ → SendfileResult) : Prop :=
  ∀ content, AgreesToSend folder mods fs UnsafeName content → ∃ rounds,
    (sendFile folder mods fs UnsafeName (downloadOutcomes opens outcomes rounds)).EndsWell content

/-- The results of `sendfile` let the loop go on for ever. -/
def NeverThrough (outcomes : ℕ → SendfileResult) (Size : ℕ) : Prop :=
  ∀ rounds, (∀ r ∈ (List.range rounds).map outcomes, r.keepsGoing = true) ∧
    sentTotal ((List.range rounds).map outcomes) < Size

variable {folder mods fs UnsafeName} {content : Bytes} {io : DownloadIO}

theorem AgreesToSend.sendFile_eq (h : AgreesToSend folder mods fs UnsafeName content) :
    sendFile folder mods fs UnsafeName io = sendFileToClient io content content.length := by
  simp [sendFile, h.hasFilename, h.notProtected, h.isFile]

theorem sendFileToClient_endsWell_iff {opens : Bool} {results : List SendfileResult} :
    (sendFileToClient ⟨true, opens, results⟩ content content.length).EndsWell content ↔
      if opens then (sendfileLoop content content.length 0 results).2 ≠ none
      else content = [] := by
  cases opens with
  | false => simp [sendFileToClient, Download.EndsWell, Download.reply, eq_comm]
  | true =>
    simp only [sendFileToClient, Download.EndsWell, if_true]
    cases hend : (sendfileLoop content content.length 0 results).2 with
    | none => simp
    | some disconnected =>
      cases disconnected with
      | true => simp
      | false => simp [sendfileLoop_eq_drop results hend]

/-- After `AG` the law is kept exactly if the file can be opened or is empty, and `sendfile` does
not ask for another call for ever. -/
theorem allOrDisconnect_iff (folder : ResourceFolder) (mods : List TMod) (fs : FileSystem)
    (UnsafeName : Bytes) (opens : Bool) (outcomes : ℕ → SendfileResult) :
    AllOrDisconnect folder mods fs UnsafeName opens outcomes ↔
      ∀ content, AgreesToSend folder mods fs UnsafeName content →
        (opens = true ∨ content = []) ∧ ¬NeverThrough outcomes content.length := by
  refine forall₂_congr fun content hagrees => ?_
  have hends : ∀ rounds,
      (sendFile folder mods fs UnsafeName
          (downloadOutcomes opens outcomes rounds)).EndsWell content ↔
        if opens then
          (sendfileLoop content content.length 0 ((List.range rounds).map outcomes)).2 ≠ none
        else content = [] := by
    intro rounds
    rw [hagrees.sendFile_eq]
    exact sendFileToClient_endsWell_iff
  have hthrough : ¬NeverThrough outcomes content.length ↔ ∃ rounds,
      (sendfileLoop content content.length 0 ((List.range rounds).map outcomes)).2 ≠ none := by
    rw [NeverThrough, not_forall]
    refine exists_congr fun rounds => not_congr ?_
    rw [sendfileLoop_running_iff, Nat.zero_add]
  simp only [hends]
  cases opens with
  | true =>
    rw [hthrough]
    exact (and_iff_right (.inl rfl)).symm
  | false =>
    constructor
    · rintro ⟨_, rfl⟩
      exact ⟨.inr rfl, fun h => absurd (h 0).2 (Nat.not_lt_zero _)⟩
    · exact fun ⟨h, _⟩ => ⟨0, h.resolve_left nofun⟩

/-- The file `a.zip` cannot be opened after `AG` was sent. -/
theorem not_allOrDisconnect_without_open :
    ¬AllOrDisconnect ⟨ascii "R", by decide⟩ [] oneFile (ascii "a.zip") false fun _ => .sent 3 := by
  intro h
  obtain ⟨rounds, _, hraw | hdisconnected⟩ := h [1, 2, 3] ⟨by decide, rfl, rfl⟩
  · exact nomatch hraw
  · exact nomatch hdisconnected

end Download

end BeamMP
