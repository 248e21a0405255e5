import BeamMP.Common.Bytes
import Mathlib.Data.List.DropRight

/-!
# Mod downloads

A client asks for a mod with an `f` packet. `SendFile` compares the file name with
the names of the mods as whole strings, while the file system gets the path as a
C string, which ends at its first NUL byte. The Linux branch of
`SendFileToClient` is modelled.
-/
namespace BeamMP

/-- `fs::path(s).filename()` on POSIX: what follows the last separator. -/
def filename (s : Bytes) : Bytes := s.rtakeWhile (· != '/'.toUInt8)

/-- `fs::path(s).has_filename()`. -/
def hasFilename (s : Bytes) : Bool := filename s ≠ []

/-- An entry of `mMods`, whose name is that of a directory entry. -/
structure TMod where
  file_name : Bytes
  isProtected : Bool
  no_nul : (0 : UInt8) ∉ file_name

/-- What `status` finds under a path: nothing, an error other than that, a regular file, or
something else such as a directory. -/
inductive FileStatus
  | notFound
  | failed
  | regular (content : Bytes)
  | other

def FileStatus.isRegular : FileStatus → Bool
  | .regular _ => true
  | _ => false

/-- The file system as system calls see it. A path that ends in no name, in `.` or in `..` is
not that of a regular file. -/
structure FileSystem where
  status : Bytes → FileStatus
  dots_not_regular : ∀ dir name, name ∈ [ascii "", ascii ".", ascii ".."] →
    (status (dir ++ ascii "/" ++ name)).isRegular = false

/-- `General_ResourceFolder`. -/
structure ResourceFolder where
  path : Bytes
  no_nul : (0 : UInt8) ∉ path

def ResourceFolder.client (folder : ResourceFolder) (FileName : Bytes) : Bytes :=
  folder.path ++ ascii "/Client/" ++ FileName

/-- The results of successive `sendfile` calls, which send no more than they are asked to. -/
inductive SendfileResult
  | sent (n : ℕ)
  | eintr
  | eagain
  | error
deriving DecidableEq

/-- What the system answers during a download: whether `TCPSend` and `open` succeed, and the
results of `sendfile`. -/
structure DownloadIO where
  tcpSend : Bool
  opens : Bool
  sendfile : List SendfileResult
deriving DecidableEq

/-- The loop of `SendFileToClient`: the bytes that it sends, and whether it disconnects the
client, or `none` while it is still running. -/
def sendfileLoop (content : Bytes) (ToSendTotal : ℕ) :
    ℕ → List SendfileResult → Bytes × Option Bool
  | TotalSent, [] => ([], if TotalSent < ToSendTotal then none else some false)
  | TotalSent, r :: rs =>
    if TotalSent < ToSendTotal then
      match r with
      | .sent n =>
        let SentNow := min n (ToSendTotal - TotalSent)
        if 0 < SentNow then
          let next := sendfileLoop content ToSendTotal (TotalSent + SentNow) rs
          ((content.drop TotalSent).take SentNow ++ next.1, next.2)
        else ([], some true)
      | .eintr | .eagain => sendfileLoop content ToSendTotal TotalSent rs
      | .error => ([], some true)
    else ([], some false)

/-- What `SendFile` does: the packets it passes to `TCPSend`, the bytes of the file it sends,
and whether it disconnects the client, throws, or is still running. -/
structure Download where
  packets : List Bytes
  raw : Bytes
  disconnected : Bool
  threw : Bool
  running : Bool
deriving DecidableEq

/-- A reply without a file. A `TCPSend` that fails disconnects the client. -/
def Download.reply (io : DownloadIO) (Data : Bytes) : Download :=
  ⟨[Data], [], !io.tcpSend, false, false⟩

/-- `SendFileToClient`, after the packet `AG`. -/
def sendFileToClient (io : DownloadIO) (content : Bytes) (Size : ℕ) : Download :=
  if io.opens then
    let r := sendfileLoop content Size 0 io.sendfile
    ⟨[ascii "AG"], r.1, !io.tcpSend || r.2.getD false, false, r.2.isNone⟩
  else Download.reply io (ascii "AG")

variable (folder : ResourceFolder) (mods : List TMod) (fs : FileSystem)

/-- The test against the protected mods, which compares whole strings. -/
def listedProtected (FileName : Bytes) : Bool :=
  mods.any fun m => m.file_name = FileName && m.isProtected

/-- `SendFile`. `exists` and `file_size` get the path as a C string; the former throws when
`status` fails and the latter when the path is not that of a regular file. -/
def sendFile (UnsafeName : Bytes) (io : DownloadIO) : Download :=
  if !hasFilename UnsafeName then Download.reply io (ascii "CO")
  else if listedProtected mods (filename UnsafeName) then ⟨[], [], true, false, false⟩
  else
    match fs.status (folder.client (filename UnsafeName)).cstr with
    | .notFound => Download.reply io (ascii "CO")
    | .failed => ⟨[], [], false, true, false⟩
    | .other => ⟨[ascii "AG"], [], !io.tcpSend, true, false⟩
    | .regular content => sendFileToClient io content content.length

variable {folder mods fs} {UnsafeName : Bytes} {io : DownloadIO}

theorem separator_not_mem_filename (s : Bytes) : '/'.toUInt8 ∉ filename s := by
  intro h
  simpa using List.mem_rtakeWhile_imp h

theorem ResourceFolder.client_cstr (folder : ResourceFolder) (FileName : Bytes) :
    (folder.client FileName).cstr = folder.client FileName.cstr := by
  have hclient : (0 : UInt8) ∉ folder.path ++ ascii "/Client/" := by
    intro h
    rcases List.mem_append.mp h with h | h
    · exact folder.no_nul h
    · exact absurd h (by decide)
  exact Bytes.cstr_append _ hclient

theorem ResourceFolder.client_injective (folder : ResourceFolder) :
    Function.Injective folder.client := fun _ _ h => List.append_cancel_left h

/-- A file of a name that is sent lies in the folder under this very name. -/
structure LiesInClient (folder : ResourceFolder) (path : Bytes) : Prop where
  exists_name : ∃ name, path = folder.client name ∧ '/'.toUInt8 ∉ name ∧
    name ∉ [ascii "", ascii ".", ascii ".."]

theorem FileSystem.name_not_dots (fs : FileSystem) (folder : ResourceFolder) {name : Bytes}
    (h : (fs.status (folder.client name)).isRegular = true) :
    name ∉ [ascii "", ascii ".", ascii ".."] := by
  intro hdots
  have hpath : folder.client name = (folder.path ++ ascii "/Client") ++ ascii "/" ++ name := by
    simp [ResourceFolder.client, ascii]
  rw [hpath, fs.dots_not_regular _ _ hdots] at h
  cases h

/-- Bytes of a file are sent only when `open` succeeds for a regular file under the path. -/
theorem sendFile_raw (h : (sendFile folder mods fs UnsafeName io).raw ≠ []) :
    listedProtected mods (filename UnsafeName) = false ∧
      (fs.status (folder.client (filename UnsafeName).cstr)).isRegular = true := by
  unfold sendFile at h
  rw [folder.client_cstr] at h
  split_ifs at h with hname hlisted
  · exact absurd rfl h
  · exact absurd rfl h
  · refine ⟨by simpa using hlisted, ?_⟩
    cases hstatus : fs.status (folder.client (filename UnsafeName).cstr) with
    | regular content => rfl
    | _ => simp [hstatus, Download.reply] at h

/-- The request is served safely: the file whose bytes are sent lies in the folder, and a
protected mod is not sent but leads to a disconnect. -/
structure ServedSafely (folder : ResourceFolder) (mods : List TMod) (fs : FileSystem)
    (UnsafeName : Bytes) (io : DownloadIO) : Prop where
  inside : (sendFile folder mods fs UnsafeName io).raw ≠ [] →
    LiesInClient folder (folder.client (filename UnsafeName)).cstr
  not_protected : ∀ m ∈ mods, m.isProtected = true →
    folder.client m.file_name = (folder.client (filename UnsafeName)).cstr →
    (fs.status (folder.client m.file_name)).isRegular = true →
    (sendFile folder mods fs UnsafeName io).raw = [] ∧
      (sendFile folder mods fs UnsafeName io).disconnected = true

/-- What precedes the first NUL byte of the requested file name is the name of a protected mod. -/
def CutToProtected (folder : ResourceFolder) (mods : List TMod) (fs : FileSystem)
    (UnsafeName : Bytes) : Prop :=
  (0 : UInt8) ∈ filename UnsafeName ∧ ∃ m ∈ mods, m.isProtected = true ∧
    m.file_name = (filename UnsafeName).cstr ∧
    (fs.status (folder.client m.file_name)).isRegular = true

theorem listedProtected_iff {FileName : Bytes} :
    listedProtected mods FileName = true ↔
      ∃ m ∈ mods, m.isProtected = true ∧ m.file_name = FileName := by
  simp [listedProtected, and_comm]

theorem not_listedProtected_of_nul {FileName : Bytes} (h : (0 : UInt8) ∈ FileName) :
    listedProtected mods FileName = false := by
  by_contra hlisted
  obtain ⟨m, -, -, hname⟩ := listedProtected_iff.mp (by simpa using hlisted)
  exact m.no_nul (hname ▸ h)

theorem sendFile_inside (h : (sendFile folder mods fs UnsafeName io).raw ≠ []) :
    LiesInClient folder (folder.client (filename UnsafeName)).cstr := by
  rw [folder.client_cstr]
  refine ⟨_, rfl, ?_, fs.name_not_dots folder (sendFile_raw h).2⟩
  exact fun hmem => separator_not_mem_filename _ (Bytes.mem_of_mem_cstr hmem)

theorem sendFile_of_listed (hname : filename UnsafeName ≠ [])
    (hlisted : listedProtected mods (filename UnsafeName) = true) :
    sendFile folder mods fs UnsafeName io = ⟨[], [], true, false, false⟩ := by
  simp [sendFile, hasFilename, hname, hlisted]

/-- A request is served safely whatever the system answers if and only if its file name is
not cut to that of a protected mod. -/
theorem servedSafely_iff (folder : ResourceFolder) (mods : List TMod) (fs : FileSystem)
    (UnsafeName : Bytes) :
    (∀ io, ServedSafely folder mods fs UnsafeName io) ↔
      ¬ CutToProtected folder mods fs UnsafeName := by
  constructor
  · rintro hsafe ⟨hnul, m, hm, hprotected, hname, hregular⟩
    have hpath : folder.client m.file_name = (folder.client (filename UnsafeName)).cstr := by
      rw [hname, folder.client_cstr]
    -- `open` fails, so that nothing is sent and nobody disconnects the client
    have hio := (hsafe ⟨true, false, []⟩).not_protected m hm hprotected hpath hregular
    have hne : filename UnsafeName ≠ [] := List.ne_nil_of_mem hnul
    rw [hpath] at hregular
    cases hstatus : fs.status (folder.client (filename UnsafeName)).cstr with
    | regular content =>
      simp [sendFile, hasFilename, hne, not_listedProtected_of_nul hnul, hstatus,
        sendFileToClient, Download.reply] at hio
    | _ => simp [hstatus, FileStatus.isRegular] at hregular
  · intro hcut io
    refine ⟨sendFile_inside, fun m hm hprotected hpath hregular => ?_⟩
    rw [folder.client_cstr] at hpath
    have hname : m.file_name = (filename UnsafeName).cstr := folder.client_injective hpath
    have hnul : (0 : UInt8) ∉ filename UnsafeName := fun hnul =>
      hcut ⟨hnul, m, hm, hprotected, hname, hregular⟩
    rw [Bytes.cstr_eq_self hnul] at hname
    have hne : filename UnsafeName ≠ [] := by
      have hdots := fs.name_not_dots folder hregular
      rw [← hname]
      exact fun hnil => hdots (by simp [hnil, ascii])
    rw [sendFile_of_listed hne (listedProtected_iff.mpr ⟨m, hm, hprotected, hname⟩)]
    exact ⟨rfl, rfl⟩

/-- A folder with one file of three bytes, under the path `R/Client/a.zip`. -/
def oneFile : FileSystem where
  status path := if path = ascii "R/Client/a.zip" then .regular [1, 2, 3] else .notFound
  dots_not_regular dir name hname := by
    have hne : dir ++ ascii "/" ++ name ≠ ascii "R/Client/a.zip" := by
      intro heq
      have hlast := congrArg List.getLast? heq
      simp only [List.mem_cons, List.not_mem_nil, or_false] at hname
      rcases hname with rfl | rfl | rfl <;> simp [ascii] at hlast <;> revert hlast <;> decide
    rw [if_neg hne]
    rfl

/-- The mod `a.zip` is protected, and the name `a.zip` followed by a NUL byte and an `x` gets
its bytes. -/
theorem not_servedSafely_with_nul :
    ¬ ServedSafely ⟨ascii "R", by decide⟩ [⟨ascii "a.zip", true, by decide⟩] oneFile
        (ascii "a.zip" ++ [0] ++ ascii "x") ⟨true, true, [.sent 3]⟩ ∧
      (sendFile ⟨ascii "R", by decide⟩ [⟨ascii "a.zip", true, by decide⟩] oneFile
        (ascii "a.zip" ++ [0] ++ ascii "x") ⟨true, true, [.sent 3]⟩).raw = [1, 2, 3] := by
  refine ⟨fun h => ?_, by decide⟩
  have hsafe := h.not_protected ⟨ascii "a.zip", true, by decide⟩ List.mem_cons_self rfl
    (by decide) (by decide)
  exact absurd hsafe.1 (by decide)

end BeamMP
