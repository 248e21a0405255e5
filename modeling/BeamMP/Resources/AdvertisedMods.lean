import BeamMP.Foundation.Substrings
import BeamMP.Network.SendFile
import BeamMP.Resources.ProtectedMods

/-!
# The mods that are advertised

The constructor of `TResourceManager` lists the mods for the server list: how many there
are, their names, and how large they are together. It looks for the first `.zip` in the
whole path, while `RefreshFiles`, which lists the mods for the clients, tests the
extension of the file name and leaves out directories.
-/
namespace BeamMP

open Observables Substrings

/-- What the constructor of `TResourceManager` sets. -/
structure ModList where
  mMaxModSize : ℕ
  mFileSizes : Bytes
  mFileList : Bytes
  mTrimmedList : Bytes
  mModsLoaded : ℕ

/-- `file_size` throws for what is no regular file, and after `INT_MAX` there is no other `int`. -/
inductive ModListError
  | filesystem_error
  | overflow

namespace TResourceManager

/-- `std::replace(File.begin(), File.end(), '\\', '/')`. -/
def replaceSeparators (File : Bytes) : Bytes :=
  File.map fun b => if b = '\\'.toUInt8 then '/'.toUInt8 else b

/-- What is between the last separator of a path and the position of `.zip`. -/
def trimFile (File : Bytes) (pos : ℕ) : Bytes :=
  match File.rfind '/' with
  | none => File
  | some i => File.substr (i + 1) (some (pos - (i + 1)))

/-- The list with one more file, whose `.zip` is at a position. -/
def addFile (s : ModList) (File : Bytes) (pos fileSize : ℕ) : ModList where
  mMaxModSize := (s.mMaxModSize + fileSize) % 2 ^ 64
  mFileSizes := s.mFileSizes ++ toDecimal fileSize ++ ascii ";"
  mFileList := s.mFileList ++ File ++ ascii ";"
  mTrimmedList := s.mTrimmedList ++ ascii "/" ++ filename (trimFile File pos) ++ ascii ";"
  mModsLoaded := s.mModsLoaded + 1

variable (folder : ResourceFolder)

/-- A round of the loop of the constructor. -/
def scanEntry (s : ModList) (entry : DirectoryEntry) : Except ModListError ModList :=
  let File := folder.client entry.filename
  match find (ascii ".zip") File with
  | none => pure s
  | some pos =>
    if File.length - pos ≠ 4 then pure s
    else
      match entry.fileSize with
      | none => throw .filesystem_error
      | some fileSize =>
        if intMax ≤ s.mModsLoaded then throw .overflow
        else pure (addFile s (replaceSeparators File) pos fileSize)

/-- `TResourceManager::TResourceManager`, for the folder `Client` with what is in it. -/
def listMods (directory : List DirectoryEntry) : Except ModListError ModList :=
  directory.foldlM (scanEntry folder) ⟨0, [], [], [], 0⟩

/-- The name of a mod without `.zip`. -/
def stem (file_name : Bytes) : Bytes := file_name.rdrop 4

/-- The list is about these mods: their number, their names and their size. -/
structure Lists (s : ModList) (mods : List ModEntry) : Prop where
  loaded : s.mModsLoaded = mods.length
  trimmed : s.mTrimmedList =
    mods.flatMap fun mod => ascii "/" ++ stem mod.file_name ++ ascii ";"
  size : s.mMaxModSize = (mods.map ModEntry.file_size).sum

variable (lib : ResourceLib)

/-- The constructor returns, and lists the mods that `RefreshFiles` puts into `mMods`. -/
def Advertises (s : TResourceManager) : Prop :=
  ∃ t, listMods folder s.directory = .ok t ∧ Lists t (final (refreshFiles lib) s).mMods

/-- What a folder has: names that are different and have no separator. -/
structure IsFolder (directory : List DirectoryEntry) : Prop where
  names : (directory.map DirectoryEntry.filename).Nodup
  no_separator : ∀ entry ∈ directory, '/'.toUInt8 ∉ entry.filename

instance (entry : DirectoryEntry) (modsDB : Json) : Decidable (Throws lib entry modsDB) :=
  decidable_of_iff
    (entry.isZip = true ∧ ((modsDB.member entry.filename).any
      fun dbEntry => (isModified lib entry dbEntry).isNone) = true)
    (by simp [Throws, Option.any_eq_true])

def isPut (modsDB : Json) (entry : DirectoryEntry) : Bool :=
  entry.isZip && (putValue lib entry modsDB).isSome

/-- The files that are put, which are before the first one whose round throws. -/
def putFiles (modsDB : Json) (directory : List DirectoryEntry) : List DirectoryEntry :=
  (directory.takeWhile fun entry => ¬Throws lib entry modsDB).filter (isPut lib modsDB)

def servedFiles (s : TResourceManager) : List DirectoryEntry :=
  putFiles lib (load s.modsFile) s.directory

/-- No name is treated differently. A name that ends in its only `.zip` is that of a file with a
size, and of a mod that is served, and every mod that is served has such a name, in which there
is no backslash. -/
structure PlainNames (s : TResourceManager) : Prop where
  hidden : ∀ entry ∈ s.directory, entry.filename ≠ ascii ".zip"
  sizes : ∀ entry ∈ s.directory, EndsOnce (ascii ".zip") entry.filename →
    entry.fileSize.isSome = true
  served : ∀ entry ∈ s.directory, entry.isZip = true →
    EndsOnce (ascii ".zip") entry.filename → entry ∈ servedFiles lib s
  names : ∀ entry ∈ servedFiles lib s, EndsOnce (ascii ".zip") entry.filename ∧
    '\\'.toUInt8 ∉ entry.filename

/-- The path of the folder has no `.zip`, the names are plain and the numbers are in range, or
nothing is served from a folder whose path has one. -/
def Advertisable (s : TResourceManager) : Prop :=
  if ascii ".zip" <:+: folder.path then servedFiles lib s = []
  else PlainNames lib s ∧ (servedFiles lib s).length ≤ intMax ∧
    ((servedFiles lib s).map DirectoryEntry.size).sum < 2 ^ 64

def listedFiles (directory : List DirectoryEntry) : List DirectoryEntry :=
  directory.filter fun entry => EndsOnce (ascii ".zip") (folder.client entry.filename)

/-- The name under which the constructor lists a file. -/
def listedName (entry : DirectoryEntry) : Bytes :=
  let File := folder.client entry.filename
  filename (trimFile (replaceSeparators File) (File.length - 4))

def addEntry (s : ModList) (entry : DirectoryEntry) : ModList :=
  let File := folder.client entry.filename
  addFile s (replaceSeparators File) (File.length - 4) entry.size

/-- Names as they stand in `mTrimmedList`. -/
def trimmedList (names : List Bytes) : Bytes :=
  names.flatMap fun name => ascii "/" ++ name ++ ascii ";"

variable {folder lib}

section Names

variable {name : Bytes} {entry : DirectoryEntry}

theorem client_eq (folder : ResourceFolder) (name : Bytes) :
    folder.client name = (folder.path ++ ascii "/Client") ++ '/'.toUInt8 :: name := by
  simp [ResourceFolder.client, ascii]

theorem endsOnce_client_iff : EndsOnce (ascii ".zip") (folder.client name) ↔
    ¬ascii ".zip" <:+: folder.path ∧ EndsOnce (ascii ".zip") name := by
  have hseparator : '/'.toUInt8 ∉ ascii ".zip" := by decide
  have hpath : ascii ".zip" <:+: folder.path ++ ascii "/Client" ↔
      ascii ".zip" <:+: folder.path := by
    have hclient : ¬ascii ".zip" <:+: ascii "Client" := by decide
    have hcut : folder.path ++ ascii "/Client" =
        folder.path ++ '/'.toUInt8 :: ascii "Client" := rfl
    rw [hcut, infix_append_cons_iff hseparator, or_iff_left hclient]
  rw [client_eq, endsOnce_append_cons_iff hseparator (by decide), hpath]

theorem scanEntry_of_not_endsOnce (s : ModList)
    (h : ¬EndsOnce (ascii ".zip") (folder.client entry.filename)) :
    scanEntry folder s entry = .ok s := by
  unfold scanEntry
  dsimp only
  cases hfind : find (ascii ".zip") (folder.client entry.filename) with
  | none => rfl
  | some pos =>
    have hlength : (folder.client entry.filename).length - pos ≠ 4 := fun hlength =>
      h ((find_ends_iff (by decide)).mp ⟨pos, hfind, hlength⟩)
    dsimp only
    rw [if_pos hlength]
    rfl

theorem scanEntry_of_endsOnce (s : ModList)
    (h : EndsOnce (ascii ".zip") (folder.client entry.filename)) :
    scanEntry folder s entry =
      if entry.fileSize.isSome = false then .error .filesystem_error
      else if intMax ≤ s.mModsLoaded then .error .overflow
      else .ok (addEntry folder s entry) := by
  obtain ⟨pos, hfind, hlength⟩ := (find_ends_iff (by decide)).mpr h
  have hfour : (folder.client entry.filename).length - pos = 4 := hlength
  have hpos : pos = (folder.client entry.filename).length - 4 := by omega
  unfold scanEntry
  dsimp only
  rw [hfind]
  dsimp only
  rw [if_neg (not_not_intro hfour), hpos, addEntry, DirectoryEntry.size]
  cases entry.fileSize with
  | none => rfl
  | some fileSize => rfl

/-- The loop returns if all it gets to has a size, and not beyond `INT_MAX`. -/
theorem scan_eq_ok_iff {directory : List DirectoryEntry} {s t : ModList}
    (hs : s.mModsLoaded ≤ intMax) : directory.foldlM (scanEntry folder) s = .ok t ↔
      (∀ entry ∈ listedFiles folder directory, entry.fileSize.isSome = true) ∧
        s.mModsLoaded + (listedFiles folder directory).length ≤ intMax ∧
        (listedFiles folder directory).foldl (addEntry folder) s = t := by
  induction directory generalizing s with
  | nil =>
    have hnil : ([] : List DirectoryEntry).foldlM (scanEntry folder) s = .ok s := rfl
    rw [hnil, Except.ok.injEq]
    exact ⟨fun h => ⟨List.forall_mem_nil _, hs, h⟩, fun h => h.2.2⟩
  | cons entry rest ih =>
    rw [List.foldlM_cons]
    by_cases h : EndsOnce (ascii ".zip") (folder.client entry.filename)
    · have hlisted : listedFiles folder (entry :: rest) = entry :: listedFiles folder rest :=
        List.filter_cons_of_pos (decide_eq_true h)
      rw [scanEntry_of_endsOnce s h, hlisted, List.forall_mem_cons, List.length_cons,
        List.foldl_cons]
      split_ifs with hsize hfull
      · simp [hsize, bind, Except.bind]
      · refine ⟨fun hok => ?_, fun hok => ?_⟩
        · cases hok
        · have hlength := hok.2.1
          omega
      · have hnext : (addEntry folder s entry).mModsLoaded = s.mModsLoaded + 1 := rfl
        have hrest := ih (s := addEntry folder s entry) (by omega)
        rw [hnext] at hrest
        have hbind : (Except.ok (addEntry folder s entry) >>=
            rest.foldlM (scanEntry folder) : Except ModListError ModList) =
              rest.foldlM (scanEntry folder) (addEntry folder s entry) := rfl
        rw [hbind, hrest, Nat.add_assoc, Nat.add_comm 1]
        simp [hsize]
    · have hlisted : listedFiles folder (entry :: rest) = listedFiles folder rest :=
        List.filter_cons_of_neg (by simpa using h)
      rw [scanEntry_of_not_endsOnce s h, hlisted]
      exact ih hs

theorem foldl_addEntry (folder : ResourceFolder) (files : List DirectoryEntry) {s : ModList}
    (hs : s.mMaxModSize < 2 ^ 64) :
    (files.foldl (addEntry folder) s).mModsLoaded = s.mModsLoaded + files.length ∧
      (files.foldl (addEntry folder) s).mTrimmedList =
        s.mTrimmedList ++ trimmedList (files.map (listedName folder)) ∧
      (files.foldl (addEntry folder) s).mMaxModSize =
        (s.mMaxModSize + (files.map DirectoryEntry.size).sum) % 2 ^ 64 := by
  induction files generalizing s with
  | nil => exact ⟨rfl, (List.append_nil _).symm, (Nat.mod_eq_of_lt hs).symm⟩
  | cons entry rest ih =>
    have hsize : (addEntry folder s entry).mMaxModSize < 2 ^ 64 :=
      Nat.mod_lt _ (by decide)
    obtain ⟨hloaded, htrimmed, htotal⟩ := ih hsize
    rw [List.foldl_cons, hloaded, htrimmed, htotal]
    refine ⟨?_, ?_, ?_⟩
    · rw [List.length_cons, Nat.add_comm rest.length 1, ← Nat.add_assoc]
      rfl
    · simp [addEntry, addFile, trimmedList, listedName]
    · rw [List.map_cons, List.sum_cons, ← Nat.add_assoc]
      exact Nat.mod_add_mod _ _ _

/-- A path that ends in a separator or a backslash ends in a separator when they are replaced. -/
theorem replaceSeparators_eq (folder : ResourceFolder) (front : Bytes)
    (hfront : front = [] ∨ ∃ rest : Bytes, front = rest ++ ['\\'.toUInt8]) :
    ∃ path, replaceSeparators (folder.client front) = path ++ ['/'.toUInt8] := by
  rcases hfront with rfl | ⟨rest, rfl⟩
  · exact ⟨replaceSeparators (folder.path ++ ascii "/Client"), by
      simp [replaceSeparators, ResourceFolder.client, ascii]⟩
  · exact ⟨replaceSeparators (folder.client rest), by
      simp [replaceSeparators, ResourceFolder.client]⟩

theorem replaceSeparators_of_not_mem {s : Bytes} (hs : '\\'.toUInt8 ∉ s) :
    replaceSeparators s = s := by
  have hkept : ∀ b ∈ s, (if b = '\\'.toUInt8 then '/'.toUInt8 else b) = b := by
    intro b hb
    have hne : b ≠ '\\'.toUInt8 := fun heq => hs (heq ▸ hb)
    exact if_neg hne
  exact (List.map_congr_left hkept).trans (List.map_id s)

def cut (s : Bytes) : Bytes := s.rtakeWhile (· != '\\'.toUInt8)

theorem not_mem_cut (s : Bytes) : '\\'.toUInt8 ∉ cut s := by
  intro h
  simpa using List.mem_rtakeWhile_imp h

theorem exists_append_cut (s : Bytes) : ∃ front : Bytes, s = front ++ cut s ∧
    (front = [] ∨ ∃ rest : Bytes, front = rest ++ ['\\'.toUInt8]) := by
  refine ⟨s.rdropWhile (· != '\\'.toUInt8), (List.rdropWhile_append_rtakeWhile ..).symm, ?_⟩
  rcases eq_or_ne (s.rdropWhile (· != '\\'.toUInt8)) [] with hnil | hne
  · exact .inl hnil
  · have hlast := List.rdropWhile_last_not _ _ hne
    have hbackslash : (s.rdropWhile (· != '\\'.toUInt8)).getLast hne = '\\'.toUInt8 := by
      simpa using hlast
    have hconcat := (List.dropLast_concat_getLast hne).symm
    rw [hbackslash] at hconcat
    exact .inr ⟨_, hconcat⟩

theorem stem_append (s : Bytes) : stem (s ++ ascii ".zip") = s := by
  have hlength : (ascii ".zip").length = 4 := rfl
  simp [stem, List.rdrop, hlength]

theorem trimFile_append {path s : Bytes} {pos : ℕ} (hs : '/'.toUInt8 ∉ s ++ ascii ".zip")
    (hpos : pos = path.length + 1 + s.length) :
    trimFile (path ++ '/'.toUInt8 :: (s ++ ascii ".zip")) pos = s := by
  have hlength : pos - (path.length + 1) = s.length := by omega
  rw [trimFile, Bytes.rfind_append_cons hs]
  dsimp only
  rw [hlength, Bytes.substr]
  simp

/-- The constructor lists a file under what follows the last backslash of its name. -/
theorem listedName_eq (hseparator : '/'.toUInt8 ∉ entry.filename)
    (hends : ascii ".zip" <:+ entry.filename) :
    listedName folder entry = cut (stem entry.filename) := by
  obtain ⟨s, hs⟩ := hends
  rw [← hs] at hseparator
  obtain ⟨front, hfront, hcut⟩ := exists_append_cut s
  obtain ⟨path, hpath⟩ := replaceSeparators_eq folder front hcut
  have hnone : '/'.toUInt8 ∉ cut s ++ ascii ".zip" := by
    refine fun hmem => hseparator ?_
    rw [hfront, List.append_assoc]
    exact List.mem_append_right _ hmem
  have hplain : replaceSeparators (cut s ++ ascii ".zip") = cut s ++ ascii ".zip" := by
    refine replaceSeparators_of_not_mem fun hmem => ?_
    rcases List.mem_append.mp hmem with hmem | hmem
    · exact not_mem_cut s hmem
    · exact absurd hmem (by decide)
  have hFile : folder.client entry.filename = folder.client front ++ (cut s ++ ascii ".zip") := by
    rw [← hs]
    nth_rewrite 1 [hfront]
    simp [ResourceFolder.client]
  have hreplaced : replaceSeparators (folder.client entry.filename) =
      path ++ '/'.toUInt8 :: (cut s ++ ascii ".zip") := by
    rw [hFile, replaceSeparators, List.map_append]
    rw [replaceSeparators] at hpath hplain
    rw [hpath, hplain]
    simp
  have hpos : (folder.client entry.filename).length - 4 = path.length + 1 + (cut s).length := by
    have hsame := congrArg List.length hreplaced
    have hzip : (ascii ".zip").length = 4 := rfl
    simp only [replaceSeparators, List.length_map, List.length_append, List.length_cons,
      hzip] at hsame
    omega
  rw [listedName, hreplaced, trimFile_append hnone hpos, ← hs, stem_append, filename,
    List.rtakeWhile_eq_self_iff]
  intro b hb
  have hne : b ≠ '/'.toUInt8 := by
    rintro rfl
    exact hnone (List.mem_append_left _ hb)
  simpa using hne

theorem ends_of_extension (h : entry.extension = ascii ".zip") :
    ascii ".zip" <:+ entry.filename ∧ entry.filename ≠ ascii ".zip" := by
  unfold DirectoryEntry.extension at h
  split_ifs at h with hlength
  · exact absurd h (by decide)
  · have hparts := List.rdropWhile_append_rtakeWhile (l := entry.filename)
      (p := (· != '.'.toUInt8))
    have hne : entry.filename.rdropWhile (· != '.'.toUInt8) ≠ [] := by
      intro hnil
      simp [hnil] at hlength
    have hlast := List.rdropWhile_last_not _ _ hne
    have hdot : (entry.filename.rdropWhile (· != '.'.toUInt8)).getLast hne =
        '.'.toUInt8 := by simpa using hlast
    have hconcat := List.dropLast_concat_getLast hne
    rw [hdot] at hconcat
    rw [← hconcat, List.append_assoc, List.singleton_append, h] at hparts
    refine ⟨⟨_, hparts⟩, fun hname => hlength ?_⟩
    rw [hname]
    decide

theorem extension_of_ends {s : Bytes} (hs : s ≠ [])
    (hname : s ++ ascii ".zip" = entry.filename) : entry.extension = ascii ".zip" := by
  have hreverse : (s ++ ascii ".zip").reverse = ascii "piz" ++ '.'.toUInt8 :: s.reverse := by
    simp [ascii]
  have hall : (ascii "piz").all (· != '.'.toUInt8) = true := by decide
  have hkeep := List.all_eq_true.mp hall
  have hdrop : (s ++ ascii ".zip").rdropWhile (· != '.'.toUInt8) = s ++ ['.'.toUInt8] := by
    rw [List.rdropWhile, hreverse, List.dropWhile_append_of_pos hkeep,
      List.dropWhile_cons_of_neg (by decide)]
    simp
  have htake : (s ++ ascii ".zip").rtakeWhile (· != '.'.toUInt8) = ascii "zip" := by
    rw [List.rtakeWhile, hreverse, List.takeWhile_append_of_pos hkeep,
      List.takeWhile_cons_of_neg (by decide)]
    rfl
  unfold DirectoryEntry.extension
  rw [← hname, hdrop, htake, if_neg (by simpa using hs)]
  rfl

theorem isZip_iff : entry.isZip = true ↔
    entry.isDirectory = false ∧ ascii ".zip" <:+ entry.filename ∧
      entry.filename ≠ ascii ".zip" := by
  have hextension : entry.extension = ascii ".zip" ↔
      ascii ".zip" <:+ entry.filename ∧ entry.filename ≠ ascii ".zip" := by
    refine ⟨ends_of_extension, ?_⟩
    rintro ⟨⟨s, hs⟩, hne⟩
    refine extension_of_ends ?_ hs
    rintro rfl
    exact hne hs.symm
  simp only [DirectoryEntry.isZip, Bool.and_eq_true, decide_eq_true_eq, Bool.not_eq_true',
    hextension]
  exact and_comm

end Names

section Served

variable {directory : List DirectoryEntry} {entry : DirectoryEntry} {s : RefreshState}

/-- The name and the size under which a mod is listed. -/
def nameAndSize (mod : ModEntry) : Bytes × ℕ := (mod.file_name, mod.file_size)

def fileNameAndSize (entry : DirectoryEntry) : Bytes × ℕ := (entry.filename, entry.size)

theorem final_pushMod_bind (mod : ModEntry) (k : Unit → RefreshM Unit) (s : RefreshState) :
    final (pushMod mod >>= k) s = final (k ()) { s with mMods := s.mMods ++ [mod] } := rfl

theorem final_storeEntry_bind (filename : Bytes) (dbEntry : Json) (k : Unit → RefreshM Unit)
    (s : RefreshState) : final (storeEntry filename dbEntry >>= k) s =
      final (k ()) { s with modsDB := s.modsDB.setMember filename dbEntry } := rfl

theorem mMods_storeHash (result : Bytes) (s : RefreshState) :
    (final (storeHash entry result) s).mMods = s.mMods := by
  have hfixes : Fixes RefreshState.mMods (storeHash entry result) := by
    refine fixes_modify fun s => ?_
    cases s.modsDB.assign entry.filename (hashedEntry entry result) with
    | none => rfl
    | some modsDB => rfl
  exact hfixes s

theorem nameAndSize_rehash (lib : ResourceLib) (entry : DirectoryEntry) (s : RefreshState) :
    (final (rehash lib entry) s).mMods.map nameAndSize = s.mMods.map nameAndSize ++
      if (digest lib entry).isSome then [fileNameAndSize entry] else [] := by
  unfold rehash
  cases digest lib entry with
  | none => exact (List.append_nil _).symm
  | some result =>
    dsimp only
    rw [final_pushMod_bind, mMods_storeHash]
    simp [nameAndSize, fileNameAndSize]

theorem putValue_of_isModified {modsDB dbEntry : Json} {test : Option (Bool × Json)}
    (hmember : modsDB.member entry.filename = some dbEntry)
    (htest : isModified lib entry dbEntry = test) :
    putValue lib entry modsDB = test.bind fun modified =>
      if modified.1 then (digest lib entry).map fun _ => .bool false
      else some ((dbEntry.member (ascii "protected")).getD .null) := by
  unfold putValue
  rw [hmember]
  dsimp only
  rw [htest]
  cases test with
  | none => rfl
  | some test =>
    obtain ⟨modified, dbEntry'⟩ := test
    cases modified with
    | true => rfl
    | false => rfl

theorem nameAndSize_refreshEntry (lib : ResourceLib) (entry : DirectoryEntry)
    (s : RefreshState) :
    (final (refreshEntry lib entry) s).mMods.map nameAndSize = s.mMods.map nameAndSize ++
      if isPut lib s.modsDB entry then [fileNameAndSize entry] else [] := by
  unfold isPut
  cases hzip : entry.isZip with
  | false =>
    rw [refreshEntry_of_not_isZip hzip, final_pure]
    exact (List.append_nil _).symm
  | true =>
    rw [Bool.true_and, refreshEntry, if_neg (DirectoryEntry.filename_ne_of_isZip hzip),
      if_neg (by rw [hzip]; exact Bool.noConfusion)]
    have hget : ∀ k : RefreshState → RefreshM Unit,
        final (EStateM.get >>= k) s = final (k s) s := fun _ => rfl
    rw [hget]
    cases hmember : s.modsDB.member entry.filename with
    | none =>
      have hput : putValue lib entry s.modsDB =
          (digest lib entry).map fun _ => .bool false := by rw [putValue, hmember]
      rw [hput, Option.isSome_map]
      exact nameAndSize_rehash lib entry s
    | some dbEntry =>
      dsimp only
      cases hmodified : isModified lib entry dbEntry with
      | none =>
        rw [putValue_of_isModified hmember hmodified]
        exact (List.append_nil _).symm
      | some test =>
        obtain ⟨modified, dbEntry'⟩ := test
        cases modified with
        | true =>
          have hput : putValue lib entry s.modsDB =
              (digest lib entry).map fun _ => .bool false :=
            putValue_of_isModified hmember hmodified
          rw [hput, Option.isSome_map]
          dsimp only
          rw [final_storeEntry_bind, nameAndSize_rehash]
        | false =>
          obtain ⟨marked, hmark, -⟩ :=
            markExisting_of_isObject (isObject_of_isModified hmodified)
          rw [putValue_of_isModified hmember hmodified]
          dsimp only
          rw [loadFromCache, hmark]
          exact List.map_append

theorem isPut_of_throws {modsDB : Json} (h : Throws lib entry modsDB) :
    isPut lib modsDB entry = false := by
  obtain ⟨-, dbEntry, hmember, hnone⟩ := h
  rw [isPut, putValue_of_isModified hmember hnone]
  exact Bool.and_false _

theorem putFiles_congr {modsDB modsDB' : Json}
    (h : ∀ entry ∈ directory, modsDB'.values entry.filename = modsDB.values entry.filename) :
    putFiles lib modsDB' directory = putFiles lib modsDB directory := by
  induction directory with
  | nil => rfl
  | cons entry rest ih =>
    obtain ⟨hentry, hrest⟩ := List.forall_mem_cons.mp h
    have hthrows : Throws lib entry modsDB' ↔ Throws lib entry modsDB :=
      ⟨fun hthrows => hthrows.congr hentry.symm, fun hthrows => hthrows.congr hentry⟩
    have hput : isPut lib modsDB' entry = isPut lib modsDB entry := by
      rw [isPut, isPut, putValue_congr hentry]
    have ih := ih hrest
    unfold putFiles at ih ⊢
    simp only [List.takeWhile_cons, hthrows]
    split_ifs
    · rw [List.filter_cons, List.filter_cons, hput, ih]
    · rfl

theorem putFiles_cons_of_throws {modsDB : Json} (h : Throws lib entry modsDB) :
    putFiles lib modsDB (entry :: directory) = [] := by
  rw [putFiles, List.takeWhile_cons_of_neg (by simpa using h)]
  rfl

theorem putFiles_cons_of_not_throws {modsDB : Json} (h : ¬Throws lib entry modsDB) :
    putFiles lib modsDB (entry :: directory) =
      (if isPut lib modsDB entry then [entry] else []) ++ putFiles lib modsDB directory := by
  rw [putFiles, List.takeWhile_cons_of_pos (by simpa using h), List.filter_cons]
  split_ifs
  · rfl
  · rfl

theorem nameAndSize_loop (lib : ResourceLib)
    (hnames : (directory.map DirectoryEntry.filename).Nodup) (s : RefreshState) :
    (final (directory.forM (refreshEntry lib)) s).mMods.map nameAndSize =
      s.mMods.map nameAndSize ++ (putFiles lib s.modsDB directory).map fileNameAndSize := by
  induction directory generalizing s with
  | nil => exact (List.append_nil _).symm
  | cons entry rest ih =>
    obtain ⟨hhead, htail⟩ := List.nodup_cons.mp hnames
    have hround := nameAndSize_refreshEntry lib entry s
    cases hthrew : threw (refreshEntry lib entry) s with
    | true =>
      have hthrows := (threw_refreshEntry_iff s).mp hthrew
      rw [(forM_cons_of_threw rest hthrew).2, hround, isPut_of_throws hthrows,
        putFiles_cons_of_throws hthrows]
      rfl
    | false =>
      have hnot : ¬Throws lib entry s.modsDB := fun h => by
        rw [(threw_refreshEntry_iff s).mpr h] at hthrew
        cases hthrew
      have hsame : putFiles lib (final (refreshEntry lib entry) s).modsDB rest =
          putFiles lib s.modsDB rest := by
        refine putFiles_congr fun other hother => values_after_round lib ?_ s
        exact fun heq => hhead (heq ▸ List.mem_map_of_mem hother)
      rw [(forM_cons_of_not_threw rest hthrew).2, ih htail, hround, hsame,
        putFiles_cons_of_not_throws hnot, List.map_append, List.append_assoc]
      split_ifs
      · rfl
      · rfl

theorem nameAndSize_refreshFiles (lib : ResourceLib) {s : TResourceManager}
    (hnames : (s.directory.map DirectoryEntry.filename).Nodup) :
    (final (refreshFiles lib) s).mMods.map nameAndSize =
      (servedFiles lib s).map fileNameAndSize := by
  obtain ⟨t, ht, -, hfinal⟩ := refreshFiles_cases lib s
  have hloop := nameAndSize_loop lib hnames ⟨[], load s.modsFile⟩
  rw [ht] at hloop
  rw [hfinal]
  exact hloop

/-- What the list has to be, in terms of the files. -/
theorem lists_iff {mods : List ModEntry} {files : List DirectoryEntry} {t : ModList}
    (h : mods.map nameAndSize = files.map fileNameAndSize) :
    Lists t mods ↔ t.mModsLoaded = files.length ∧
      t.mTrimmedList = trimmedList (files.map fun entry => stem entry.filename) ∧
      t.mMaxModSize = (files.map DirectoryEntry.size).sum := by
  have hlength : mods.length = files.length := by
    have hlengths := congrArg List.length h
    rwa [List.length_map, List.length_map] at hlengths
  have hnames : mods.map (fun mod => stem mod.file_name) =
      files.map fun entry => stem entry.filename := by
    have hnames := congrArg (List.map fun f => stem f.1) h
    rwa [List.map_map, List.map_map] at hnames
  have hsizes : mods.map ModEntry.file_size = files.map DirectoryEntry.size := by
    have hsizes := congrArg (List.map Prod.snd) h
    rwa [List.map_map, List.map_map] at hsizes
  have htrimmed : (mods.flatMap fun mod => ascii "/" ++ stem mod.file_name ++ ascii ";") =
      trimmedList (files.map fun entry => stem entry.filename) := by
    rw [← hnames, trimmedList, List.flatMap_map]
  rw [← hlength, ← htrimmed, ← hsizes]
  exact ⟨fun h => ⟨h.loaded, h.trimmed, h.size⟩, fun h => ⟨h.1, h.2.1, h.2.2⟩⟩

end Served

section Compare

variable {s : TResourceManager} {entry : DirectoryEntry}

theorem trimmedList_inj {names names' : List Bytes} (hnames : ∀ name ∈ names, '/'.toUInt8 ∉ name)
    (hnames' : ∀ name ∈ names', '/'.toUInt8 ∉ name) (h : trimmedList names = trimmedList names') :
    names = names' := by
  have hheaded : ∀ names, trimmedList names =
      headed '/'.toUInt8 (names.map (· ++ ascii ";")) := by
    intro names
    rw [trimmedList, headed, List.flatMap_map]
    rfl
  have hno : ∀ names : List Bytes, (∀ name ∈ names, '/'.toUInt8 ∉ name) →
      ∀ string ∈ names.map (· ++ ascii ";"), '/'.toUInt8 ∉ string := by
    intro names hnames string hstring
    obtain ⟨name, hname, rfl⟩ := List.mem_map.mp hstring
    rw [List.mem_append]
    exact not_or.mpr ⟨hnames name hname, by decide⟩
  rw [hheaded, hheaded] at h
  have hsame := headed_inj (hno names hnames) (hno names' hnames') h
  exact (List.append_left_injective (ascii ";")).list_map hsame

theorem mem_listedFiles {directory : List DirectoryEntry} :
    entry ∈ listedFiles folder directory ↔ entry ∈ directory ∧
      ¬ascii ".zip" <:+: folder.path ∧ EndsOnce (ascii ".zip") entry.filename := by
  rw [listedFiles, List.mem_filter, decide_eq_true_iff, endsOnce_client_iff]

theorem mem_servedFiles (h : entry ∈ servedFiles lib s) :
    entry ∈ s.directory ∧ entry.isZip = true := by
  obtain ⟨hmem, hput⟩ := List.mem_filter.mp h
  exact ⟨(List.takeWhile_sublist _).subset hmem, (Bool.and_eq_true_iff.mp hput).1⟩

theorem isDirectory_of_sized (h : entry.fileSize.isSome = true) : entry.isDirectory = false := by
  rw [Bool.eq_false_iff]
  intro hdirectory
  rw [entry.fileSize_directory hdirectory] at h
  cases h

theorem servedFiles_sublist (lib : ResourceLib) (s : TResourceManager) :
    (servedFiles lib s).Sublist s.directory :=
  List.filter_sublist.trans (List.takeWhile_sublist _)

/-- What the constructor has to have done, in terms of the files. -/
theorem advertises_iff_files (hfolder : IsFolder s.directory) : Advertises folder lib s ↔
    (∀ entry ∈ listedFiles folder s.directory, entry.fileSize.isSome = true) ∧
      (listedFiles folder s.directory).length ≤ intMax ∧
      (listedFiles folder s.directory).length = (servedFiles lib s).length ∧
      (listedFiles folder s.directory).map (listedName folder) =
        (servedFiles lib s).map (fun entry => stem entry.filename) ∧
      ((listedFiles folder s.directory).map DirectoryEntry.size).sum % 2 ^ 64 =
        ((servedFiles lib s).map DirectoryEntry.size).sum := by
  have hmods := nameAndSize_refreshFiles lib hfolder.names
  obtain ⟨hloaded, htrimmed, htotal⟩ := foldl_addEntry folder
    (listedFiles folder s.directory) (s := ⟨0, [], [], [], 0⟩) (by decide)
  rw [Nat.zero_add] at hloaded htotal
  rw [List.nil_append] at htrimmed
  have hlisted : ∀ name ∈ (listedFiles folder s.directory).map (listedName folder),
      '/'.toUInt8 ∉ name := by
    intro name hname
    obtain ⟨entry, -, rfl⟩ := List.mem_map.mp hname
    exact separator_not_mem_filename _
  have hserved : ∀ name ∈ (servedFiles lib s).map (fun entry => stem entry.filename),
      '/'.toUInt8 ∉ name := by
    intro name hname
    obtain ⟨entry, hentry, rfl⟩ := List.mem_map.mp hname
    exact fun hmem => hfolder.no_separator entry (mem_servedFiles hentry).1
      ((List.take_prefix _ _).subset hmem)
  constructor
  · rintro ⟨t, ht, hlists⟩
    obtain ⟨hsizes, hcount, rfl⟩ := (scan_eq_ok_iff (Nat.zero_le _)).mp ht
    obtain ⟨hlength, hnames, hsize⟩ := (lists_iff hmods).mp hlists
    rw [Nat.zero_add] at hcount
    rw [hloaded] at hlength
    rw [htrimmed] at hnames
    rw [htotal] at hsize
    exact ⟨hsizes, hcount, hlength, trimmedList_inj hlisted hserved hnames, hsize⟩
  · rintro ⟨hsizes, hcount, hlength, hnames, hsize⟩
    have hok : listMods folder s.directory =
        .ok ((listedFiles folder s.directory).foldl (addEntry folder) ⟨0, [], [], [], 0⟩) :=
      (scan_eq_ok_iff (Nat.zero_le _)).mpr ⟨hsizes, by rwa [Nat.zero_add], rfl⟩
    refine ⟨_, hok, (lists_iff hmods).mpr ⟨hloaded.trans hlength, ?_, htotal.trans hsize⟩⟩
    rw [htrimmed, hnames]

theorem stem_append_of_ends {name : Bytes} (h : ascii ".zip" <:+ name) :
    stem name ++ ascii ".zip" = name := by
  obtain ⟨s, rfl⟩ := h
  rw [stem_append]

theorem plain_of_listedName {other : DirectoryEntry}
    (hseparator : '/'.toUInt8 ∉ other.filename)
    (hother : EndsOnce (ascii ".zip") other.filename) (hzip : entry.isZip = true)
    (hname : listedName folder other = stem entry.filename) :
    EndsOnce (ascii ".zip") entry.filename ∧ '\\'.toUInt8 ∉ entry.filename := by
  have hends := (isZip_iff.mp hzip).2.1
  rw [listedName_eq hseparator hother.ends] at hname
  obtain ⟨front, hfront, -⟩ := exists_append_cut (stem other.filename)
  have hentry : entry.filename = cut (stem other.filename) ++ ascii ".zip" := by
    rw [hname, stem_append_of_ends hends]
  have hsuffix : entry.filename <:+ other.filename := by
    refine ⟨front, ?_⟩
    rw [hentry, ← List.append_assoc, ← hfront, stem_append_of_ends hother.ends]
  refine ⟨hother.of_suffix hsuffix hends, ?_⟩
  rw [hentry, List.mem_append]
  exact not_or.mpr ⟨not_mem_cut _, by decide⟩

theorem listedName_of_plain (hseparator : '/'.toUInt8 ∉ entry.filename)
    (hends : ascii ".zip" <:+ entry.filename) (hbackslash : '\\'.toUInt8 ∉ entry.filename) :
    listedName folder entry = stem entry.filename := by
  rw [listedName_eq hseparator hends, cut, List.rtakeWhile_eq_self_iff]
  intro b hb
  have hne : b ≠ '\\'.toUInt8 := by
    rintro rfl
    exact hbackslash ((List.take_prefix _ _).subset hb)
  simpa using hne

theorem listedFiles_eq_nil (directory : List DirectoryEntry)
    (h : ascii ".zip" <:+: folder.path) : listedFiles folder directory = [] := by
  refine List.eq_nil_iff_forall_not_mem.mpr fun entry hentry => ?_
  exact (mem_listedFiles.mp hentry).2.1 h

theorem servedFiles_sublist_listedFiles
    (h : ∀ entry ∈ servedFiles lib s, entry ∈ listedFiles folder s.directory) :
    (servedFiles lib s).Sublist (listedFiles folder s.directory) := by
  have hfilter : (servedFiles lib s).filter
      (fun entry => EndsOnce (ascii ".zip") (folder.client entry.filename)) =
        servedFiles lib s :=
    List.filter_eq_self.mpr fun entry hentry => (List.mem_filter.mp (h entry hentry)).2
  rw [← hfilter]
  exact (servedFiles_sublist lib s).filter _

theorem PlainNames.listedFiles_eq (h : PlainNames lib s) (hfolder : IsFolder s.directory)
    (hpath : ¬ascii ".zip" <:+: folder.path) :
    listedFiles folder s.directory = servedFiles lib s := by
  have hserved : ∀ entry ∈ servedFiles lib s, entry ∈ listedFiles folder s.directory :=
    fun entry hentry =>
      mem_listedFiles.mpr ⟨(mem_servedFiles hentry).1, hpath, (h.names entry hentry).1⟩
  have hlisted : listedFiles folder s.directory ⊆ servedFiles lib s := by
    intro entry hentry
    obtain ⟨hmem, -, hends⟩ := mem_listedFiles.mp hentry
    have hzip := isZip_iff.mpr
      ⟨isDirectory_of_sized (h.sizes entry hmem hends), hends.ends, h.hidden entry hmem⟩
    exact h.served entry hmem hzip hends
  have hnodup : (listedFiles folder s.directory).Nodup :=
    (List.Nodup.of_map _ hfolder.names).filter _
  exact ((servedFiles_sublist_listedFiles hserved).eq_of_length_le
    (hnodup.subperm hlisted).length_le).symm

theorem plain_and_same (hfolder : IsFolder s.directory) (hpath : ¬ascii ".zip" <:+: folder.path)
    (hlength : (listedFiles folder s.directory).length = (servedFiles lib s).length)
    (hnames : (listedFiles folder s.directory).map (listedName folder) =
      (servedFiles lib s).map fun entry => stem entry.filename) :
    (∀ entry ∈ servedFiles lib s, EndsOnce (ascii ".zip") entry.filename ∧
      '\\'.toUInt8 ∉ entry.filename) ∧
    servedFiles lib s = listedFiles folder s.directory := by
  have hplain : ∀ entry ∈ servedFiles lib s, EndsOnce (ascii ".zip") entry.filename ∧
      '\\'.toUInt8 ∉ entry.filename := by
    intro entry hentry
    have hmem : stem entry.filename ∈
        (listedFiles folder s.directory).map (listedName folder) := by
      rw [hnames]
      exact List.mem_map_of_mem hentry
    obtain ⟨other, hother, hname⟩ := List.mem_map.mp hmem
    obtain ⟨hin, -, hends⟩ := mem_listedFiles.mp hother
    exact plain_of_listedName (hfolder.no_separator other hin) hends
      (mem_servedFiles hentry).2 hname
  have hserved : ∀ entry ∈ servedFiles lib s, entry ∈ listedFiles folder s.directory :=
    fun entry hentry =>
      mem_listedFiles.mpr ⟨(mem_servedFiles hentry).1, hpath, (hplain entry hentry).1⟩
  exact ⟨hplain, (servedFiles_sublist_listedFiles hserved).eq_of_length hlength.symm⟩

/-- What is served is listed, so every name that is listed is that of a mod. -/
theorem plainNames_of_same (hpath : ¬ascii ".zip" <:+: folder.path)
    (hsizes : ∀ entry ∈ listedFiles folder s.directory, entry.fileSize.isSome = true)
    (hplain : ∀ entry ∈ servedFiles lib s, EndsOnce (ascii ".zip") entry.filename ∧
      '\\'.toUInt8 ∉ entry.filename)
    (hsame : servedFiles lib s = listedFiles folder s.directory) : PlainNames lib s := by
  have hlisted : ∀ entry ∈ s.directory, EndsOnce (ascii ".zip") entry.filename →
      entry ∈ listedFiles folder s.directory :=
    fun entry hentry hends => mem_listedFiles.mpr ⟨hentry, hpath, hends⟩
  rw [← hsame] at hlisted hsizes
  refine ⟨fun entry hentry hname => ?_, fun entry hentry hends => ?_,
    fun entry hentry _ hends => hlisted entry hentry hends, hplain⟩
  · have hends : EndsOnce (ascii ".zip") entry.filename := by
      rw [hname]
      decide
    exact (isZip_iff.mp (mem_servedFiles (hlisted entry hentry hends)).2).2.2 hname
  · exact hsizes entry (hlisted entry hentry hends)

theorem PlainNames.listedNames_eq (h : PlainNames lib s) (hfolder : IsFolder s.directory) :
    (servedFiles lib s).map (listedName folder) =
      (servedFiles lib s).map fun entry => stem entry.filename := by
  refine List.map_congr_left fun entry hentry => ?_
  obtain ⟨hends, hbackslash⟩ := h.names entry hentry
  exact listedName_of_plain (hfolder.no_separator entry (mem_servedFiles hentry).1)
    hends.ends hbackslash

end Compare

def resources : ResourceFolder := ⟨ascii "Resources", by decide⟩

def emptyFile (name : String) : DirectoryEntry :=
  { RecordedMod.emptyMod 1 with filename := ascii name }

end TResourceManager
end BeamMP
