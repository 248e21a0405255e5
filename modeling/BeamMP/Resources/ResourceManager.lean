import BeamMP.Common.Json
import BeamMP.Foundation.Observables
import Mathlib.Data.List.DropRight

/-!
# The mods and their database

`TResourceManager` lists the mods in the folder `Client` and keeps what it knows about
them in `mods.json`. `RefreshFiles` reads this file, takes the hash of a mod from it if
the mod has not been modified, and writes the file again. `SetProtected` changes an
entry in both places. What `operator>>` leaves unread behind the value has no effect.
-/
namespace BeamMP

/-- What `nlohmann::json` and OpenSSL do. -/
structure ResourceLib where
  /-- `count > j`. -/
  greater : ℤ → Json → Bool
  /-- `j.get<size_t>()`. -/
  getSize : Json → Option ℕ
  /-- `j.dump(4)` does not throw. -/
  dumps : Json → Bool
  /-- The digest in hexadecimal, unless one of the calls fails. -/
  sha256 : Bytes → Option Bytes

/-- `fs::directory_entry`, with what can be read from the file. `last_write_time` and `file_size`
throw for a link that leads nowhere, and `file_size` for all that is no regular file. -/
structure DirectoryEntry where
  filename : Bytes
  isDirectory : Bool
  lastWriteTime : Option ℤ
  fileSize : Option ℕ
  content : Bytes
  fileSize_directory : isDirectory = true → fileSize = none
  lastWriteTime_regular : fileSize.isSome = true → lastWriteTime.isSome = true

namespace DirectoryEntry

def time (entry : DirectoryEntry) : ℤ := entry.lastWriteTime.getD 0

def size (entry : DirectoryEntry) : ℕ := entry.fileSize.getD 0

/-- `path.extension()`: the last dot and what follows it, unless this dot comes first. -/
def extension (entry : DirectoryEntry) : Bytes :=
  if (entry.filename.rdropWhile (· != '.'.toUInt8)).length ≤ 1 then []
  else '.'.toUInt8 :: entry.filename.rtakeWhile (· != '.'.toUInt8)

def isZip (entry : DirectoryEntry) : Bool :=
  entry.extension = ascii ".zip" && !entry.isDirectory

theorem filename_ne_of_isZip {entry : DirectoryEntry} (h : entry.isZip = true) :
    entry.filename ≠ ascii "mods.json" := by
  intro hname
  have hextension : entry.extension = ascii ".json" := by
    unfold extension
    rw [hname]
    decide
  unfold isZip at h
  rw [hextension] at h
  have hne : ascii ".json" ≠ ascii ".zip" := by decide
  simp [hne] at h

end DirectoryEntry

/-- An entry of `mMods`. What comes from the database is any value. -/
structure ModEntry where
  file_name : Bytes
  file_size : ℕ
  hash_algorithm : Bytes
  hash : Json
  isProtected : Json

/-- `mods.json`, which is empty after a call of `dump` that throws. -/
inductive ModsFile
  | missing
  | empty
  | holds (modsDB : Json)

structure TResourceManager where
  mMods : List ModEntry
  directory : List DirectoryEntry
  modsFile : ModsFile

/-- What `RefreshFiles` does not catch, of the JSON library or of `std::filesystem`. -/
inductive RefreshException
  | uncaught

/-- The loop of `RefreshFiles` works on `mMods` and the database it has read. -/
structure RefreshState where
  mMods : List ModEntry
  modsDB : Json

abbrev RefreshM := EStateM RefreshException RefreshState

namespace TResourceManager

variable (lib : ResourceLib)

/-- Whether the entry of the database is out of date, with what the test leaves in it. -/
def isModified (entry : DirectoryEntry) (dbEntry : Json) : Option (Bool × Json) := do
  let lastWriteTime ← entry.lastWriteTime
  let dbEntry ← dbEntry.touch (ascii "lastwrite")
  let lastwrite ← dbEntry.member (ascii "lastwrite")
  if lib.greater lastWriteTime lastwrite then pure (true, dbEntry)
  else do
    let fileSize ← entry.fileSize
    let dbEntry ← dbEntry.touch (ascii "filesize")
    let filesize ← dbEntry.member (ascii "filesize")
    let size ← lib.getSize filesize
    pure (decide (fileSize ≠ size), dbEntry)

/-- The entry of an unmodified mod, marked and read. -/
def markExisting (dbEntry : Json) : Option Json := do
  let dbEntry ← dbEntry.assign (ascii "exists") (.bool true)
  let dbEntry ← dbEntry.touch (ascii "hash")
  dbEntry.touch (ascii "protected")

def pushMod (mod : ModEntry) : RefreshM Unit :=
  modify fun s => { s with mMods := s.mMods ++ [mod] }

/-- `modsDB[filename]` on a database that has this member. -/
def storeEntry (filename : Bytes) (dbEntry : Json) : RefreshM Unit :=
  modify fun s => { s with modsDB := s.modsDB.setMember filename dbEntry }

def loadFromCache (entry : DirectoryEntry) (dbEntry : Json) : RefreshM Unit :=
  match markExisting dbEntry with
  | none => throw .uncaught
  | some dbEntry => do
    storeEntry entry.filename dbEntry
    pushMod
      { file_name := entry.filename
        file_size := entry.size
        hash_algorithm := ascii "sha256"
        hash := (dbEntry.member (ascii "hash")).getD .null
        isProtected := (dbEntry.member (ascii "protected")).getD .null }

/-- The entry of a mod that has been hashed. -/
def hashedEntry (entry : DirectoryEntry) (result : Bytes) : Json :=
  .object
    [(ascii "lastwrite", .integer entry.time), (ascii "hash", .string result),
      (ascii "filesize", .integer entry.size), (ascii "protected", .bool false),
      (ascii "exists", .bool true)]

/-- `modsDB[filename] = {...}`. A database that is neither an object nor null throws, which is
caught. -/
def storeHash (entry : DirectoryEntry) (result : Bytes) : RefreshM Unit :=
  modify fun s =>
    match s.modsDB.assign entry.filename (hashedEntry entry result) with
    | none => s
    | some modsDB => { s with modsDB := modsDB }

/-- The digest of a file, unless `file_size` throws. -/
def digest (entry : DirectoryEntry) : Option Bytes :=
  if entry.fileSize.isSome then lib.sha256 entry.content else none

/-- The `try` block. -/
def rehash (entry : DirectoryEntry) : RefreshM Unit :=
  match digest lib entry with
  | none => pure ()
  | some result => do
    pushMod
      { file_name := entry.filename
        file_size := entry.size
        hash_algorithm := ascii "sha256"
        hash := .string result
        isProtected := .bool false }
    storeHash entry result

def refreshEntry (entry : DirectoryEntry) : RefreshM Unit :=
  if entry.filename = ascii "mods.json" then pure ()
  else if entry.isZip = false then pure ()
  else do
    let s ← EStateM.get
    match s.modsDB.member entry.filename with
    | none => rehash lib entry
    | some dbEntry =>
      match isModified lib entry dbEntry with
      | none => throw .uncaught
      | some (true, dbEntry) => do
        storeEntry entry.filename dbEntry
        rehash lib entry
      | some (false, dbEntry) => loadFromCache entry dbEntry

/-- The last loop: a value without the mark `exists` is erased, the mark is taken from the
others. Of a value that has no members nothing is left. -/
def prune : Json → Json
  | .object fields =>
    .object ((fields.filter fun f => (f.2.member (ascii "exists")).isSome).map
      fun f => (f.1, f.2.eraseMember (ascii "exists")))
  | .array elements =>
    .array ((elements.filter fun j => (j.member (ascii "exists")).isSome).map
      (·.eraseMember (ascii "exists")))
  | _ => .null

def load : ModsFile → Json
  | .holds modsDB => modsDB
  | .missing | .empty => .null

/-- The file is truncated before `dump` is called. -/
def save (modsDB : Json) : ModsFile := if lib.dumps modsDB then .holds modsDB else .empty

/-- `RefreshFiles`. An exception of the loop leaves the file as it is. -/
def refreshFiles : EStateM RefreshException TResourceManager Unit := fun s =>
  match s.directory.forM (refreshEntry lib) ⟨[], load s.modsFile⟩ with
  | .ok _ t => .ok () { s with mMods := t.mMods, modsFile := save lib (prune t.modsDB) }
  | .error e t => .error e { s with mMods := t.mMods }

/-- `modsDB[ModName]["protected"] = Protected`, if there is such an entry. -/
def protectEntry (ModName : Bytes) (Protected : Bool) (modsDB : Json) : Option Json :=
  match modsDB.member ModName with
  | none => some modsDB
  | some dbEntry => do
    let dbEntry ← dbEntry.assign (ascii "protected") (.bool Protected)
    pure (modsDB.setMember ModName dbEntry)

def protectMod (ModName : Bytes) (Protected : Bool) : List ModEntry → List ModEntry
  | [] => []
  | mod :: mods =>
    if mod.file_name = ModName then { mod with isProtected := .bool Protected } :: mods
    else mod :: protectMod ModName Protected mods

/-- The file is written over only when `dump` has returned. -/
def protectFile (ModName : Bytes) (Protected : Bool) : ModsFile → ModsFile
  | .holds modsDB =>
    match protectEntry ModName Protected modsDB with
    | none => .holds modsDB
    | some modsDB' => if lib.dumps modsDB' then .holds modsDB' else .holds modsDB
  | modsFile => modsFile

def setProtected (ModName : Bytes) (Protected : Bool) (s : TResourceManager) : TResourceManager :=
  { s with
    mMods := protectMod ModName Protected s.mMods
    modsFile := protectFile lib ModName Protected s.modsFile }

end TResourceManager
end BeamMP
