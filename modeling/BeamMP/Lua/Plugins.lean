import BeamMP.Lua.StateQueues
import BeamMP.Network.SendFile

/-!
# Plugins and their files

A plugin is a directory in `Resources/Server`, and the files in it whose names end in
`.lua` are its scripts. Directories and files are sorted by their paths in lower case,
with paths that differ in case only in any order. The configuration of a plugin can
name the Lua state it runs in, which is that of its own name otherwise.
-/
namespace BeamMP

/-- `::tolower` of the C locale. -/
def tolower (b : UInt8) : UInt8 := if 65 ≤ b ∧ b ≤ 90 then b + 32 else b

def lowerString (str : Bytes) : Bytes := str.map tolower

/-- `fs::path(s).extension()`: the last dot of the file name and what follows it, unless this dot
comes first. -/
def extension (path : Bytes) : Bytes :=
  if filename path = ascii ".." then []
  else if ((filename path).rdropWhile (· != '.'.toUInt8)).length ≤ 1 then []
  else '.'.toUInt8 :: (filename path).rtakeWhile (· != '.'.toUInt8)

/-- `fs::path(s).stem()`. -/
def stem (path : Bytes) : Bytes :=
  (filename path).take ((filename path).length - (extension path).length)

/-- A file in a plugin's directory, with what `file_size` and `fs::relative` give unless they throw,
and with what can be read from it, which is nothing if it cannot be opened. -/
structure PluginFile where
  path : Bytes
  isRegularFile : Bool
  fileSize : Option ℕ
  relative : Option Bytes
  stream : Bytes
deriving DecidableEq

/-- `Contents`: what `read` does not fill remains NUL. -/
def PluginFile.contents (Entry : PluginFile) (Size : ℕ) : Bytes :=
  (Entry.stream.take Size).rightpad Size 0

/-- What `toml::parse` makes of `PluginConfig.toml`; it fails also for a `LuaStateID` that is not a
string. -/
inductive PluginConfigFile
  | missing
  | failed
  | parsed (LuaStateID : Option Bytes)
deriving DecidableEq

/-- An entry of `Resources/Server`, whose path relative to the working directory has no links. -/
structure PluginEntry where
  path : Bytes
  isDirectory : Bool
  relative : Bytes
  config : PluginConfigFile
  files : List PluginFile
deriving DecidableEq

/-- `std::sort` by the paths in lower case, which gives any of these lists. -/
def IsSorted {β : Type} (path : β → Bytes) (entries sorted : List β) : Prop :=
  sorted.Perm entries ∧
    sorted.Pairwise fun first second => ¬ lowerString (path second) < lowerString (path first)

instance {β : Type} [DecidableEq β] (path : β → Bytes) (entries sorted : List β) :
    Decidable (IsSorted path entries sorted) :=
  inferInstanceAs (Decidable (_ ∧ _))

namespace PluginEntry

variable (plugin : PluginEntry)

/-- `FindAndParseConfig`, which leaves the name of the plugin unless it finds another one. -/
def StateId : TLuaStateId :=
  match plugin.config with
  | .parsed (some (b :: LuaStateID)) => b :: LuaStateID
  | _ => stem plugin.relative

def scripts : List PluginFile :=
  plugin.files.filter fun Entry => Entry.isRegularFile && extension Entry.path = ascii ".lua"

/-- The script in a file, unless an exception is caught before it is enqueued. That the file could
be opened is not tested. -/
def chunk (Entry : PluginFile) : Option (TLuaStateId × TLuaChunk) := do
  let Size ← Entry.fileSize
  let _ ← Entry.relative
  some (plugin.StateId, ⟨Entry.contents Size, Entry.path, plugin.relative⟩)

variable {plugin}

theorem chunk_eq_some {Entry : PluginFile} {StateId : TLuaStateId} {Chunk : TLuaChunk}
    (h : plugin.chunk Entry = some (StateId, Chunk)) :
    StateId = plugin.StateId ∧ Chunk.FileName = Entry.path ∧
      Chunk.PluginPath = plugin.relative := by
  obtain ⟨Size, -, h⟩ := Option.bind_eq_some_iff.mp h
  obtain ⟨_, -, h⟩ := Option.bind_eq_some_iff.mp h
  obtain ⟨rfl, rfl⟩ := Prod.mk.inj (Option.some.inj h)
  exact ⟨rfl, rfl, rfl⟩

end PluginEntry

/-- The plugins in the order of their names, each with its scripts in order. -/
structure LoadOrder (entries : List PluginEntry) (order : List (PluginEntry × List PluginFile)) :
    Prop where
  plugins : IsSorted PluginEntry.path (entries.filter (·.isDirectory)) (order.map Prod.fst)
  scripts : ∀ p ∈ order, IsSorted PluginFile.path p.1.scripts p.2

/-- All scripts of plugins in this order, those left out that are not enqueued. -/
def chunksOf (order : List (PluginEntry × List PluginFile)) : List (TLuaStateId × TLuaChunk) :=
  order.flatMap fun p => p.2.filterMap p.1.chunk

end BeamMP
