import BeamMP.Common.JsonMembers
import BeamMP.Resources.ProtectedMods

/-!
# The hashes in `mods.json`

`RefreshFiles` lists every mod and writes what it lists. A hash may be taken from
`mods.json` only for a file that is as old and as large as it was when it was
hashed. The code tests whether the file is newer. A file that has been replaced by
an older one of the same size keeps the hash of the one before.
-/
namespace BeamMP

open Observables

/-- A number with this value. -/
def Json.Denotes (j : Json) (n : ℤ) : Prop :=
  match j with
  | .integer m => m = n
  | .float mantissa exponent => Dyadic.ofIntWithPrec mantissa (-exponent) = n
  | _ => False

/-- The time and the size are an `int64_t` and a `size_t`. -/
structure DirectoryEntry.InRange (entry : DirectoryEntry) : Prop where
  time_ge : -2 ^ 63 ≤ entry.time
  time_lt : entry.time < 2 ^ 63
  size_lt : entry.size < 2 ^ 64

/-- What holds of the libraries: numbers are compared and converted by their value, `dump` throws
on text that is not UTF-8, and a digest in hexadecimal is text. -/
structure ResourceLib.Lawful (lib : ResourceLib) : Prop where
  not_greater : ∀ {n : ℤ} {j : Json}, -2 ^ 63 ≤ n → n < 2 ^ 63 → j.Denotes n →
    lib.greater n j = false
  getSize_eq : ∀ {n : ℕ} {j : Json}, n < 2 ^ 64 → j.Denotes n → lib.getSize j = some n
  dumps_iff : ∀ j, lib.dumps j = true ↔ j.IsText
  isUtf8_sha256 : ∀ content result, lib.sha256 content = some result → IsUtf8 result

namespace TResourceManager

def zips (directory : List DirectoryEntry) : List DirectoryEntry := directory.filter (·.isZip)

/-- A member of an entry that `operator[]` has made null if it was missing. -/
def valueOf (dbEntry : Json) (key : Bytes) : Json := (dbEntry.member key).getD .null

/-- The entry has the time and the size of the file. -/
structure Records (dbEntry : Json) (entry : DirectoryEntry) : Prop where
  lastwrite : (valueOf dbEntry (ascii "lastwrite")).Denotes entry.time
  filesize : (valueOf dbEntry (ascii "filesize")).Denotes entry.size

variable (lib : ResourceLib)

def rehashes (entry : DirectoryEntry) (modsDB : Json) : Bool :=
  match modsDB.member entry.filename with
  | none => true
  | some dbEntry =>
    match isModified lib entry dbEntry with
    | some (modified, _) => modified
    | none => false

/-- The mods that the loop hashes, up to a round that throws. -/
def hashedInLoop : List DirectoryEntry → RefreshState → List DirectoryEntry
  | [], _ => []
  | entry :: rest, s =>
    (if entry.isZip && rehashes lib entry s.modsDB then [entry] else []) ++
      match refreshEntry lib entry s with
      | .ok _ t => hashedInLoop rest t
      | .error _ _ => []

def hashedFiles (s : TResourceManager) : List DirectoryEntry :=
  hashedInLoop lib s.directory ⟨[], load s.modsFile⟩

/-- The names, the sizes and the hashes of the mods are those of the database. -/
structure SameMods (mods : List ModEntry) (modsDB : Json) : Prop where
  stored : ∀ mod ∈ mods, ∃ dbEntry, modsDB.member mod.file_name = some dbEntry ∧
    (valueOf dbEntry (ascii "filesize")).Denotes mod.file_size ∧
    dbEntry.member (ascii "hash") = some mod.hash
  listed : ∀ key ∈ modsDB.names, ∃ mod ∈ mods, mod.file_name = key

/-- What a call of `RefreshFiles` from `s` that ends in `t` shall have done. -/
structure Refreshed (s t : TResourceManager) : Prop where
  listed : t.mMods.map (fun mod => (mod.file_name, mod.file_size)) =
    (zips s.directory).map fun entry => (entry.filename, entry.size)
  written : ∃ modsDB, t.modsFile = .holds modsDB ∧ SameMods t.mMods modsDB
  reused : ∀ entry ∈ zips s.directory, entry ∉ hashedFiles lib s →
    ∃ dbEntry, (load s.modsFile).member entry.filename = some dbEntry ∧ Records dbEntry entry
  again : ∃ u, refreshFiles lib t = .ok () u ∧ u.mMods = t.mMods ∧ u.modsFile = t.modsFile ∧
    hashedFiles lib t = []

def CacheExact (s : TResourceManager) : Prop :=
  ∃ t, refreshFiles lib s = .ok () t ∧ Refreshed lib s t

/-- The folder, and a database that was read from a text. No mod fails to be hashed. -/
structure RefreshInput (s : TResourceManager) : Prop where
  names : (s.directory.map DirectoryEntry.filename).Nodup
  inRange : ∀ entry ∈ zips s.directory, entry.InRange
  hashes : ∀ entry ∈ zips s.directory, (digest lib entry).isSome = true
  distinct : (load s.modsFile).DistinctMembers
  text : (load s.modsFile).IsText

/-- What was recorded tells whether the file is the same: it is older than the file, or it has
another size, or it has the time and the size of the file. -/
structure Tells (entry : DirectoryEntry) (dbEntry : Json) : Prop where
  shape : (dbEntry.isObject || dbEntry.isNull) = true
  recorded : lib.greater entry.time (valueOf dbEntry (ascii "lastwrite")) = true ∨
    ∃ size, lib.getSize (valueOf dbEntry (ascii "filesize")) = some size ∧
      (entry.size = size → Records dbEntry entry)

/-- The database can take an entry for every mod, nothing else in it has the mark of the loop,
every entry of a mod tells whether the mod is the same, and the names can be written. -/
structure CacheSound (s : TResourceManager) : Prop where
  shape : zips s.directory = [] ∨ ((load s.modsFile).isObject || (load s.modsFile).isNull) = true
  members : ∀ key dbEntry, (load s.modsFile).member key = some dbEntry →
    (∀ entry ∈ zips s.directory, entry.filename ≠ key) → dbEntry.member (ascii "exists") = none
  elements : ∀ elements, load s.modsFile = .array elements →
    ∀ j ∈ elements, j.member (ascii "exists") = none
  tells : ∀ entry ∈ zips s.directory, ∀ dbEntry,
    (load s.modsFile).member entry.filename = some dbEntry → Tells lib entry dbEntry
  filenames : ∀ entry ∈ zips s.directory, IsUtf8 entry.filename

variable {lib}

section Entries

variable {entry : DirectoryEntry} {dbEntry : Json} {key : Bytes}

theorem fileSize_isSome_of_digest (h : (digest lib entry).isSome = true) :
    entry.fileSize.isSome = true := by
  unfold digest at h
  split_ifs at h with hsized
  · exact hsized
  · cases h

theorem member_of_denotes {n : ℤ} (h : (valueOf dbEntry key).Denotes n) :
    dbEntry.member key = some (valueOf dbEntry key) := by
  unfold valueOf at h ⊢
  cases hmember : dbEntry.member key with
  | none =>
    rw [hmember] at h
    exact h.elim
  | some value => rfl

theorem valueOf_congr {dbEntry' : Json} (h : dbEntry'.member key = dbEntry.member key) :
    valueOf dbEntry' key = valueOf dbEntry key := by
  unfold valueOf
  rw [h]

theorem Records.congr {dbEntry' : Json} (h : Records dbEntry entry)
    (hlastwrite : dbEntry'.member (ascii "lastwrite") = dbEntry.member (ascii "lastwrite"))
    (hfilesize : dbEntry'.member (ascii "filesize") = dbEntry.member (ascii "filesize")) :
    Records dbEntry' entry where
  lastwrite := valueOf_congr hlastwrite ▸ h.lastwrite
  filesize := valueOf_congr hfilesize ▸ h.filesize

theorem isModified_eq (lib : ResourceLib) (hsized : entry.fileSize.isSome = true)
    (h : (dbEntry.isObject || dbEntry.isNull) = true) :
    ∃ first second, isModified lib entry dbEntry =
      if lib.greater entry.time (valueOf dbEntry (ascii "lastwrite")) then
        some (true, first)
      else (lib.getSize (valueOf dbEntry (ascii "filesize"))).map
        fun size => (decide (entry.size ≠ size), second) := by
  obtain ⟨first, hfirst⟩ := (Json.exists_touch_iff (ascii "lastwrite")).mpr h
  have hobject := Json.isObject_of_touch hfirst
  obtain ⟨second, hsecond⟩ := Json.exists_touch hobject (ascii "filesize")
  have hlastwrite : first.member (ascii "lastwrite") =
      some (valueOf dbEntry (ascii "lastwrite")) := Json.member_touch_self hfirst
  have hfilesize : second.member (ascii "filesize") =
      some (valueOf dbEntry (ascii "filesize")) := by
    rw [Json.member_touch_self hsecond, Json.member_touch_of_ne hfirst (by decide)]
    rfl
  obtain ⟨fileSize, hfileSize⟩ := Option.isSome_iff_exists.mp hsized
  obtain ⟨lastWriteTime, htime⟩ :=
    Option.isSome_iff_exists.mp (entry.lastWriteTime_regular hsized)
  refine ⟨first, second, ?_⟩
  simp only [isModified, DirectoryEntry.time, DirectoryEntry.size, htime, hfileSize,
    Option.getD_some, hfirst, Option.bind_eq_bind, Option.bind_some, hlastwrite, hsecond,
    hfilesize]
  split_ifs
  · rfl
  · cases lib.getSize (valueOf dbEntry (ascii "filesize")) with
    | _ => rfl

theorem shape_of_isModified {result : Bool × Json}
    (h : isModified lib entry dbEntry = some result) :
    (dbEntry.isObject || dbEntry.isNull) = true := by
  obtain ⟨first, hfirst, -⟩ := touches_of_isModified h
  exact (Json.exists_touch_iff (ascii "lastwrite")).mp ⟨first, hfirst⟩

/-- The recorded values tell enough if the test returns, and finds what was recorded where it
does not find a modification. -/
theorem tells_iff (hsized : entry.fileSize.isSome = true) : Tells lib entry dbEntry ↔
    ∃ modified dbEntry', isModified lib entry dbEntry = some (modified, dbEntry') ∧
      (modified = false → Records dbEntry entry) := by
  constructor
  · rintro ⟨hshape, hrecorded⟩
    obtain ⟨first, second, heq⟩ := isModified_eq lib hsized hshape
    rw [heq]
    split_ifs with hgreater
    · exact ⟨true, first, rfl, nofun⟩
    · obtain ⟨size, hsize, hsame⟩ := hrecorded.resolve_left hgreater
      rw [hsize]
      exact ⟨_, second, rfl, fun h => hsame (by simpa using h)⟩
  · rintro ⟨modified, dbEntry', h, hsame⟩
    have hshape := shape_of_isModified h
    refine ⟨hshape, ?_⟩
    obtain ⟨first, second, heq⟩ := isModified_eq lib hsized hshape
    rw [heq] at h
    split_ifs at h with hgreater
    · exact .inl hgreater
    · obtain ⟨size, hsize, hresult⟩ := Option.map_eq_some_iff.mp h
      refine .inr ⟨size, hsize, fun hfile => hsame ?_⟩
      rw [← (Prod.mk.inj hresult).1]
      simpa using hfile

theorem isModified_of_records (hlib : lib.Lawful) (hrange : entry.InRange)
    (hsized : entry.fileSize.isSome = true) (h : Records dbEntry entry) :
    isModified lib entry dbEntry = some (false, dbEntry) := by
  obtain ⟨fileSize, hfileSize⟩ := Option.isSome_iff_exists.mp hsized
  obtain ⟨lastWriteTime, htime⟩ :=
    Option.isSome_iff_exists.mp (entry.lastWriteTime_regular hsized)
  have hlastwrite := member_of_denotes h.lastwrite
  have hfilesize := member_of_denotes h.filesize
  have hgreater := hlib.not_greater hrange.time_ge hrange.time_lt h.lastwrite
  have hsize := hlib.getSize_eq hrange.size_lt h.filesize
  rw [DirectoryEntry.time, htime, Option.getD_some] at hgreater
  rw [DirectoryEntry.size, hfileSize, Option.getD_some] at hsize
  simp [isModified, htime, hfileSize, Json.touch_of_member hlastwrite,
    Json.touch_of_member hfilesize, hlastwrite, hfilesize, hgreater, hsize]

/-- An entry from which a mod can be listed. -/
structure Entered (entry : DirectoryEntry) (dbEntry : Json) : Prop where
  records : Records dbEntry entry
  hash : ∃ hash, dbEntry.member (ascii "hash") = some hash
  isProtected : ∃ isProtected, dbEntry.member (ascii "protected") = some isProtected

def listedMod (entry : DirectoryEntry) (dbEntry : Json) : ModEntry where
  file_name := entry.filename
  file_size := entry.size
  hash_algorithm := ascii "sha256"
  hash := valueOf dbEntry (ascii "hash")
  isProtected := valueOf dbEntry (ascii "protected")

theorem Entered.isObject (h : Entered entry dbEntry) : dbEntry.isObject = true :=
  h.hash.elim fun _ hmember => Json.isObject_of_member hmember

theorem Entered.congr {dbEntry' : Json} (h : Entered entry dbEntry)
    (hsame : ∀ key, key ≠ ascii "exists" → dbEntry'.member key = dbEntry.member key) :
    Entered entry dbEntry' where
  records := h.records.congr (hsame _ (by decide)) (hsame _ (by decide))
  hash := by
    rw [hsame _ (by decide)]
    exact h.hash
  isProtected := by
    rw [hsame _ (by decide)]
    exact h.isProtected

theorem listedMod_congr {dbEntry' : Json}
    (hsame : ∀ key, key ≠ ascii "exists" → dbEntry'.member key = dbEntry.member key) :
    listedMod entry dbEntry' = listedMod entry dbEntry := by
  unfold listedMod
  rw [valueOf_congr (hsame (ascii "hash") (by decide)),
    valueOf_congr (hsame (ascii "protected") (by decide))]

theorem entered_hashedEntry (entry : DirectoryEntry) (result : Bytes) :
    Entered entry (hashedEntry entry result) where
  records := ⟨rfl, rfl⟩
  hash := ⟨.string result, rfl⟩
  isProtected := ⟨.bool false, rfl⟩

theorem Records.entered_of_marked {marked : Json} (h : Records dbEntry entry)
    (hmarked : Marked dbEntry marked) : Entered entry marked where
  records := h.congr (hmarked.others _ (by decide) (by decide) (by decide))
    (hmarked.others _ (by decide) (by decide) (by decide))
  hash := ⟨_, hmarked.hash⟩
  isProtected := ⟨_, hmarked.isProtected⟩

theorem markExisting_of_entered (h : Entered entry dbEntry) :
    markExisting dbEntry = some (dbEntry.setMember (ascii "exists") (.bool true)) := by
  have hassign : dbEntry.assign (ascii "exists") (.bool true) =
      some (dbEntry.setMember (ascii "exists") (.bool true)) := by
    cases dbEntry with
    | object fields => rfl
    | _ => exact absurd h.isObject Bool.noConfusion
  obtain ⟨hash, hhash⟩ := h.hash
  obtain ⟨isProtected, hprotected⟩ := h.isProtected
  rw [← Json.member_setMember_of_ne (.bool true) dbEntry
    (show ascii "hash" ≠ ascii "exists" by decide)] at hhash
  rw [← Json.member_setMember_of_ne (.bool true) dbEntry
    (show ascii "protected" ≠ ascii "exists" by decide)] at hprotected
  simp only [markExisting, hassign, Option.bind_eq_bind, Option.bind_some,
    Json.touch_of_member hhash, Json.touch_of_member hprotected]

end Entries

section Rounds

variable {entry : DirectoryEntry} {marked modsDB : Json} {s : RefreshState}

/-- What a round leaves in the database for a mod, unless it throws. -/
def roundEntry (lib : ResourceLib) (entry : DirectoryEntry) : Option Json → Option Json
  | none => (digest lib entry).map (hashedEntry entry)
  | some dbEntry =>
    match isModified lib entry dbEntry with
    | none => none
    | some (true, _) => (digest lib entry).map (hashedEntry entry)
    | some (false, dbEntry) => markExisting dbEntry

/-- The mod can be listed from what the round leaves, and is marked. -/
theorem entered_roundEntry (hlib : lib.Lawful) (hrange : entry.InRange)
    (hhash : (digest lib entry).isSome = true) {recorded : Option Json}
    (htells : ∀ dbEntry, recorded = some dbEntry → Tells lib entry dbEntry) :
    ∃ marked, roundEntry lib entry recorded = some marked ∧ Entered entry marked ∧
      marked.member (ascii "exists") = some (.bool true) := by
  have hsized := fileSize_isSome_of_digest hhash
  obtain ⟨result, hresult⟩ := Option.isSome_iff_exists.mp hhash
  have hhashed : ∃ marked, (digest lib entry).map (hashedEntry entry) = some marked ∧
      Entered entry marked ∧ marked.member (ascii "exists") = some (.bool true) := by
    rw [hresult]
    exact ⟨_, rfl, entered_hashedEntry entry result, rfl⟩
  cases recorded with
  | none => exact hhashed
  | some dbEntry =>
    obtain ⟨modified, dbEntry', hmodified, hsame⟩ := (tells_iff hsized).mp (htells dbEntry rfl)
    unfold roundEntry
    dsimp only
    rw [hmodified]
    cases modified with
    | true => exact hhashed
    | false =>
      have hobject := isObject_of_isModified hmodified
      rw [isModified_of_records hlib hrange hsized (hsame rfl)] at hmodified
      obtain ⟨-, rfl⟩ := Prod.mk.inj (Option.some.inj hmodified)
      obtain ⟨marked, hmark, hmarked⟩ := markExisting_of_isObject hobject
      exact ⟨marked, hmark, (hsame rfl).entered_of_marked hmarked, hmarked.mark⟩

theorem roundEntry_of_entered (hlib : lib.Lawful) (hrange : entry.InRange)
    (hsized : entry.fileSize.isSome = true) {dbEntry : Json} (h : Entered entry dbEntry) :
    roundEntry lib entry (some dbEntry) =
      some (dbEntry.setMember (ascii "exists") (.bool true)) := by
  unfold roundEntry
  dsimp only
  rw [isModified_of_records hlib hrange hsized h.records]
  exact markExisting_of_entered h

theorem rehashes_of_entered (hlib : lib.Lawful) (hrange : entry.InRange)
    (hsized : entry.fileSize.isSome = true) {dbEntry : Json}
    (hmember : modsDB.member entry.filename = some dbEntry) (h : Entered entry dbEntry) :
    rehashes lib entry modsDB = false := by
  unfold rehashes
  rw [hmember]
  dsimp only
  rw [isModified_of_records hlib hrange hsized h.records]

theorem rehash_of_assign {result : Bytes} (hresult : digest lib entry = some result)
    (hassign : s.modsDB.assign entry.filename (hashedEntry entry result) = some modsDB) :
    rehash lib entry s =
      .ok () ⟨s.mMods ++ [listedMod entry (hashedEntry entry result)], modsDB⟩ := by
  have hstore : ∀ mods, storeHash entry result ⟨mods, s.modsDB⟩ = .ok () ⟨mods, modsDB⟩ := by
    intro mods
    have hmodify : storeHash entry result ⟨mods, s.modsDB⟩ = .ok ()
        (match s.modsDB.assign entry.filename (hashedEntry entry result) with
        | none => ⟨mods, s.modsDB⟩
        | some modsDB => ⟨mods, modsDB⟩) := rfl
    rw [hmodify, hassign]
  unfold rehash
  rw [hresult]
  exact hstore _

theorem rehash_after_storeEntry {dbEntry dbEntry' : Json} {result : Bytes}
    (hmember : s.modsDB.member entry.filename = some dbEntry)
    (hresult : digest lib entry = some result) :
    (do storeEntry entry.filename dbEntry'; rehash lib entry : RefreshM Unit) s =
      .ok () ⟨s.mMods ++ [listedMod entry (hashedEntry entry result)],
        s.modsDB.setMember entry.filename (hashedEntry entry result)⟩ := by
  have hstore : storeEntry entry.filename dbEntry' s =
      .ok () ⟨s.mMods, s.modsDB.setMember entry.filename dbEntry'⟩ := rfl
  rw [bind_of_ok hstore]
  refine rehash_of_assign hresult (Json.assign_setMember_of_mem ?_ _ _)
  exact Json.mem_names_iff.mpr ⟨dbEntry, hmember⟩

theorem refreshEntry_of_roundEntry (hzip : entry.isZip = true)
    (hshape : (s.modsDB.isObject || s.modsDB.isNull) = true)
    (h : roundEntry lib entry (s.modsDB.member entry.filename) = some marked) :
    ∃ modsDB, s.modsDB.assign entry.filename marked = some modsDB ∧
      refreshEntry lib entry s = .ok () ⟨s.mMods ++ [listedMod entry marked], modsDB⟩ := by
  obtain ⟨modsDB, hassign⟩ := (Json.exists_assign_iff entry.filename marked).mpr hshape
  refine ⟨modsDB, hassign, ?_⟩
  rw [refreshEntry, if_neg (DirectoryEntry.filename_ne_of_isZip hzip),
    if_neg (by rw [hzip]; exact Bool.noConfusion)]
  have hget : (EStateM.get : RefreshM RefreshState) s = .ok s s := rfl
  rw [bind_of_ok hget]
  unfold roundEntry at h
  cases hmember : s.modsDB.member entry.filename with
  | none =>
    rw [hmember] at h
    obtain ⟨result, hresult, rfl⟩ := Option.map_eq_some_iff.mp h
    exact rehash_of_assign hresult hassign
  | some dbEntry =>
    have hset : s.modsDB.setMember entry.filename marked = modsDB := by
      cases hdb : s.modsDB with
      | object fields =>
        rw [hdb] at hassign
        exact Option.some.inj hassign
      | _ =>
        rw [hdb] at hmember
        cases hmember
    rw [hmember] at h
    dsimp only at h ⊢
    cases hmodified : isModified lib entry dbEntry with
    | none =>
      rw [hmodified] at h
      cases h
    | some test =>
      obtain ⟨modified, dbEntry'⟩ := test
      rw [hmodified] at h
      rw [← hset]
      cases modified with
      | true =>
        obtain ⟨result, hresult, rfl⟩ := Option.map_eq_some_iff.mp h
        exact rehash_after_storeEntry hmember hresult
      | false =>
        dsimp only at h ⊢
        rw [loadFromCache, h]
        rfl

/-- The log misses no hash: a round that is not in it does not depend on the digest. -/
theorem refreshEntry_of_not_rehashes (h : rehashes lib entry s.modsDB = false)
    (sha256 : Bytes → Option Bytes) :
    refreshEntry { lib with sha256 := sha256 } entry s = refreshEntry lib entry s := by
  have hget : (EStateM.get : RefreshM RefreshState) s = .ok s s := rfl
  have htest : isModified { lib with sha256 := sha256 } entry = isModified lib entry := rfl
  unfold rehashes at h
  unfold refreshEntry
  split_ifs
  · rfl
  · rfl
  · rw [bind_of_ok hget, bind_of_ok hget]
    cases hmember : s.modsDB.member entry.filename with
    | none =>
      rw [hmember] at h
      cases h
    | some dbEntry =>
      rw [hmember] at h
      dsimp only at h ⊢
      rw [htest]
      match isModified lib entry dbEntry, h with
      | none, _ => rfl
      | some (false, _), _ => rfl

end Rounds

section Loop

variable {directory : List DirectoryEntry} {s : RefreshState}

theorem zips_cons_of_isZip {entry : DirectoryEntry} (h : entry.isZip = true) :
    zips (entry :: directory) = entry :: zips directory := List.filter_cons_of_pos h

theorem zips_cons_of_not_isZip {entry : DirectoryEntry} (h : entry.isZip = false) :
    zips (entry :: directory) = zips directory :=
  List.filter_cons_of_neg (by rw [h]; exact Bool.noConfusion)

theorem nodup_zips (hnames : (directory.map DirectoryEntry.filename).Nodup) :
    ((zips directory).map DirectoryEntry.filename).Nodup :=
  hnames.sublist (List.filter_sublist.map _)

theorem forM_of_roundEntry {marked : DirectoryEntry → Json}
    (hnames : (directory.map DirectoryEntry.filename).Nodup)
    (hshape : zips directory = [] ∨ (s.modsDB.isObject || s.modsDB.isNull) = true)
    (h : ∀ entry ∈ zips directory,
      roundEntry lib entry (s.modsDB.member entry.filename) = some (marked entry)) :
    ∃ modsDB, s.modsDB.assignAll ((zips directory).map fun entry =>
        (entry.filename, marked entry)) = some modsDB ∧
      directory.forM (refreshEntry lib) s = .ok ()
        ⟨s.mMods ++ (zips directory).map fun entry => listedMod entry (marked entry), modsDB⟩ := by
  induction directory generalizing s with
  | nil =>
    refine ⟨s.modsDB, rfl, ?_⟩
    rw [zips, List.filter_nil, List.map_nil, List.append_nil]
    rfl
  | cons entry rest ih =>
    obtain ⟨hhead, htail⟩ := List.nodup_cons.mp hnames
    have hloop : (entry :: rest).forM (refreshEntry lib) =
        refreshEntry lib entry >>= fun _ => rest.forM (refreshEntry lib) := rfl
    cases hzip : entry.isZip with
    | false =>
      rw [zips_cons_of_not_isZip hzip] at hshape h ⊢
      obtain ⟨modsDB, hassign, hrest⟩ := ih htail hshape h
      refine ⟨modsDB, hassign, ?_⟩
      rw [hloop, refreshEntry_of_not_isZip hzip]
      exact hrest
    | true =>
      rw [zips_cons_of_isZip hzip] at hshape h ⊢
      have hshape' := hshape.resolve_left (List.cons_ne_nil _ _)
      obtain ⟨first, hfirst, hround⟩ :=
        refreshEntry_of_roundEntry hzip hshape' (h entry List.mem_cons_self)
      have hobject : (first.isObject || first.isNull) = true := by
        rw [Json.isObject_of_assign hfirst, Bool.true_or]
      have hrounds : ∀ other ∈ zips rest,
          roundEntry lib other (first.member other.filename) = some (marked other) := by
        intro other hother
        have hne : other.filename ≠ entry.filename := fun heq =>
          hhead (heq ▸ List.mem_map_of_mem (List.mem_of_mem_filter hother))
        rw [Json.member_assign_of_ne hfirst hne]
        exact h other (List.mem_cons_of_mem _ hother)
      obtain ⟨modsDB, hassign, hrest⟩ := ih
        (s := ⟨s.mMods ++ [listedMod entry (marked entry)], first⟩) htail (.inr hobject) hrounds
      refine ⟨modsDB, ?_, ?_⟩
      · rw [List.map_cons, Json.assignAll_cons, hfirst]
        exact hassign
      · rw [hloop, bind_of_ok hround, hrest, List.map_cons, List.append_assoc,
          List.singleton_append]

section Entered

variable {marked : DirectoryEntry → Json} {modsDB modsDB' : Json}

theorem member_of_mem_zips (hnames : (directory.map DirectoryEntry.filename).Nodup)
    (h : modsDB.assignAll ((zips directory).map fun entry => (entry.filename, marked entry)) =
      some modsDB') {entry : DirectoryEntry} (hentry : entry ∈ zips directory) :
    modsDB'.member entry.filename = some (marked entry) := by
  refine Json.member_assignAll_of_mem h ?_ (List.mem_map_of_mem hentry)
  rw [List.map_map]
  exact nodup_zips hnames

theorem member_of_notMem_zips
    (h : modsDB.assignAll ((zips directory).map fun entry => (entry.filename, marked entry)) =
      some modsDB') {key : Bytes} (hkey : ∀ entry ∈ zips directory, entry.filename ≠ key) :
    modsDB'.member key = modsDB.member key := by
  refine Json.member_assignAll_of_notMem h fun hmem => ?_
  obtain ⟨f, hf, hname⟩ := List.mem_map.mp hmem
  obtain ⟨entry, hentry, rfl⟩ := List.mem_map.mp hf
  exact hkey entry hentry hname

theorem distinctMembers_of_assignAll {fields : List (Bytes × Json)}
    (h : modsDB.assignAll fields = some modsDB') (hdistinct : modsDB.DistinctMembers) :
    modsDB'.DistinctMembers :=
  Json.distinctMembers_of_nodup (Json.nodup_names_of_assignAll h (Json.nodup_names hdistinct))

end Entered

theorem rehashes_after_round {entry other : DirectoryEntry}
    (h : entry.filename ≠ other.filename) (s : RefreshState) :
    rehashes lib other (final (refreshEntry lib entry) s).modsDB =
      rehashes lib other s.modsDB := by
  unfold rehashes
  rw [Json.member_eq_head?_values, values_after_round lib h, ← Json.member_eq_head?_values]

theorem hashedInLoop_eq (hnames : (directory.map DirectoryEntry.filename).Nodup)
    (h : threw (directory.forM (refreshEntry lib)) s = false) :
    hashedInLoop lib directory s = (zips directory).filter (rehashes lib · s.modsDB) := by
  induction directory generalizing s with
  | nil => rfl
  | cons entry rest ih =>
    obtain ⟨hhead, htail⟩ := List.nodup_cons.mp hnames
    have hfirst : threw (refreshEntry lib entry) s = false := by
      rw [Bool.eq_false_iff]
      intro hthrew
      rw [(forM_cons_of_threw rest hthrew).1] at h
      cases h
    obtain ⟨a, ha⟩ := exists_ok_of_not_threw hfirst
    rw [(forM_cons_of_not_threw rest hfirst).1] at h
    have hsame : (zips rest).filter
          (rehashes lib · (final (refreshEntry lib entry) s).modsDB) =
        (zips rest).filter (rehashes lib · s.modsDB) := by
      refine List.filter_congr fun other hother => rehashes_after_round ?_ s
      exact fun heq => hhead (heq ▸ List.mem_map_of_mem (List.mem_of_mem_filter hother))
    unfold hashedInLoop
    rw [ha]
    dsimp only
    rw [ih htail h, hsame]
    cases hzip : entry.isZip with
    | false => rw [zips_cons_of_not_isZip hzip, Bool.false_and, if_neg Bool.noConfusion,
        List.nil_append]
    | true =>
      rw [zips_cons_of_isZip hzip, Bool.true_and, List.filter_cons]
      split_ifs
      · rfl
      · rfl

end Loop

section Prune

variable {modsDB value : Json} {key : Bytes}

theorem isObject_prune (h : modsDB.isObject = true) : (prune modsDB).isObject = true := by
  cases modsDB with
  | object fields => rfl
  | _ => cases h

theorem names_prune_sublist (modsDB : Json) : (prune modsDB).names.Sublist modsDB.names := by
  cases modsDB with
  | object fields =>
    simp only [prune, Json.names, List.map_map]
    exact List.filter_sublist.map _
  | _ => exact List.Sublist.refl _

theorem distinctMembers_prune (h : modsDB.DistinctMembers) : (prune modsDB).DistinctMembers :=
  Json.distinctMembers_of_nodup ((Json.nodup_names h).sublist (names_prune_sublist modsDB))

/-- The last loop takes the mark from what has it, and nothing else stays. -/
theorem member_prune_iff (hdistinct : modsDB.DistinctMembers) :
    (prune modsDB).member key = some value ↔ ∃ dbEntry, modsDB.member key = some dbEntry ∧
      (dbEntry.member (ascii "exists")).isSome = true ∧
      dbEntry.eraseMember (ascii "exists") = value := by
  constructor
  · intro h
    obtain ⟨dbEntry, hmem, hmark, rfl⟩ := mem_values_prune (Json.mem_values_of_member h)
    exact ⟨dbEntry, hdistinct.member_of_mem_values hmem, hmark, rfl⟩
  · rintro ⟨dbEntry, hmember, hmark, rfl⟩
    cases modsDB with
    | object fields =>
      have hmem : (key, dbEntry) ∈
          fields.filter fun f => (f.2.member (ascii "exists")).isSome :=
        List.mem_filter.mpr ⟨Json.mem_of_member hmember, hmark⟩
      have hnodup := Json.nodup_names (distinctMembers_prune hdistinct)
      exact Json.member_of_mem hnodup (List.mem_map_of_mem hmem)
    | _ => cases hmember

theorem names_prune_of_forall (hdistinct : modsDB.DistinctMembers)
    (h : ∀ key dbEntry, modsDB.member key = some dbEntry →
      (dbEntry.member (ascii "exists")).isSome = true) : (prune modsDB).names = modsDB.names := by
  cases modsDB with
  | object fields =>
    have hall : fields.filter (fun f => (f.2.member (ascii "exists")).isSome) = fields :=
      List.filter_eq_self.mpr fun f hf =>
        h f.1 f.2 (Json.member_of_mem (hdistinct fields rfl) hf)
    simp only [prune, Json.names, hall, List.map_map]
    rfl
  | _ => rfl

theorem prune_of_unmarked (hdistinct : modsDB.DistinctMembers)
    (hmembers : ∀ key dbEntry, modsDB.member key = some dbEntry →
      dbEntry.member (ascii "exists") = none)
    (helements : ∀ elements, modsDB = .array elements →
      ∀ j ∈ elements, j.member (ascii "exists") = none) :
    (prune modsDB).names = [] ∧ (prune modsDB).IsText ∧
      prune (prune modsDB) = prune modsDB := by
  cases modsDB with
  | object fields =>
    have hnil : fields.filter (fun f => (f.2.member (ascii "exists")).isSome) = [] :=
      List.filter_eq_nil_iff.mpr fun f hf => by
        simp [hmembers f.1 f.2 (Json.member_of_mem (hdistinct fields rfl) hf)]
    simp [prune, hnil, Json.names]
  | array elements =>
    have hnil : elements.filter (fun j => (j.member (ascii "exists")).isSome) = [] :=
      List.filter_eq_nil_iff.mpr fun j hj => by simp [helements elements rfl j hj]
    simp [prune, hnil, Json.names]
  | _ => exact ⟨rfl, Json.isText_null, rfl⟩

theorem isText_prune (h : modsDB.IsText) : (prune modsDB).IsText := by
  cases modsDB with
  | object fields =>
    refine Json.isText_object.mpr fun f hf => ?_
    obtain ⟨g, hg, rfl⟩ := List.mem_map.mp hf
    obtain ⟨hname, hvalue⟩ := Json.isText_object.mp h g (List.mem_of_mem_filter hg)
    exact ⟨hname, hvalue.eraseMember _⟩
  | array elements =>
    refine Json.isText_array.mpr fun j hj => ?_
    obtain ⟨k, hk, rfl⟩ := List.mem_map.mp hj
    exact (Json.isText_array.mp h k (List.mem_of_mem_filter hk)).eraseMember _
  | _ => exact Json.isText_null

end Prune

/-- A database in which every mod has an entry from which it is listed, without the mark, and that
has nothing else. -/
structure Settled (directory : List DirectoryEntry) (stored : DirectoryEntry → Json)
    (modsDB : Json) : Prop where
  object : modsDB.isObject = true
  distinct : modsDB.DistinctMembers
  entries : ∀ entry ∈ zips directory, modsDB.member entry.filename = some (stored entry)
  entered : ∀ entry ∈ zips directory, Entered entry (stored entry)
  unmarked : ∀ entry ∈ zips directory, (stored entry).member (ascii "exists") = none
  listed : ∀ key ∈ modsDB.names, ∃ entry ∈ zips directory, entry.filename = key

section Settled

variable {directory : List DirectoryEntry} {stored : DirectoryEntry → Json} {modsDB : Json}

theorem Settled.sameMods (h : Settled directory stored modsDB) :
    SameMods ((zips directory).map fun entry => listedMod entry (stored entry)) modsDB where
  stored mod hmod := by
    obtain ⟨entry, hentry, rfl⟩ := List.mem_map.mp hmod
    obtain ⟨hash, hhash⟩ := (h.entered entry hentry).hash
    refine ⟨stored entry, h.entries entry hentry, (h.entered entry hentry).records.filesize, ?_⟩
    simp [listedMod, valueOf, hhash]
  listed key hkey := by
    obtain ⟨entry, hentry, rfl⟩ := h.listed key hkey
    exact ⟨_, List.mem_map_of_mem hentry, rfl⟩

theorem Settled.not_rehashes (h : Settled directory stored modsDB) (hlib : lib.Lawful)
    (hrange : ∀ entry ∈ zips directory, entry.InRange)
    (hsized : ∀ entry ∈ zips directory, entry.fileSize.isSome = true) :
    (zips directory).filter (rehashes lib · modsDB) = [] := by
  refine List.filter_eq_nil_iff.mpr fun entry hentry => ?_
  rw [rehashes_of_entered hlib (hrange entry hentry) (hsized entry hentry)
    (h.entries entry hentry) (h.entered entry hentry)]
  exact Bool.noConfusion

/-- The loop lists the same mods from a settled database, which is the same afterwards. -/
theorem Settled.forM (h : Settled directory stored modsDB) (hlib : lib.Lawful)
    (hnames : (directory.map DirectoryEntry.filename).Nodup)
    (hrange : ∀ entry ∈ zips directory, entry.InRange)
    (hsized : ∀ entry ∈ zips directory, entry.fileSize.isSome = true) :
    ∃ modsDB', directory.forM (refreshEntry lib) ⟨[], modsDB⟩ = .ok ()
        ⟨(zips directory).map fun entry => listedMod entry (stored entry), modsDB'⟩ ∧
      prune modsDB' = modsDB := by
  have hround : ∀ entry ∈ zips directory,
      roundEntry lib entry (modsDB.member entry.filename) =
        some ((stored entry).setMember (ascii "exists") (.bool true)) := by
    intro entry hentry
    rw [h.entries entry hentry]
    exact roundEntry_of_entered hlib (hrange entry hentry) (hsized entry hentry)
      (h.entered entry hentry)
  have hshape : (modsDB.isObject || modsDB.isNull) = true := by rw [h.object, Bool.true_or]
  obtain ⟨modsDB', hassign, hloop⟩ :=
    forM_of_roundEntry (s := ⟨[], modsDB⟩) hnames (.inr hshape) hround
  have hmods : ((zips directory).map fun entry =>
        listedMod entry ((stored entry).setMember (ascii "exists") (.bool true))) =
      (zips directory).map fun entry => listedMod entry (stored entry) :=
    List.map_congr_left fun entry _ =>
      listedMod_congr fun key hkey => Json.member_setMember_of_ne _ _ hkey
  rw [List.nil_append, hmods] at hloop
  refine ⟨modsDB', hloop, ?_⟩
  have hdistinct := distinctMembers_of_assignAll hassign h.distinct
  have hsame : modsDB'.names = modsDB.names := by
    refine Json.names_of_assignAll_of_mem hassign fun f hf => ?_
    obtain ⟨entry, hentry, rfl⟩ := List.mem_map.mp hf
    exact Json.mem_names_iff.mpr ⟨_, h.entries entry hentry⟩
  have hmarked : ∀ key dbEntry, modsDB'.member key = some dbEntry →
      ∃ entry ∈ zips directory, entry.filename = key ∧
        dbEntry = (stored entry).setMember (ascii "exists") (.bool true) := by
    intro key dbEntry hmember
    obtain ⟨entry, hentry, rfl⟩ :=
      h.listed key (hsame ▸ Json.mem_names_iff.mpr ⟨dbEntry, hmember⟩)
    have hassigned := member_of_mem_zips hnames hassign hentry
    exact ⟨entry, hentry, rfl, Option.some.inj (hmember.symm.trans hassigned)⟩
  have hobject : ∀ entry ∈ zips directory, (stored entry).isObject = true :=
    fun entry hentry => (h.entered entry hentry).isObject
  refine Json.eq_of_names_of_member (isObject_prune (Json.isObject_assignAll hassign h.object))
    h.object ?_
    (distinctMembers_prune hdistinct) ?_
  · refine (names_prune_of_forall hdistinct fun key dbEntry hmember => ?_).trans hsame
    obtain ⟨entry, hentry, -, rfl⟩ := hmarked key dbEntry hmember
    rw [Json.member_setMember_self (hobject entry hentry)]
    rfl
  · intro key value hvalue
    obtain ⟨dbEntry, hmember, -, rfl⟩ := (member_prune_iff hdistinct).mp hvalue
    obtain ⟨entry, hentry, rfl, rfl⟩ := hmarked key dbEntry hmember
    rw [Json.eraseMember_setMember (hobject entry hentry) (h.unmarked entry hentry)]
    exact h.entries entry hentry

end Settled

section Refresh

variable {s : TResourceManager} {entry : DirectoryEntry} {modsDB dbEntry : Json}

/-- For an entry of the database: the round returns, and does not take the hash from an entry with
another time or size. -/
theorem tells_iff_of_member (hsized : entry.fileSize.isSome = true)
    (hmember : modsDB.member entry.filename = some dbEntry) :
    Tells lib entry dbEntry ↔ isModified lib entry dbEntry ≠ none ∧
      (rehashes lib entry modsDB = false → Records dbEntry entry) := by
  rw [tells_iff hsized]
  unfold rehashes
  rw [hmember]
  dsimp only
  cases isModified lib entry dbEntry with
  | none => simp
  | some result =>
    obtain ⟨modified, dbEntry'⟩ := result
    simp

theorem isText_hashedEntry {result : Bytes} (h : IsUtf8 result) :
    (hashedEntry entry result).IsText := by
  have hkeys : IsUtf8 (ascii "lastwrite") ∧ IsUtf8 (ascii "hash") ∧ IsUtf8 (ascii "filesize") ∧
      IsUtf8 (ascii "protected") ∧ IsUtf8 (ascii "exists") :=
    ⟨⟨"lastwrite".toList, by decide⟩, ⟨"hash".toList, by decide⟩, ⟨"filesize".toList, by decide⟩,
      ⟨"protected".toList, by decide⟩, ⟨"exists".toList, by decide⟩⟩
  obtain ⟨hlastwrite, hhash, hfilesize, hprotected, hexists⟩ := hkeys
  simp only [hashedEntry, Json.isText_object, List.forall_mem_cons, Json.isText_string]
  exact ⟨⟨hlastwrite, Json.isText_integer _⟩, ⟨hhash, h⟩, ⟨hfilesize, Json.isText_integer _⟩,
    ⟨hprotected, Json.isText_bool _⟩, ⟨hexists, Json.isText_bool _⟩,
    List.forall_mem_nil _⟩

theorem isText_of_isModified {dbEntry' : Json} {modified : Bool} (h : dbEntry.IsText)
    (hmodified : isModified lib entry dbEntry = some (modified, dbEntry')) : dbEntry'.IsText := by
  obtain ⟨first, hfirst, hsecond⟩ := touches_of_isModified hmodified
  have htext : first.IsText := h.touch ⟨"lastwrite".toList, by decide⟩ hfirst
  rcases hsecond with rfl | hsecond
  · exact htext
  · exact htext.touch ⟨"filesize".toList, by decide⟩ hsecond

theorem isText_of_markExisting {marked : Json} (h : dbEntry.IsText)
    (hmark : markExisting dbEntry = some marked) : marked.IsText := by
  obtain ⟨first, hfirst, hrest⟩ := Option.bind_eq_some_iff.mp hmark
  obtain ⟨second, hsecond, hthird⟩ := Option.bind_eq_some_iff.mp hrest
  have htext : first.IsText :=
    h.assign ⟨"exists".toList, by decide⟩ (Json.isText_bool _) hfirst
  have htext' : second.IsText := htext.touch ⟨"hash".toList, by decide⟩ hsecond
  exact htext'.touch ⟨"protected".toList, by decide⟩ hthird

theorem isText_roundEntry (hlib : lib.Lawful) {recorded : Option Json} {marked : Json}
    (h : ∀ dbEntry, recorded = some dbEntry → dbEntry.IsText)
    (hround : roundEntry lib entry recorded = some marked) : marked.IsText := by
  have hhashed : (digest lib entry).map (hashedEntry entry) = some marked →
      marked.IsText := by
    intro hmap
    obtain ⟨result, hresult, rfl⟩ := Option.map_eq_some_iff.mp hmap
    unfold digest at hresult
    split_ifs at hresult
    exact isText_hashedEntry (hlib.isUtf8_sha256 _ _ hresult)
  unfold roundEntry at hround
  cases recorded with
  | none => exact hhashed hround
  | some dbEntry =>
    dsimp only at hround
    match hmodified : isModified lib entry dbEntry with
    | none =>
      rw [hmodified] at hround
      cases hround
    | some (true, dbEntry') =>
      rw [hmodified] at hround
      exact hhashed hround
    | some (false, dbEntry') =>
      rw [hmodified] at hround
      exact isText_of_markExisting (isText_of_isModified (h dbEntry rfl) hmodified) hround

theorem RefreshInput.sized (hinput : RefreshInput lib s) :
    ∀ entry ∈ zips s.directory, entry.fileSize.isSome = true :=
  fun entry hentry => fileSize_isSome_of_digest (hinput.hashes entry hentry)

theorem CacheSound.exists_marked (hlib : lib.Lawful) (hinput : RefreshInput lib s)
    (h : CacheSound lib s) : ∃ marked : DirectoryEntry → Json, ∀ entry ∈ zips s.directory,
      roundEntry lib entry ((load s.modsFile).member entry.filename) = some (marked entry) ∧
        Entered entry (marked entry) ∧
        (marked entry).member (ascii "exists") = some (.bool true) := by
  refine ⟨fun entry => (roundEntry lib entry
    ((load s.modsFile).member entry.filename)).getD .null, fun entry hentry => ?_⟩
  obtain ⟨marked, hround, hentered⟩ := entered_roundEntry hlib (hinput.inRange entry hentry)
    (hinput.hashes entry hentry) (h.tells entry hentry)
  dsimp only
  rw [hround]
  exact ⟨rfl, hentered⟩

/-- Of the marked entries of the mods and what is not marked the last loop makes a settled
database. -/
theorem CacheSound.settled_prune (hinput : RefreshInput lib s) (h : CacheSound lib s)
    (hne : zips s.directory ≠ []) {marked : DirectoryEntry → Json}
    (hentered : ∀ entry ∈ zips s.directory, Entered entry (marked entry))
    (hmark : ∀ entry ∈ zips s.directory,
      (marked entry).member (ascii "exists") = some (.bool true))
    (hassign : (load s.modsFile).assignAll ((zips s.directory).map fun entry =>
      (entry.filename, marked entry)) = some modsDB) :
    Settled s.directory (fun entry => (marked entry).eraseMember (ascii "exists"))
      (prune modsDB) := by
  have hdistinct := distinctMembers_of_assignAll hassign hinput.distinct
  have hobject : modsDB.isObject = true := by
    refine Json.isObject_assignAll_of_ne_nil hassign ?_
    exact fun hnil => hne (List.map_eq_nil_iff.mp hnil)
  refine ⟨isObject_prune hobject, distinctMembers_prune hdistinct, fun entry hentry => ?_,
    fun entry hentry => ?_, fun entry _ => Json.member_eraseMember_self _ _, fun key hkey => ?_⟩
  · have hmember := member_of_mem_zips hinput.names hassign hentry
    refine (member_prune_iff hdistinct).mpr ⟨marked entry, hmember, ?_, rfl⟩
    rw [hmark entry hentry]
    rfl
  · exact (hentered entry hentry).congr fun key hkey => Json.member_eraseMember_of_ne _ hkey
  · obtain ⟨value, hvalue⟩ := Json.mem_names_iff.mp hkey
    obtain ⟨dbEntry, hdb, hmarked, -⟩ := (member_prune_iff hdistinct).mp hvalue
    by_contra hother
    have hstale : ∀ entry ∈ zips s.directory, entry.filename ≠ key :=
      fun entry hentry heq => hother ⟨entry, hentry, heq⟩
    rw [member_of_notMem_zips hassign hstale] at hdb
    rw [h.members key dbEntry hdb hstale] at hmarked
    cases hmarked

theorem settled_of_cacheSound (hlib : lib.Lawful) (hinput : RefreshInput lib s)
    (h : CacheSound lib s) (hne : zips s.directory ≠ []) :
    ∃ stored modsDB, s.directory.forM (refreshEntry lib) ⟨[], load s.modsFile⟩ = .ok ()
        ⟨(zips s.directory).map fun entry => listedMod entry (stored entry), modsDB⟩ ∧
      (prune modsDB).IsText ∧ Settled s.directory stored (prune modsDB) := by
  obtain ⟨marked, hmarked⟩ := h.exists_marked hlib hinput
  obtain ⟨modsDB, hassign, hloop⟩ := forM_of_roundEntry (s := ⟨[], load s.modsFile⟩)
    hinput.names h.shape fun entry hentry => (hmarked entry hentry).1
  have hmods : ((zips s.directory).map fun entry => listedMod entry (marked entry)) =
      (zips s.directory).map fun entry =>
        listedMod entry ((marked entry).eraseMember (ascii "exists")) :=
    List.map_congr_left fun entry _ => (listedMod_congr fun key hkey =>
      Json.member_eraseMember_of_ne _ hkey).symm
  rw [List.nil_append, hmods] at hloop
  refine ⟨fun entry => (marked entry).eraseMember (ascii "exists"), modsDB, hloop, ?_, ?_⟩
  · refine isText_prune (hinput.text.assignAll (fun f hf => ?_) hassign)
    obtain ⟨entry, hentry, rfl⟩ := List.mem_map.mp hf
    refine ⟨h.filenames entry hentry, isText_roundEntry hlib (fun dbEntry hdb => ?_)
      (hmarked entry hentry).1⟩
    exact hinput.text.member hdb
  · exact h.settled_prune hinput hne (fun entry hentry => (hmarked entry hentry).2.1)
      (fun entry hentry => (hmarked entry hentry).2.2) hassign

theorem refreshFiles_of_forM (hlib : lib.Lawful) {mods : List ModEntry}
    (hloop : s.directory.forM (refreshEntry lib) ⟨[], load s.modsFile⟩ = .ok () ⟨mods, modsDB⟩)
    (htext : (prune modsDB).IsText) :
    refreshFiles lib s =
      .ok () { s with mMods := mods, modsFile := .holds (prune modsDB) } := by
  unfold refreshFiles
  rw [hloop]
  dsimp only
  rw [save, if_pos ((hlib.dumps_iff _).mpr htext)]

theorem hashedFiles_eq {t : TResourceManager} (h : refreshFiles lib s = .ok () t)
    (hnames : (s.directory.map DirectoryEntry.filename).Nodup) :
    hashedFiles lib s = (zips s.directory).filter (rehashes lib · (load s.modsFile)) := by
  have hreturns : threw (refreshFiles lib) s = false := by
    unfold threw
    rw [h]
  obtain ⟨-, -, hthrew, -⟩ := refreshFiles_cases lib s
  exact hashedInLoop_eq hnames (hthrew.symm.trans hreturns)

theorem CacheSound.reused (hinput : RefreshInput lib s) (h : CacheSound lib s)
    {t : TResourceManager} (ht : refreshFiles lib s = .ok () t) :
    ∀ entry ∈ zips s.directory, entry ∉ hashedFiles lib s →
      ∃ dbEntry, (load s.modsFile).member entry.filename = some dbEntry ∧
        Records dbEntry entry := by
  intro entry hentry hnot
  rw [hashedFiles_eq ht hinput.names, List.mem_filter, not_and, Bool.not_eq_true] at hnot
  have hrehashes := hnot hentry
  cases hmember : (load s.modsFile).member entry.filename with
  | none =>
    unfold rehashes at hrehashes
    rw [hmember] at hrehashes
    cases hrehashes
  | some dbEntry =>
    have htells := (tells_iff_of_member (hinput.sized entry hentry) hmember).mp
      (h.tells entry hentry dbEntry hmember)
    exact ⟨dbEntry, rfl, htells.2 hrehashes⟩

theorem forM_of_zips_eq_nil {directory : List DirectoryEntry} (hzips : zips directory = [])
    (t : RefreshState) : directory.forM (refreshEntry lib) t = .ok () t := by
  induction directory with
  | nil => rfl
  | cons entry rest ih =>
    have hnone := List.filter_eq_nil_iff.mp hzips
    have hzip : entry.isZip = false := Bool.eq_false_iff.mpr (hnone entry List.mem_cons_self)
    have hloop : (entry :: rest).forM (refreshEntry lib) =
        refreshEntry lib entry >>= fun _ => rest.forM (refreshEntry lib) := rfl
    rw [hloop, refreshEntry_of_not_isZip hzip]
    exact ih (List.filter_eq_nil_iff.mpr fun other hother =>
      hnone other (List.mem_cons_of_mem _ hother))

theorem CacheSound.exact_of_zips_eq_nil (hlib : lib.Lawful) (hinput : RefreshInput lib s)
    (h : CacheSound lib s) (hzips : zips s.directory = []) : CacheExact lib s := by
  have hmembers : ∀ key dbEntry, (load s.modsFile).member key = some dbEntry →
      dbEntry.member (ascii "exists") = none := by
    intro key dbEntry hmember
    refine h.members key dbEntry hmember ?_
    rw [hzips]
    exact nofun
  obtain ⟨hnames, htext, hagain⟩ := prune_of_unmarked hinput.distinct hmembers h.elements
  have ht := refreshFiles_of_forM hlib (forM_of_zips_eq_nil hzips _) htext
  refine ⟨_, ht, ?_, ⟨_, rfl, nofun, ?_⟩, h.reused hinput ht, ?_⟩
  · rw [hzips]
    rfl
  · rw [hnames]
    exact nofun
  · have hu := refreshFiles_of_forM
      (s := ⟨[], s.directory, .holds (prune (load s.modsFile))⟩) hlib
      (forM_of_zips_eq_nil hzips _) (hagain.symm ▸ htext)
    refine ⟨_, hu, rfl, congrArg ModsFile.holds hagain, ?_⟩
    rw [hashedFiles_eq hu hinput.names]
    dsimp only
    rw [hzips, List.filter_nil]

theorem CacheSound.exact (hlib : lib.Lawful) (hinput : RefreshInput lib s)
    (h : CacheSound lib s) : CacheExact lib s := by
  by_cases hzips : zips s.directory = []
  · exact h.exact_of_zips_eq_nil hlib hinput hzips
  obtain ⟨stored, modsDB, hloop, htext, hsettled⟩ := settled_of_cacheSound hlib hinput h hzips
  have ht := refreshFiles_of_forM hlib hloop htext
  refine ⟨_, ht, ?_, ⟨_, rfl, hsettled.sameMods⟩, h.reused hinput ht, ?_⟩
  · rw [List.map_map]
    rfl
  · obtain ⟨modsDB', hloop', hagain⟩ := hsettled.forM hlib hinput.names hinput.inRange hinput.sized
    have hu := refreshFiles_of_forM (s := ⟨(zips s.directory).map fun entry =>
      listedMod entry (stored entry), s.directory, .holds (prune modsDB)⟩) hlib hloop'
      (hagain.symm ▸ htext)
    refine ⟨_, hu, rfl, congrArg ModsFile.holds hagain, ?_⟩
    rw [hashedFiles_eq hu hinput.names]
    exact hsettled.not_rehashes hlib hinput.inRange hinput.sized

theorem Refreshed.exists_loop {t : TResourceManager} (hlib : lib.Lawful)
    (ht : refreshFiles lib s = .ok () t) (h : Refreshed lib s t) :
    ∃ modsDB, s.directory.forM (refreshEntry lib) ⟨[], load s.modsFile⟩ =
        .ok () ⟨t.mMods, modsDB⟩ ∧
      t = ⟨t.mMods, s.directory, .holds (prune modsDB)⟩ ∧ (prune modsDB).IsText ∧
      SameMods t.mMods (prune modsDB) := by
  obtain ⟨written, hfile, hsame⟩ := h.written
  unfold refreshFiles at ht
  cases hloop : s.directory.forM (refreshEntry lib) ⟨[], load s.modsFile⟩ with
  | error e r =>
    rw [hloop] at ht
    cases ht
  | ok a r =>
    rw [hloop] at ht
    cases ht
    dsimp only [save] at hfile hsame ⊢
    split_ifs at hfile ⊢ with hdumps
    obtain rfl := ModsFile.holds.inj hfile
    exact ⟨r.modsDB, rfl, rfl, (hlib.dumps_iff _).mp hdumps, hsame⟩

theorem Refreshed.exists_mod_iff {t : TResourceManager} (h : Refreshed lib s t) (key : Bytes) :
    (∃ mod ∈ t.mMods, mod.file_name = key) ↔
      ∃ entry ∈ zips s.directory, entry.filename = key := by
  have hnames := congrArg (List.map Prod.fst) h.listed
  rw [List.map_map, List.map_map] at hnames
  have hmem : key ∈ t.mMods.map ModEntry.file_name ↔
      key ∈ (zips s.directory).map DirectoryEntry.filename := by
    have hsame : t.mMods.map ModEntry.file_name =
        (zips s.directory).map DirectoryEntry.filename := hnames
    rw [hsame]
  rwa [List.mem_map, List.mem_map] at hmem

theorem fixes_shape (lib : ResourceLib) (entry : DirectoryEntry) :
    Fixes (fun s => s.modsDB.isObject || s.modsDB.isNull) (refreshEntry lib entry) := by
  refine fixes_refreshEntry_of_writes (fun mod _ => fixes_modify fun s => rfl)
    (fun dbEntry => fixes_modify fun s => ?_) fun result => fixes_modify fun s => ?_
  · cases hdb : s.modsDB with
    | object fields =>
      simp only [Json.setMember]
      split_ifs
      · rfl
      · rfl
    | _ => rfl
  · cases hassign : s.modsDB.assign entry.filename (hashedEntry entry result) with
    | none => rfl
    | some modsDB =>
      dsimp only
      rw [Json.isObject_of_assign hassign, Bool.true_or,
        (Json.exists_assign_iff entry.filename (hashedEntry entry result)).mp ⟨modsDB, hassign⟩]

theorem mem_names_prune {key : Bytes} (hmember : modsDB.member key = some dbEntry)
    (hmark : (dbEntry.member (ascii "exists")).isSome = true) : key ∈ (prune modsDB).names := by
  cases modsDB with
  | object fields =>
    have hmem : (key, dbEntry) ∈ fields.filter fun f => (f.2.member (ascii "exists")).isSome :=
      List.mem_filter.mpr ⟨Json.mem_of_member hmember, hmark⟩
    exact List.mem_map_of_mem (List.mem_map_of_mem hmem)
  | _ => cases hmember

/-- An array that the last loop leaves as it is when it is run again had no marks. -/
theorem unmarked_of_prune_prune {elements : List Json}
    (h : prune (prune (.array elements)) = prune (.array elements)) :
    ∀ j ∈ elements, j.member (ascii "exists") = none := by
  have hnil : ((elements.filter fun j => (j.member (ascii "exists")).isSome).map
      (·.eraseMember (ascii "exists"))).filter
        (fun j => (j.member (ascii "exists")).isSome) = [] := by
    refine List.filter_eq_nil_iff.mpr fun j hj => ?_
    obtain ⟨k, -, rfl⟩ := List.mem_map.mp hj
    simp [Json.member_eraseMember_self]
  simp only [prune, Json.array.injEq] at h
  rw [hnil, List.map_nil] at h
  have hmarked := List.filter_eq_nil_iff.mp (List.map_eq_nil_iff.mp h.symm)
  intro j hj
  simpa using hmarked j hj

section Sound

variable {t : TResourceManager}

theorem Refreshed.exists_stored (h : Refreshed lib s t) (hsame : SameMods t.mMods modsDB)
    (hentry : entry ∈ zips s.directory) :
    ∃ dbEntry, modsDB.member entry.filename = some dbEntry := by
  obtain ⟨mod, hmod, hname⟩ := (h.exists_mod_iff _).mpr ⟨entry, hentry, rfl⟩
  obtain ⟨dbEntry, hmember, -⟩ := hsame.stored mod hmod
  exact ⟨dbEntry, hname ▸ hmember⟩

theorem final_of_ok {r : RefreshState} {m : RefreshM Unit} {start : RefreshState}
    (h : m start = .ok () r) : final m start = r := by
  unfold final
  rw [h]

/-- An array, or a value without members, cannot take the entry of a mod. -/
theorem Refreshed.shape (hlib : lib.Lawful) (ht : refreshFiles lib s = .ok () t)
    (h : Refreshed lib s t) : zips s.directory = [] ∨
      ((load s.modsFile).isObject || (load s.modsFile).isNull) = true := by
  obtain ⟨modsDB, hloop, -, -, hsame⟩ := h.exists_loop hlib ht
  rcases List.eq_nil_or_concat (zips s.directory) with hnil | ⟨rest, entry, hconcat⟩
  · exact .inl hnil
  · have hentry : entry ∈ zips s.directory := by simp [hconcat]
    obtain ⟨dbEntry, hmember⟩ := h.exists_stored hsame hentry
    have hfixes := fixes_forM (fixes_shape lib) s.directory ⟨[], load s.modsFile⟩
    rw [final_of_ok hloop] at hfixes
    refine .inr (hfixes.symm.trans ?_)
    have hobject := Json.isObject_of_member hmember
    cases modsDB with
    | object fields => rfl
    | _ => cases hobject

/-- What has the mark and belongs to no mod stays in the database. -/
theorem Refreshed.members (hlib : lib.Lawful) (ht : refreshFiles lib s = .ok () t)
    (h : Refreshed lib s t) {key : Bytes} (hmember : (load s.modsFile).member key = some dbEntry)
    (hstale : ∀ entry ∈ zips s.directory, entry.filename ≠ key) :
    dbEntry.member (ascii "exists") = none := by
  obtain ⟨modsDB, hloop, -, -, hsame⟩ := h.exists_loop hlib ht
  have hfixes : Fixes (modOf key) (s.directory.forM (refreshEntry lib)) := by
    refine fixes_forM_of_mem fun entry hentry => ?_
    cases hzip : entry.isZip with
    | true => exact fixes_refreshEntry (hstale entry (List.mem_filter.mpr ⟨hentry, hzip⟩))
    | false =>
      rw [refreshEntry_of_not_isZip hzip]
      exact fixes_pure _
  have hkept : modsDB.member key = some dbEntry := by
    have hvalues := hfixes ⟨[], load s.modsFile⟩
    rw [final_of_ok hloop] at hvalues
    have hvalues : modsDB.values key = (load s.modsFile).values key := (Prod.mk.inj hvalues).2
    rw [Json.member_eq_head?_values, hvalues, ← Json.member_eq_head?_values, hmember]
  rw [← Option.not_isSome_iff_eq_none]
  intro hmark
  obtain ⟨mod, hmod, hname⟩ := hsame.listed key (mem_names_prune hkept hmark)
  obtain ⟨entry, hentry, hfile⟩ := (h.exists_mod_iff key).mp ⟨mod, hmod, hname⟩
  exact hstale entry hentry hfile

/-- What has the mark in an array is still there after the first call, and not after the second. -/
theorem Refreshed.elements (hlib : lib.Lawful) (ht : refreshFiles lib s = .ok () t)
    (h : Refreshed lib s t) {elements : List Json} (helements : load s.modsFile = .array elements) :
    ∀ j ∈ elements, j.member (ascii "exists") = none := by
  obtain ⟨modsDB, hloop, heq, -⟩ := h.exists_loop hlib ht
  have hnot : ((load s.modsFile).isObject || (load s.modsFile).isNull) ≠ true := by
    rw [helements]
    exact Bool.noConfusion
  have hzips := (h.shape hlib ht).resolve_right hnot
  rw [forM_of_zips_eq_nil hzips, helements] at hloop
  have hdb : modsDB = .array elements := by
    injection hloop with _ hstate
    exact (congrArg RefreshState.modsDB hstate).symm
  obtain ⟨u, hu, -, hfile, -⟩ := h.again
  have hwritten : u.modsFile = save lib (prune (prune modsDB)) := by
    rw [heq] at hu
    unfold refreshFiles at hu
    rw [forM_of_zips_eq_nil hzips] at hu
    cases hu
    rfl
  rw [hwritten, heq, save] at hfile
  split_ifs at hfile
  have hagain := ModsFile.holds.inj hfile
  rw [hdb] at hagain
  exact unmarked_of_prune_prune hagain

theorem Refreshed.tells (hinput : RefreshInput lib s) (ht : refreshFiles lib s = .ok () t)
    (h : Refreshed lib s t) (hentry : entry ∈ zips s.directory)
    (hmember : (load s.modsFile).member entry.filename = some dbEntry) :
    Tells lib entry dbEntry := by
  refine (tells_iff_of_member (hinput.sized entry hentry) hmember).mpr
    ⟨fun hnone => ?_, fun hcached => ?_⟩
  · have hthrows := (threw_loop_iff hinput.names ⟨[], load s.modsFile⟩).mpr
      ⟨entry, List.mem_of_mem_filter hentry, (List.mem_filter.mp hentry).2, dbEntry, hmember,
        hnone⟩
    obtain ⟨-, -, hthrew, -⟩ := refreshFiles_cases lib s
    rw [← hthrew, threw, ht] at hthrows
    cases hthrows
  · have hnot : entry ∉ hashedFiles lib s := by
      rw [hashedFiles_eq ht hinput.names, List.mem_filter, hcached]
      exact fun hmem => Bool.noConfusion hmem.2
    obtain ⟨recorded, hrecorded, hsame⟩ := h.reused entry hentry hnot
    obtain rfl := Option.some.inj (hmember.symm.trans hrecorded)
    exact hsame

theorem CacheExact.sound (hlib : lib.Lawful) (hinput : RefreshInput lib s)
    (h : CacheExact lib s) : CacheSound lib s := by
  obtain ⟨t, ht, h⟩ := h
  obtain ⟨modsDB, -, -, htext, hsame⟩ := h.exists_loop hlib ht
  exact
    { shape := h.shape hlib ht
      members := fun key dbEntry hmember hstale => h.members hlib ht hmember hstale
      elements := fun elements helements => h.elements hlib ht helements
      tells := fun entry hentry dbEntry hmember => h.tells hinput ht hentry hmember
      filenames := fun entry hentry =>
        (h.exists_stored hsame hentry).elim fun _ hmember => htext.isUtf8_of_member hmember }

end Sound

end Refresh

/-- `RefreshFiles` lists and records every mod, reuses a hash only for a file with the recorded
time and size, and changes nothing when it is called again, if and only if the database is
sound. -/
theorem cacheExact_iff (hlib : lib.Lawful) {s : TResourceManager} (hinput : RefreshInput lib s) :
    CacheExact lib s ↔ CacheSound lib s :=
  ⟨fun h => h.sound hlib hinput, fun h => h.exact hlib hinput⟩

def emptyDigest : Bytes :=
  ascii "e3b0c44298fc1c149afbf4c8996fb92427ae41e4649b934ca495991b7852b855"

instance : DecidablePred IsUtf8 := fun s =>
  inferInstanceAs (Decidable (ByteArray.IsValidUTF8 ⟨s.toArray⟩))

/-- The libraries, for numbers that a `double` holds and files that are empty. -/
def valueLib : ResourceLib where
  greater
    | count, .integer n => decide (n < count)
    | count, .float mantissa exponent =>
      decide (Dyadic.ofIntWithPrec mantissa (-exponent) < (count : Dyadic))
    | _, .null | _, .bool _ => true
    | _, _ => false
  getSize
    | .integer n => some (n % 2 ^ 64).toNat
    | .float mantissa exponent =>
      some (Dyadic.ofIntWithPrec mantissa (-exponent)).toRat.floor.toNat
    | _ => none
  dumps j := decide (∀ s ∈ j.texts, IsUtf8 s)
  sha256 _ := some emptyDigest

theorem isUtf8_emptyDigest : IsUtf8 emptyDigest :=
  ⟨"e3b0c44298fc1c149afbf4c8996fb92427ae41e4649b934ca495991b7852b855".toList, by decide⟩

theorem valueLib_lawful : valueLib.Lawful where
  not_greater {n j} _ _ h := by
    cases j with
    | integer m =>
      obtain rfl : m = n := h
      simp [valueLib]
    | float mantissa exponent =>
      have hvalue : Dyadic.ofIntWithPrec mantissa (-exponent) = n := h
      simp [valueLib, hvalue]
    | _ => exact h.elim
  getSize_eq {n j} hn h := by
    cases j with
    | integer m =>
      obtain rfl : m = n := h
      simp only [valueLib, Option.some.injEq]
      omega
    | float mantissa exponent =>
      have hvalue : Dyadic.ofIntWithPrec mantissa (-exponent) = (n : ℤ) := h
      simp only [valueLib, hvalue, Dyadic.toRat_intCast, Rat.floor_intCast, Int.toNat_natCast]
    | _ => exact h.elim
  dumps_iff j := decide_eq_true_iff
  isUtf8_sha256 _ _ h := Option.some.inj h ▸ isUtf8_emptyDigest

/-- An empty mod that was last written at one time, and was recorded with another. -/
def recordedMod (lastwrite lastWriteTime : ℤ) : TResourceManager where
  mMods := []
  directory := [RecordedMod.emptyMod lastWriteTime]
  modsFile := .holds (.object [(ascii "a.zip", .object
    [(ascii "filesize", .integer 0), (ascii "hash", .string emptyDigest),
      (ascii "lastwrite", .integer lastwrite), (ascii "protected", .bool true)])])

theorem zips_recordedMod (lastwrite lastWriteTime : ℤ) :
    zips (recordedMod lastwrite lastWriteTime).directory =
      [RecordedMod.emptyMod lastWriteTime] := rfl

theorem refreshInput_recordedMod (lastwrite : ℤ) {lastWriteTime : ℤ}
    (hge : -2 ^ 63 ≤ lastWriteTime) (hlt : lastWriteTime < 2 ^ 63) :
    RefreshInput valueLib (recordedMod lastwrite lastWriteTime) where
  names := List.nodup_singleton _
  inRange entry hentry := by
    rw [zips_recordedMod] at hentry
    obtain rfl := List.mem_singleton.mp hentry
    exact ⟨hge, hlt, show 0 < 2 ^ 64 by decide⟩
  hashes entry hentry := by
    rw [zips_recordedMod] at hentry
    obtain rfl := List.mem_singleton.mp hentry
    rfl
  distinct := by
    rintro fields hfields
    cases hfields
    exact List.nodup_singleton _
  text := by
    have htexts : (load (recordedMod lastwrite lastWriteTime).modsFile).texts =
        [ascii "a.zip", ascii "filesize", ascii "hash", emptyDigest, ascii "lastwrite",
          ascii "protected"] := rfl
    intro s hs
    rw [htexts] at hs
    simp only [List.mem_cons, List.not_mem_nil, or_false] at hs
    rcases hs with rfl | rfl | rfl | rfl | rfl | rfl
    · exact ⟨"a.zip".toList, by decide⟩
    · exact ⟨"filesize".toList, by decide⟩
    · exact ⟨"hash".toList, by decide⟩
    · exact isUtf8_emptyDigest
    · exact ⟨"lastwrite".toList, by decide⟩
    · exact ⟨"protected".toList, by decide⟩

/-- A mod that was recorded with the time it has is taken from the database. -/
theorem cacheExact_recordedMod : CacheExact valueLib (recordedMod 3 3) := by
  refine (cacheExact_iff valueLib_lawful
    (refreshInput_recordedMod 3 (by decide) (by decide))).mpr
    ⟨.inr rfl, fun key dbEntry hmember hstale => ?_, nofun, fun entry hentry dbEntry hmember => ?_,
      fun entry hentry => ?_⟩
  · have hkey : key ∈ (load (recordedMod 3 3).modsFile).names :=
      Json.mem_names_iff.mpr ⟨dbEntry, hmember⟩
    exact absurd (List.mem_singleton.mp hkey).symm
      (hstale (RecordedMod.emptyMod 3) (List.mem_singleton_self _))
  · rw [zips_recordedMod] at hentry
    obtain rfl := List.mem_singleton.mp hentry
    cases hmember
    exact ⟨rfl, .inr ⟨0, rfl, fun _ => ⟨rfl, rfl⟩⟩⟩
  · rw [zips_recordedMod] at hentry
    obtain rfl := List.mem_singleton.mp hentry
    exact ⟨"a.zip".toList, by decide⟩

/-- A mod was recorded with a later time than it has. The hash that was recorded is taken for the
one of the file. -/
theorem not_cacheExact_recordedMod :
    RefreshInput valueLib (recordedMod 5 3) ∧ ¬CacheExact valueLib (recordedMod 5 3) := by
  have hinput := refreshInput_recordedMod 5 (show (-2 : ℤ) ^ 63 ≤ 3 by decide) (by decide)
  refine ⟨hinput, fun h => ?_⟩
  have htells := (h.sound valueLib_lawful hinput).tells (RecordedMod.emptyMod 3)
    (List.mem_singleton_self _) _ rfl
  rcases htells.recorded with hgreater | ⟨size, hsize, hrecords⟩
  · cases hgreater
  · have hzero : (0 : ℕ) = size := Option.some.inj hsize
    have hsame : (5 : ℤ) = 3 := (hrecords hzero).lastwrite
    cases hsame

end TResourceManager
end BeamMP
