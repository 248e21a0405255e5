import BeamMP.Foundation.Execution
import BeamMP.Resources.ResourceManager

/-!
# Protected mods

A mod that was protected shall stay protected. The value is kept in `mMods` and in
`mods.json`, and `RefreshFiles` takes it over for a mod that has not been modified.
A mod that is hashed again is listed as unprotected, whatever was recorded for it.
-/
namespace BeamMP

open Observables

namespace TResourceManager

variable (lib : ResourceLib) (name : Bytes)

/-- What the loop of `RefreshFiles` has for one file name. -/
def modOf (s : RefreshState) : List ModEntry × List Json :=
  (s.mMods.filter (·.file_name = name), s.modsDB.values name)

/-- The value of `protected` in an entry of the database is the recorded one. Where there is no
value, null has not been recorded. -/
structure EntryAgrees (recorded dbEntry : Json) : Prop where
  value : ∀ v, dbEntry.member (ascii "protected") = some v → v = recorded
  unset : dbEntry.member (ascii "protected") = none → recorded ≠ .null

/-- What the database has under a name: the same entry however often, which agrees with what was
recorded. -/
structure Saved (recorded : Json) (vals : List Json) : Prop where
  agrees : ∀ dbEntry ∈ vals, EntryAgrees recorded dbEntry
  same : ∀ dbEntry ∈ vals, ∀ dbEntry' ∈ vals, dbEntry = dbEntry'

structure Puts (value : Json) (w : List ModEntry × List Json) : Prop where
  listed : ∃ mod, w.1 = [mod] ∧ mod.isProtected = value
  stored : ∃ dbEntry, (∀ e ∈ w.2, e = dbEntry) ∧
    dbEntry.member (ascii "protected") = some value

/-- The value with which the round for a file lists it, if it does not throw and the file can be
hashed. -/
def putValue (entry : DirectoryEntry) (modsDB : Json) : Option Json :=
  match modsDB.member entry.filename with
  | none => (digest lib entry).map fun _ => .bool false
  | some dbEntry =>
    match isModified lib entry dbEntry with
    | none => none
    | some (true, _) => (digest lib entry).map fun _ => .bool false
    | some (false, _) => some ((dbEntry.member (ascii "protected")).getD .null)

/-- How the round for a file ends: it is put with the value, or it throws or cannot be hashed. -/
def Outcome (recorded : Json) (hashed : Bool) (put : Option Json) (threw : Bool)
    (w : List ModEntry × List Json) : Prop :=
  match put with
  | some value => Puts value w
  | none => w.1 = [] ∧ Saved recorded w.2 ∧ (threw = true ∨ hashed = false)

/-- What the loop leaves for a mod with a recorded value: what is listed has this value, and so
has the database. If the mod could be hashed, an entry that will be kept has the value. -/
structure Agrees (recorded : Json) (hashed threw : Bool) (w : List ModEntry × List Json) :
    Prop where
  listed : ∀ mod ∈ w.1, mod.isProtected = recorded
  saved : Saved recorded w.2
  kept : threw = false → hashed = true → ∀ dbEntry ∈ w.2,
    dbEntry.member (ascii "protected") = some recorded

def Throws (entry : DirectoryEntry) (modsDB : Json) : Prop :=
  entry.isZip = true ∧ ∃ dbEntry, modsDB.member entry.filename = some dbEntry ∧
    isModified lib entry dbEntry = none

/-- The mod is taken from the database with its value, or the recorded value is the one a mod
has when it is hashed. -/
def Survives (recorded : Json) (entry : DirectoryEntry) (modsDB : Json) : Prop :=
  match modsDB.member entry.filename with
  | none => (digest lib entry).isSome = true → recorded = .bool false
  | some dbEntry =>
    match isModified lib entry dbEntry with
    | none => True
    | some (true, _) => (digest lib entry).isSome = true → recorded = .bool false
    | some (false, _) => (dbEntry.member (ascii "protected")).isSome = true

section Loop

variable {lib name} {recorded : Json} {entry : DirectoryEntry}

theorem fixes_pushMod {mod : ModEntry} (h : mod.file_name ≠ name) :
    Fixes (modOf name) (pushMod mod) := by
  refine fixes_modify fun s => ?_
  simp [modOf, List.filter_append, h]

theorem fixes_storeEntry {filename : Bytes} (h : filename ≠ name) (dbEntry : Json) :
    Fixes (modOf name) (storeEntry filename dbEntry) := by
  refine fixes_modify fun s => ?_
  simp only [modOf, Json.values_setMember_of_ne _ _ (Ne.symm h)]

theorem fixes_storeHash (h : entry.filename ≠ name) (result : Bytes) :
    Fixes (modOf name) (storeHash entry result) := by
  refine fixes_modify fun s => ?_
  cases hassign : s.modsDB.assign entry.filename (hashedEntry entry result) with
  | none => rfl
  | some modsDB => simp only [modOf, Json.values_assign_of_ne hassign (Ne.symm h)]

/-- What the writes of the round for a file leave alone the round leaves alone. -/
theorem fixes_refreshEntry_of_writes {ω : Type} {f : RefreshState → ω}
    (hpush : ∀ mod : ModEntry, mod.file_name = entry.filename → Fixes f (pushMod mod))
    (hstore : ∀ dbEntry, Fixes f (storeEntry entry.filename dbEntry))
    (hhash : ∀ result, Fixes f (storeHash entry result)) : Fixes f (refreshEntry lib entry) := by
  have hrehash : Fixes f (rehash lib entry) := by
    unfold rehash
    cases digest lib entry with
    | none => exact fixes_pure _
    | some result => exact (hpush _ rfl).bind fun _ => hhash result
  have hload : ∀ dbEntry, Fixes f (loadFromCache entry dbEntry) := by
    intro dbEntry
    unfold loadFromCache
    cases markExisting dbEntry with
    | none => exact fixes_throw _
    | some dbEntry => exact (hstore dbEntry).bind fun _ => hpush _ rfl
  unfold refreshEntry
  split_ifs
  · exact fixes_pure _
  · exact fixes_pure _
  · refine fixes_get_bind fun s => ?_
    cases s.modsDB.member entry.filename with
    | none => exact hrehash
    | some dbEntry =>
      dsimp only
      match isModified lib entry dbEntry with
      | none => exact fixes_throw _
      | some (true, dbEntry) => exact (hstore dbEntry).bind fun _ => hrehash
      | some (false, dbEntry) => exact hload dbEntry

theorem refreshEntry_of_not_isZip (hzip : entry.isZip = false) :
    refreshEntry lib entry = pure () := by
  unfold refreshEntry
  split_ifs
  · rfl
  · rfl

theorem fixes_refreshEntry (h : entry.filename ≠ name) :
    Fixes (modOf name) (refreshEntry lib entry) :=
  fixes_refreshEntry_of_writes (fun _ hmod => fixes_pushMod (hmod ▸ h)) (fixes_storeEntry h)
    (fixes_storeHash h)

/-- The test of the modification reads one or two members, and leaves what it read. -/
theorem touches_of_isModified {dbEntry dbEntry' : Json} {modified : Bool}
    (h : isModified lib entry dbEntry = some (modified, dbEntry')) :
    ∃ first, dbEntry.touch (ascii "lastwrite") = some first ∧
      (dbEntry' = first ∨ first.touch (ascii "filesize") = some dbEntry') := by
  obtain ⟨lastWriteTime, -, h⟩ := Option.bind_eq_some_iff.mp h
  obtain ⟨first, hfirst, h⟩ := Option.bind_eq_some_iff.mp h
  obtain ⟨lastwrite, -, h⟩ := Option.bind_eq_some_iff.mp h
  refine ⟨first, hfirst, ?_⟩
  split_ifs at h
  · cases h
    exact .inl rfl
  · obtain ⟨fileSize, -, h⟩ := Option.bind_eq_some_iff.mp h
    obtain ⟨second, hsecond, h⟩ := Option.bind_eq_some_iff.mp h
    obtain ⟨filesize, -, h⟩ := Option.bind_eq_some_iff.mp h
    obtain ⟨size, -, h⟩ := Option.bind_eq_some_iff.mp h
    cases h
    exact .inr hsecond

theorem member_of_isModified {dbEntry dbEntry' : Json} {modified : Bool} {key : Bytes}
    (h : isModified lib entry dbEntry = some (modified, dbEntry'))
    (hlastwrite : key ≠ ascii "lastwrite") (hfilesize : key ≠ ascii "filesize") :
    dbEntry'.member key = dbEntry.member key := by
  obtain ⟨first, hfirst, hsecond⟩ := touches_of_isModified h
  have hmember : first.member key = dbEntry.member key := Json.member_touch_of_ne hfirst hlastwrite
  rcases hsecond with rfl | hsecond
  · exact hmember
  · exact (Json.member_touch_of_ne hsecond hfilesize).trans hmember

theorem isObject_of_isModified {dbEntry dbEntry' : Json} {modified : Bool}
    (h : isModified lib entry dbEntry = some (modified, dbEntry')) : dbEntry'.isObject = true := by
  obtain ⟨first, hfirst, rfl | hsecond⟩ := touches_of_isModified h
  · exact Json.isObject_of_touch hfirst
  · exact Json.isObject_of_touch hsecond

structure Marked (dbEntry marked : Json) : Prop where
  mark : marked.member (ascii "exists") = some (.bool true)
  hash : marked.member (ascii "hash") = some ((dbEntry.member (ascii "hash")).getD .null)
  isProtected : marked.member (ascii "protected") =
    some ((dbEntry.member (ascii "protected")).getD .null)
  others : ∀ key, key ≠ ascii "exists" → key ≠ ascii "hash" → key ≠ ascii "protected" →
    marked.member key = dbEntry.member key

theorem markExisting_of_isObject {dbEntry : Json} (h : dbEntry.isObject = true) :
    ∃ marked, markExisting dbEntry = some marked ∧ Marked dbEntry marked := by
  obtain ⟨first, hfirst⟩ := Json.exists_assign h (ascii "exists") (.bool true)
  obtain ⟨second, hsecond⟩ := Json.exists_touch (Json.isObject_of_assign hfirst) (ascii "hash")
  obtain ⟨third, hthird⟩ := Json.exists_touch (Json.isObject_of_touch hsecond) (ascii "protected")
  have hmark : markExisting dbEntry = some third := by
    rw [markExisting, hfirst, Option.bind_eq_bind, Option.bind_some, hsecond, Option.bind_some,
      hthird]
  refine ⟨third, hmark, ?_, ?_, ?_, fun key hexists hhash hprotected => ?_⟩
  · rw [Json.member_touch_of_ne hthird (by decide), Json.member_touch_of_ne hsecond (by decide),
      Json.member_assign_self hfirst]
  · rw [Json.member_touch_of_ne hthird (by decide), Json.member_touch_self hsecond,
      Json.member_assign_of_ne hfirst (by decide)]
  · rw [Json.member_touch_self hthird, Json.member_touch_of_ne hsecond (by decide),
      Json.member_assign_of_ne hfirst (by decide)]
  · rw [Json.member_touch_of_ne hthird hprotected, Json.member_touch_of_ne hsecond hhash,
      Json.member_assign_of_ne hfirst hexists]

/-- For an entry that agrees with what was recorded, the condition is that no other value is
put. -/
theorem survives_iff {modsDB : Json}
    (hsaved : Saved recorded (modsDB.values entry.filename)) :
    Survives lib recorded entry modsDB ↔
      ∀ value, putValue lib entry modsDB = some value → value = recorded := by
  have hhash : ((digest lib entry).isSome = true → recorded = .bool false) ↔
      ∀ value, (digest lib entry).map (fun _ => Json.bool false) = some value →
        value = recorded := by
    cases digest lib entry with
    | none => simp
    | some result => simp [eq_comm]
  unfold Survives putValue
  cases hmember : modsDB.member entry.filename with
  | none => exact hhash
  | some dbEntry =>
    have hagrees := hsaved.agrees dbEntry (Json.mem_values_of_member hmember)
    dsimp only
    match isModified lib entry dbEntry with
    | none => simp
    | some (true, _) => exact hhash
    | some (false, _) =>
      dsimp only
      cases hvalue : dbEntry.member (ascii "protected") with
      | none => simp [eq_comm, hagrees.unset hvalue]
      | some v => simp [hagrees.value v hvalue]

variable {vals : List Json} {hashed : Bool}

theorem moves_pushMod {mod : ModEntry} (h : mod.file_name = name) :
    Moves (modOf name) ([], vals) (pushMod mod) fun _ w => w = ([mod], vals) := by
  refine moves_modify fun s hs => ?_
  obtain ⟨hmods, hvals⟩ := Prod.mk.inj hs
  simp only [modOf, List.filter_append, hmods, hvals]
  simp [h]

theorem moves_storeEntry {dbEntry : Json} (mods : List ModEntry) :
    Moves (modOf name) (mods, vals) (storeEntry name dbEntry)
      fun _ w => w.1 = mods ∧ ∀ e ∈ w.2, e = dbEntry := by
  refine moves_modify fun s hs => ?_
  obtain ⟨hmods, hvals⟩ := Prod.mk.inj hs
  refine ⟨hmods, fun e he => ?_⟩
  cases hobject : s.modsDB.isObject with
  | true => exact Json.eq_of_mem_values_setMember he hobject
  | false =>
    cases hdb : s.modsDB with
    | object fields =>
      rw [hdb] at hobject
      cases hobject
    | _ =>
      simp only [modOf, hdb] at he
      cases he

theorem moves_storeHash (mods : List ModEntry) (result : Bytes) :
    Moves (modOf entry.filename) (mods, vals) (storeHash entry result)
      fun _ w => w.1 = mods ∧ ∀ e ∈ w.2, e = hashedEntry entry result := by
  refine moves_modify fun s hs => ?_
  obtain ⟨hmods, hvals⟩ := Prod.mk.inj hs
  cases hassign : s.modsDB.assign entry.filename (hashedEntry entry result) with
  | none =>
    refine ⟨hmods, fun e he => ?_⟩
    simp only [modOf, Json.values_of_assign_eq_none hassign] at he
    cases he
  | some modsDB => exact ⟨hmods, fun e he => Json.eq_of_mem_values_assign hassign he⟩

theorem member_protected_hashedEntry (result : Bytes) :
    (hashedEntry entry result).member (ascii "protected") = some (.bool false) := rfl

theorem saved_nil (recorded : Json) : Saved recorded [] := ⟨nofun, nofun⟩

theorem EntryAgrees.of_member {dbEntry : Json}
    (h : dbEntry.member (ascii "protected") = some recorded) : EntryAgrees recorded dbEntry where
  value v hv := Option.some.inj (hv.symm.trans h)
  unset hv := by
    rw [h] at hv
    cases hv

theorem saved_of_forall_eq {dbEntry : Json} (hvals : ∀ e ∈ vals, e = dbEntry)
    (h : EntryAgrees recorded dbEntry) : Saved recorded vals where
  agrees e he := hvals e he ▸ h
  same e he e' he' := (hvals e he).trans (hvals e' he').symm

theorem ends_rehash (hsaved : Saved recorded vals) :
    Ends (modOf entry.filename) ([], vals) (rehash lib entry)
      (Outcome recorded (digest lib entry).isSome
        ((digest lib entry).map fun _ => .bool false)) := by
  unfold rehash
  cases digest lib entry with
  | none => exact ends_pure _ ⟨rfl, hsaved, .inr rfl⟩
  | some result =>
    refine Moves.bind_ends (moves_pushMod rfl) ?_
    rintro - _ rfl
    refine (moves_storeHash _ result).ends fun _ w hw => ?_
    exact ⟨⟨_, hw.1, rfl⟩, _, hw.2, member_protected_hashedEntry result⟩

theorem ends_loadFromCache {dbEntry : Json} (h : dbEntry.isObject = true) :
    Ends (modOf entry.filename) ([], vals) (loadFromCache entry dbEntry)
      (Outcome recorded hashed (some ((dbEntry.member (ascii "protected")).getD .null))) := by
  obtain ⟨marked, hmark, hmarked⟩ := markExisting_of_isObject h
  unfold loadFromCache
  rw [hmark]
  refine Moves.bind_ends (moves_storeEntry []) ?_
  rintro - ⟨mods, vals'⟩ ⟨rfl, hvals'⟩
  refine Moves.ends (moves_pushMod rfl) ?_
  rintro - _ rfl
  refine ⟨⟨_, rfl, ?_⟩, marked, hvals', hmarked.isProtected⟩
  rw [hmarked.isProtected]
  rfl

theorem EntryAgrees.of_isModified {dbEntry dbEntry' : Json} {modified : Bool}
    (h : EntryAgrees recorded dbEntry)
    (hmodified : isModified lib entry dbEntry = some (modified, dbEntry')) :
    EntryAgrees recorded dbEntry' := by
  have hmember : dbEntry'.member (ascii "protected") = dbEntry.member (ascii "protected") :=
    member_of_isModified hmodified (by decide) (by decide)
  exact ⟨fun v hv => h.value v (hmember ▸ hv), fun hv => h.unset (hmember ▸ hv)⟩

theorem putValue_congr {modsDB modsDB' : Json}
    (hvalues : modsDB'.values entry.filename = modsDB.values entry.filename) :
    putValue lib entry modsDB' = putValue lib entry modsDB := by
  unfold putValue
  rw [Json.member_eq_head?_values, hvalues, ← Json.member_eq_head?_values]

theorem Throws.congr {modsDB modsDB' : Json} (h : Throws lib entry modsDB)
    (hvalues : modsDB'.values entry.filename = modsDB.values entry.filename) :
    Throws lib entry modsDB' := by
  unfold Throws
  rw [Json.member_eq_head?_values, hvalues, ← Json.member_eq_head?_values]
  exact h

theorem ends_refreshEntry (hzip : entry.isZip = true) {modsDB : Json}
    (hsaved : Saved recorded (modsDB.values entry.filename)) :
    Ends (modOf entry.filename) ([], modsDB.values entry.filename) (refreshEntry lib entry)
      (Outcome recorded (digest lib entry).isSome (putValue lib entry modsDB)) := by
  rw [refreshEntry, if_neg (DirectoryEntry.filename_ne_of_isZip hzip),
    if_neg (by rw [hzip]; exact Bool.noConfusion)]
  refine ends_get_bind fun s hs => ?_
  obtain ⟨-, hvals⟩ := Prod.mk.inj hs
  rw [← putValue_congr hvals]
  unfold putValue
  cases hmember : s.modsDB.member entry.filename with
  | none => exact ends_rehash hsaved
  | some dbEntry =>
    have hagrees : EntryAgrees recorded dbEntry :=
      hsaved.agrees dbEntry (hvals ▸ Json.mem_values_of_member hmember)
    dsimp only
    match hmodified : isModified lib entry dbEntry with
    | none => exact ends_throw _ ⟨rfl, hsaved, .inl rfl⟩
    | some (true, dbEntry') =>
      refine Moves.bind_ends (moves_storeEntry []) ?_
      rintro - ⟨mods, vals'⟩ ⟨rfl, hvals'⟩
      exact ends_rehash (saved_of_forall_eq hvals' (hagrees.of_isModified hmodified))
    | some (false, dbEntry') =>
      dsimp only
      rw [← member_of_isModified hmodified (by decide) (by decide)]
      exact ends_loadFromCache (isObject_of_isModified hmodified)

theorem returns_rehash : Returns (rehash lib entry) := by
  unfold rehash
  cases digest lib entry with
  | none => exact returns_pure _
  | some result => exact (returns_modify _).bind fun _ => returns_modify _

theorem returns_storeEntry (filename : Bytes) (dbEntry : Json) :
    Returns (storeEntry filename dbEntry) := returns_modify _

theorem returns_loadFromCache {dbEntry : Json} (h : dbEntry.isObject = true) :
    Returns (loadFromCache entry dbEntry) := by
  obtain ⟨marked, hmark, -⟩ := markExisting_of_isObject h
  unfold loadFromCache
  rw [hmark]
  exact (returns_storeEntry _ _).bind fun _ => returns_modify _

theorem threw_refreshEntry_iff (s : RefreshState) :
    threw (refreshEntry lib entry) s = true ↔ Throws lib entry s.modsDB := by
  unfold refreshEntry Throws
  split_ifs with hname hzip
  · refine ⟨nofun, fun h => ?_⟩
    exact absurd hname (DirectoryEntry.filename_ne_of_isZip h.1)
  · exact ⟨nofun, fun h => absurd h.1 (by rw [hzip]; exact Bool.noConfusion)⟩
  · rw [threw_get_bind, Bool.not_eq_false] at *
    cases hmember : s.modsDB.member entry.filename with
    | none =>
      dsimp only
      rw [returns_rehash.not_threw]
      simp
    | some dbEntry =>
      dsimp only
      match hmodified : isModified lib entry dbEntry with
      | none => exact ⟨fun _ => ⟨hzip, dbEntry, rfl, hmodified⟩, fun _ => rfl⟩
      | some (true, dbEntry') =>
        dsimp only
        rw [((returns_storeEntry _ _).bind fun _ => returns_rehash).not_threw]
        simp [hmodified]
      | some (false, dbEntry') =>
        dsimp only
        rw [(returns_loadFromCache (isObject_of_isModified hmodified)).not_threw]
        simp [hmodified]

theorem values_after_round (lib : ResourceLib) {other : DirectoryEntry}
    (h : entry.filename ≠ other.filename) (s : RefreshState) :
    (final (refreshEntry lib entry) s).modsDB.values other.filename =
      s.modsDB.values other.filename := by
  have hfixes : Fixes (modOf other.filename) (refreshEntry lib entry) := fixes_refreshEntry h
  exact congrArg Prod.snd (hfixes s)

theorem throws_after_round {other : DirectoryEntry} (h : entry.filename ≠ other.filename)
    (s : RefreshState) : Throws lib other (final (refreshEntry lib entry) s).modsDB ↔
      Throws lib other s.modsDB := by
  have hvalues := values_after_round lib h s
  exact ⟨fun hthrows => hthrows.congr hvalues.symm, fun hthrows => hthrows.congr hvalues⟩

/-- The loop throws if the round for one of the files would do so in the beginning. -/
theorem threw_loop_iff {directory : List DirectoryEntry}
    (hnames : (directory.map DirectoryEntry.filename).Nodup) (s : RefreshState) :
    threw (directory.forM (refreshEntry lib)) s = true ↔
      ∃ other ∈ directory, Throws lib other s.modsDB := by
  induction directory generalizing s with
  | nil =>
    refine ⟨fun h => Bool.noConfusion (h : false = true), ?_⟩
    rintro ⟨other, hother, -⟩
    cases hother
  | cons first rest ih =>
    obtain ⟨hhead, htail⟩ := List.nodup_cons.mp hnames
    cases hfirst : threw (refreshEntry lib first) s with
    | true =>
      rw [(forM_cons_of_threw rest hfirst).1]
      have hthrows := (threw_refreshEntry_iff s).mp hfirst
      exact ⟨fun _ => ⟨first, List.mem_cons_self, hthrows⟩, fun _ => rfl⟩
    | false =>
      have hnot : ¬Throws lib first s.modsDB := fun h => by
        rw [(threw_refreshEntry_iff s).mpr h] at hfirst
        cases hfirst
      have hround : ∀ other ∈ rest,
          Throws lib other (final (refreshEntry lib first) s).modsDB ↔
            Throws lib other s.modsDB := by
        intro other hother
        have hne : first.filename ≠ other.filename :=
          fun heq => hhead (heq ▸ List.mem_map_of_mem hother)
        exact throws_after_round hne s
      rw [(forM_cons_of_not_threw rest hfirst).1, ih htail]
      constructor
      · rintro ⟨other, hother, h⟩
        exact ⟨other, List.mem_cons_of_mem _ hother, (hround other hother).mp h⟩
      · rintro ⟨other, hother, h⟩
        rcases List.mem_cons.mp hother with rfl | hother
        · exact absurd h hnot
        · exact ⟨other, hother, (hround other hother).mpr h⟩

theorem Outcome.late {put : Option Json} {w : List ModEntry × List Json}
    (h : Outcome recorded hashed put false w) : Outcome recorded hashed put true w := by
  cases put with
  | none => exact ⟨h.1, h.2.1, .inl rfl⟩
  | some value => exact h

theorem Outcome.agrees {put : Option Json} {threw : Bool} {w : List ModEntry × List Json}
    (h : Outcome recorded hashed put threw w)
    (hput : ∀ value, put = some value → value = recorded) : Agrees recorded hashed threw w := by
  cases put with
  | none =>
    obtain ⟨hmods, hsaved, hend⟩ := h
    refine ⟨fun mod hmod => ?_, hsaved, fun hthrew hhashed => ?_⟩
    · rw [hmods] at hmod
      cases hmod
    · rcases hend with rfl | rfl
      · cases hthrew
      · cases hhashed
  | some value =>
    obtain rfl := hput value rfl
    obtain ⟨⟨mod, hmods, hmod⟩, dbEntry, hvals, hvalue⟩ := h
    refine ⟨fun mod' hmod' => ?_, saved_of_forall_eq hvals (.of_member hvalue),
      fun _ _ e he => hvals e he ▸ hvalue⟩
    rw [hmods] at hmod'
    rw [List.mem_singleton.mp hmod', hmod]

section Split

variable {directory before after : List DirectoryEntry} {modsDB : Json}

theorem fixes_others (lib : ResourceLib) (hnames : (directory.map DirectoryEntry.filename).Nodup)
    (hsplit : directory = before ++ entry :: after) :
    (∀ other ∈ before, Fixes (modOf entry.filename) (refreshEntry lib other)) ∧
      ∀ other ∈ after, Fixes (modOf entry.filename) (refreshEntry lib other) := by
  subst hsplit
  rw [List.map_append, List.map_cons, List.nodup_append, List.nodup_cons] at hnames
  obtain ⟨-, ⟨hafter, -⟩, hbefore⟩ := hnames
  refine ⟨fun other hother => fixes_refreshEntry ?_, fun other hother => fixes_refreshEntry ?_⟩
  · exact hbefore _ (List.mem_map_of_mem hother) _ List.mem_cons_self
  · exact fun heq => hafter (heq ▸ List.mem_map_of_mem hother)

theorem agrees_of_throws (hnames : (directory.map DirectoryEntry.filename).Nodup)
    (hsplit : directory = before ++ entry :: after)
    (hthrows : ∃ other ∈ before, Throws lib other modsDB)
    (hsaved : Saved recorded (modsDB.values entry.filename)) :
    Agrees recorded hashed (threw (directory.forM (refreshEntry lib)) ⟨[], modsDB⟩)
      (modOf entry.filename (final (directory.forM (refreshEntry lib)) ⟨[], modsDB⟩)) := by
  have hbefore := (fixes_others lib hnames hsplit).1
  subst hsplit
  rw [List.map_append] at hnames
  have hearly : threw (before.forM (refreshEntry lib)) ⟨[], modsDB⟩ = true :=
    (threw_loop_iff hnames.of_append_left _).mpr hthrows
  obtain ⟨hthrew, hfinal⟩ := forM_of_threw hearly
  rw [hthrew, hfinal, fixes_forM_of_mem hbefore]
  exact ⟨nofun, hsaved, nofun⟩

theorem outcome_of_not_throws (hnames : (directory.map DirectoryEntry.filename).Nodup)
    (hsplit : directory = before ++ entry :: after) (hzip : entry.isZip = true)
    (hreaches : ∀ other ∈ before, ¬Throws lib other modsDB)
    (hsaved : Saved recorded (modsDB.values entry.filename)) :
    Outcome recorded (digest lib entry).isSome (putValue lib entry modsDB)
      (threw (directory.forM (refreshEntry lib)) ⟨[], modsDB⟩)
      (modOf entry.filename (final (directory.forM (refreshEntry lib)) ⟨[], modsDB⟩)) := by
  obtain ⟨hbefore, hafter⟩ := fixes_others lib hnames hsplit
  subst hsplit
  rw [List.map_append] at hnames
  have hreturns : threw (before.forM (refreshEntry lib)) ⟨[], modsDB⟩ = false := by
    rw [Bool.eq_false_iff]
    intro h
    obtain ⟨other, hother, hthrows⟩ := (threw_loop_iff hnames.of_append_left _).mp h
    exact hreaches other hother hthrows
  exact ends_forM rfl hbefore (ends_refreshEntry hzip hsaved) hafter (fun _ h => h.late) hreturns

end Split

theorem mem_values_prune {modsDB dbEntry : Json} (h : dbEntry ∈ (prune modsDB).values name) :
    ∃ marked ∈ modsDB.values name, (marked.member (ascii "exists")).isSome = true ∧
      dbEntry = marked.eraseMember (ascii "exists") := by
  cases modsDB with
  | object fields =>
    obtain ⟨f, hf, rfl⟩ := List.mem_map.mp h
    obtain ⟨hmem, hkey⟩ := List.mem_filter.mp hf
    obtain ⟨g, hg, rfl⟩ := List.mem_map.mp hmem
    obtain ⟨hfield, hexists⟩ := List.mem_filter.mp hg
    exact ⟨g.2, List.mem_map_of_mem (List.mem_filter.mpr ⟨hfield, hkey⟩), hexists, rfl⟩
  | _ => cases h

end Loop

structure Kept (name : Bytes) (recorded : Json) (hashed threw : Bool) (s : TResourceManager) :
    Prop where
  listed : ∀ mod ∈ s.mMods, mod.file_name = name → mod.isProtected = recorded
  saved : ∀ dbEntry v, (load s.modsFile).member name = some dbEntry →
    dbEntry.member (ascii "protected") = some v → v = recorded
  written : threw = false → hashed = true → ∀ dbEntry,
    (load s.modsFile).member name = some dbEntry →
      dbEntry.member (ascii "protected") = some recorded

structure HasZip (name : Bytes) (directory : List DirectoryEntry) : Prop where
  distinct : (directory.map DirectoryEntry.filename).Nodup
  exists_zip : ∃ entry ∈ directory, entry.filename = name ∧ entry.isZip = true

section Refresh

variable {lib name} {recorded : Json} {entry : DirectoryEntry} {s : TResourceManager}

theorem HasZip.isZip {directory : List DirectoryEntry} (h : HasZip entry.filename directory)
    (hmem : entry ∈ directory) : entry.isZip = true := by
  obtain ⟨zip, hzip, hname, hiszip⟩ := h.exists_zip
  exact List.inj_on_of_nodup_map h.distinct hzip hmem hname ▸ hiszip

theorem load_save (modsDB : Json) (key : Bytes) {e : Json}
    (h : e ∈ (load (save lib modsDB)).values key) : e ∈ modsDB.values key := by
  unfold save at h
  split_ifs at h
  · exact h
  · cases h

theorem refreshFiles_cases (lib : ResourceLib) (s : TResourceManager) :
    ∃ t : RefreshState,
      final (s.directory.forM (refreshEntry lib)) ⟨[], load s.modsFile⟩ = t ∧
      threw (refreshFiles lib) s =
        threw (s.directory.forM (refreshEntry lib)) ⟨[], load s.modsFile⟩ ∧
      final (refreshFiles lib) s =
        { s with
          mMods := t.mMods
          modsFile := bif threw (refreshFiles lib) s then s.modsFile
            else save lib (prune t.modsDB) } := by
  refine ⟨_, rfl, ?_⟩
  unfold final threw refreshFiles
  cases s.directory.forM (refreshEntry lib) ⟨[], load s.modsFile⟩ with
  | ok a t => exact ⟨rfl, rfl⟩
  | error e t => exact ⟨rfl, rfl⟩

theorem EntryAgrees.eraseMember {dbEntry : Json} (h : EntryAgrees recorded dbEntry) :
    EntryAgrees recorded (dbEntry.eraseMember (ascii "exists")) := by
  have hmember : (dbEntry.eraseMember (ascii "exists")).member (ascii "protected") =
      dbEntry.member (ascii "protected") := Json.member_eraseMember_of_ne _ (by decide)
  exact ⟨fun v hv => h.value v (hmember ▸ hv), fun hv => h.unset (hmember ▸ hv)⟩

theorem Saved.prune {modsDB : Json} (h : Saved recorded (modsDB.values name)) :
    Saved recorded ((TResourceManager.prune modsDB).values name) where
  agrees e he := by
    obtain ⟨marked, hmarked, -, rfl⟩ := mem_values_prune he
    exact (h.agrees marked hmarked).eraseMember
  same e he e' he' := by
    obtain ⟨marked, hmarked, -, rfl⟩ := mem_values_prune he
    obtain ⟨marked', hmarked', -, rfl⟩ := mem_values_prune he'
    rw [h.same marked hmarked marked' hmarked']

theorem Saved.save {modsDB : Json} (h : Saved recorded (modsDB.values name)) :
    Saved recorded ((load (TResourceManager.save lib modsDB)).values name) where
  agrees e he := h.agrees e (load_save modsDB name he)
  same e he e' he' := h.same e (load_save modsDB name he) e' (load_save modsDB name he')

theorem kept_of_agrees {hashed : Bool}
    (hsaved : Saved recorded ((load s.modsFile).values name))
    (hloop : Agrees recorded hashed
      (threw (s.directory.forM (refreshEntry lib)) ⟨[], load s.modsFile⟩)
      (modOf name (final (s.directory.forM (refreshEntry lib)) ⟨[], load s.modsFile⟩))) :
    Kept name recorded hashed (threw (refreshFiles lib) s) (final (refreshFiles lib) s) ∧
      Saved recorded ((load (final (refreshFiles lib) s).modsFile).values name) := by
  obtain ⟨t, ht, hthrew, hfinal⟩ := refreshFiles_cases lib s
  rw [ht, ← hthrew] at hloop
  have hafter : Saved recorded ((load (final (refreshFiles lib) s).modsFile).values name) := by
    rw [hfinal]
    cases threw (refreshFiles lib) s with
    | true => exact hsaved
    | false => exact hloop.saved.prune.save
  refine ⟨⟨?_, ?_, ?_⟩, hafter⟩
  · intro mod hmod hname
    rw [hfinal] at hmod
    exact hloop.listed mod (List.mem_filter.mpr ⟨hmod, decide_eq_true hname⟩)
  · intro dbEntry v h hv
    exact (hafter.agrees dbEntry (Json.mem_values_of_member h)).value v hv
  · intro hreturned hhashed dbEntry h
    rw [hfinal, hreturned] at h
    have hpruned := load_save _ _ (Json.mem_values_of_member h)
    obtain ⟨marked, hmarked, -, rfl⟩ := mem_values_prune hpruned
    rw [Json.member_eraseMember_of_ne _ (by decide)]
    exact hloop.kept hreturned hhashed marked hmarked

variable {before after : List DirectoryEntry}

/-- A call that throws before it gets to the mod, or for which the mod meets the condition. -/
theorem kept_of_survives (hzip : HasZip entry.filename s.directory)
    (hsplit : s.directory = before ++ entry :: after)
    (hsaved : Saved recorded ((load s.modsFile).values entry.filename))
    (hsurvives : (∀ other ∈ before, ¬Throws lib other (load s.modsFile)) →
      Survives lib recorded entry (load s.modsFile)) :
    Kept entry.filename recorded (digest lib entry).isSome (threw (refreshFiles lib) s)
        (final (refreshFiles lib) s) ∧
      Saved recorded ((load (final (refreshFiles lib) s).modsFile).values entry.filename) := by
  have hmem : entry ∈ s.directory := hsplit ▸ List.mem_append_right _ List.mem_cons_self
  refine kept_of_agrees hsaved ?_
  by_cases hthrows : ∃ other ∈ before, Throws lib other (load s.modsFile)
  · exact agrees_of_throws hzip.distinct hsplit hthrows hsaved
  · have hreaches : ∀ other ∈ before, ¬Throws lib other (load s.modsFile) :=
      fun other hother h => hthrows ⟨other, hother, h⟩
    exact (outcome_of_not_throws hzip.distinct hsplit (hzip.isZip hmem) hreaches hsaved).agrees
      ((survives_iff hsaved).mp (hsurvives hreaches))

theorem survives_of_kept {hashed threw : Bool} (hzip : HasZip entry.filename s.directory)
    (hsplit : s.directory = before ++ entry :: after)
    (hsaved : Saved recorded ((load s.modsFile).values entry.filename))
    (hreaches : ∀ other ∈ before, ¬Throws lib other (load s.modsFile))
    (hkept : Kept entry.filename recorded hashed threw (final (refreshFiles lib) s)) :
    Survives lib recorded entry (load s.modsFile) := by
  have hmem : entry ∈ s.directory := hsplit ▸ List.mem_append_right _ List.mem_cons_self
  have hloop := outcome_of_not_throws hzip.distinct hsplit (hzip.isZip hmem) hreaches hsaved
  refine (survives_iff hsaved).mpr fun value hvalue => ?_
  obtain ⟨t, ht, -, hfinal⟩ := refreshFiles_cases lib s
  rw [ht, hvalue] at hloop
  obtain ⟨⟨mod, hmods, rfl⟩, -⟩ := hloop
  have hlisted : mod ∈ (modOf entry.filename t).1 := by
    rw [hmods]
    exact List.mem_singleton_self mod
  obtain ⟨hmod, hname⟩ := List.mem_filter.mp hlisted
  refine hkept.listed mod ?_ (of_decide_eq_true hname)
  rw [hfinal]
  exact hmod

end Refresh
section SetProtected

variable {lib name} {recorded : Json} {ModName : Bytes} {Protected : Bool} {modsDB : Json}

/-- `dump` throws on text that is not valid, and what `SetProtected` sets is no text. -/
def DumpsProtected (lib : ResourceLib) : Prop :=
  ∀ ModName Protected modsDB modsDB', protectEntry ModName Protected modsDB = some modsDB' →
    lib.dumps modsDB = true → lib.dumps modsDB' = true

/-- The value recorded for a mod after a call of `SetProtected`. -/
def recordProtected (name ModName : Bytes) (Protected : Bool) (recorded : Json) : Json :=
  if ModName = name then .bool Protected else recorded

/-- An entry that can have no member `protected` makes the call throw. -/
theorem saved_of_protectEntry_none (h : Saved recorded (modsDB.values name))
    (hnone : protectEntry ModName Protected modsDB = none) :
    Saved (recordProtected name ModName Protected recorded) (modsDB.values name) := by
  unfold recordProtected
  split_ifs with hname
  · subst hname
    unfold protectEntry at hnone
    cases hmember : modsDB.member ModName with
    | none =>
      rw [hmember] at hnone
      cases hnone
    | some dbEntry =>
      rw [hmember] at hnone
      refine ⟨fun e he => ⟨fun v hv => ?_, nofun⟩, h.same⟩
      obtain rfl := h.same e he dbEntry (Json.mem_values_of_member hmember)
      cases e with
      | object fields => cases hnone
      | _ => cases hv
  · exact h

theorem saved_of_protectEntry_some {modsDB' : Json} (h : Saved recorded (modsDB.values name))
    (hsome : protectEntry ModName Protected modsDB = some modsDB') :
    Saved (recordProtected name ModName Protected recorded) (modsDB'.values name) := by
  unfold protectEntry at hsome
  cases hmember : modsDB.member ModName with
  | none =>
    rw [hmember] at hsome
    cases hsome
    unfold recordProtected
    split_ifs with hname
    · subst hname
      rw [Json.member_eq_head?_values, List.head?_eq_none_iff] at hmember
      rw [hmember]
      exact saved_nil _
    · exact h
  | some dbEntry =>
    rw [hmember] at hsome
    obtain ⟨dbEntry', hassign, hset⟩ := Option.bind_eq_some_iff.mp hsome
    cases hset
    unfold recordProtected
    split_ifs with hname
    · subst hname
      have hvals : ∀ e ∈ (modsDB.setMember ModName dbEntry').values ModName, e = dbEntry' :=
        fun e he => Json.eq_of_mem_values_setMember he (Json.isObject_of_member hmember)
      exact saved_of_forall_eq hvals (.of_member (Json.member_assign_self hassign))
    · rw [Json.values_setMember_of_ne _ _ (Ne.symm hname)]
      exact h

theorem saved_protectFile (hlib : DumpsProtected lib) (ModName : Bytes) (Protected : Bool)
    {modsFile : ModsFile}
    (hdumps : ∀ modsDB, modsFile = .holds modsDB → lib.dumps modsDB = true)
    (h : Saved recorded ((load modsFile).values name)) :
    (∀ modsDB, protectFile lib ModName Protected modsFile = .holds modsDB →
      lib.dumps modsDB = true) ∧
    Saved (recordProtected name ModName Protected recorded)
      ((load (protectFile lib ModName Protected modsFile)).values name) := by
  cases modsFile with
  | missing => exact ⟨nofun, saved_nil _⟩
  | empty => exact ⟨nofun, saved_nil _⟩
  | holds modsDB =>
    have hdb := hdumps modsDB rfl
    unfold protectFile
    dsimp only
    cases hprotect : protectEntry ModName Protected modsDB with
    | none =>
      refine ⟨fun modsDB' heq => ?_, saved_of_protectEntry_none h hprotect⟩
      cases heq
      exact hdb
    | some modsDB' =>
      dsimp only
      have hdb' := hlib _ _ _ _ hprotect hdb
      rw [if_pos hdb']
      refine ⟨fun _ heq => ?_, saved_of_protectEntry_some h hprotect⟩
      cases heq
      exact hdb'

end SetProtected
end TResourceManager

/-- A call, or a change of the files in the folder. -/
inductive ModsOp
  | setProtected (ModName : Bytes) (Protected : Bool)
  | changeFiles (directory : List DirectoryEntry)
  | refreshFiles

/-- The resource manager with the value that was last recorded for one mod. -/
structure RecordedMod where
  manager : TResourceManager
  recorded : Json

namespace RecordedMod

open TResourceManager

variable (lib : ResourceLib) (name : Bytes)

/-- What `mods.json` has recorded for the mod, or false. -/
def start (manager : TResourceManager) : RecordedMod where
  manager := manager
  recorded := (((load manager.modsFile).member name).bind
    (·.member (ascii "protected"))).getD (.bool false)

def step (s : RecordedMod) : ModsOp → Option RecordedMod
  | .setProtected ModName Protected =>
    some
      { manager := setProtected lib ModName Protected s.manager
        recorded := recordProtected name ModName Protected s.recorded }
  | .changeFiles directory => some { s with manager := { s.manager with directory := directory } }
  | .refreshFiles => some { s with manager := final (refreshFiles lib) s.manager }

/-- The mod stays a mod. -/
def KeepsZip : ModsOp → Prop
  | .changeFiles directory => HasZip name directory
  | _ => True

/-- A call of `RefreshFiles` that does not throw before it gets to the mod does not hash it again
while another value than false is recorded. -/
def HashesUnprotected (s : RecordedMod) : ModsOp → Prop
  | .refreshFiles => ∀ before entry after,
      s.manager.directory = before ++ entry :: after → entry.filename = name →
      (∀ other ∈ before, ¬Throws lib other (load s.manager.modsFile)) →
        Survives lib s.recorded entry (load s.manager.modsFile)
  | _ => True

def RefreshKeeps (s : RecordedMod) : ModsOp → Prop
  | .refreshFiles => ∀ entry ∈ s.manager.directory, entry.filename = name →
      Kept name s.recorded (digest lib entry).isSome
        (threw (refreshFiles lib) s.manager) (final (refreshFiles lib) s.manager)
  | _ => True

structure Protects (s : RecordedMod) : Prop where
  zip : HasZip name s.manager.directory
  dumps : ∀ modsDB, s.manager.modsFile = .holds modsDB → lib.dumps modsDB = true
  saved : Saved s.recorded ((load s.manager.modsFile).values name)

variable {lib name} {s t : RecordedMod} {op : ModsOp}

theorem Protects.refreshKeeps_iff (h : s.Protects lib name) :
    s.RefreshKeeps lib name op ↔ s.HashesUnprotected lib name op := by
  cases op with
  | refreshFiles =>
    constructor
    · rintro hkeeps before entry after hsplit rfl hreaches
      have hmem : entry ∈ s.manager.directory :=
        hsplit ▸ List.mem_append_right _ List.mem_cons_self
      exact survives_of_kept h.zip hsplit h.saved hreaches (hkeeps entry hmem rfl)
    · rintro hguard entry hmem rfl
      obtain ⟨before, after, hsplit⟩ := List.append_of_mem hmem
      exact (kept_of_survives h.zip hsplit h.saved
        (hguard before entry after hsplit rfl)).1
  | _ => exact Iff.rfl

theorem dumps_refreshFiles {manager : TResourceManager}
    (h : ∀ modsDB, manager.modsFile = .holds modsDB → lib.dumps modsDB = true)
    {modsDB : Json} (hfile : (final (refreshFiles lib) manager).modsFile = .holds modsDB) :
    lib.dumps modsDB = true := by
  obtain ⟨t, -, -, hfinal⟩ := refreshFiles_cases lib manager
  rw [hfinal] at hfile
  cases hthrew : threw (refreshFiles lib) manager with
  | true =>
    rw [hthrew] at hfile
    exact h modsDB hfile
  | false =>
    rw [hthrew] at hfile
    simp only [cond_false, save] at hfile
    split_ifs at hfile with hdumps
    cases hfile
    exact hdumps

theorem Protects.step (hlib : DumpsProtected lib) (h : s.Protects lib name)
    (hkeeps : KeepsZip name op) (hguard : s.HashesUnprotected lib name op)
    (hstep : s.step lib name op = some t) : t.Protects lib name := by
  cases op with
  | setProtected ModName Protected =>
    cases hstep
    obtain ⟨hdumps, hsaved⟩ := saved_protectFile hlib ModName Protected h.dumps h.saved
    exact ⟨h.zip, hdumps, hsaved⟩
  | changeFiles directory =>
    cases hstep
    exact ⟨hkeeps, h.dumps, h.saved⟩
  | refreshFiles =>
    cases hstep
    obtain ⟨entry, hmem, rfl, -⟩ := h.zip.exists_zip
    obtain ⟨before, after, hsplit⟩ := List.append_of_mem hmem
    have hsaved := (kept_of_survives h.zip hsplit h.saved
      (hguard before entry after hsplit rfl)).2
    obtain ⟨t, -, -, hfinal⟩ := refreshFiles_cases lib s.manager
    refine ⟨?_, fun modsDB => dumps_refreshFiles h.dumps, hsaved⟩
    rw [hfinal]
    exact h.zip

theorem protects_start {manager : TResourceManager} (hzip : HasZip name manager.directory)
    (hfile : ∀ modsDB, manager.modsFile = .holds modsDB →
      lib.dumps modsDB = true ∧ modsDB.DistinctMembers) :
    (start name manager).Protects lib name where
  zip := hzip
  dumps modsDB h := (hfile modsDB h).1
  saved := by
    have hmember : ∀ e ∈ (load manager.modsFile).values name,
        (load manager.modsFile).member name = some e := by
      intro e he
      cases hmods : manager.modsFile with
      | holds modsDB =>
        rw [hmods] at he
        exact (hfile modsDB hmods).2.member_of_mem_values he
      | missing | empty =>
        rw [hmods] at he
        cases he
    refine ⟨fun e he => ⟨fun v hv => ?_, fun hv => ?_⟩, fun e he e' he' => ?_⟩
    · simp [start, hmember e he, hv]
    · simp [start, hmember e he, hv]
    · exact Option.some.inj ((hmember e he).symm.trans (hmember e' he'))

/-- Every `RefreshFiles` of a run keeps what was recorded last, in `mMods` and in `mods.json`, if
and only if a mod is hashed again only while no other value than false is recorded for it. -/
theorem refreshKeeps_iff_hashesUnprotected (lib : ResourceLib) (hlib : DumpsProtected lib)
    (name : Bytes) (manager : TResourceManager) (hzip : HasZip name manager.directory)
    (hfile : ∀ modsDB, manager.modsFile = .holds modsDB →
      lib.dumps modsDB = true ∧ modsDB.DistinctMembers)
    (ops : List ModsOp) (hkeeps : ∀ op ∈ ops, KeepsZip name op) :
    Execution.Along (step lib name) (RefreshKeeps lib name) (start name manager) ops ↔
      Execution.Along (step lib name) (HashesUnprotected lib name) (start name manager) ops := by
  have hstart := protects_start hzip hfile
  have hzips : Execution.Along (step lib name) (fun _ op => KeepsZip name op)
      (start name manager) ops := Execution.along_of_forall hkeeps
  constructor
  · intro h
    exact (hzips.and h).imp_of_invariant
      (fun s op t h hg hstep => h.step hlib hg.1 (h.refreshKeeps_iff.mp hg.2) hstep)
      (fun s op h hg => h.refreshKeeps_iff.mp hg.2) hstart
  · intro h
    exact (hzips.and h).imp_of_invariant (fun s op t h hg hstep => h.step hlib hg.1 hg.2 hstep)
      (fun s op h hg => h.refreshKeeps_iff.mpr hg.2) hstart

/-- What the libraries do with what `RefreshFiles` writes, and with a file that is empty. -/
def sampleLib : ResourceLib where
  greater
    | count, .integer n => decide (n < count)
    | _, .null | _, .bool _ => true
    | _, _ => false
  getSize
    | .integer n => some n.toNat
    | _ => none
  dumps _ := true
  sha256 _ :=
    some (ascii "e3b0c44298fc1c149afbf4c8996fb92427ae41e4649b934ca495991b7852b855")

def emptyMod (lastWriteTime : ℤ) : DirectoryEntry :=
  ⟨ascii "a.zip", false, some lastWriteTime, some 0, [], nofun, fun _ => rfl⟩

theorem hasZip_emptyMod (lastWriteTime : ℤ) : HasZip (ascii "a.zip") [emptyMod lastWriteTime] where
  distinct := List.nodup_singleton _
  exists_zip := ⟨emptyMod lastWriteTime, List.mem_singleton_self _, rfl, rfl⟩

theorem eq_emptyMod {lastWriteTime : ℤ} {before after : List DirectoryEntry}
    {entry : DirectoryEntry} (h : [emptyMod lastWriteTime] = before ++ entry :: after) :
    entry = emptyMod lastWriteTime :=
  List.mem_singleton.mp (h ▸ List.mem_append_right _ List.mem_cons_self)

/-- A protected mod that is refreshed without having been written again. -/
theorem refreshKeeps_after_refresh :
    Execution.Along (step sampleLib (ascii "a.zip")) (RefreshKeeps sampleLib (ascii "a.zip"))
      (start (ascii "a.zip") ⟨[], [emptyMod 1], .holds (.object [])⟩)
      [.refreshFiles, .setProtected (ascii "a.zip") true, .refreshFiles] := by
  refine (refreshKeeps_iff_hashesUnprotected sampleLib (fun _ _ _ _ _ _ => rfl) _ _
    (hasZip_emptyMod 1) ?_ _ ?_).mpr ?_
  · rintro _ heq
    cases heq
    refine ⟨rfl, ?_⟩
    rintro _ hfields
    cases hfields
    exact List.nodup_nil
  · simp [KeepsZip]
  · refine (Execution.along_cons_of_step rfl).mpr ⟨?_, ?_⟩
    · intro before entry after hsplit _ _
      obtain rfl := eq_emptyMod hsplit
      exact fun _ => rfl
    refine (Execution.along_cons_of_step rfl).mpr ⟨trivial, ?_⟩
    refine (Execution.along_cons_of_step rfl).mpr ⟨?_, trivial⟩
    intro before entry after hsplit _ _
    obtain rfl := eq_emptyMod hsplit
    exact (rfl : (some (Json.bool true)).isSome = true)

/-- A mod is protected and then written again. -/
theorem not_refreshKeeps_after_update :
    DumpsProtected sampleLib ∧ HasZip (ascii "a.zip") [emptyMod 1] ∧
      (∀ op ∈ [ModsOp.refreshFiles, .setProtected (ascii "a.zip") true, .changeFiles [emptyMod 2],
        .refreshFiles], KeepsZip (ascii "a.zip") op) ∧
      ¬Execution.Along (step sampleLib (ascii "a.zip")) (RefreshKeeps sampleLib (ascii "a.zip"))
        (start (ascii "a.zip") ⟨[], [emptyMod 1], .holds (.object [])⟩)
        [.refreshFiles, .setProtected (ascii "a.zip") true, .changeFiles [emptyMod 2],
          .refreshFiles] := by
  refine ⟨fun _ _ _ _ _ _ => rfl, hasZip_emptyMod 1, ?_, fun h => ?_⟩
  · simp [KeepsZip, hasZip_emptyMod]
  · have hkept := (((h.tail rfl).tail rfl).tail rfl).head rfl (emptyMod 2)
      (List.mem_singleton_self _) rfl
    have hlisted := hkept.listed _ (List.mem_singleton_self _) rfl
    cases hlisted

end RecordedMod
end BeamMP
