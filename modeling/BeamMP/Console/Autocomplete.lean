import BeamMP.Common.PrettyTags
import BeamMP.Foundation.Substrings
import BeamMP.Lua.Values
import Mathlib.Data.List.DropRight

/-!
# Completions in the console

While the console is attached to a Lua state, the end of the line is taken for a path
of keys with dots between them. The path without its last key is followed from the
globals, and the keys of the table it leads to complete the line.
-/
namespace BeamMP

variable {ρ : Type}

/-- What `as<std::string>()` makes of a key and of a value, unless it throws. -/
structure NamesOf (ρ : Type) where
  ofKey : LuaKey → Option Bytes
  ofValue : LuaValue ρ → Option Bytes

/-- `current.get<sol::object>(key)`. -/
def LuaHeap.get (heap : LuaHeap ρ) (current : ρ) (key : Bytes) : LuaValue ρ :=
  match (heap.entries current).find? fun e => e.1 = .string key with
  | some e => e.2
  | none => .nil

namespace NamesOf

variable (lib : NamesOf ρ) (heap : LuaHeap ρ)

/-- The name of an entry, with a parenthesis behind that of a function. -/
def name (e : LuaKey × LuaValue ρ) : Option Bytes :=
  (lib.ofKey e.1).map fun s =>
    match e.2 with
    | .function => s ++ ascii "("
    | _ => s

/-- The loop over the entries of a table. -/
def names : List (LuaKey × LuaValue ρ) → Option (List Bytes)
  | [] => some []
  | e :: entries =>
    match lib.name e with
    | some s => (names entries).map (s :: ·)
    | none => none

/-- The loop over the keys. -/
def followKeys : ρ → List Bytes → Option (List Bytes)
  | _, [] => some []
  | current, key :: keys =>
    match heap.get current key, keys with
    | .nil, _ => some []
    | .table obj, [] => lib.names (heap.entries obj)
    | obj, [] => (lib.ofValue obj).map ([·])
    | .table obj, keys => followKeys obj keys
    | _, _ => some []

def getStateTableKeys (globals : ρ) (keys : List Bytes) : Option (List Bytes) :=
  match lib.names (heap.entries globals) with
  | none => none
  | some Result => if keys = [] then some Result else lib.followKeys heap globals keys

end NamesOf

/-- `std::isalnum` of the C locale. -/
def isAlnum (b : UInt8) : Bool := isDigit b || (65 ≤ b && b ≤ 90) || (97 ≤ b && b ≤ 122)

/-- A byte of a path of keys. -/
def isPathByte (b : UInt8) : Bool := isAlnum b || b = '_'.toUInt8 || b = '.'.toUInt8

/-- The loop that separates the path from what stands in front of it. -/
def separatePath (stub : Bytes) : ℕ → Bytes × Bytes
  | 0 => ([], stub)
  | i + 1 =>
    if stub[i]?.all isPathByte then separatePath stub i
    else (stub.substr 0 (some (i + 1)), stub.substr (i + 1) none)

/-- `rfind('.') + 1`, which is zero without a dot. -/
def behindLastDot (stub : Bytes) : ℕ := (stub.rfind '.').elim 0 (· + 1)

/-- `stub.rfind('.') != stub.size() - 1`, where both are `npos` for an empty path. -/
def lastIncomplete (stub : Bytes) : Bool :=
  match stub.rfind '.' with
  | some i => i ≠ stub.length - 1
  | none => stub ≠ []

/-- The completion of the line by a key. -/
def suggestion (front stub key : Bytes) : Option Bytes :=
  if Substrings.find (stub.substr (behindLastDot stub) none) key = some 0 then
    some (front ++ stub.substr 0 (some (behindLastDot stub)) ++ key)
  else none

/-- `std::sort`. -/
def sortStrings (strings : List Bytes) : List Bytes := strings.mergeSort fun s t => !decide (t < s)

/-- `on_autocomplete` while the console is attached to a Lua state. After an exception there are no
suggestions. -/
def luaSuggestions (lib : NamesOf ρ) (heap : LuaHeap ρ) (globals : ρ) (stub : Bytes) :
    Option (List Bytes) := do
  let (front, stub) := separatePath stub stub.length
  let tablekeys ← splitString stub '.' []
  let tablekeys := if lastIncomplete stub then tablekeys.dropLast else tablekeys
  let keys := (lib.getStateTableKeys heap globals tablekeys).getD []
  some (sortStrings (keys.filterMap (suggestion front stub)))

def trimString (S : Bytes) : Bytes := (S.dropWhile isSpace).rdropWhile isSpace

/-- `on_autocomplete` while the console is not attached. A line that starts with `lua` is completed
by a name of a state, any other one by a command. -/
def regularSuggestions (stateNames commands : List Bytes) (stub : Bytes) : List Bytes :=
  if Substrings.find (ascii "lua") stub = some 0 then
    sortStrings ((stateNames.filter fun name =>
      Substrings.find (trimString (stub.substr 3 none)) name = some 0).map (ascii "lua " ++ ·))
  else sortStrings (commands.filter fun cmd_name => Substrings.find stub cmd_name = some 0)

/-- What is behind the path of some keys. -/
inductive LeadsTo (heap : LuaHeap ρ) : ρ → List Bytes → ρ → Prop
  | here (r : ρ) : LeadsTo heap r [] r
  | key {r obj r' : ρ} {key : Bytes} {keys : List Bytes} (hget : heap.get r key = .table obj)
      (hrest : LeadsTo heap obj keys r') : LeadsTo heap r (key :: keys) r'

/-- A line that ends in a path: code, the keys up to the last dot, and the start of one more. -/
structure EndsInPath (code path last : Bytes) : Prop where
  code_end : ∀ b ∈ code.getLast?, isPathByte b = false
  path_end : path = [] ∨ ∃ keys, path = keys ++ ['.'.toUInt8]
  bytes : ∀ b ∈ path ++ last, isPathByte b = true
  no_dot : '.'.toUInt8 ∉ last

theorem find_eq_zero_iff {pattern s : Bytes} :
    Substrings.find pattern s = some 0 ↔ pattern <+: s := by
  simp [Substrings.find_eq_some_iff]

theorem mem_regularSuggestions (stateNames commands : List Bytes) (stub s : Bytes) :
    s ∈ regularSuggestions stateNames commands stub ↔
      if ascii "lua" <+: stub then
        ∃ name ∈ stateNames, trimString (stub.drop 3) <+: name ∧ s = ascii "lua " ++ name
      else s ∈ commands ∧ stub <+: s := by
  unfold regularSuggestions
  simp only [find_eq_zero_iff]
  split_ifs
  · rw [sortStrings, (List.mergeSort_perm _ _).mem_iff, List.mem_map]
    refine exists_congr fun name => ?_
    rw [List.mem_filter, decide_eq_true_eq, and_assoc, eq_comm (a := s)]
    rfl
  · rw [sortStrings, (List.mergeSort_perm _ _).mem_iff, List.mem_filter, decide_eq_true_eq]

section Line

variable {code path last : Bytes}

theorem exists_endsInPath (stub : Bytes) :
    ∃ code path last, EndsInPath code path last ∧ stub = code ++ (path ++ last) := by
  have hcode : ∀ b ∈ (stub.rdropWhile isPathByte).getLast?, isPathByte b = false := by
    intro b hb
    obtain ⟨hne, rfl⟩ := List.mem_getLast?_eq_getLast hb
    simpa using List.rdropWhile_last_not isPathByte stub hne
  have hbytes : ∀ b ∈ stub.rtakeWhile isPathByte, isPathByte b = true :=
    fun b hb => List.mem_rtakeWhile_imp hb
  have hsplit := List.rdropWhile_append_rtakeWhile (p := isPathByte) (l := stub)
  by_cases hdot : '.'.toUInt8 ∈ stub.rtakeWhile isPathByte
  · obtain ⟨keys, last, hword, hlast⟩ := Bytes.exists_last_of_mem hdot
    refine ⟨_, keys ++ ['.'.toUInt8], last, ⟨hcode, .inr ⟨keys, rfl⟩, ?_, hlast⟩, ?_⟩
    · rw [List.append_assoc]
      exact fun b hb => hbytes b (hword ▸ hb)
    · rw [List.append_assoc, List.singleton_append, ← hword]
      exact hsplit.symm
  · exact ⟨_, [], _, ⟨hcode, .inl rfl, hbytes, hdot⟩, hsplit.symm⟩

theorem separatePath_of_path {word : Bytes} (hcode : ∀ b ∈ code.getLast?, isPathByte b = false)
    (hword : ∀ b ∈ word, isPathByte b = true) {k : ℕ} (hk : k ≤ word.length) :
    separatePath (code ++ word) (code.length + k) = (code, word) := by
  induction k with
  | zero =>
    obtain rfl | ⟨front, b, rfl⟩ := code.eq_nil_or_concat
    · rfl
    · have hb : isPathByte b = false := hcode b (by simp)
      simp [separatePath, Bytes.substr, hb, List.take_length_add_append]
  | succ k ih =>
    have hlt : k < word.length := hk
    have hb : isPathByte word[k] = true := hword _ (List.getElem_mem hlt)
    rw [← Nat.add_assoc, separatePath, List.getElem?_append_right (Nat.le_add_right _ _),
      Nat.add_sub_cancel_left, List.getElem?_eq_getElem hlt, Option.all_some, if_pos hb]
    exact ih hlt.le

variable (h : EndsInPath code path last)

include h

theorem EndsInPath.separatePath_eq :
    separatePath (code ++ (path ++ last)) (code ++ (path ++ last)).length =
      (code, path ++ last) := by
  rw [List.length_append]
  exact separatePath_of_path h.code_end h.bytes le_rfl

theorem EndsInPath.rfind_eq : Bytes.rfind (path ++ last) '.' =
    if path = [] then none else some (path.length - 1) := by
  obtain rfl | ⟨keys, rfl⟩ := h.path_end
  · exact Bytes.rfind_eq_none h.no_dot
  · rw [if_neg (by simp), List.append_assoc, List.singleton_append,
      Bytes.rfind_append_cons h.no_dot]
    simp

theorem EndsInPath.behindLastDot_eq : behindLastDot (path ++ last) = path.length := by
  rw [behindLastDot, h.rfind_eq]
  split_ifs with hnil
  · simp [hnil]
  · exact Nat.succ_pred_eq_of_pos (List.length_pos_iff.mpr hnil)

theorem EndsInPath.lastIncomplete_iff : lastIncomplete (path ++ last) = true ↔ last ≠ [] := by
  rw [lastIncomplete, h.rfind_eq]
  by_cases hnil : path = []
  · simp [hnil]
  · have hpos := List.length_pos_iff.mpr hnil
    rw [if_neg hnil]
    simp only [List.length_append, decide_eq_true_eq, ← List.length_pos_iff]
    omega

theorem EndsInPath.tablekeys_eq :
    (if lastIncomplete (path ++ last) = true then (pieces '.' (path ++ last)).dropLast
      else pieces '.' (path ++ last)) = pieces '.' path := by
  have hpieces : pieces '.' (path ++ last) = pieces '.' path ++ pieces '.' last := by
    obtain rfl | ⟨keys, rfl⟩ := h.path_end
    · simp
    · rw [List.append_assoc, List.singleton_append, pieces_append_cons, pieces_append_cons]
      simp
  rw [hpieces]
  split_ifs with hlast
  · rw [pieces_of_not_mem h.no_dot (h.lastIncomplete_iff.mp hlast), List.dropLast_concat]
  · rw [h.lastIncomplete_iff, not_not] at hlast
    simp [hlast]

theorem EndsInPath.suggestion_eq (key : Bytes) : suggestion code (path ++ last) key =
    if last <+: key then some (code ++ (path ++ key)) else none := by
  rw [suggestion, h.behindLastDot_eq]
  simp [Bytes.substr, find_eq_zero_iff]

end Line

section Keys

variable (lib : NamesOf ρ) {heap : LuaHeap ρ}

theorem followKeys_of_leadsTo {current r : ρ} {keys : List Bytes}
    (h : LeadsTo heap current keys r) (hne : keys ≠ []) :
    lib.followKeys heap current keys = lib.names (heap.entries r) := by
  induction h with
  | here r => exact absurd rfl hne
  | @key r obj r' key keys hget hrest ih =>
    cases hrest with
    | here => simp [NamesOf.followKeys, hget]
    | key hnext hmore => simpa [NamesOf.followKeys, hget] using ih

/-- The names of the globals are read first, whatever the keys lead to. -/
theorem getStateTableKeys_of_leadsTo {globals r : ρ} {keys : List Bytes}
    (h : LeadsTo heap globals keys r) :
    lib.getStateTableKeys heap globals keys =
      (lib.names (heap.entries globals)).bind fun _ => lib.names (heap.entries r) := by
  cases hResult : lib.names (heap.entries globals) with
  | none => simp only [NamesOf.getStateTableKeys, hResult, Option.bind_none]
  | some Result =>
    simp only [NamesOf.getStateTableKeys, hResult, Option.bind_some]
    by_cases hnil : keys = []
    · subst hnil
      cases h
      rw [if_pos rfl, hResult]
    · rw [if_neg hnil, followKeys_of_leadsTo lib h hnil]

end Keys

theorem mem_luaSuggestions (lib : NamesOf ρ) (heap : LuaHeap ρ) (globals : ρ)
    {code path last : Bytes} (h : EndsInPath code path last) :
    ∃ suggestions, luaSuggestions lib heap globals (code ++ (path ++ last)) = some suggestions ∧
      ∀ s, s ∈ suggestions ↔
        ∃ key ∈ (lib.getStateTableKeys heap globals (pieces '.' path)).getD [],
          last <+: key ∧ s = code ++ (path ++ key) := by
  have hkeys : luaSuggestions lib heap globals (code ++ (path ++ last)) =
      some (sortStrings (((lib.getStateTableKeys heap globals (pieces '.' path)).getD []).filterMap
        (suggestion code (path ++ last)))) := by
    unfold luaSuggestions
    rw [h.separatePath_eq]
    simp only [splitString_eq, List.nil_append, Option.bind_eq_bind, Option.bind_some,
      h.tablekeys_eq]
  refine ⟨_, hkeys, fun s => ?_⟩
  rw [sortStrings, (List.mergeSort_perm _ _).mem_iff, List.mem_filterMap]
  refine exists_congr fun key => and_congr_right fun _ => ?_
  rw [h.suggestion_eq]
  by_cases hlast : last <+: key <;> simp [hlast, eq_comm]

/-- Every completion extends the line. Where the keys up to the last dot lead to a table, the
completions are the entries of this table whose names start as the line ends, if no key of the
globals or of the table throws, and there are none otherwise. While the console is not attached,
the names of states complete a line that starts with `lua`, and commands any other one. -/
theorem completions_extend_path (lib : NamesOf ρ) (heap : LuaHeap ρ) (globals : ρ) (stub : Bytes)
    (stateNames commands : List Bytes) :
    (∃ suggestions, luaSuggestions lib heap globals stub = some suggestions ∧
      (∀ s ∈ suggestions, stub <+: s) ∧
      ∀ code path last, EndsInPath code path last → stub = code ++ (path ++ last) →
        ∀ r, LeadsTo heap globals (pieces '.' path) r →
          ∀ s, s ∈ suggestions ↔ (lib.names (heap.entries globals)).isSome ∧
            ∃ members, lib.names (heap.entries r) = some members ∧
              ∃ name ∈ members, last <+: name ∧ s = code ++ (path ++ name)) ∧
    ∀ s, s ∈ regularSuggestions stateNames commands stub ↔
      if ascii "lua" <+: stub then
        ∃ name ∈ stateNames, trimString (stub.drop 3) <+: name ∧ s = ascii "lua " ++ name
      else s ∈ commands ∧ stub <+: s := by
  refine ⟨?_, mem_regularSuggestions stateNames commands stub⟩
  obtain ⟨code, path, last, h, rfl⟩ := exists_endsInPath stub
  obtain ⟨suggestions, hsuggestions, hmem⟩ := mem_luaSuggestions lib heap globals h
  refine ⟨suggestions, hsuggestions, fun s hs => ?_, ?_⟩
  · obtain ⟨key, -, ⟨rest, rfl⟩, rfl⟩ := (hmem s).mp hs
    exact ⟨rest, by simp⟩
  · intro code' path' last' h' hsplit r hleads s
    obtain ⟨suggestions', hsuggestions', hmem'⟩ := mem_luaSuggestions lib heap globals h'
    rw [hsplit, hsuggestions'] at hsuggestions
    obtain rfl := Option.some.inj hsuggestions
    rw [hmem', getStateTableKeys_of_leadsTo lib hleads]
    cases lib.names (heap.entries globals) with
    | none => simp
    | some Result =>
      cases lib.names (heap.entries r) with
      | none => simp
      | some members => simp

/-- The globals have a table with two functions and a number. -/
def sampleHeap : LuaHeap Bool where
  entries
    | false => [(.string (ascii "MP"), .table true)]
    | true =>
      [(.string (ascii "Get"), .function), (.string (ascii "CreateTimer"), .function),
        (.string (ascii "Crash"), .number (.integer 1))]
  isTable
    | false => ⟨by decide, by simp⟩
    | true => ⟨by decide, by simp⟩

def stringNames : NamesOf Bool where
  ofKey
    | .string s => some s
    | _ => none
  ofValue _ := none

theorem completions_extend_path_sample :
    ∃ suggestions, luaSuggestions stringNames sampleHeap false (ascii "print(MP.Cr") =
        some suggestions ∧
      ascii "print(MP.CreateTimer(" ∈ suggestions ∧ ascii "print(MP.Get(" ∉ suggestions := by
  obtain ⟨⟨suggestions, hsuggestions, -, hmem⟩, -⟩ :=
    completions_extend_path stringNames sampleHeap false (ascii "print(MP.Cr") [] []
  have hline : EndsInPath (ascii "print(") (ascii "MP.") (ascii "Cr") := by
    refine ⟨fun b hb => ?_, .inr ⟨ascii "MP", rfl⟩, List.all_eq_true.mp rfl, by decide⟩
    obtain rfl : '('.toUInt8 = b := Option.some.inj hb
    rfl
  have hpath : pieces '.' (ascii "MP" ++ '.'.toUInt8 :: []) = [ascii "MP"] := by
    rw [pieces_append_cons, pieces_of_not_mem (by decide) (by decide), pieces_nil]
    rfl
  have hleads : LeadsTo sampleHeap false [ascii "MP"] true := .key rfl (.here true)
  have hkeys := hmem (ascii "print(") (ascii "MP.") (ascii "Cr") hline rfl true
    (hpath.symm ▸ hleads)
  refine ⟨suggestions, hsuggestions, (hkeys _).mpr ⟨rfl, _, rfl, ascii "CreateTimer(", by decide,
    by decide, rfl⟩, fun h => ?_⟩
  obtain ⟨-, members, hmembers, hname⟩ := (hkeys _).mp h
  obtain rfl : [ascii "Get(", ascii "CreateTimer(", ascii "Crash"] = members :=
    Option.some.inj hmembers
  exact absurd hname (by decide)

end BeamMP
