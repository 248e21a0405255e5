import BeamMP.Common.JsonEquality
import BeamMP.Lua.Values

/-!
# Tables as JSON and back

`JsonEncode` makes an array of a table whose keys are all numbers, in the order in
which the table is iterated, and an object of any other. `JsonDecode` adds what an
array or an object contains to a table; an empty name means the next free index, and
any other name ends at its first NUL.
-/
namespace BeamMP

/-- sol, `std::to_string` of a `double`, and the JSON library. -/
structure ConversionEnv where
  sol : Sol
  doubleToString : LuaFloat → Bytes
  text : JsonText

section Encode

variable {ρ : Type} (env : ConversionEnv) (heap : LuaHeap ρ)

/-- `key`, unless the left side is of an unexpected type. -/
def encodedKey : LuaKey → Option Bytes
  | .string s => some s
  | .number x =>
    if env.sol.isInt x then some (toDecimal (env.sol.asInt x))
    else some (env.doubleToString (env.sol.asDouble x))
  | .other _ => none

/-- A number that is not finite is printed as null. -/
def encodedDouble : LuaFloat → Json
  | .finite .zero => .float 0 0
  | .finite (.ofOdd mantissa precision _) => .float mantissa (-precision)
  | .infinite _ | .nan => .null

def encodedNumber (x : LuaNumber) : Json :=
  if env.sol.isInt x then .integer (env.sol.asInt x) else encodedDouble (env.sol.asDouble x)

/-- `value`, unless the call returns before it is added. -/
def encodedValue (encodedTable : ρ → Option Json) : LuaValue ρ → Option (Option Json)
  | .nil | .function | .thread | .userdata => some none
  | .boolean b => some (some (.bool b))
  | .number x => some (some (encodedNumber env x))
  | .string s => some (some (.string s))
  | .table r => (encodedTable r).map some

/-- `is_array`, as it is found by the first loop over a table. -/
def isArray (entries : List (LuaKey × LuaValue ρ)) : Bool :=
  entries.all fun pair => match pair.1 with
    | .number _ => true
    | .string _ | .other _ => false

def encodedEntries (add : Json → LuaKey → LuaValue ρ → Bool → Option Json)
    (entries : List (LuaKey × LuaValue ρ)) : Option Json :=
  if entries.isEmpty then some (.object [])
  else entries.foldlM (fun json pair => add json pair.1 pair.2 (isArray entries)) .null

def encodedTable (add : Json → LuaKey → LuaValue ρ → Bool → Option Json) (r : ρ) : Option Json :=
  encodedEntries add (heap.entries r)

/-- `JsonEncodeRecursive` at a depth that leaves room for so many levels. -/
def jsonEncodeRecursive : ℕ → Json → LuaKey → LuaValue ρ → Bool → Option Json
  | 0, json, _, _, _ => some json
  | levels + 1, json, left, right, is_array =>
    match encodedKey env left with
    | none => some json
    | some key => do
      match ← encodedValue env (encodedTable heap (jsonEncodeRecursive levels)) right with
      | none => some json
      | some value => if is_array then json.pushBack value else json.assign key value

/-- `JsonEncode` of a table with these entries, which pass at depth 0 of 100. -/
def jsonEncode (entries : List (LuaKey × LuaValue ρ)) : Option Bytes := do
  let json ← encodedEntries (jsonEncodeRecursive env heap 101) entries
  env.text.dump json

end Encode

/-- A table with what was appended to it, and what was set under a name. -/
structure DecodedTable where
  elements : List LuaShape := []
  members : Bytes → Option LuaShape := fun _ => none

namespace DecodedTable

def read (table : DecodedTable) : LuaKey → Option LuaShape
  | .string s => table.members s
  | .number (.integer n) => if 1 ≤ n then table.elements[n.toNat - 1]? else none
  | .number (.float _) | .other _ => none

/-- `AddToTable`. Assigning nil removes what is there. -/
def addToTable (sol : Sol) (table : DecodedTable) (left : Bytes) (value : LuaShape) :
    DecodedTable :=
  if left = [] then { table with elements := table.elements ++ value.entry.toList }
  else
    { table with
      members := Function.update table.members (sol.storedKey left) value.entry }

end DecodedTable

section Decode

variable (sol : Sol)

mutual

def jsonDecodeRecursive (table : DecodedTable) (left : Bytes) : Json → DecodedTable
  | .null => table.addToTable sol left .nil
  | .object fields => table.addToTable sol left (.table (decodeFields {} fields).read)
  | .array elements => table.addToTable sol left (.table (decodeElements {} elements).read)
  | .string s => table.addToTable sol left (.string s)
  | .bool b => table.addToTable sol left (.boolean b)
  | .integer n => table.addToTable sol left (.number (.integer n))
  | .float mantissa exponent =>
    table.addToTable sol left (.number (.float (.finite (.ofIntWithPrec mantissa (-exponent)))))

def decodeFields (table : DecodedTable) : List (Bytes × Json) → DecodedTable
  | [] => table
  | (key, entry) :: fields => decodeFields (jsonDecodeRecursive table key entry) fields

def decodeElements (table : DecodedTable) : List Json → DecodedTable
  | [] => table
  | entry :: elements => decodeElements (jsonDecodeRecursive table [] entry) elements

end

/-- `Lua_JsonDecode`; without a table it returns nil. -/
def jsonDecode (text : JsonText) (str : Bytes) : Option DecodedTable :=
  match text.parse str with
  | some (.object fields) => some (decodeFields sol {} fields)
  | some (.array elements) => some (decodeElements sol {} elements)
  | _ => none

end Decode

section Carrying

variable {ρ : Type} (heap : LuaHeap ρ)

/-- What an encoded value looks like, where it is known for what is in a table. -/
def CarriesWith (child : LuaValue ρ → Json → Prop) : LuaValue ρ → Json → Prop
  | .boolean b, j => j = .bool b
  | .number (.integer n), j => j = .integer n
  | .number (.float (.finite x)), j =>
    ∃ mantissa exponent, j = .float mantissa exponent ∧
      Dyadic.ofIntWithPrec mantissa (-exponent) = x
  | .string s, j => j = .string s
  | .table r, j =>
    if heap.entries r ≠ [] ∧ isArray (heap.entries r) = true then
      ∃ elements, j = .array elements ∧
        List.Forall₂ (fun e element => child e.2 element) (heap.entries r) elements
    else ∃ fields, j = .object fields ∧ (fields.map Prod.fst).Nodup ∧
      (∀ e ∈ heap.entries r, ∃ f ∈ fields, e.1 = .string f.1 ∧ child e.2 f.2) ∧
      ∀ f ∈ fields, ∃ e ∈ heap.entries r, e.1 = .string f.1 ∧ child e.2 f.2
  | _, _ => False

def Carries : ℕ → LuaValue ρ → Json → Prop
  | 0 => CarriesWith heap fun _ _ => False
  | depth + 1 => CarriesWith heap (Carries depth)

def IsSequence (entries : List (LuaKey × LuaValue ρ)) : Prop :=
  (entries.map Prod.fst).Perm
    ((List.range entries.length).map fun i => .number (.integer ((i + 1 : ℕ) : ℤ)))

/-- Booleans, 32-bit integers, finite numbers that are not integers, texts, sequences, and
tables of strings. -/
def jsonData : DataRule ρ where
  number x := x.IsPlain ∧ ∀ y, x = .float y → y.value.isSome
  string := IsUtf8
  keys entries := IsSequence entries ∨ ∀ e ∈ entries, ∃ s, e.1 = .string s

variable {heap} {r : ρ}

theorem isArray_of_isSequence {entries : List (LuaKey × LuaValue ρ)} (h : IsSequence entries) :
    isArray entries = true := by
  rw [isArray, List.all_eq_true]
  intro e he
  have hkey := h.subset (List.mem_map_of_mem he)
  obtain ⟨i, _, hi⟩ := List.mem_map.mp hkey
  rw [← hi]

section Adding

variable {env : ConversionEnv} {add : Json → LuaKey → LuaValue ρ → Bool → Option Json}
  {carries : LuaValue ρ → Json → Prop}

theorem foldlM_pushBack (entries : List (LuaKey × LuaValue ρ))
    (hadd : ∀ e ∈ entries, ∃ j, carries e.2 j ∧ ∀ json, add json e.1 e.2 true = json.pushBack j) :
    ∀ elements, ∃ added, List.Forall₂ (fun e element => carries e.2 element) entries added ∧
      entries.foldlM (fun json pair => add json pair.1 pair.2 true) (.array elements) =
        some (.array (elements ++ added)) := by
  induction entries with
  | nil => exact fun elements => ⟨[], .nil, by rw [List.append_nil]; rfl⟩
  | cons e entries ih =>
    intro elements
    obtain ⟨⟨j, hj, hjson⟩, hadd⟩ := List.forall_mem_cons.mp hadd
    obtain ⟨added, hadded, hfold⟩ := ih hadd (elements ++ [j])
    refine ⟨j :: added, .cons hj hadded, ?_⟩
    rw [List.foldlM_cons, hjson]
    refine hfold.trans ?_
    rw [List.append_assoc, List.singleton_append]

theorem foldlM_assign (entries : List (LuaKey × LuaValue ρ))
    (hadd : ∀ e ∈ entries, ∃ key j, e.1 = .string key ∧ carries e.2 j ∧
      ∀ json, add json e.1 e.2 false = json.assign key j) :
    (entries.map Prod.fst).Nodup → ∀ fields, (∀ f ∈ fields, .string f.1 ∉ entries.map Prod.fst) →
      ∃ added, List.Forall₂ (fun e f => e.1 = .string f.1 ∧ carries e.2 f.2) entries added ∧
        entries.foldlM (fun json pair => add json pair.1 pair.2 false) (.object fields) =
          some (.object (fields ++ added)) := by
  induction entries with
  | nil => exact fun _ fields _ => ⟨[], .nil, by rw [List.append_nil]; rfl⟩
  | cons e entries ih =>
    intro hnodup fields hnew
    obtain ⟨hfirst, hnodup⟩ := List.nodup_cons.mp hnodup
    obtain ⟨⟨key, j, hkey, hj, hjson⟩, hadd⟩ := List.forall_mem_cons.mp hadd
    have hassign : (Json.object fields).assign key j = some (.object (fields ++ [(key, j)])) := by
      rw [Json.assign, Json.setMember, if_neg]
      rw [List.any_eq_true]
      rintro ⟨f, hf, heq⟩
      apply hnew f hf
      rw [List.map_cons, hkey, beq_iff_eq.mp heq]
      exact List.mem_cons_self
    have hnew' : ∀ f ∈ fields ++ [(key, j)], .string f.1 ∉ entries.map Prod.fst := by
      intro f hf
      rcases List.mem_append.mp hf with hf | hf
      · exact fun hmem => hnew f hf (List.mem_cons_of_mem _ hmem)
      · rw [List.mem_singleton.mp hf, ← hkey]
        exact hfirst
    obtain ⟨added, hadded, hfold⟩ := ih hadd hnodup _ hnew'
    refine ⟨(key, j) :: added, .cons ⟨hkey, hj⟩ hadded, ?_⟩
    rw [List.foldlM_cons, hjson, hassign]
    refine hfold.trans ?_
    rw [List.append_assoc, List.singleton_append]

theorem foldlM_pushBack_null {entries : List (LuaKey × LuaValue ρ)} (hne : entries ≠ [])
    (hadd : ∀ e ∈ entries, ∃ j, carries e.2 j ∧ ∀ json, add json e.1 e.2 true = json.pushBack j) :
    entries.foldlM (fun json pair => add json pair.1 pair.2 true) .null =
      entries.foldlM (fun json pair => add json pair.1 pair.2 true) (.array []) := by
  cases entries with
  | nil => exact absurd rfl hne
  | cons e entries =>
    obtain ⟨⟨j, _, hjson⟩, _⟩ := List.forall_mem_cons.mp hadd
    rw [List.foldlM_cons, List.foldlM_cons, hjson, hjson]
    rfl

theorem foldlM_assign_null {entries : List (LuaKey × LuaValue ρ)} (hne : entries ≠ [])
    (hadd : ∀ e ∈ entries, ∃ key j, e.1 = .string key ∧ carries e.2 j ∧
      ∀ json, add json e.1 e.2 false = json.assign key j) :
    entries.foldlM (fun json pair => add json pair.1 pair.2 false) .null =
      entries.foldlM (fun json pair => add json pair.1 pair.2 false) (.object []) := by
  cases entries with
  | nil => exact absurd rfl hne
  | cons e entries =>
    obtain ⟨⟨key, j, _, _, hjson⟩, _⟩ := List.forall_mem_cons.mp hadd
    rw [List.foldlM_cons, List.foldlM_cons, hjson, hjson]
    rfl

end Adding

section Encoding

variable {env : ConversionEnv}

theorem carriesWith_object_of_forall₂ {carries : LuaValue ρ → Json → Prop}
    {fields : List (Bytes × Json)}
    (h : ¬(heap.entries r ≠ [] ∧ isArray (heap.entries r) = true))
    (hfields : List.Forall₂ (fun e f => e.1 = .string f.1 ∧ carries e.2 f.2)
      (heap.entries r) fields) :
    CarriesWith heap carries (.table r) (.object fields) := by
  rw [CarriesWith, if_neg h]
  have hkeys : (heap.entries r).map Prod.fst = fields.map fun f => .string f.1 := by
    rw [← List.forall₂_eq_eq_eq, List.forall₂_map_left_iff, List.forall₂_map_right_iff]
    exact hfields.imp fun _ _ h => h.1
  refine ⟨fields, rfl, ?_, ?_, ?_⟩
  · have hnodup := (heap.isTable r).nodup
    rw [hkeys] at hnodup
    exact List.Nodup.of_map LuaKey.string (by rwa [List.map_map])
  · intro e he
    obtain ⟨f, hf, h⟩ := exists_right_of_forall₂ hfields he
    exact ⟨f, hf, h⟩
  · intro f hf
    obtain ⟨e, he, h⟩ := exists_left_of_forall₂ hfields hf
    exact ⟨e, he, h⟩

theorem carriesWith_encodedNumber (hsol : env.sol.Lawful) {carries : LuaValue ρ → Json → Prop}
    {x : LuaNumber} (hplain : x.IsPlain) (hfinite : ∀ y, x = .float y → y.value.isSome) :
    CarriesWith heap carries (.number x) (encodedNumber env x) := by
  cases x with
  | integer n =>
    rw [encodedNumber, if_pos (hsol.isInt_integer n hplain), hsol.asInt_integer n hplain]
    rfl
  | float y =>
    have hint : ¬env.sol.isInt (.float y) = true := by
      rw [hsol.isInt_of_not_isIntegral hplain]
      exact nofun
    rw [encodedNumber, if_neg hint, hsol.asDouble_float]
    cases y with
    | finite x =>
      cases x with
      | zero => exact ⟨0, 0, rfl, Dyadic.ofIntWithPrec_zero⟩
      | ofOdd mantissa precision hodd =>
        refine ⟨mantissa, -precision, rfl, ?_⟩
        rw [neg_neg, Dyadic.ofOdd_eq_ofIntWithPrec]
    | infinite | nan => exact nomatch hfinite _ rfl

theorem exists_encodedKey_of_isArray {entries : List (LuaKey × LuaValue ρ)}
    (h : isArray entries = true) {e : LuaKey × LuaValue ρ} (he : e ∈ entries) :
    ∃ key, encodedKey env e.1 = some key := by
  rw [isArray, List.all_eq_true] at h
  have hkey := h e he
  cases hk : e.1 with
  | number x =>
    rw [encodedKey]
    split_ifs
    · exact ⟨_, rfl⟩
    · exact ⟨_, rfl⟩
  | string s =>
    rw [hk] at hkey
    exact nomatch hkey
  | other id =>
    rw [hk] at hkey
    exact nomatch hkey

theorem exists_encodedTable_of_add {carries : LuaValue ρ → Json → Prop}
    {add : Json → LuaKey → LuaValue ρ → Bool → Option Json} {r : ρ}
    (hadd : ∀ e ∈ heap.entries r, ∃ j, carries e.2 j ∧
      ∀ key, encodedKey env e.1 = some key → ∀ is_array json,
        add json e.1 e.2 is_array = if is_array then json.pushBack j else json.assign key j)
    (hkeys : isArray (heap.entries r) = true ∨ ∀ e ∈ heap.entries r, ∃ s, e.1 = .string s) :
    ∃ j, encodedTable heap add r = some j ∧ CarriesWith heap carries (.table r) j := by
  by_cases hne : heap.entries r = []
  · refine ⟨.object [], ?_, carriesWith_object_of_forall₂ (fun h => h.1 hne) ?_⟩
    · rw [encodedTable, encodedEntries, hne]
      rfl
    · rw [hne]
      exact .nil
  have hempty : ¬(heap.entries r).isEmpty = true := by
    rw [List.isEmpty_iff]
    exact hne
  rw [encodedTable, encodedEntries, if_neg hempty]
  by_cases harray : isArray (heap.entries r) = true
  · have hpush : ∀ e ∈ heap.entries r, ∃ j, carries e.2 j ∧
        ∀ json, add json e.1 e.2 true = json.pushBack j := by
      intro e he
      obtain ⟨j, hj, hjson⟩ := hadd e he
      obtain ⟨key, hkey⟩ := exists_encodedKey_of_isArray harray he
      exact ⟨j, hj, hjson key hkey true⟩
    obtain ⟨elements, helements, hfold⟩ := foldlM_pushBack _ hpush []
    refine ⟨.array elements, ?_, ?_⟩
    · rw [harray, foldlM_pushBack_null hne hpush, hfold]
      rfl
    · rw [CarriesWith, if_pos ⟨hne, harray⟩]
      exact ⟨elements, rfl, helements⟩
  · have hstrings := hkeys.resolve_left harray
    have hassign : ∀ e ∈ heap.entries r, ∃ key j, e.1 = .string key ∧ carries e.2 j ∧
        ∀ json, add json e.1 e.2 false = json.assign key j := by
      intro e he
      obtain ⟨j, hj, hjson⟩ := hadd e he
      obtain ⟨key, hkey⟩ := hstrings e he
      exact ⟨key, j, hkey, hj, hjson key (by rw [hkey]; rfl) false⟩
    obtain ⟨fields, hfields, hfold⟩ := foldlM_assign _ hassign (heap.isTable r).nodup []
      fun _ h => (nomatch h)
    refine ⟨.object fields, ?_, carriesWith_object_of_forall₂ (fun h => harray h.2) hfields⟩
    rw [Bool.eq_false_iff.mpr harray, foldlM_assign_null hne hassign, hfold]
    rfl

/-- One level: a value is encoded, if what is in a table is added. -/
theorem exists_encodedValue_of_add (hsol : env.sol.Lawful) {Plain : LuaValue ρ → Prop}
    {carries : LuaValue ρ → Json → Prop} {add : Json → LuaKey → LuaValue ρ → Bool → Option Json}
    (hadd : ∀ e : LuaKey × LuaValue ρ, Plain e.2 → e.2 ≠ .nil → ∃ j, carries e.2 j ∧
      ∀ key, encodedKey env e.1 = some key → ∀ is_array json,
        add json e.1 e.2 is_array = if is_array then json.pushBack j else json.assign key j)
    {v : LuaValue ρ} (hv : IsDataWith heap jsonData Plain v) (hnil : v ≠ .nil) :
    ∃ j, encodedValue env (encodedTable heap add) v = some (some j) ∧
      CarriesWith heap carries v j := by
  cases v with
  | nil => exact absurd rfl hnil
  | boolean b => exact ⟨_, rfl, rfl⟩
  | string s => exact ⟨_, rfl, rfl⟩
  | number x => exact ⟨_, rfl, carriesWith_encodedNumber hsol hv.1 hv.2⟩
  | function | thread | userdata => exact absurd hv id
  | table r =>
    obtain ⟨hkeys, hplain⟩ := hv
    have hadd := fun e he => hadd e (hplain e he) ((heap.isTable r).nonnil e he)
    obtain ⟨j, hj, hcarries⟩ :=
      exists_encodedTable_of_add hadd (hkeys.imp_left isArray_of_isSequence)
    exact ⟨j, by rw [encodedValue, hj]; rfl, hcarries⟩

theorem jsonEncodeRecursive_of_encodedValue {levels : ℕ} {left : LuaKey} {right : LuaValue ρ}
    {key : Bytes} {j json : Json} {is_array : Bool} (hkey : encodedKey env left = some key)
    (hvalue : encodedValue env (encodedTable heap (jsonEncodeRecursive env heap levels)) right =
      some (some j)) :
    jsonEncodeRecursive env heap (levels + 1) json left right is_array =
      if is_array then json.pushBack j else json.assign key j := by
  rw [jsonEncodeRecursive, hkey]
  change (do
    match ← encodedValue env (encodedTable heap (jsonEncodeRecursive env heap levels)) right with
    | none => some json
    | some value => if is_array then json.pushBack value else json.assign key value) = _
  rw [hvalue]
  rfl

theorem exists_encodedValue (hsol : env.sol.Lawful) : ∀ (depth : ℕ) {v : LuaValue ρ},
    IsData heap jsonData depth v → v ≠ .nil →
      ∃ j, encodedValue env (encodedTable heap (jsonEncodeRecursive env heap depth)) v =
        some (some j) ∧ Carries heap depth v j := by
  intro depth
  induction depth with
  | zero =>
    intro v hv hnil
    exact exists_encodedValue_of_add hsol (fun _ h => h.elim) hv hnil
  | succ depth ih =>
    intro v hv hnil
    refine exists_encodedValue_of_add hsol (fun e he hne => ?_) hv hnil
    obtain ⟨j, hvalue, hj⟩ := ih he hne
    exact ⟨j, hj, fun key hkey _ _ => jsonEncodeRecursive_of_encodedValue hkey hvalue⟩

end Encoding

section Printing

theorem CarriesWith.of_equalWith {carries : LuaValue ρ → Json → Prop} {equal : Json → Json → Prop}
    (hchild : ∀ v j j', carries v j → equal j j' → carries v j') {v : LuaValue ρ} {j j' : Json}
    (hv : CarriesWith heap carries v j) (hj : Json.EqualWith equal j j') :
    CarriesWith heap carries v j' := by
  cases v with
  | nil | function | thread | userdata => exact absurd hv id
  | boolean b =>
    obtain rfl : j = .bool b := hv
    cases j' with
    | bool b' => exact congrArg Json.bool (Eq.symm hj)
    | _ => exact absurd hj id
  | string s =>
    obtain rfl : j = .string s := hv
    cases j' with
    | string s' => exact congrArg Json.string (Eq.symm hj)
    | _ => exact absurd hj id
  | number x =>
    cases x with
    | integer n =>
      obtain rfl : j = .integer n := hv
      cases j' with
      | integer n' => exact congrArg Json.integer (Eq.symm hj)
      | _ => exact absurd hj id
    | float y =>
      cases y with
      | finite x =>
        obtain ⟨mantissa, exponent, rfl, hx⟩ := hv
        cases j' with
        | float mantissa' exponent' => exact ⟨mantissa', exponent', rfl, hj.symm.trans hx⟩
        | _ => exact absurd hj id
      | infinite | nan => exact absurd hv id
  | table r =>
    by_cases harray : heap.entries r ≠ [] ∧ isArray (heap.entries r) = true
    · rw [CarriesWith, if_pos harray] at hv ⊢
      obtain ⟨elements, rfl, helements⟩ := hv
      cases j' with
      | array elements' =>
        exact ⟨elements', rfl, forall₂_comp (fun e j j' => hchild e.2 j j') helements hj⟩
      | _ => exact absurd hj id
    · rw [CarriesWith, if_neg harray] at hv ⊢
      obtain ⟨fields, rfl, _, hentries, hfields⟩ := hv
      cases j' with
      | object fields' =>
        obtain ⟨hnodup, hto, hfrom⟩ := hj
        refine ⟨fields', rfl, hnodup, fun e he => ?_, fun f' hf' => ?_⟩
        · obtain ⟨f, hf, hkey, hvalue⟩ := hentries e he
          obtain ⟨f', hf', hkey', hequal⟩ := hto f hf
          exact ⟨f', hf', by rw [hkey, hkey'], hchild _ _ _ hvalue hequal⟩
        · obtain ⟨f, hf, hkey', hequal⟩ := hfrom f' hf'
          obtain ⟨e, he, hkey, hvalue⟩ := hfields f hf
          exact ⟨e, he, by rw [hkey, hkey'], hchild _ _ _ hvalue hequal⟩
      | _ => exact absurd hj id

theorem Carries.of_equalTo : ∀ (depth : ℕ) {v : LuaValue ρ} {j j' : Json},
    Carries heap depth v j → j.EqualTo (depth + 1) j' → Carries heap depth v j' := by
  intro depth
  induction depth with
  | zero =>
    intro v j j' hv hj
    exact CarriesWith.of_equalWith (fun _ _ _ h _ => h) hv hj
  | succ depth ih =>
    intro v j j' hv hj
    have hchild : ∀ v j j', Carries heap depth v j → j.EqualTo (depth + 1) j' →
        Carries heap depth v j' := fun _ _ _ => ih
    exact CarriesWith.of_equalWith hchild hv hj

/-- The names that an object cannot have without being lost. -/
def NamesAreUtf8 (entries : List (LuaKey × LuaValue ρ)) : Prop :=
  ∀ e ∈ entries, ∀ s, e.1 = .string s → IsUtf8 s

/-- One level: what is carried is text exactly if its names are. -/
theorem CarriesWith.isText_iff {carries : LuaValue ρ → Json → Prop} {Plain : LuaValue ρ → Prop}
    {names : LuaValue ρ → Prop}
    (hchild : ∀ v j, Plain v → carries v j → (j.IsText ↔ names v)) {v : LuaValue ρ} {j : Json}
    (hplain : IsDataWith heap jsonData Plain v) (hv : CarriesWith heap carries v j) :
    j.IsText ↔ ThroughoutWith heap NamesAreUtf8 names v := by
  cases v with
  | nil | function | thread | userdata => exact absurd hv id
  | boolean b =>
    obtain rfl : j = .bool b := hv
    exact iff_of_true (Json.isText_bool b) trivial
  | string s =>
    obtain rfl : j = .string s := hv
    exact iff_of_true (Json.isText_string.mpr hplain) trivial
  | number x =>
    cases x with
    | integer n =>
      obtain rfl : j = .integer n := hv
      exact iff_of_true (Json.isText_integer n) trivial
    | float y =>
      cases y with
      | finite x =>
        obtain ⟨mantissa, exponent, rfl, _⟩ := hv
        exact iff_of_true (Json.isText_float mantissa exponent) trivial
      | infinite | nan => exact absurd hv id
  | table r =>
    obtain ⟨_, hplain⟩ := hplain
    by_cases harray : heap.entries r ≠ [] ∧ isArray (heap.entries r) = true
    · rw [CarriesWith, if_pos harray] at hv
      obtain ⟨elements, rfl, helements⟩ := hv
      rw [Json.isText_array, ThroughoutWith]
      have hnames : NamesAreUtf8 (heap.entries r) := by
        intro e he s hs
        have hkey := List.all_eq_true.mp harray.2 e he
        rw [hs] at hkey
        cases hkey
      constructor
      · refine fun h => ⟨hnames, fun e he => ?_⟩
        obtain ⟨element, helement, hvalue⟩ := exists_right_of_forall₂ helements he
        exact (hchild _ _ (hplain e he) hvalue).mp (h element helement)
      · rintro ⟨-, h⟩ element helement
        obtain ⟨e, he, hvalue⟩ := exists_left_of_forall₂ helements helement
        exact (hchild _ _ (hplain e he) hvalue).mpr (h e he)
    · rw [CarriesWith, if_neg harray] at hv
      obtain ⟨fields, rfl, _, hentries, hfields⟩ := hv
      rw [Json.isText_object, ThroughoutWith]
      constructor
      · intro h
        refine ⟨fun e he s hs => ?_, fun e he => ?_⟩
        · obtain ⟨f, hf, hkey, _⟩ := hentries e he
          injection hs.symm.trans hkey with hname
          rw [hname]
          exact (h f hf).1
        · obtain ⟨f, hf, _, hvalue⟩ := hentries e he
          exact (hchild _ _ (hplain e he) hvalue).mp (h f hf).2
      · rintro ⟨hnames, h⟩ f hf
        obtain ⟨e, he, hkey, hvalue⟩ := hfields f hf
        exact ⟨hnames e he f.1 hkey, (hchild _ _ (hplain e he) hvalue).mpr (h e he)⟩

theorem Carries.isText_iff : ∀ (depth : ℕ) {v : LuaValue ρ} {j : Json},
    IsData heap jsonData depth v → Carries heap depth v j →
      (j.IsText ↔ Throughout heap NamesAreUtf8 depth v) := by
  intro depth
  induction depth with
  | zero =>
    intro v j hplain hv
    exact CarriesWith.isText_iff (fun _ _ h => h.elim) hplain hv
  | succ depth ih =>
    intro v j hplain hv
    have hchild : ∀ v j, IsData heap jsonData depth v → Carries heap depth v j →
        (j.IsText ↔ Throughout heap NamesAreUtf8 depth v) := fun _ _ => ih
    exact CarriesWith.isText_iff hchild hplain hv

end Printing

end Carrying

section Decoding

variable (sol : Sol)

def decodedValue : Json → LuaShape
  | .null => .nil
  | .object fields => .table (decodeFields sol {} fields).read
  | .array elements => .table (decodeElements sol {} elements).read
  | .string s => .string s
  | .bool b => .boolean b
  | .integer n => .number (.integer n)
  | .float mantissa exponent => .number (.float (.finite (.ofIntWithPrec mantissa (-exponent))))

theorem jsonDecodeRecursive_eq (table : DecodedTable) (left : Bytes) (j : Json) :
    jsonDecodeRecursive sol table left j = table.addToTable sol left (decodedValue sol j) := by
  cases j with
  | _ => rw [jsonDecodeRecursive, decodedValue]

variable {sol}

theorem DecodedTable.read_integer (table : DecodedTable) (i : ℕ) :
    table.read (.number (.integer ((i + 1 : ℕ) : ℤ))) = table.elements[i]? := by
  rw [read, if_pos (by omega), Int.toNat_natCast, Nat.add_sub_cancel]

theorem DecodedTable.exists_of_read_eq_some {table : DecodedTable} {k : LuaKey} {s : LuaShape}
    (h : table.read k = some s) :
    (∃ i, k = .number (.integer ((i + 1 : ℕ) : ℤ)) ∧ table.elements[i]? = some s) ∨
      ∃ name, k = .string name ∧ table.members name = some s := by
  cases k with
  | string name => exact .inr ⟨name, rfl, h⟩
  | other id => exact nomatch h
  | number x =>
    cases x with
    | float y => exact nomatch h
    | integer n =>
      rw [read] at h
      split_ifs at h with hn
      refine .inl ⟨n.toNat - 1, ?_, h⟩
      rw [Nat.sub_add_cancel (by omega), Int.toNat_of_nonneg (by omega)]

theorem decodeElements_eq (elements : List Json) : ∀ table : DecodedTable,
    decodeElements sol table elements = { table with
      elements :=
        table.elements ++ elements.flatMap fun j => (decodedValue sol j).entry.toList } := by
  induction elements with
  | nil =>
    intro table
    rw [decodeElements, List.flatMap_nil, List.append_nil]
  | cons j elements ih =>
    intro table
    rw [decodeElements, jsonDecodeRecursive_eq, ih, DecodedTable.addToTable, if_pos rfl,
      List.flatMap_cons, List.append_assoc]

theorem decodeFields_members_of_ne {name : Bytes} (fields : List (Bytes × Json)) :
    ∀ table : DecodedTable, (∀ f ∈ fields, f.1 = [] ∨ sol.storedKey f.1 ≠ name) →
      (decodeFields sol table fields).members name = table.members name := by
  induction fields with
  | nil =>
    intro table _
    rw [decodeFields]
  | cons f fields ih =>
    intro table hne
    obtain ⟨hhead, htail⟩ := List.forall_mem_cons.mp hne
    rw [decodeFields, jsonDecodeRecursive_eq, ih _ htail, DecodedTable.addToTable]
    split_ifs with hempty
    · rfl
    · exact Function.update_of_ne (hhead.resolve_left hempty).symm _ _

theorem decodeFields_members_of_mem {name : Bytes} {j : Json} (hname : name ≠ [])
    (fields : List (Bytes × Json)) : ∀ table : DecodedTable, (fields.map Prod.fst).Nodup →
      (∀ f ∈ fields, sol.storedKey f.1 = f.1) → (name, j) ∈ fields →
        (decodeFields sol table fields).members name = (decodedValue sol j).entry := by
  induction fields with
  | nil => exact fun _ _ _ h => (nomatch h)
  | cons f fields ih =>
    intro table hnodup hstored hmem
    obtain ⟨hfirst, hnodup⟩ := List.nodup_cons.mp hnodup
    obtain ⟨hhead, htail⟩ := List.forall_mem_cons.mp hstored
    rw [decodeFields, jsonDecodeRecursive_eq]
    rcases List.mem_cons.mp hmem with rfl | hmem
    · rw [decodeFields_members_of_ne]
      · rw [DecodedTable.addToTable, if_neg hname, hhead]
        exact Function.update_self _ _ _
      · intro f hf
        rw [htail f hf]
        exact .inr fun heq => hfirst (List.mem_map.mpr ⟨f, hf, heq⟩)
    · exact ih _ hnodup htail hmem

theorem decodeFields_elements (fields : List (Bytes × Json)) : ∀ table : DecodedTable,
    (∀ f ∈ fields, f.1 ≠ []) → (decodeFields sol table fields).elements = table.elements := by
  induction fields with
  | nil =>
    intro table _
    rw [decodeFields]
  | cons f fields ih =>
    intro table hne
    obtain ⟨hhead, htail⟩ := List.forall_mem_cons.mp hne
    rw [decodeFields, jsonDecodeRecursive_eq, ih _ htail, DecodedTable.addToTable, if_neg hhead]

/-- A table as it is decoded from such values: no name in it goes on after a NUL. -/
structure DecodedTable.From (sol : Sol) (P : Json → Prop) (table : DecodedTable) : Prop where
  element : ∀ s ∈ table.elements, ∃ j, P j ∧ s = decodedValue sol j
  member : ∀ name s, table.members name = some s →
    (0 : UInt8) ∉ name ∧ ∃ j, P j ∧ s = decodedValue sol j

section FromValues

variable {P : Json → Prop}

theorem DecodedTable.From.empty : From sol P {} :=
  ⟨nofun, nofun⟩

theorem DecodedTable.From.addToTable (hsol : sol.Lawful) {table : DecodedTable}
    (h : table.From sol P) (left : Bytes) {j : Json} (hj : P j) :
    (table.addToTable sol left (decodedValue sol j)).From sol P := by
  rw [DecodedTable.addToTable]
  split_ifs with hleft
  · refine ⟨fun s hs => ?_, h.member⟩
    rcases List.mem_append.mp hs with hs | hs
    · exact h.element s hs
    · rw [Option.mem_toList] at hs
      exact ⟨j, hj, (LuaShape.entry_eq_some_iff.mp hs).1.symm⟩
  · refine ⟨h.element, fun name s hs => ?_⟩
    by_cases hname : name = sol.storedKey left
    · subst hname
      have hvalue : Function.update table.members (sol.storedKey left) (decodedValue sol j).entry
        (sol.storedKey left) = some s := hs
      rw [Function.update_self, LuaShape.entry_eq_some_iff] at hvalue
      exact ⟨hsol.zero_notMem_storedKey left, j, hj, hvalue.1.symm⟩
    · exact h.member name s ((Function.update_of_ne hname _ _).symm.trans hs)

theorem DecodedTable.From.decodeFields (hsol : sol.Lawful) (fields : List (Bytes × Json)) :
    ∀ table : DecodedTable, table.From sol P → (∀ f ∈ fields, P f.2) →
      (decodeFields sol table fields).From sol P := by
  induction fields with
  | nil =>
    intro table h _
    rwa [BeamMP.decodeFields]
  | cons f fields ih =>
    intro table h hfields
    obtain ⟨hf, hfields⟩ := List.forall_mem_cons.mp hfields
    rw [BeamMP.decodeFields, jsonDecodeRecursive_eq]
    exact ih _ (h.addToTable hsol f.1 hf) hfields

theorem DecodedTable.From.decodeElements (hsol : sol.Lawful) (elements : List Json) :
    ∀ table : DecodedTable, table.From sol P → (∀ j ∈ elements, P j) →
      (decodeElements sol table elements).From sol P := by
  induction elements with
  | nil =>
    intro table h _
    rwa [BeamMP.decodeElements]
  | cons j elements ih =>
    intro table h helements
    obtain ⟨hj, helements⟩ := List.forall_mem_cons.mp helements
    rw [BeamMP.decodeElements, jsonDecodeRecursive_eq]
    exact ih _ (h.addToTable hsol [] hj) helements

/-- The values in an array or an object. -/
def Json.parts : Json → List Json
  | .array elements => elements
  | .object fields => fields.map Prod.snd
  | _ => []

theorem decodedValue_eq_table (hsol : sol.Lawful) {j : Json} (hj : ∀ part ∈ j.parts, P part)
    {g : LuaKey → Option LuaShape} (h : decodedValue sol j = .table g) {k : LuaKey} {s : LuaShape}
    (hk : g k = some s) :
    (∀ name, k = .string name → (0 : UInt8) ∉ name) ∧ ∃ j', P j' ∧ s = decodedValue sol j' := by
  obtain ⟨table, htable, rfl⟩ : ∃ table : DecodedTable, table.From sol P ∧ table.read = g := by
    cases j with
    | object fields =>
      injection h with h
      rw [Json.parts, List.forall_mem_map] at hj
      exact ⟨_, .decodeFields hsol fields _ .empty hj, h⟩
    | array elements =>
      injection h with h
      exact ⟨_, .decodeElements hsol elements _ .empty hj, h⟩
    | _ => exact nomatch h
  rcases table.exists_of_read_eq_some hk with ⟨i, rfl, hi⟩ | ⟨name, rfl, hname⟩
  · exact ⟨nofun, htable.element s (List.mem_of_getElem? hi)⟩
  · obtain ⟨hzero, hvalue⟩ := htable.member name s hname
    refine ⟨fun name' heq => ?_, hvalue⟩
    injection heq with heq
    rwa [← heq]

end FromValues

end Decoding

section Renumbering

variable {ρ : Type}

/-- The entries of an array with the indices in order of iteration. -/
def renumber (entries : List (LuaKey × LuaValue ρ)) : List (LuaKey × LuaValue ρ) :=
  if isArray entries then
    entries.mapIdx fun i e => (.number (.integer ((i + 1 : ℕ) : ℤ)), e.2)
  else entries

theorem mem_renumber_of_isArray {entries : List (LuaKey × LuaValue ρ)}
    (h : isArray entries = true) {e : LuaKey × LuaValue ρ} :
    e ∈ renumber entries ↔ ∃ i, e.1 = .number (.integer ((i + 1 : ℕ) : ℤ)) ∧
      (entries.map Prod.snd)[i]? = some e.2 := by
  rw [renumber, if_pos h, List.mem_iff_getElem?]
  refine exists_congr fun i => ?_
  rw [List.getElem?_mapIdx, List.getElem?_map, Option.map_eq_some_iff, Option.map_eq_some_iff]
  constructor
  · rintro ⟨e', he', rfl⟩
    exact ⟨rfl, e', he', rfl⟩
  · rintro ⟨hkey, e', he', hvalue⟩
    exact ⟨e', he', Prod.ext hkey.symm hvalue⟩

theorem renumber_of_not {entries : List (LuaKey × LuaValue ρ)}
    (h : ¬(entries ≠ [] ∧ isArray entries = true)) : renumber entries = entries := by
  by_cases hne : entries = []
  · rw [hne]
    rfl
  · rw [renumber, if_neg fun harray => h ⟨hne, harray⟩]

theorem keys_renumber_of_isArray {entries : List (LuaKey × LuaValue ρ)}
    (h : isArray entries = true) : (renumber entries).map Prod.fst =
      (List.range entries.length).map fun i => .number (.integer ((i + 1 : ℕ) : ℤ)) := by
  rw [renumber, if_pos h]
  apply List.ext_getElem
  · rw [List.length_map, List.length_mapIdx, List.length_map, List.length_range]
  · intro i _ _
    rw [List.getElem_map, List.getElem_mapIdx, List.getElem_map, List.getElem_range]

theorem isLuaTable_renumber {entries : List (LuaKey × LuaValue ρ)} (h : IsLuaTable entries) :
    IsLuaTable (renumber entries) := by
  by_cases harray : isArray entries = true
  · constructor
    · rw [keys_renumber_of_isArray harray]
      refine List.Nodup.map (fun i j hij => ?_) List.nodup_range
      injection hij with hij
      injection hij with hij
      omega
    · intro e he
      obtain ⟨i, _, hi⟩ := (mem_renumber_of_isArray harray).mp he
      obtain ⟨e', he', hvalue⟩ := List.mem_map.mp (List.mem_of_getElem? hi)
      rw [← hvalue]
      exact h.nonnil e' he'
  · rwa [renumber, if_neg harray]

/-- The tables, with the entries of arrays numbered in the order of iteration. -/
def LuaHeap.renumbered (heap : LuaHeap ρ) : LuaHeap ρ where
  entries r := renumber (heap.entries r)
  isTable r := isLuaTable_renumber (heap.isTable r)

variable {heap : LuaHeap ρ} {r : ρ}

def NamesNonempty (entries : List (LuaKey × LuaValue ρ)) : Prop :=
  ∀ e ∈ entries, ∀ s, e.1 = .string s → s ≠ []

/-- Names under which `AddToTable` sets a value. -/
def NamesKept (entries : List (LuaKey × LuaValue ρ)) : Prop :=
  NamesNonempty entries ∧ KeysAreCStrings entries

section Tables

variable {sol : Sol} {carries : LuaValue ρ → Json → Prop}
  {childShape : LuaValue ρ → Option LuaShape}

theorem shapeWith_renumbered_array (harray : isArray (heap.entries r) = true)
    (hshape : ∀ e ∈ heap.entries r, ∀ j, carries e.2 j →
      childShape e.2 = some (decodedValue sol j) ∧
        (decodedValue sol j).entry = some (decodedValue sol j))
    {elements : List Json}
    (helements : List.Forall₂ (fun e j => carries e.2 j) (heap.entries r) elements) :
    shapeWith heap.renumbered childShape (.table r) =
      some (decodedValue sol (.array elements)) := by
  have hdecoded : (elements.flatMap fun j => (decodedValue sol j).entry.toList) =
      elements.map (decodedValue sol) := by
    rw [← List.flatMap_pure_eq_map]
    apply List.flatMap_congr
    intro j hj
    obtain ⟨e, he, hcarries⟩ := exists_left_of_forall₂ helements hj
    rw [(hshape e he j hcarries).2]
    rfl
  rw [decodedValue, shapeWith_table_iff, decodeElements_eq, hdecoded, List.nil_append]
  change (∀ e ∈ renumber (heap.entries r), _) ∧ ∀ k, k ∉ (renumber (heap.entries r)).map _ → _
  constructor
  · intro e he
    obtain ⟨i, hkey, hi⟩ := (mem_renumber_of_isArray harray).mp he
    rw [List.getElem?_map, Option.map_eq_some_iff] at hi
    obtain ⟨e', he', hvalue⟩ := hi
    obtain ⟨j, hj, hcarries⟩ := getElem?_of_forall₂ helements he'
    rw [← hvalue, hkey, DecodedTable.read_integer, List.getElem?_map, hj]
    exact ⟨_, (hshape e' (List.mem_of_getElem? he') j hcarries).1, rfl⟩
  · intro k hk
    rw [Option.eq_none_iff_forall_ne_some]
    intro s hs
    rcases DecodedTable.exists_of_read_eq_some hs with ⟨i, rfl, hi⟩ | ⟨name, _, hname⟩
    · rw [keys_renumber_of_isArray harray, helements.length_eq] at hk
      obtain ⟨hlt, _⟩ := List.getElem?_eq_some_iff.mp hi
      rw [List.length_map] at hlt
      exact hk (List.mem_map.mpr ⟨i, List.mem_range.mpr hlt, rfl⟩)
    · cases hname

/-- A table of strings comes back, unless one of them is empty or contains a NUL. -/
theorem shapeWith_renumbered_object (hsol : sol.Lawful)
    (harray : ¬(heap.entries r ≠ [] ∧ isArray (heap.entries r) = true))
    (hshape : ∀ e ∈ heap.entries r, ∀ j, carries e.2 j →
      childShape e.2 = some (decodedValue sol j) ∧
        (decodedValue sol j).entry = some (decodedValue sol j))
    {fields : List (Bytes × Json)} (hnodup : (fields.map Prod.fst).Nodup)
    (hfield : ∀ f ∈ fields, f.1 ≠ [] ∧ (0 : UInt8) ∉ f.1)
    (hentries : ∀ e ∈ heap.entries r, ∃ f ∈ fields, e.1 = .string f.1 ∧ carries e.2 f.2)
    (hfields : ∀ f ∈ fields, ∃ e ∈ heap.entries r, e.1 = .string f.1 ∧ carries e.2 f.2) :
    shapeWith heap.renumbered childShape (.table r) = some (decodedValue sol (.object fields)) := by
  have hstored : ∀ f ∈ fields, sol.storedKey f.1 = f.1 :=
    fun f hf => hsol.storedKey_eq_self (hfield f hf).2
  rw [decodedValue, shapeWith_table_iff]
  change (∀ e ∈ renumber (heap.entries r), _) ∧ ∀ k, k ∉ (renumber (heap.entries r)).map _ → _
  rw [renumber_of_not harray]
  constructor
  · intro e he
    obtain ⟨f, hf, hkey, hcarries⟩ := hentries e he
    obtain ⟨hs, hentry⟩ := hshape e he f.2 hcarries
    refine ⟨_, hs, ?_⟩
    rw [hkey, ← hentry]
    exact decodeFields_members_of_mem (hfield f hf).1 fields {} hnodup hstored hf
  · intro k hk
    rw [Option.eq_none_iff_forall_ne_some]
    intro s hs
    rcases DecodedTable.exists_of_read_eq_some hs with ⟨i, _, hi⟩ | ⟨name, rfl, hname⟩
    · rw [decodeFields_elements fields {} fun f hf => (hfield f hf).1] at hi
      cases hi
    · rw [decodeFields_members_of_ne] at hname
      · cases hname
      · intro f hf
        rw [hstored f hf]
        right
        rintro rfl
        obtain ⟨e, he, hkey, _⟩ := hfields f hf
        exact hk (List.mem_map.mpr ⟨e, he, hkey⟩)

/-- One level: with names that are kept, what comes back is numbered anew. -/
theorem CarriesWith.shapeWith_renumbered (hsol : sol.Lawful) {names : LuaValue ρ → Prop}
    (hnil : ∀ v, childShape v = some .nil → v = .nil)
    (hchild : ∀ v j, carries v j → names v → childShape v = some (decodedValue sol j))
    {v : LuaValue ρ} {j : Json} (hv : CarriesWith heap carries v j)
    (hnames : ThroughoutWith heap NamesKept names v) :
    shapeWith heap.renumbered childShape v = some (decodedValue sol j) := by
  cases v with
  | nil | function | thread | userdata => exact absurd hv id
  | boolean b =>
    obtain rfl : j = .bool b := hv
    rfl
  | string s =>
    obtain rfl : j = .string s := hv
    rfl
  | number x =>
    cases x with
    | integer n =>
      obtain rfl : j = .integer n := hv
      rfl
    | float y =>
      cases y with
      | finite x =>
        obtain ⟨mantissa, exponent, rfl, rfl⟩ := hv
        rfl
      | infinite | nan => exact absurd hv id
  | table r =>
    obtain ⟨hkept, hnames⟩ := hnames
    have hshape : ∀ e ∈ heap.entries r, ∀ j, carries e.2 j →
        childShape e.2 = some (decodedValue sol j) ∧
          (decodedValue sol j).entry = some (decodedValue sol j) := by
      intro e he j hj
      have hs := hchild e.2 j hj (hnames e he)
      exact ⟨hs, entry_eq_some_of_mem hnil he hs⟩
    by_cases harray : heap.entries r ≠ [] ∧ isArray (heap.entries r) = true
    · rw [CarriesWith, if_pos harray] at hv
      obtain ⟨elements, rfl, helements⟩ := hv
      exact shapeWith_renumbered_array harray.2 hshape helements
    · rw [CarriesWith, if_neg harray] at hv
      obtain ⟨fields, rfl, hnodup, hentries, hfields⟩ := hv
      have hfield : ∀ f ∈ fields, f.1 ≠ [] ∧ (0 : UInt8) ∉ f.1 := by
        intro f hf
        obtain ⟨e, he, hkey, _⟩ := hfields f hf
        exact ⟨hkept.1 e he f.1 hkey, hkept.2 e he f.1 hkey⟩
      exact shapeWith_renumbered_object hsol harray hshape hnodup hfield hentries hfields

end Tables

section Levels

variable {sol : Sol}

theorem shape_eq_nil {depth : ℕ} {v : LuaValue ρ} (h : shape heap depth v = some .nil) :
    v = .nil := by
  cases depth with
  | zero => exact shapeWith_eq_nil_iff.mp h
  | succ depth => exact shapeWith_eq_nil_iff.mp h

theorem Carries.shape_renumbered (hsol : sol.Lawful) : ∀ (depth : ℕ) {v : LuaValue ρ} {j : Json},
    Carries heap depth v j → Throughout heap NamesKept depth v →
      shape heap.renumbered depth v = some (decodedValue sol j) := by
  intro depth
  induction depth with
  | zero =>
    intro v j hv hnames
    have hnil : ∀ v : LuaValue ρ, (none : Option LuaShape) = some .nil → v = .nil := nofun
    have hchild : ∀ (v : LuaValue ρ) (j : Json), False → True →
        none = some (decodedValue sol j) := nofun
    exact CarriesWith.shapeWith_renumbered hsol hnil hchild hv hnames
  | succ depth ih =>
    intro v j hv hnames
    have hchild : ∀ v j, Carries heap depth v j → Throughout heap NamesKept depth v →
        shape heap.renumbered depth v = some (decodedValue sol j) := fun _ _ => ih
    exact CarriesWith.shapeWith_renumbered hsol (fun _ => shape_eq_nil) hchild hv hnames

theorem shapeWith_ne_decodedValue (hsol : sol.Lawful) {names : LuaValue ρ → Prop}
    {childShape : LuaValue ρ → Option LuaShape}
    (hchild : ∀ v, ¬names v → ∀ j, childShape v ≠ some (decodedValue sol j)) {v : LuaValue ρ}
    (hv : ¬ThroughoutWith heap KeysAreCStrings names v) (j : Json) :
    shapeWith heap childShape v ≠ some (decodedValue sol j) := by
  intro h
  cases v with
  | table r =>
    have hj := (shapeWith_table_eq_some_iff.mp h).2
    rw [hj] at h
    obtain ⟨hentries, _⟩ := shapeWith_table_iff.mp h
    have hparts : ∀ part ∈ j.parts, True := fun _ _ => trivial
    refine hv ⟨fun e he name hname => ?_, fun e he => ?_⟩
    · obtain ⟨s, _, hread⟩ := hentries e he
      exact (decodedValue_eq_table hsol hparts hj hread).1 name hname
    · obtain ⟨s, hs, hread⟩ := hentries e he
      obtain ⟨_, j', _, rfl⟩ := decodedValue_eq_table hsol hparts hj hread
      exact Classical.byContradiction fun hnames => hchild e.2 hnames j' hs
  | _ => exact hv trivial

theorem shape_ne_decodedValue (hsol : sol.Lawful) : ∀ (depth : ℕ) {v : LuaValue ρ},
    ¬Throughout heap KeysAreCStrings depth v →
      ∀ j, shape heap depth v ≠ some (decodedValue sol j) := by
  intro depth
  induction depth with
  | zero =>
    intro v hv
    have hchild : ∀ v : LuaValue ρ, ¬True → ∀ j, none ≠ some (decodedValue sol j) :=
      fun _ _ _ => nofun
    exact shapeWith_ne_decodedValue hsol hchild hv
  | succ depth ih =>
    intro v hv
    exact shapeWith_ne_decodedValue hsol (fun _ h => ih h) hv

theorem CarriesWith.exists_of_part {carries : LuaValue ρ → Json → Prop} {v : LuaValue ρ} {j : Json}
    (hv : CarriesWith heap carries v j) {part : Json} (hpart : part ∈ j.parts) :
    ∃ r, v = .table r ∧ ∃ e ∈ heap.entries r, carries e.2 part := by
  cases v with
  | table r =>
    refine ⟨r, rfl, ?_⟩
    by_cases harray : heap.entries r ≠ [] ∧ isArray (heap.entries r) = true
    · rw [CarriesWith, if_pos harray] at hv
      obtain ⟨elements, rfl, helements⟩ := hv
      exact exists_left_of_forall₂ helements hpart
    · rw [CarriesWith, if_neg harray] at hv
      obtain ⟨fields, rfl, _, _, hfields⟩ := hv
      obtain ⟨f, hf, rfl⟩ := List.mem_map.mp hpart
      obtain ⟨e, he, _, hvalue⟩ := hfields f hf
      exact ⟨e, he, hvalue⟩
  | number x =>
    cases x with
    | integer n =>
      obtain rfl : j = .integer n := hv
      exact nomatch hpart
    | float y =>
      cases y with
      | finite x =>
        obtain ⟨mantissa, exponent, rfl, _⟩ := hv
        exact nomatch hpart
      | infinite | nan => exact absurd hv id
  | boolean b =>
    obtain rfl : j = .bool b := hv
    exact nomatch hpart
  | string s =>
    obtain rfl : j = .string s := hv
    exact nomatch hpart
  | nil | function | thread | userdata => exact absurd hv id

/-- Nothing comes back under the empty name, if no name in what is carried contains a NUL. -/
theorem CarriesWith.read_emptyName (hsol : sol.Lawful) {carries : LuaValue ρ → Json → Prop}
    {names : LuaValue ρ → Prop} {v : LuaValue ρ} {j : Json} (hv : CarriesWith heap carries v j)
    (hnames : ThroughoutWith heap KeysAreCStrings names v) {g : LuaKey → Option LuaShape}
    (h : decodedValue sol j = .table g) : g (.string []) = none := by
  cases j with
  | array elements =>
    injection h with h
    rw [← h, decodeElements_eq]
    rfl
  | object fields =>
    injection h with h
    rw [← h]
    have hstored : ∀ f ∈ fields, f.1 = [] ∨ sol.storedKey f.1 ≠ [] := by
      intro f hf
      obtain ⟨r, rfl, _⟩ := hv.exists_of_part (List.mem_map.mpr ⟨f, hf, rfl⟩)
      rw [CarriesWith] at hv
      split_ifs at hv
      · obtain ⟨_, hj, _⟩ := hv
        exact nomatch hj
      · obtain ⟨_, hj, _, _, hfields⟩ := hv
        injection hj with hj
        subst hj
        obtain ⟨e, he, hkey, _⟩ := hfields f hf
        rw [hsol.storedKey_eq_self (hnames.1 e he f.1 hkey)]
        exact Classical.em _
    exact decodeFields_members_of_ne fields {} hstored
  | _ => exact nomatch h

/-- One level: what comes back from values without a NUL in a name has no empty name. -/
theorem namesNonempty_of_shapeWith (hsol : sol.Lawful) {carries : LuaValue ρ → Json → Prop}
    {childShape : LuaValue ρ → Option LuaShape} {names nonempty : LuaValue ρ → Prop}
    (hchild : ∀ v w j, carries w j → names w → childShape v = some (decodedValue sol j) →
      nonempty v) {v w : LuaValue ρ} {j : Json} (hw : CarriesWith heap carries w j)
    (hnames : ThroughoutWith heap KeysAreCStrings names w)
    (h : shapeWith heap childShape v = some (decodedValue sol j)) :
    ThroughoutWith heap NamesNonempty nonempty v := by
  cases v with
  | table r =>
    have hj := (shapeWith_table_eq_some_iff.mp h).2
    rw [hj] at h
    obtain ⟨hentries, _⟩ := shapeWith_table_iff.mp h
    have hparts : ∀ part ∈ j.parts, ∃ w', carries w' part ∧ names w' := by
      intro part hpart
      obtain ⟨r', rfl, e, he, hcarries⟩ := hw.exists_of_part hpart
      exact ⟨e.2, hcarries, hnames.2 e he⟩
    refine ⟨fun e he name hname hempty => ?_, fun e he => ?_⟩
    · obtain ⟨s, _, hread⟩ := hentries e he
      rw [hname, hempty, hw.read_emptyName hsol hnames hj] at hread
      exact nomatch hread
    · obtain ⟨s, hs, hread⟩ := hentries e he
      obtain ⟨_, j', ⟨w', hcarries, hw'⟩, rfl⟩ := decodedValue_eq_table hsol hparts hj hread
      exact hchild e.2 w' j' hcarries hw' hs
  | _ => trivial

theorem namesNonempty_of_shape (hsol : sol.Lawful) : ∀ (depth : ℕ) {v w : LuaValue ρ} {j : Json},
    Carries heap depth w j → Throughout heap KeysAreCStrings depth w →
      shape heap depth v = some (decodedValue sol j) → Throughout heap NamesNonempty depth v := by
  intro depth
  induction depth with
  | zero =>
    intro v w j hw hnames h
    exact namesNonempty_of_shapeWith hsol (fun _ _ _ _ _ _ => trivial) hw hnames h
  | succ depth ih =>
    intro v w j hw hnames h
    have hchild : ∀ v w j, Carries heap depth w j → Throughout heap KeysAreCStrings depth w →
        shape heap depth v = some (decodedValue sol j) → Throughout heap NamesNonempty depth v :=
      fun _ _ _ => ih
    exact namesNonempty_of_shapeWith hsol hchild hw hnames h

end Levels

/-- Arrays that are visited in the order of their indices stay as they are. -/
theorem LuaHeap.renumbered_eq_self (h : ∀ r, isArray (heap.entries r) = true →
    (heap.entries r).map Prod.fst =
      (List.range (heap.entries r).length).map fun i => .number (.integer ((i + 1 : ℕ) : ℤ))) :
    heap.renumbered = heap := by
  ext1
  funext r
  change renumber (heap.entries r) = heap.entries r
  by_cases harray : isArray (heap.entries r) = true
  · have hkeys := (keys_renumber_of_isArray harray).trans (h r harray).symm
    have hvalues : (renumber (heap.entries r)).map Prod.snd = (heap.entries r).map Prod.snd := by
      rw [renumber, if_pos harray]
      apply List.ext_getElem
      · rw [List.length_map, List.length_mapIdx, List.length_map]
      · intro i _ _
        rw [List.getElem_map, List.getElem_mapIdx, List.getElem_map]
    have hzip : ∀ l : List (LuaKey × LuaValue ρ),
        l = (l.map Prod.fst).zip (l.map Prod.snd) := by
      intro l
      rw [← List.unzip_fst, ← List.unzip_snd, List.zip_unzip]
    rw [hzip (renumber _), hkeys, hvalues, ← hzip]
  · rw [renumber, if_neg harray]

end Renumbering

section RoundTrip

variable {ρ : Type}

/-- A name that an object carries, and under which the value comes back. -/
def NamesCarried (entries : List (LuaKey × LuaValue ρ)) : Prop :=
  NamesKept entries ∧ NamesAreUtf8 entries

theorem namesCarried_of_ne_string {entries : List (LuaKey × LuaValue ρ)}
    (h : ∀ e ∈ entries, ∀ s, e.1 ≠ .string s) : NamesCarried entries :=
  ⟨⟨fun e he s hs => absurd hs (h e he s), fun e he s hs => absurd hs (h e he s)⟩,
    fun e he s hs => absurd hs (h e he s)⟩

theorem namesCarried_singleton {key : Bytes} {v : LuaValue ρ} (hne : key ≠ []) (hzero : 0 ∉ key)
    (hutf8 : IsUtf8 key) : NamesCarried [(.string key, v)] := by
  have hkey : ∀ e ∈ [((.string key : LuaKey), v)], ∀ s, e.1 = .string s → key = s := by
    intro e he s hs
    rw [List.mem_singleton.mp he] at hs
    injection hs
  exact ⟨⟨fun e he s hs => hkey e he s hs ▸ hne, fun e he s hs => hkey e he s hs ▸ hzero⟩,
    fun e he s hs => hkey e he s hs ▸ hutf8⟩

/-- `JsonDecode` undoes `JsonEncode`. -/
def RoundTrips (env : ConversionEnv) (heap : LuaHeap ρ) (object : ρ) : Prop :=
  ∃ str table, jsonEncode env heap (heap.entries object) = some str ∧
    jsonDecode env.sol env.text str = some table ∧
      shape heap 101 (.table object) = some (.table table.read)

variable {env : ConversionEnv} {heap : LuaHeap ρ}

theorem exists_jsonDecode_iff {sol : Sol} {text : JsonText} {str : Bytes} {j : Json}
    (h : text.parse str = some j) {g : LuaKey → Option LuaShape} :
    (∃ table, jsonDecode sol text str = some table ∧ table.read = g) ↔
      decodedValue sol j = .table g := by
  rw [jsonDecode, h]
  cases j with
  | object fields =>
    refine ⟨fun ⟨table, htable, hg⟩ => ?_, fun hg => ⟨_, rfl, by injection hg⟩⟩
    rw [← hg, ← Option.some.inj htable]
    rfl
  | array elements =>
    refine ⟨fun ⟨table, htable, hg⟩ => ?_, fun hg => ⟨_, rfl, by injection hg⟩⟩
    rw [← hg, ← Option.some.inj htable]
    rfl
  | _ => exact ⟨fun ⟨_, h, _⟩ => (nomatch h), nofun⟩

/-- A table comes back exactly if its names are texts, not empty and without a NUL, and its
sequences stay as they are when they are numbered in the order in which they are visited. -/
theorem roundTrips_iff (hsol : env.sol.Lawful) {object : ρ}
    (hdata : IsData heap jsonData 101 (.table object))
    (hjson : ∀ j, encodedTable heap (jsonEncodeRecursive env heap 101) object = some j →
      env.text.Inverts j) :
    RoundTrips env heap object ↔ Throughout heap NamesCarried 101 (.table object) ∧
      shape heap.renumbered 101 (.table object) = shape heap 101 (.table object) := by
  obtain ⟨j, hvalue, hcarries⟩ := exists_encodedValue hsol 101 hdata nofun
  have hencoded : encodedTable heap (jsonEncodeRecursive env heap 101) object = some j := by
    obtain ⟨j', hj', heq⟩ := Option.map_eq_some_iff.mp hvalue
    rw [hj', Option.some.inj heq]
  obtain ⟨hdump, hparse⟩ := hjson j hencoded
  have hencode : jsonEncode env heap (heap.entries object) = env.text.dump j := by
    rw [jsonEncode, ← encodedTable, hencoded]
    rfl
  have hutf8 := hdump.trans (hcarries.isText_iff 101 hdata)
  have hnames : Throughout heap NamesCarried 101 (.table object) ↔
      Throughout heap NamesKept 101 (.table object) ∧
        Throughout heap NamesAreUtf8 101 (.table object) := throughout_and 101
  rw [hnames, RoundTrips, hencode]
  constructor
  · rintro ⟨str, table, hstr, htable, hshape⟩
    obtain ⟨j', hparsed, hequal⟩ := hparse str hstr
    rw [← (exists_jsonDecode_iff hparsed).mp ⟨table, htable, rfl⟩] at hshape
    have hcarries' := hcarries.of_equalTo 101 (hequal 102)
    have hstrings : Throughout heap KeysAreCStrings 101 (.table object) :=
      Classical.byContradiction fun h => shape_ne_decodedValue hsol 101 h j' hshape
    have hkept : Throughout heap NamesKept 101 (.table object) :=
      (throughout_and 101).mpr ⟨namesNonempty_of_shape hsol 101 hcarries' hstrings hshape, hstrings⟩
    refine ⟨⟨hkept, hutf8.mp (Option.isSome_iff_exists.mpr ⟨str, hstr⟩)⟩, ?_⟩
    rw [hcarries'.shape_renumbered hsol 101 hkept, hshape]
  · rintro ⟨⟨hkept, hnames⟩, hshape⟩
    obtain ⟨str, hstr⟩ := Option.isSome_iff_exists.mp (hutf8.mpr hnames)
    obtain ⟨j', hparsed, hequal⟩ := hparse str hstr
    rw [(hcarries.of_equalTo 101 (hequal 102)).shape_renumbered hsol 101 hkept] at hshape
    obtain ⟨_, hg⟩ := shapeWith_table_eq_some_iff.mp hshape.symm
    obtain ⟨table, htable, hread⟩ := (exists_jsonDecode_iff hparsed).mpr hg
    exact ⟨str, table, hstr, htable, by rw [← hshape, hg, hread]⟩

def nestedTable : LuaHeap Bool where
  entries
    | true => [(.string (ascii "a"), .table false)]
    | false => [(.number (.integer 1), .boolean true)]
  isTable
    | true => ⟨List.nodup_singleton _, by simp⟩
    | false => ⟨List.nodup_singleton _, by simp⟩

/-- The JSON library on the object of `nestedTable`. -/
def nestedText : JsonText where
  parse str :=
    if str = ascii "\x7b\"a\":[true]\x7d" then
      some (.object [(ascii "a", .array [.bool true])])
    else none
  dump
    | .object [([97], .array [.bool true])] => some (ascii "\x7b\"a\":[true]\x7d")
    | _ => none

theorem roundTrips_nested :
    RoundTrips { sol := .checked, doubleToString := fun _ => [], text := nestedText } nestedTable
      true := by
  have hname : IsUtf8 (ascii "a") := ⟨['a'], rfl⟩
  have harray : ∀ depth, (Json.array [.bool true]).EqualTo depth (.array [.bool true]) := by
    intro depth
    cases depth with
    | zero => trivial
    | succ depth =>
      refine .cons ?_ .nil
      cases depth with
      | zero => trivial
      | succ depth => rfl
  refine (roundTrips_iff Sol.checked_lawful ?_ fun j hj => ?_).mpr ⟨?_, ?_⟩
  · refine ⟨.inr fun e he => ⟨ascii "a", by rw [List.mem_singleton.mp he]⟩, fun e he => ?_⟩
    rw [List.mem_singleton.mp he]
    refine ⟨.inl (List.Perm.refl _), fun e he => ?_⟩
    rw [List.mem_singleton.mp he]
    trivial
  · obtain rfl : Json.object [(ascii "a", .array [.bool true])] = j := Option.some.inj hj
    refine ⟨iff_of_true rfl ?_, fun s hs => ?_⟩
    · rw [Json.isText_object]
      intro f hf
      rw [List.mem_singleton.mp hf]
      exact ⟨hname, nofun⟩
    · obtain rfl := Option.some.inj hs
      refine ⟨_, rfl, fun depth => ?_⟩
      cases depth with
      | zero => trivial
      | succ depth =>
        refine ⟨List.nodup_singleton _, fun f hf => ⟨f, hf, rfl, ?_⟩,
          fun f hf => ⟨f, hf, rfl, ?_⟩⟩
        · rw [List.mem_singleton.mp hf]
          exact harray depth
        · rw [List.mem_singleton.mp hf]
          exact harray depth
  · refine ⟨namesCarried_singleton nofun (by decide) hname, fun e he => ?_⟩
    rw [List.mem_singleton.mp he]
    refine ⟨namesCarried_of_ne_string fun e he s hs => ?_, fun e he => ?_⟩
    · rw [List.mem_singleton.mp he] at hs
      exact nomatch hs
    · rw [List.mem_singleton.mp he]
      trivial
  · rw [LuaHeap.renumbered_eq_self]
    intro r harray
    cases r with
    | true => exact nomatch harray
    | false => rfl

def emptyNameTable : LuaHeap Unit where
  entries _ := [(.string [], .boolean true)]
  isTable _ := ⟨List.nodup_singleton _, by simp⟩

/-- The JSON library on the object of `emptyNameTable`. -/
def emptyNameText : JsonText where
  parse str :=
    if str = ascii "\x7b\"\":true\x7d" then some (.object [([], .bool true)]) else none
  dump
    | .object [([], .bool true)] => some (ascii "\x7b\"\":true\x7d")
    | _ => none

/-- The value under the empty name comes back under 1. -/
theorem not_roundTrips_emptyName :
    IsData emptyNameTable jsonData 101 (.table ()) ∧
      ¬RoundTrips { sol := .checked, doubleToString := fun _ => [], text := emptyNameText }
        emptyNameTable () := by
  refine ⟨⟨.inr fun e he => ⟨[], by rw [List.mem_singleton.mp he]⟩, fun e he => ?_⟩, ?_⟩
  · rw [List.mem_singleton.mp he]
    trivial
  rintro ⟨str, table, hencode, hdecode, hshape⟩
  obtain rfl : ascii "\x7b\"\":true\x7d" = str := Option.some.inj hencode
  have hparsed : emptyNameText.parse (ascii "\x7b\"\":true\x7d") =
      some (.object [([], .bool true)]) := rfl
  have hvalue := (exists_jsonDecode_iff hparsed).mp ⟨table, hdecode, rfl⟩
  obtain ⟨s, _, hread⟩ := (shapeWith_table_iff.mp hshape).1 _ List.mem_cons_self
  injection hvalue with hvalue
  rw [← hvalue] at hread
  exact nomatch hread

end RoundTrip

end BeamMP
