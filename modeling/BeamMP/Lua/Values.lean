import BeamMP.Common.Bytes
import Mathlib.Data.Rat.Defs

/-!
# Lua values

Numbers are integers or floating-point, as in Lua 5.3. A table is a reference into a
heap, which gives the entries of a table in the order in which it is iterated. What a
program can find out about a value by indexing it is its shape: two values are
structurally equal if they have the same shape.
-/
namespace BeamMP

/-- A number of the subtype float; there is one zero. -/
inductive LuaFloat
  | finite (x : Dyadic)
  | infinite (negative : Bool)
  | nan
deriving DecidableEq

def LuaFloat.value : LuaFloat → Option ℚ
  | .finite x => some x.toRat
  | .infinite _ | .nan => none

def LuaFloat.IsIntegral (x : LuaFloat) : Prop := ∃ n : ℤ, x.value = some (n : ℚ)

inductive LuaNumber
  | integer (n : ℤ)
  | float (x : LuaFloat)
deriving DecidableEq

def LuaNumber.value : LuaNumber → Option ℚ
  | .integer n => some n
  | .float x => x.value

/-- The keys of tables; the last ones stand for booleans, tables and other values. -/
inductive LuaKey
  | string (s : Bytes)
  | number (x : LuaNumber)
  | other (id : ℕ)
deriving DecidableEq

inductive LuaValue (ρ : Type)
  | nil
  | boolean (b : Bool)
  | number (x : LuaNumber)
  | string (s : Bytes)
  | table (r : ρ)
  | function
  | thread
  | userdata

/-- The keys of a table are distinct, and none of its values is nil. -/
structure IsLuaTable {ρ : Type} (entries : List (LuaKey × LuaValue ρ)) : Prop where
  nodup : (entries.map Prod.fst).Nodup
  nonnil : ∀ e ∈ entries, e.2 ≠ .nil

/-- The tables, with the entries of each in the order of iteration. -/
@[ext]
structure LuaHeap (ρ : Type) where
  entries : ρ → List (LuaKey × LuaValue ρ)
  isTable : ∀ r, IsLuaTable (entries r)

inductive LuaShape
  | nil
  | boolean (b : Bool)
  | number (x : LuaNumber)
  | string (s : Bytes)
  | table (entries : LuaKey → Option LuaShape)

/-- What is under a key that was set to a value. -/
def LuaShape.entry : LuaShape → Option LuaShape
  | .nil => none
  | s => some s

/-- A table after an entry is set; nil removes it. -/
def setEntry (table : LuaKey → Option LuaShape) (k : LuaKey) (s : LuaShape) :
    LuaKey → Option LuaShape :=
  Function.update table k s.entry

/-- `int` is a 32-bit type. -/
def IsInt32 (n : ℤ) : Prop := -2147483648 ≤ n ∧ n ≤ 2147483647

instance (n : ℤ) : Decidable (IsInt32 n) := inferInstanceAs (Decidable (_ ∧ _))

/-- Integers of 32 bits, and numbers that are not integers. -/
def LuaNumber.IsPlain : LuaNumber → Prop
  | .integer n => IsInt32 n
  | .float x => ¬x.IsIntegral

/-- The conversions of sol between Lua numbers and C++ numbers, and the key under which an entry
is stored that is set under a string. -/
structure Sol where
  isInt : LuaNumber → Bool
  asInt : LuaNumber → ℤ
  asDouble : LuaNumber → LuaFloat
  storedKey : Bytes → Bytes

/-- `is` and `as` keep integers of 32 bits and floats; a string that is a key is passed to Lua
as a C string. -/
structure Sol.Lawful (sol : Sol) : Prop where
  isInt_integer : ∀ n, IsInt32 n → sol.isInt (.integer n) = true
  asInt_integer : ∀ n, IsInt32 n → sol.asInt (.integer n) = n
  asInt_float : ∀ x, sol.isInt (.float x) = true → x.value = some (sol.asInt (.float x) : ℚ)
  asDouble_float : ∀ x, sol.asDouble (.float x) = x
  storedKey_eq : ∀ key, sol.storedKey key = key.cstr

/-- sol with its checks of precision: no float is an `int`, and `as` drops the upper bits. -/
def Sol.checked : Sol where
  isInt
    | .integer _ => true
    | .float _ => false
  asInt
    | .integer n => n.bmod (2 ^ 32)
    | .float _ => 0
  asDouble
    | .integer n => .finite n
    | .float x => x
  storedKey := Bytes.cstr

section Shape

variable {ρ : Type} (heap : LuaHeap ρ)

/-- The shape of a value, where the shapes of what is in a table are given. -/
def shapeWith (child : LuaValue ρ → Option LuaShape) : LuaValue ρ → Option LuaShape
  | .nil => some .nil
  | .boolean b => some (.boolean b)
  | .number x => some (.number x)
  | .string s => some (.string s)
  | .table r =>
    if (heap.entries r).all fun e => (child e.2).isSome then
      some (.table fun k => ((heap.entries r).lookup k).bind child)
    else none
  | .function | .thread | .userdata => none

def shape : ℕ → LuaValue ρ → Option LuaShape
  | 0 => shapeWith heap fun _ => none
  | depth + 1 => shapeWith heap (shape depth)

end Shape

section Data

variable {ρ : Type} (heap : LuaHeap ρ)

/-- What data is made of: its numbers, its strings and the keys of its tables. -/
structure DataRule (ρ : Type) where
  number : LuaNumber → Prop
  string : Bytes → Prop
  keys : List (LuaKey × LuaValue ρ) → Prop

/-- Data, where it is given what may stand in a table. -/
def IsDataWith (rule : DataRule ρ) (child : LuaValue ρ → Prop) : LuaValue ρ → Prop
  | .nil | .boolean _ => True
  | .number x => rule.number x
  | .string s => rule.string s
  | .table r => rule.keys (heap.entries r) ∧ ∀ e ∈ heap.entries r, child e.2
  | .function | .thread | .userdata => False

def IsData (rule : DataRule ρ) : ℕ → LuaValue ρ → Prop
  | 0 => IsDataWith heap rule fun _ => False
  | depth + 1 => IsDataWith heap rule (IsData rule depth)

/-- Every key that is a string is one as a C string, too. -/
def KeysAreCStrings (entries : List (LuaKey × LuaValue ρ)) : Prop :=
  ∀ e ∈ entries, ∀ s, e.1 = .string s → (0 : UInt8) ∉ s

def ThroughoutWith (P : List (LuaKey × LuaValue ρ) → Prop) (child : LuaValue ρ → Prop) :
    LuaValue ρ → Prop
  | .table r => P (heap.entries r) ∧ ∀ e ∈ heap.entries r, child e.2
  | _ => True

/-- The entries of every table that a value leads to are like that, down to that depth. -/
def Throughout (P : List (LuaKey × LuaValue ρ) → Prop) : ℕ → LuaValue ρ → Prop
  | 0 => ThroughoutWith heap P fun _ => True
  | depth + 1 => ThroughoutWith heap P (Throughout P depth)

end Data

theorem throughout_and {ρ : Type} {heap : LuaHeap ρ} {P Q : List (LuaKey × LuaValue ρ) → Prop} :
    ∀ (depth : ℕ) {v : LuaValue ρ}, Throughout heap (fun entries => P entries ∧ Q entries) depth v ↔
      Throughout heap P depth v ∧ Throughout heap Q depth v := by
  intro depth
  induction depth with
  | zero =>
    intro v
    cases v with
    | table r => simp [Throughout, ThroughoutWith]
    | _ => exact iff_of_true trivial ⟨trivial, trivial⟩
  | succ depth ih =>
    intro v
    cases v with
    | table r =>
      simp only [Throughout, ThroughoutWith, ih]
      exact ⟨fun ⟨⟨hP, hQ⟩, h⟩ => ⟨⟨hP, fun e he => (h e he).1⟩, hQ, fun e he => (h e he).2⟩,
        fun ⟨⟨hP, h⟩, hQ, h'⟩ => ⟨⟨hP, hQ⟩, fun e he => ⟨h e he, h' e he⟩⟩⟩
    | _ => exact iff_of_true trivial ⟨trivial, trivial⟩

theorem Sol.Lawful.isInt_of_not_isIntegral {sol : Sol} (h : sol.Lawful) {x : LuaFloat}
    (hx : ¬x.IsIntegral) : sol.isInt (.float x) = false := by
  rw [Bool.eq_false_iff]
  exact fun hint => hx ⟨_, h.asInt_float x hint⟩

theorem Sol.Lawful.storedKey_eq_self {sol : Sol} (h : sol.Lawful) {key : Bytes}
    (hkey : (0 : UInt8) ∉ key) : sol.storedKey key = key := by
  rw [h.storedKey_eq, Bytes.cstr_eq_self hkey]

theorem Sol.Lawful.zero_notMem_storedKey {sol : Sol} (h : sol.Lawful) (key : Bytes) :
    (0 : UInt8) ∉ sol.storedKey key := by
  rw [h.storedKey_eq]
  exact Bytes.zero_notMem_cstr key

theorem Sol.checked_lawful : Sol.checked.Lawful where
  isInt_integer _ _ := rfl
  asInt_integer _ h := Int.bmod_eq_of_le (by have := h.1; omega) (by have := h.2; omega)
  asInt_float _ h := nomatch h
  asDouble_float _ := rfl
  storedKey_eq _ := rfl

theorem lookup_eq_some_iff_mem {α β : Type} [DecidableEq α] {l : List (α × β)}
    (hnodup : (l.map Prod.fst).Nodup) {k : α} {v : β} : l.lookup k = some v ↔ (k, v) ∈ l := by
  induction l with
  | nil => simp
  | cons e l ih =>
    obtain ⟨hnew, hnodup⟩ := List.nodup_cons.mp hnodup
    rw [List.lookup_cons, List.mem_cons]
    by_cases hk : k = e.1
    · subst hk
      have hrest : (e.1, v) ∉ l := fun hmem =>
        hnew (List.mem_map.mpr ⟨(e.1, v), hmem, rfl⟩)
      simp only [beq_self_eq_true, Option.some.injEq, hrest, or_false]
      exact ⟨fun h => Prod.ext rfl h.symm, fun h => (congrArg Prod.snd h).symm⟩
    · have hne : (k, v) ≠ e := fun h => hk (congrArg Prod.fst h)
      rw [beq_eq_false_iff_ne.mpr hk]
      simp only [hne, false_or]
      exact ih hnodup

theorem LuaShape.entry_eq_some_iff {s t : LuaShape} : s.entry = some t ↔ s = t ∧ t ≠ .nil := by
  cases s with
  | nil => exact ⟨nofun, fun ⟨h, hne⟩ => absurd h.symm hne⟩
  | _ =>
    refine ⟨fun h => ?_, fun ⟨h, _⟩ => congrArg some h⟩
    obtain rfl := Option.some.inj h
    exact ⟨rfl, nofun⟩

section Tables

variable {ρ : Type} {heap : LuaHeap ρ} {child : LuaValue ρ → Option LuaShape} {r : ρ}

theorem shapeWith_table_eq_some_iff {s : LuaShape} :
    shapeWith heap child (.table r) = some s ↔
      (∀ e ∈ heap.entries r, (child e.2).isSome) ∧
        s = .table fun k => ((heap.entries r).lookup k).bind child := by
  simp only [shapeWith]
  split_ifs with hall
  · rw [List.all_eq_true] at hall
    exact ⟨fun h => ⟨hall, (Option.some.inj h).symm⟩, fun h => congrArg some h.2.symm⟩
  · rw [List.all_eq_true] at hall
    exact ⟨nofun, fun h => absurd h.1 hall⟩

theorem lookup_bind_eq_some_iff {k : LuaKey} {s : LuaShape} :
    ((heap.entries r).lookup k).bind child = some s ↔
      ∃ v, (k, v) ∈ heap.entries r ∧ child v = some s := by
  rw [Option.bind_eq_some_iff]
  exact exists_congr fun v => and_congr_left fun _ => lookup_eq_some_iff_mem (heap.isTable r).nodup

/-- A table has the shape that has what is under its keys, and nothing else. -/
theorem shapeWith_table_iff {g : LuaKey → Option LuaShape} :
    shapeWith heap child (.table r) = some (.table g) ↔
      (∀ e ∈ heap.entries r, ∃ s, child e.2 = some s ∧ g e.1 = some s) ∧
        ∀ k, k ∉ (heap.entries r).map Prod.fst → g k = none := by
  rw [shapeWith_table_eq_some_iff]
  constructor
  · rintro ⟨hall, hg⟩
    injection hg with hg
    subst hg
    refine ⟨fun e he => ?_, fun k hk => ?_⟩
    · obtain ⟨s, hs⟩ := Option.isSome_iff_exists.mp (hall e he)
      exact ⟨s, hs, lookup_bind_eq_some_iff.mpr ⟨e.2, he, hs⟩⟩
    · rw [Option.eq_none_iff_forall_ne_some]
      intro s hs
      obtain ⟨v, hv, _⟩ := lookup_bind_eq_some_iff.mp hs
      exact hk (List.mem_map.mpr ⟨(k, v), hv, rfl⟩)
  · rintro ⟨hentries, hrest⟩
    refine ⟨fun e he => ?_, congrArg LuaShape.table (funext fun k => Option.ext fun s => ?_)⟩
    · obtain ⟨s, hs, _⟩ := hentries e he
      exact Option.isSome_iff_exists.mpr ⟨s, hs⟩
    · rw [lookup_bind_eq_some_iff]
      constructor
      · intro hs
        by_cases hk : k ∈ (heap.entries r).map Prod.fst
        · obtain ⟨e, he, rfl⟩ := List.mem_map.mp hk
          obtain ⟨s', hs', hg⟩ := hentries e he
          exact ⟨e.2, he, hs'.trans (hg.symm.trans hs)⟩
        · exact absurd hs (by rw [hrest k hk]; exact nofun)
      · rintro ⟨v, hv, hs⟩
        obtain ⟨s', hs', hg⟩ := hentries (k, v) hv
        exact hg.trans (hs'.symm.trans hs)

theorem shapeWith_eq_nil_iff {v : LuaValue ρ} :
    shapeWith heap child v = some .nil ↔ v = .nil := by
  cases v with
  | table r =>
    rw [shapeWith_table_eq_some_iff]
    exact ⟨fun ⟨_, h⟩ => (nomatch h), nofun⟩
  | _ => simp [shapeWith]

theorem entry_eq_some_of_mem (hnil : ∀ v, child v = some .nil → v = .nil)
    {e : LuaKey × LuaValue ρ} (he : e ∈ heap.entries r) {s : LuaShape} (hs : child e.2 = some s) :
    s.entry = some s := by
  rw [LuaShape.entry_eq_some_iff]
  refine ⟨rfl, ?_⟩
  rintro rfl
  exact (heap.isTable r).nonnil e he (hnil e.2 hs)

end Tables

end BeamMP
