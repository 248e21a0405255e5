import BeamMP.Lua.Values
import Mathlib.Data.Rat.Floor

/-!
# Results that leave their Lua state

`MarkReadySuccess` freezes the value a handler returned, so that other threads can
read it, and `GetResults` builds a value of another Lua state from what was frozen.
A table with positive integer keys becomes an array as long as its largest key,
with holes where keys are missing; a key is read as a `double` on the way, and an
array that long may not be available. A string that is a key is set as a C string,
which ends at its first NUL.
-/
namespace BeamMP

/-- `TDetachedLuaValue`. -/
inductive DetachedLuaValue
  | monostate
  | boolean (b : Bool)
  | double (x : LuaFloat)
  | int (n : ℤ)
  | string (s : Bytes)
  | array (elements : List DetachedLuaValue)
  | object (members : List (Bytes × DetachedLuaValue))

inductive FreezeError
  | maxDepth
  | unsupportedType
  | length
deriving DecidableEq

/-- sol, and the size of the largest `TDetachedLuaValue::Array` that there can be. -/
structure SnapshotEnv where
  sol : Sol
  maxArray : ℕ

/-- The `double` next to a positive integer, with 53 bits and ties to even. -/
def roundToDouble (n : ℕ) : ℕ :=
  let unit := 2 ^ (n.log2 - 52)
  let q := n / unit
  let r := n % unit
  if 2 * r < unit ∨ 2 * r = unit ∧ q % 2 = 0 then q * unit else (q + 1) * unit

/-- The index of an array that a key is taken for. A `double` counts as an integer within the
machine epsilon. -/
def numericIndex : LuaKey → Option ℕ
  | .number (.integer n) => if 1 ≤ n then some (roundToDouble n.toNat) else none
  | .number (.float x) => x.value.bind fun NumericKey =>
    if 1 ≤ NumericKey ∧ NumericKey - ⌊NumericKey⌋ ≤ 2 ^ (-52 : ℤ) then some ⌊NumericKey⌋.toNat
    else none
  | .string _ | .other _ => none

/-- The variables of the loop over a table in `Freeze`. -/
structure FreezeState where
  objectOut : List (Bytes × DetachedLuaValue) := []
  numericEntries : List (ℕ × DetachedLuaValue) := []
  hasNonStringOrNumericKey : Bool := false
  maxNumericIndex : ℕ := 0

namespace FreezeState

def emplace (acc : FreezeState) (key : Bytes) (value : DetachedLuaValue) : FreezeState :=
  if acc.objectOut.any (·.1 == key) then acc
  else { acc with objectOut := acc.objectOut ++ [(key, value)] }

def push (acc : FreezeState) (index : ℕ) (value : DetachedLuaValue) : FreezeState :=
  { acc with
    numericEntries := acc.numericEntries ++ [(index, value)]
    maxNumericIndex := max acc.maxNumericIndex index }

/-- The element of `ArrayOut` that an entry is stored in. -/
def store (ArrayOut : List DetachedLuaValue) (entry : ℕ × DetachedLuaValue) :
    List DetachedLuaValue :=
  if 0 < entry.1 ∧ entry.1 ≤ ArrayOut.length then ArrayOut.set (entry.1 - 1) entry.2
  else ArrayOut

def arrayOut (acc : FreezeState) : List DetachedLuaValue :=
  acc.numericEntries.foldl store (List.replicate acc.maxNumericIndex .monostate)

def finish (maxArray : ℕ) (acc : FreezeState) : Except FreezeError DetachedLuaValue :=
  if acc.numericEntries ≠ [] ∧ acc.objectOut = [] ∧ acc.hasNonStringOrNumericKey = false then
    if acc.maxNumericIndex ≤ maxArray then .ok (.array acc.arrayOut) else .error .length
  else .ok (.object acc.objectOut)

end FreezeState

section Freeze

variable {ρ : Type}

def freezeEntries (freeze : LuaValue ρ → Except FreezeError DetachedLuaValue) :
    List (LuaKey × LuaValue ρ) → FreezeState → Except FreezeError FreezeState
  | [], acc => .ok acc
  | (.string key, v) :: entries, acc => do
    let value ← freeze v
    freezeEntries freeze entries (acc.emplace key value)
  | (k, v) :: entries, acc =>
    match numericIndex k with
    | some index => do
      let value ← freeze v
      freezeEntries freeze entries (acc.push index value)
    | none => freezeEntries freeze entries { acc with hasNonStringOrNumericKey := true }

variable (env : SnapshotEnv) (heap : LuaHeap ρ)

def freezeWith (freeze : LuaValue ρ → Except FreezeError DetachedLuaValue) :
    LuaValue ρ → Except FreezeError DetachedLuaValue
  | .nil => .ok .monostate
  | .boolean b => .ok (.boolean b)
  | .number x =>
    if env.sol.isInt x then .ok (.int (env.sol.asInt x)) else .ok (.double (env.sol.asDouble x))
  | .string s => .ok (.string s)
  | .table r => do
    let acc ← freezeEntries freeze (heap.entries r) {}
    acc.finish env.maxArray
  | .function | .thread | .userdata => .error .unsupportedType

/-- `Freeze` at a depth that leaves room for so many levels. -/
def freeze : ℕ → LuaValue ρ → Except FreezeError DetachedLuaValue
  | 0, _ => .error .maxDepth
  | levels + 1, v => freezeWith env heap (freeze levels) v

end Freeze

/-- The fields of a `TLuaResult` that are about its value. -/
structure TLuaResult where
  mReady : Bool := false
  mError : Bool := false
  mDetachedResult : DetachedLuaValue := .monostate

/-- `MarkReadySuccess`, with the exception it throws. The value passes at depth 0 of 64. -/
def TLuaResult.markReadySuccess {ρ : Type} (env : SnapshotEnv) (heap : LuaHeap ρ)
    (result : TLuaResult) (Res : LuaValue ρ) : Option FreezeError × TLuaResult :=
  match freeze env heap 65 Res with
  | .ok value => (none, { mReady := true, mError := false, mDetachedResult := value })
  | .error e => (some e, { result with mError := false })

section Reading

variable (sol : Sol)

mutual

def detachedToLuaObject : DetachedLuaValue → LuaShape
  | .monostate => .nil
  | .boolean b => .boolean b
  | .double x => .number (.float x)
  | .int n => .number (.integer n)
  | .string s => .string s
  | .array elements => .table (setElements elements 1 fun _ => none)
  | .object members => .table (setMembers members fun _ => none)

def setElements : List DetachedLuaValue → ℕ → (LuaKey → Option LuaShape) →
    LuaKey → Option LuaShape
  | [], _, table => table
  | elem :: elements, i, table =>
    setElements elements (i + 1)
      (setEntry table (.number (.integer i)) (detachedToLuaObject elem))

def setMembers : List (Bytes × DetachedLuaValue) → (LuaKey → Option LuaShape) →
    LuaKey → Option LuaShape
  | [], table => table
  | (key, elem) :: members, table =>
    setMembers members
      (setEntry table (.string (sol.storedKey key)) (detachedToLuaObject elem))

end

end Reading

section Rounding

theorem roundToDouble_of_dvd {n : ℕ} (h : 2 ^ (n.log2 - 52) ∣ n) : roundToDouble n = n := by
  have hzero : n % 2 ^ (n.log2 - 52) = 0 := Nat.mod_eq_zero_of_dvd h
  simp only [roundToDouble, hzero, Nat.mul_zero, Nat.two_pow_pos, true_or, if_true]
  exact Nat.div_mul_cancel h

theorem roundToDouble_idem (n : ℕ) : roundToDouble (roundToDouble n) = roundToDouble n := by
  rcases Nat.lt_or_ge n.log2 53 with hsmall | hlarge
  · have hunit : n.log2 - 52 = 0 := by omega
    have hsame : roundToDouble n = n := roundToDouble_of_dvd (by rw [hunit]; exact one_dvd n)
    rw [hsame, hsame]
  · obtain ⟨shift, hshift⟩ : ∃ shift, n.log2 = 52 + shift := ⟨n.log2 - 52, by omega⟩
    have hn : n ≠ 0 := by
      rintro rfl
      simp at hlarge
    obtain ⟨hlow, hhigh⟩ := (Nat.log2_eq_iff hn).mp hshift
    have hq_low : 2 ^ 52 ≤ n / 2 ^ shift := by
      rw [Nat.le_div_iff_mul_le (Nat.two_pow_pos shift), ← pow_add]
      exact hlow
    have hq_high : n / 2 ^ shift < 2 ^ 53 := by
      rw [Nat.div_lt_iff_lt_mul (Nat.two_pow_pos shift), ← pow_add]
      rw [show 53 + shift = 52 + shift + 1 by omega]
      exact hhigh
    obtain ⟨q, hq, hq_low, hq_high⟩ : ∃ q, roundToDouble n = q * 2 ^ shift ∧ 2 ^ 52 ≤ q ∧
        q ≤ 2 ^ 53 := by
      unfold roundToDouble
      rw [show n.log2 - 52 = shift by omega]
      dsimp only
      split_ifs
      · exact ⟨_, rfl, hq_low, hq_high.le⟩
      · exact ⟨_, rfl, by omega, by omega⟩
    rw [hq]
    apply roundToDouble_of_dvd
    have hq_pos : q * 2 ^ shift ≠ 0 := by
      have hpos := Nat.two_pow_pos shift
      have hmul : 0 < q * 2 ^ shift := Nat.mul_pos (by omega) hpos
      omega
    rcases Nat.lt_or_ge q (2 ^ 53) with hlt | hge
    · have hlog : (q * 2 ^ shift).log2 = 52 + shift := by
        rw [Nat.log2_eq_iff hq_pos, pow_add, show 52 + shift + 1 = 53 + shift by omega, pow_add]
        exact ⟨Nat.mul_le_mul_right _ hq_low, Nat.mul_lt_mul_of_pos_right hlt (Nat.two_pow_pos _)⟩
      rw [hlog, Nat.add_sub_cancel_left]
      exact Nat.dvd_mul_left _ _
    · obtain rfl : q = 2 ^ 53 := le_antisymm hq_high hge
      have hlog : (2 ^ 53 * 2 ^ shift).log2 = 53 + shift := by
        rw [← pow_add]
        exact Nat.log2_two_pow
      rw [hlog, ← pow_add]
      exact Nat.pow_dvd_pow 2 (by omega)

theorem one_le_roundToDouble {n : ℕ} (h : 1 ≤ n) : 1 ≤ roundToDouble n := by
  have hunit := Nat.two_pow_pos (n.log2 - 52)
  have hle : 2 ^ (n.log2 - 52) ≤ n := by
    have hpow : 2 ^ (n.log2 - 52) ≤ 2 ^ n.log2 := Nat.pow_le_pow_right (by decide) (by omega)
    exact hpow.trans (Nat.log2_self_le (by omega))
  have hq : 1 ≤ n / 2 ^ (n.log2 - 52) := (Nat.one_le_div_iff hunit).mpr hle
  unfold roundToDouble
  dsimp only
  split_ifs
  · exact Nat.mul_pos hq hunit
  · exact Nat.mul_pos (Nat.succ_pos _) hunit

end Rounding

section Entering

variable {sol : Sol}

theorem setElements_of_ne (elements : List DetachedLuaValue) {k : LuaKey} :
    ∀ (i : ℕ) (table : LuaKey → Option LuaShape),
      (∀ j < elements.length, k ≠ .number (.integer ((i + j : ℕ) : ℤ))) →
        setElements sol elements i table k = table k := by
  induction elements with
  | nil =>
    intro i table _
    rw [setElements]
  | cons elem elements ih =>
    intro i table hne
    rw [setElements, ih]
    · exact Function.update_of_ne (hne 0 (Nat.succ_pos _)) _ _
    · intro j hj
      rw [show i + 1 + j = i + (j + 1) by omega]
      exact hne (j + 1) (Nat.succ_lt_succ hj)

theorem setElements_of_getElem? (elements : List DetachedLuaValue) {d : DetachedLuaValue} :
    ∀ (i j : ℕ) (table : LuaKey → Option LuaShape), elements[j]? = some d →
      setElements sol elements i table (.number (.integer ((i + j : ℕ) : ℤ))) =
        (detachedToLuaObject sol d).entry := by
  induction elements with
  | nil => exact fun _ _ _ h => (nomatch h)
  | cons elem elements ih =>
    intro i j table h
    rw [setElements]
    cases j with
    | zero =>
      obtain rfl : elem = d := by simpa using h
      rw [setElements_of_ne]
      · exact Function.update_self _ _ _
      · intro j _ heq
        injection heq with heq
        injection heq with heq
        omega
    | succ j =>
      rw [show i + (j + 1) = i + 1 + j by omega]
      exact ih (i + 1) j _ (by simpa using h)

theorem setMembers_of_ne (members : List (Bytes × DetachedLuaValue)) {k : LuaKey} :
    ∀ table : LuaKey → Option LuaShape, (∀ m ∈ members, k ≠ .string (sol.storedKey m.1)) →
      setMembers sol members table k = table k := by
  induction members with
  | nil =>
    intro table _
    rw [setMembers]
  | cons m members ih =>
    intro table hne
    obtain ⟨hhead, htail⟩ := List.forall_mem_cons.mp hne
    rw [setMembers, ih _ htail]
    exact Function.update_of_ne hhead _ _

theorem setMembers_of_mem (members : List (Bytes × DetachedLuaValue)) {key : Bytes}
    {d : DetachedLuaValue} :
    ∀ table : LuaKey → Option LuaShape, (members.map Prod.fst).Nodup →
      (∀ m ∈ members, sol.storedKey m.1 = m.1) → (key, d) ∈ members →
        setMembers sol members table (.string key) = (detachedToLuaObject sol d).entry := by
  induction members with
  | nil => exact fun _ _ _ h => (nomatch h)
  | cons m members ih =>
    intro table hnodup hstored hmem
    obtain ⟨hnew, hnodup⟩ := List.nodup_cons.mp hnodup
    obtain ⟨hhead, htail⟩ := List.forall_mem_cons.mp hstored
    rw [setMembers]
    rcases List.mem_cons.mp hmem with rfl | hmem
    · rw [setMembers_of_ne]
      · rw [hhead]
        exact Function.update_self _ _ _
      · intro m hm heq
        rw [htail m hm] at heq
        injection heq with heq
        exact hnew (List.mem_map.mpr ⟨m, hm, heq.symm⟩)
    · exact ih _ hnodup htail hmem

/-- No entry is under a string that does not end where a C string does. -/
theorem zero_notMem_of_setMembers_eq_some (hsol : sol.Lawful)
    {members : List (Bytes × DetachedLuaValue)} {key : Bytes} {s : LuaShape}
    (h : setMembers sol members (fun _ => none) (.string key) = some s) : (0 : UInt8) ∉ key := by
  intro hzero
  rw [setMembers_of_ne] at h
  · exact nomatch h
  · rintro m _ heq
    injection heq with heq
    rw [heq] at hzero
    exact hsol.zero_notMem_storedKey m.1 hzero

end Entering

section Storing

open FreezeState

@[simp] theorem length_foldl_store (stored : List (ℕ × DetachedLuaValue)) :
    ∀ out : List DetachedLuaValue, (stored.foldl store out).length = out.length := by
  induction stored with
  | nil => exact fun _ => rfl
  | cons entry stored ih =>
    intro out
    rw [List.foldl_cons, ih, store]
    split_ifs
    · exact List.length_set
    · rfl

theorem store_getElem?_of_ne {out : List DetachedLuaValue} {entry : ℕ × DetachedLuaValue} {j : ℕ}
    (h : entry.1 ≠ j + 1) : (store out entry)[j]? = out[j]? := by
  rw [store]
  split_ifs with hentry
  · exact List.getElem?_set_ne (by omega)
  · rfl

theorem foldl_store_of_ne {j : ℕ} (stored : List (ℕ × DetachedLuaValue)) :
    ∀ out : List DetachedLuaValue, (∀ entry ∈ stored, entry.1 ≠ j + 1) →
      (stored.foldl store out)[j]? = out[j]? := by
  induction stored with
  | nil => exact fun _ _ => rfl
  | cons entry stored ih =>
    intro out hne
    obtain ⟨hhead, htail⟩ := List.forall_mem_cons.mp hne
    rw [List.foldl_cons, ih _ htail, store_getElem?_of_ne hhead]

theorem foldl_store_of_mem {j : ℕ} {d : DetachedLuaValue} (stored : List (ℕ × DetachedLuaValue)) :
    ∀ out : List DetachedLuaValue, (stored.map Prod.fst).Nodup → (j + 1, d) ∈ stored →
      j < out.length → (stored.foldl store out)[j]? = some d := by
  induction stored with
  | nil => exact fun _ _ h => (nomatch h)
  | cons entry stored ih =>
    intro out hnodup hmem hj
    obtain ⟨hnew, hnodup⟩ := List.nodup_cons.mp hnodup
    rw [List.foldl_cons]
    rcases List.mem_cons.mp hmem with rfl | hmem
    · rw [foldl_store_of_ne stored _ fun entry hentry heq =>
        hnew (List.mem_map.mpr ⟨entry, hentry, heq⟩)]
      rw [store, if_pos ⟨Nat.succ_pos j, hj⟩]
      exact List.getElem?_set_self hj
    · apply ih _ hnodup hmem
      have hlength := length_foldl_store [entry] out
      rw [List.foldl_cons, List.foldl_nil] at hlength
      omega

theorem eq_or_mem_of_foldl_store {j : ℕ} {d : DetachedLuaValue}
    (stored : List (ℕ × DetachedLuaValue)) :
    ∀ out : List DetachedLuaValue, (stored.foldl store out)[j]? = some d →
      out[j]? = some d ∨ (j + 1, d) ∈ stored := by
  induction stored with
  | nil => exact fun _ h => .inl h
  | cons entry stored ih =>
    intro out h
    rcases ih _ h with hout | hmem
    · by_cases hentry : entry.1 = j + 1
      · rw [store] at hout
        split_ifs at hout with hfits
        · rw [hentry, Nat.add_sub_cancel, List.getElem?_set_self (by omega)] at hout
          obtain rfl := Option.some.inj hout
          exact .inr (List.mem_cons.mpr (.inl (Prod.ext hentry.symm rfl)))
        · exact .inl hout
      · exact .inl ((store_getElem?_of_ne hentry).symm.trans hout)
    · exact .inr (List.mem_cons_of_mem _ hmem)

theorem mem_of_setElements_eq_some {sol : Sol} {stored : List (ℕ × DetachedLuaValue)} {top : ℕ}
    {k : LuaKey} {s : LuaShape}
    (h : setElements sol (stored.foldl store (List.replicate top .monostate)) 1 (fun _ => none) k =
      some s) :
    ∃ n d, k = .number (.integer ((n : ℕ) : ℤ)) ∧ (n, d) ∈ stored ∧
      detachedToLuaObject sol d = s := by
  by_cases hk : ∀ j < (stored.foldl store (List.replicate top .monostate)).length,
      k ≠ .number (.integer ((1 + j : ℕ) : ℤ))
  · rw [setElements_of_ne _ _ _ hk] at h
    exact nomatch h
  · push Not at hk
    obtain ⟨j, hj, rfl⟩ := hk
    have hget := List.getElem?_eq_getElem hj
    rw [setElements_of_getElem? _ _ _ _ hget, LuaShape.entry_eq_some_iff] at h
    rcases eq_or_mem_of_foldl_store stored _ hget with hout | hmem
    · rw [List.getElem?_replicate] at hout
      split_ifs at hout
      rw [← Option.some.inj hout, detachedToLuaObject] at h
      exact absurd h.1.symm h.2
    · exact ⟨1 + j, _, rfl, by rw [Nat.add_comm]; exact hmem, h.1⟩

theorem setElements_eq_of_mem {sol : Sol} {stored : List (ℕ × DetachedLuaValue)} {top n : ℕ}
    {d : DetachedLuaValue} (hnodup : (stored.map Prod.fst).Nodup) (hmem : (n, d) ∈ stored)
    (hpos : 1 ≤ n) (htop : n ≤ top) :
    setElements sol (stored.foldl store (List.replicate top .monostate)) 1 (fun _ => none)
      (.number (.integer (n : ℤ))) = (detachedToLuaObject sol d).entry := by
  obtain ⟨j, rfl⟩ := Nat.exists_eq_add_of_le hpos
  apply setElements_of_getElem?
  apply foldl_store_of_mem _ _ hnodup
  · rwa [Nat.add_comm]
  · rw [List.length_replicate]
    omega

end Storing

section Entries

variable {ρ : Type}

def frozen (freeze : LuaValue ρ → Except FreezeError DetachedLuaValue) (v : LuaValue ρ) :
    DetachedLuaValue :=
  match freeze v with
  | .ok d => d
  | .error _ => .monostate

variable {freeze : LuaValue ρ → Except FreezeError DetachedLuaValue}

theorem frozen_of_eq {v : LuaValue ρ} {d : DetachedLuaValue} (h : freeze v = .ok d) :
    frozen freeze v = d := by
  rw [frozen, h]

theorem freezeEntries_number (x : LuaNumber) (v : LuaValue ρ)
    (entries : List (LuaKey × LuaValue ρ)) (acc : FreezeState) :
    freezeEntries freeze ((.number x, v) :: entries) acc =
      match numericIndex (.number x) with
      | some index => do
        let value ← freeze v
        freezeEntries freeze entries (acc.push index value)
      | none => freezeEntries freeze entries { acc with hasNonStringOrNumericKey := true } :=
  rfl

/-- The value under a string or an index is frozen before the other entries. -/
theorem freezeEntries_cons_of_key (freeze : LuaValue ρ → Except FreezeError DetachedLuaValue)
    {e : LuaKey × LuaValue ρ}
    (hkey : (∃ s, e.1 = .string s) ∨ (numericIndex e.1).isSome)
    (entries : List (LuaKey × LuaValue ρ)) (acc : FreezeState) :
    ∃ place : DetachedLuaValue → FreezeState, freezeEntries freeze (e :: entries) acc =
      (freeze e.2).bind fun value => freezeEntries freeze entries (place value) := by
  obtain ⟨k, v⟩ := e
  cases k with
  | string s => exact ⟨acc.emplace s, rfl⟩
  | number x =>
    obtain ⟨index, hindex⟩ := Option.isSome_iff_exists.mp (hkey.resolve_left nofun)
    refine ⟨acc.push index, ?_⟩
    rw [freezeEntries_number, hindex]
    rfl
  | other id => exact absurd hkey (by simp [numericIndex])

theorem exists_of_freezeEntries (entries : List (LuaKey × LuaValue ρ)) {acc' : FreezeState} :
    ∀ acc : FreezeState, freezeEntries freeze entries acc = .ok acc' →
      (∀ e ∈ entries, (∃ s, e.1 = .string s) ∨ (numericIndex e.1).isSome) →
        ∀ e ∈ entries, ∃ d, freeze e.2 = .ok d := by
  induction entries with
  | nil => exact fun _ _ _ _ h => (nomatch h)
  | cons e entries ih =>
    intro acc hok hkeys
    obtain ⟨hkey, hkeys⟩ := List.forall_mem_cons.mp hkeys
    obtain ⟨place, hplace⟩ := freezeEntries_cons_of_key freeze hkey entries acc
    rw [hplace] at hok
    cases hfreeze : freeze e.2 with
    | ok d =>
      rw [hfreeze] at hok
      exact List.forall_mem_cons.mpr ⟨⟨d, hfreeze⟩, ih (place d) hok hkeys⟩
    | error err =>
      rw [hfreeze] at hok
      cases hok

theorem freezeEntries_strings (members : List (Bytes × LuaValue ρ)) :
    ∀ acc : FreezeState, (members.map Prod.fst).Nodup →
      (∀ m ∈ members, freeze m.2 = .ok (frozen freeze m.2)) →
      (∀ m ∈ members, ∀ out ∈ acc.objectOut, out.1 ≠ m.1) →
        freezeEntries freeze (members.map fun m => (.string m.1, m.2)) acc =
          .ok { acc with objectOut :=
            acc.objectOut ++ members.map fun m => (m.1, frozen freeze m.2) } := by
  induction members with
  | nil =>
    intro acc _ _ _
    rw [List.map_nil, List.map_nil, List.append_nil]
    rfl
  | cons m members ih =>
    intro acc hnodup hfreeze hnew
    obtain ⟨hfirst, hnodup⟩ := List.nodup_cons.mp hnodup
    obtain ⟨hm, hfreeze⟩ := List.forall_mem_cons.mp hfreeze
    obtain ⟨hnew_m, hnew⟩ := List.forall_mem_cons.mp hnew
    have hemplace : acc.emplace m.1 (frozen freeze m.2) =
        { acc with objectOut := acc.objectOut ++ [(m.1, frozen freeze m.2)] } := by
      rw [FreezeState.emplace, if_neg]
      rw [List.any_eq_true]
      rintro ⟨out, hout, heq⟩
      exact hnew_m out hout (beq_iff_eq.mp heq)
    rw [List.map_cons, freezeEntries, hm]
    refine (ih (acc.emplace m.1 (frozen freeze m.2)) hnodup hfreeze ?_).trans ?_
    · intro m' hm' out hout
      rw [hemplace] at hout
      rcases List.mem_append.mp hout with hout | hout
      · exact hnew m' hm' out hout
      · rw [List.mem_singleton.mp hout]
        exact fun heq => hfirst (List.mem_map.mpr ⟨m', hm', heq.symm⟩)
    · rw [hemplace, List.map_cons, List.append_assoc, List.singleton_append]

theorem numericIndex_natCast {n : ℕ} (h : 1 ≤ n) :
    numericIndex (.number (.integer n)) = some (roundToDouble n) := by
  rw [numericIndex, if_pos (by exact_mod_cast h), Int.toNat_natCast]

theorem freezeEntries_numbers (elements : List (ℕ × LuaValue ρ)) :
    ∀ acc : FreezeState, (∀ m ∈ elements, 1 ≤ m.1) →
      (∀ m ∈ elements, freeze m.2 = .ok (frozen freeze m.2)) →
        ∃ top, freezeEntries freeze
            (elements.map fun m => (.number (.integer (m.1 : ℤ)), m.2)) acc =
          .ok { acc with
            numericEntries := acc.numericEntries ++
              elements.map fun m => (roundToDouble m.1, frozen freeze m.2)
            maxNumericIndex := top } ∧
          acc.maxNumericIndex ≤ top ∧ (∀ m ∈ elements, roundToDouble m.1 ≤ top) ∧
          (top = acc.maxNumericIndex ∨ ∃ m ∈ elements, top = roundToDouble m.1) := by
  induction elements with
  | nil =>
    intro acc _ _
    refine ⟨acc.maxNumericIndex, ?_, le_rfl, nofun, .inl rfl⟩
    rw [List.map_nil, List.map_nil, List.append_nil]
    rfl
  | cons m elements ih =>
    intro acc hpos hfreeze
    obtain ⟨hm_pos, hpos⟩ := List.forall_mem_cons.mp hpos
    obtain ⟨hm, hfreeze⟩ := List.forall_mem_cons.mp hfreeze
    obtain ⟨top, hrest, hle, hall, htop⟩ :=
      ih (acc.push (roundToDouble m.1) (frozen freeze m.2)) hpos hfreeze
    have hmax : max acc.maxNumericIndex (roundToDouble m.1) ≤ top := hle
    refine ⟨top, ?_, (le_max_left _ _).trans hmax,
      List.forall_mem_cons.mpr ⟨(le_max_right _ _).trans hmax, hall⟩, ?_⟩
    · rw [List.map_cons, freezeEntries_number, numericIndex_natCast hm_pos]
      dsimp only
      rw [hm]
      refine hrest.trans ?_
      rw [FreezeState.push, List.map_cons, List.append_assoc, List.singleton_append]
    · rcases htop with htop | ⟨m', hm', htop⟩
      · rcases max_choice acc.maxNumericIndex (roundToDouble m.1) with hchoice | hchoice
        · exact .inl (htop.trans hchoice)
        · exact .inr ⟨m, List.mem_cons_self, htop.trans hchoice⟩
      · exact .inr ⟨m', List.mem_cons_of_mem _ hm', htop⟩

end Entries

section Crossing

variable {ρ : Type} (heap : LuaHeap ρ)

/-- All keys are strings, or all are positive integers. -/
def PlainKeys (entries : List (LuaKey × LuaValue ρ)) : Prop :=
  (∀ e ∈ entries, ∃ s, e.1 = .string s) ∨
    ∀ e ∈ entries, ∃ n : ℕ, 1 ≤ n ∧ e.1 = .number (.integer n)

/-- Nil, booleans, strings, 32-bit integers, numbers that are not integers, and tables. -/
def plainData : DataRule ρ where
  number := LuaNumber.IsPlain
  string _ := True
  keys := PlainKeys

def LuaValue.IsUnsupported : LuaValue ρ → Prop
  | .function | .thread | .userdata => True
  | _ => False

/-- A table with keys that are read has a value that leads to something that cannot cross. -/
def LeadsToUnsupportedWith (child : LuaValue ρ → Prop) (v : LuaValue ρ) : Prop :=
  v.IsUnsupported ∨
    ∃ r, v = .table r ∧ PlainKeys (heap.entries r) ∧ ∃ e ∈ heap.entries r, child e.2

/-- A value that is not data, or that is nested deeper, is reached through plain tables. -/
def LeadsToUnsupported : ℕ → LuaValue ρ → Prop
  | 0 => LeadsToUnsupportedWith heap fun _ => True
  | depth + 1 => LeadsToUnsupportedWith heap (LeadsToUnsupported depth)

structure KeysFit (maxArray : ℕ) (entries : List (LuaKey × LuaValue ρ)) : Prop where
  double : ∀ e ∈ entries, ∀ n : ℕ, e.1 = .number (.integer n) →
    roundToDouble n = n ∧ n ≤ maxArray
  string : KeysAreCStrings entries

variable {heap} {r : ρ}

theorem exists_members_of_strings {entries : List (LuaKey × LuaValue ρ)}
    (h : ∀ e ∈ entries, ∃ s, e.1 = .string s) :
    ∃ members : List (Bytes × LuaValue ρ), entries = members.map fun m => (.string m.1, m.2) := by
  induction entries with
  | nil => exact ⟨[], rfl⟩
  | cons e entries ih =>
    obtain ⟨⟨s, hs⟩, hrest⟩ := List.forall_mem_cons.mp h
    obtain ⟨members, rfl⟩ := ih hrest
    exact ⟨(s, e.2) :: members, congrArg (· :: _) (Prod.ext hs rfl)⟩

structure Listed (heap : LuaHeap ρ) (r : ρ) (elements : List (ℕ × LuaValue ρ)) : Prop where
  positive : ∀ m ∈ elements, 1 ≤ m.1
  entries : heap.entries r = elements.map fun m => (.number (.integer (m.1 : ℤ)), m.2)

theorem exists_elements_of_numbers {entries : List (LuaKey × LuaValue ρ)}
    (h : ∀ e ∈ entries, ∃ n : ℕ, 1 ≤ n ∧ e.1 = .number (.integer n)) :
    ∃ elements : List (ℕ × LuaValue ρ), (∀ m ∈ elements, 1 ≤ m.1) ∧
      entries = elements.map fun m => (.number (.integer (m.1 : ℤ)), m.2) := by
  induction entries with
  | nil => exact ⟨[], nofun, rfl⟩
  | cons e entries ih =>
    obtain ⟨⟨n, hn, hkey⟩, hrest⟩ := List.forall_mem_cons.mp h
    obtain ⟨elements, hpos, rfl⟩ := ih hrest
    exact ⟨(n, e.2) :: elements, List.forall_mem_cons.mpr ⟨hn, hpos⟩,
      congrArg (· :: _) (Prod.ext hkey rfl)⟩

section Listed

variable {elements : List (ℕ × LuaValue ρ)}

theorem Listed.nodup (h : Listed heap r elements) : (elements.map Prod.fst).Nodup := by
  have hkeys := (heap.isTable r).nodup
  rw [h.entries, List.map_map] at hkeys
  refine List.Nodup.of_map (fun n : ℕ => LuaKey.number (.integer (n : ℤ))) ?_
  rw [List.map_map]
  exact hkeys

theorem Listed.mem_iff (h : Listed heap r elements) (m : ℕ × LuaValue ρ) :
    (.number (.integer (m.1 : ℤ)), m.2) ∈ heap.entries r ↔ m ∈ elements := by
  rw [h.entries, List.mem_map]
  constructor
  · rintro ⟨m', hm', heq⟩
    injection heq with hkey hvalue
    injection hkey with hkey
    injection hkey with hkey
    rwa [← Prod.ext (Int.ofNat_inj.mp hkey) hvalue]
  · exact fun h => ⟨m, h, rfl⟩

theorem Listed.value_eq (h : Listed heap r elements) {m m' : ℕ × LuaValue ρ} (hm : m ∈ elements)
    (hm' : m' ∈ elements) (hindex : m.1 = m'.1) : m.2 = m'.2 := by
  have hfirst := (h.mem_iff m).mpr hm
  have hsecond := (h.mem_iff m').mpr hm'
  rw [← hindex, ← lookup_eq_some_iff_mem (heap.isTable r).nodup] at hsecond
  rw [← lookup_eq_some_iff_mem (heap.isTable r).nodup] at hfirst
  exact Option.some.inj (hfirst.symm.trans hsecond)

end Listed

variable {freeze : LuaValue ρ → Except FreezeError DetachedLuaValue}
  {child : LuaValue ρ → Option LuaShape}

/-- A value arrives as it was sent. -/
def Crosses (sol : Sol) (freeze : LuaValue ρ → Except FreezeError DetachedLuaValue)
    (shape : LuaValue ρ → Option LuaShape) (v : LuaValue ρ) : Prop :=
  ∃ d, freeze v = .ok d ∧ shape v = some (detachedToLuaObject sol d)

theorem Crosses.frozen_eq {sol : Sol} {v : LuaValue ρ} (h : Crosses sol freeze child v) :
    freeze v = .ok (frozen freeze v) ∧
      child v = some (detachedToLuaObject sol (frozen freeze v)) := by
  obtain ⟨d, hfreeze, hshape⟩ := h
  rw [frozen_of_eq hfreeze]
  exact ⟨hfreeze, hshape⟩

theorem numericIndex_isSome_of_plainKeys {entries : List (LuaKey × LuaValue ρ)}
    (h : PlainKeys entries) :
    ∀ e ∈ entries, (∃ s, e.1 = .string s) ∨ (numericIndex e.1).isSome := by
  intro e he
  rcases h with hstrings | hnumbers
  · exact .inl (hstrings e he)
  · obtain ⟨n, hn, hkey⟩ := hnumbers e he
    rw [hkey, numericIndex_natCast hn]
    exact .inr rfl

theorem freezeWith_table_eq_ok {env : SnapshotEnv} {d : DetachedLuaValue}
    (hkeys : PlainKeys (heap.entries r)) (h : freezeWith env heap freeze (.table r) = .ok d) :
    ∃ acc, freezeEntries freeze (heap.entries r) {} = .ok acc ∧
      acc.finish env.maxArray = .ok d ∧
        ∀ e ∈ heap.entries r, freeze e.2 = .ok (frozen freeze e.2) := by
  rw [freezeWith] at h
  cases hacc : freezeEntries freeze (heap.entries r) {} with
  | error e =>
    rw [hacc] at h
    exact nomatch h
  | ok acc =>
    rw [hacc] at h
    refine ⟨acc, rfl, h, fun e he => ?_⟩
    obtain ⟨d, hd⟩ := exists_of_freezeEntries _ _ hacc
      (numericIndex_isSome_of_plainKeys hkeys) e he
    rw [frozen_of_eq hd, hd]

section Strings

variable {env : SnapshotEnv} {members : List (Bytes × LuaValue ρ)}

theorem nodup_of_members (hmembers : heap.entries r = members.map fun m => (.string m.1, m.2)) :
    (members.map Prod.fst).Nodup := by
  have h := (heap.isTable r).nodup
  rw [hmembers, List.map_map] at h
  refine List.Nodup.of_map LuaKey.string ?_
  rw [List.map_map]
  exact h

theorem freezeWith_strings (hmembers : heap.entries r = members.map fun m => (.string m.1, m.2))
    (hall : ∀ e ∈ heap.entries r, freeze e.2 = .ok (frozen freeze e.2)) :
    freezeWith env heap freeze (.table r) =
      .ok (.object (members.map fun m => (m.1, frozen freeze m.2))) := by
  rw [hmembers, List.forall_mem_map] at hall
  rw [freezeWith, hmembers, freezeEntries_strings members {} (nodup_of_members hmembers) hall
    fun _ _ _ h => (nomatch h)]
  rfl

/-- Keys without a NUL are stored as they are. -/
theorem setMembers_strings (hsol : env.sol.Lawful)
    (hmembers : heap.entries r = members.map fun m => (.string m.1, m.2))
    (hstrings : KeysAreCStrings (heap.entries r)) {m : Bytes × LuaValue ρ} (hm : m ∈ members) :
    setMembers env.sol (members.map fun m => (m.1, frozen freeze m.2)) (fun _ => none)
      (.string m.1) = (detachedToLuaObject env.sol (frozen freeze m.2)).entry := by
  apply setMembers_of_mem
  · rw [List.map_map]
    exact nodup_of_members hmembers
  · rw [hmembers, KeysAreCStrings, List.forall_mem_map] at hstrings
    rw [List.forall_mem_map]
    exact fun m hm => hsol.storedKey_eq_self (hstrings m hm _ rfl)
  · exact List.mem_map.mpr ⟨m, hm, rfl⟩

theorem freezeWith_strings_crosses_iff (hsol : env.sol.Lawful)
    (hnil : ∀ v, child v = some .nil → v = .nil)
    (hkeys : ∀ e ∈ heap.entries r, ∃ s, e.1 = .string s) :
    Crosses env.sol (freezeWith env heap freeze) (shapeWith heap child) (.table r) ↔
      KeysAreCStrings (heap.entries r) ∧
        ∀ e ∈ heap.entries r, Crosses env.sol freeze child e.2 := by
  obtain ⟨members, hmembers⟩ := exists_members_of_strings hkeys
  constructor
  · rintro ⟨d, hd, hshape⟩
    obtain ⟨_, _, _, hall⟩ := freezeWith_table_eq_ok (.inl hkeys) hd
    rw [Except.ok.inj (hd.symm.trans (freezeWith_strings hmembers hall)), detachedToLuaObject,
      shapeWith_table_iff] at hshape
    have hstrings : KeysAreCStrings (heap.entries r) := by
      intro e he key hkey
      obtain ⟨s, _, hentry⟩ := hshape.1 e he
      rw [hkey] at hentry
      exact zero_notMem_of_setMembers_eq_some hsol hentry
    refine ⟨hstrings, fun e he => ?_⟩
    obtain ⟨s, hs, hentry⟩ := hshape.1 e he
    have hmem := he
    rw [hmembers] at hmem
    obtain ⟨m, hm, rfl⟩ := List.mem_map.mp hmem
    rw [setMembers_strings hsol hmembers hstrings hm] at hentry
    rw [← (LuaShape.entry_eq_some_iff.mp hentry).1] at hs
    exact ⟨_, hall _ he, hs⟩
  · rintro ⟨hstrings, hall⟩
    refine ⟨_, freezeWith_strings hmembers fun e he => (hall e he).frozen_eq.1, ?_⟩
    rw [detachedToLuaObject, shapeWith_table_iff]
    refine ⟨fun e he => ?_, fun k hk => ?_⟩
    · have hs := (hall e he).frozen_eq.2
      refine ⟨_, hs, (?_ : _ = (detachedToLuaObject env.sol (frozen freeze e.2)).entry).trans
        (entry_eq_some_of_mem hnil he hs)⟩
      rw [hmembers] at he
      obtain ⟨m, hm, rfl⟩ := List.mem_map.mp he
      exact setMembers_strings hsol hmembers hstrings hm
    · rw [setMembers_of_ne]
      rintro out hout rfl
      obtain ⟨m, hm, rfl⟩ := List.mem_map.mp hout
      have hmem : (.string m.1, m.2) ∈ heap.entries r := by
        rw [hmembers]
        exact List.mem_map.mpr ⟨m, hm, rfl⟩
      rw [hsol.storedKey_eq_self (hstrings _ hmem _ rfl)] at hk
      exact hk (List.mem_map.mpr ⟨_, hmem, rfl⟩)

end Strings

section Numbers

variable {env : SnapshotEnv} {elements : List (ℕ × LuaValue ρ)}

theorem freezeWith_numbers (hne : elements ≠ []) (helements : Listed heap r elements)
    (hall : ∀ m ∈ elements, freeze m.2 = .ok (frozen freeze m.2)) :
    ∃ top, (∀ m ∈ elements, roundToDouble m.1 ≤ top) ∧
      (∃ m ∈ elements, top = roundToDouble m.1) ∧
        freezeWith env heap freeze (.table r) =
          if top ≤ env.maxArray then
            .ok (.array ((elements.map fun m => (roundToDouble m.1, frozen freeze m.2)).foldl
              FreezeState.store (List.replicate top .monostate)))
          else .error .length := by
  obtain ⟨top, hfreeze, _, hbound, htop⟩ :=
    freezeEntries_numbers elements {} helements.positive hall
  refine ⟨top, hbound, ?_, ?_⟩
  · refine htop.resolve_left ?_
    rintro rfl
    obtain ⟨m, hm⟩ := List.exists_mem_of_ne_nil _ hne
    have hround := one_le_roundToDouble (helements.positive m hm)
    have hzero : roundToDouble m.1 ≤ 0 := hbound m hm
    omega
  · rw [freezeWith, helements.entries, hfreeze]
    change FreezeState.finish _ _ = _
    rw [FreezeState.finish, if_pos]
    · rfl
    · refine ⟨?_, rfl, rfl⟩
      rw [List.nil_append]
      exact fun h => hne (List.map_eq_nil_iff.mp h)

/-- An element that arrives is one whose index is the rounded one of an element with its value. -/
theorem exists_stored_of_shape {top : ℕ} (helements : Listed heap r elements)
    (hshape : shapeWith heap child (.table r) = some (detachedToLuaObject env.sol (.array
      ((elements.map fun m => (roundToDouble m.1, frozen freeze m.2)).foldl FreezeState.store
        (List.replicate top .monostate))))) {m : ℕ × LuaValue ρ} (hm : m ∈ elements) :
    ∃ m' ∈ elements, roundToDouble m'.1 = m.1 ∧
      child m.2 = some (detachedToLuaObject env.sol (frozen freeze m'.2)) := by
  rw [detachedToLuaObject, shapeWith_table_iff] at hshape
  obtain ⟨s, hs, hentry⟩ := hshape.1 _ ((helements.mem_iff m).mpr hm)
  obtain ⟨n, d, hkey, hstored, hd⟩ := mem_of_setElements_eq_some hentry
  obtain ⟨m', hm', heq⟩ := List.mem_map.mp hstored
  injection heq with hindex hfrozen
  injection hkey with hkey
  injection hkey with hkey
  refine ⟨m', hm', hindex.trans (Int.ofNat_inj.mp hkey).symm, ?_⟩
  rw [hfrozen, hd]
  exact hs

theorem fits_of_freezeWith_numbers (hne : elements ≠ []) (helements : Listed heap r elements)
    (hkeys : PlainKeys (heap.entries r))
    (h : Crosses env.sol (freezeWith env heap freeze) (shapeWith heap child) (.table r)) :
    (∀ m ∈ elements, roundToDouble m.1 = m.1 ∧ m.1 ≤ env.maxArray) ∧
      ∀ m ∈ elements, Crosses env.sol freeze child m.2 := by
  obtain ⟨d, hd, hshape⟩ := h
  obtain ⟨_, _, _, hall⟩ := freezeWith_table_eq_ok hkeys hd
  rw [helements.entries, List.forall_mem_map] at hall
  obtain ⟨top, hbound, _, hfreeze⟩ := freezeWith_numbers hne helements hall
  rw [hfreeze] at hd
  split_ifs at hd with htop
  rw [← Except.ok.inj hd] at hshape
  have hround : ∀ m ∈ elements, roundToDouble m.1 = m.1 := by
    intro m hm
    obtain ⟨m', _, hindex, _⟩ := exists_stored_of_shape helements hshape hm
    rw [← hindex, roundToDouble_idem]
  constructor
  · intro m hm
    have hrounded := hround m hm
    have hbounded := hbound m hm
    exact ⟨hrounded, by omega⟩
  · intro m hm
    obtain ⟨m', hm', hindex, hs⟩ := exists_stored_of_shape helements hshape hm
    rw [hround m' hm'] at hindex
    rw [helements.value_eq hm' hm hindex] at hs
    exact ⟨_, hall m hm, hs⟩

theorem freezeWith_numbers_crosses (hnil : ∀ v, child v = some .nil → v = .nil)
    (hne : elements ≠ []) (helements : Listed heap r elements)
    (hround : ∀ m ∈ elements, roundToDouble m.1 = m.1 ∧ m.1 ≤ env.maxArray)
    (hall : ∀ m ∈ elements, Crosses env.sol freeze child m.2) :
    Crosses env.sol (freezeWith env heap freeze) (shapeWith heap child) (.table r) := by
  obtain ⟨top, hbound, ⟨m, hm, htop⟩, hfreeze⟩ := freezeWith_numbers hne helements
    fun m hm => (hall m hm).frozen_eq.1
  have hstored : (elements.map fun m => (roundToDouble m.1, frozen freeze m.2)) =
      elements.map fun m => (m.1, frozen freeze m.2) :=
    List.map_congr_left fun m hm => Prod.ext (hround m hm).1 rfl
  have hfits : top ≤ env.maxArray := by
    rw [htop, (hround m hm).1]
    exact (hround m hm).2
  rw [if_pos hfits, hstored] at hfreeze
  refine ⟨_, hfreeze, ?_⟩
  rw [detachedToLuaObject, shapeWith_table_iff]
  constructor
  · intro e he
    have hmem := he
    rw [helements.entries] at hmem
    obtain ⟨m, hm, rfl⟩ := List.mem_map.mp hmem
    have hs := (hall m hm).frozen_eq.2
    refine ⟨_, hs, (?_ : _ = (detachedToLuaObject env.sol (frozen freeze m.2)).entry).trans
      (entry_eq_some_of_mem hnil he hs)⟩
    apply setElements_eq_of_mem
    · rw [List.map_map]
      exact helements.nodup
    · exact List.mem_map.mpr ⟨m, hm, rfl⟩
    · exact helements.positive m hm
    · have hbounded := hbound m hm
      rwa [(hround m hm).1] at hbounded
  · intro k hk
    rw [Option.eq_none_iff_forall_ne_some]
    intro s hs
    obtain ⟨n, d, rfl, hstored, _⟩ := mem_of_setElements_eq_some hs
    obtain ⟨m, hm, heq⟩ := List.mem_map.mp hstored
    injection heq with hn
    rw [← hn] at hk
    exact hk (List.mem_map.mpr ⟨_, (helements.mem_iff m).mpr hm, rfl⟩)

theorem Listed.keysFit_iff (h : Listed heap r elements) {maxArray : ℕ} :
    KeysFit maxArray (heap.entries r) ↔
      ∀ m ∈ elements, roundToDouble m.1 = m.1 ∧ m.1 ≤ maxArray := by
  constructor
  · exact fun hfit m hm => hfit.double _ ((h.mem_iff m).mpr hm) _ rfl
  · refine fun hround => ⟨fun e he n hn => ?_, fun e he key hkey => ?_⟩
    · exact hround (n, e.2) ((h.mem_iff (n, e.2)).mp (by rw [← hn]; exact he))
    · rw [h.entries] at he
      obtain ⟨m, _, rfl⟩ := List.mem_map.mp he
      exact nomatch hkey

theorem freezeWith_numbers_crosses_iff (hnil : ∀ v, child v = some .nil → v = .nil)
    (hne : heap.entries r ≠ [])
    (hkeys : ∀ e ∈ heap.entries r, ∃ n : ℕ, 1 ≤ n ∧ e.1 = .number (.integer n)) :
    Crosses env.sol (freezeWith env heap freeze) (shapeWith heap child) (.table r) ↔
      KeysFit env.maxArray (heap.entries r) ∧
        ∀ e ∈ heap.entries r, Crosses env.sol freeze child e.2 := by
  obtain ⟨elements, hpos, hentries⟩ := exists_elements_of_numbers hkeys
  have helements : Listed heap r elements := ⟨hpos, hentries⟩
  have hne' : elements ≠ [] := by
    rintro rfl
    exact hne hentries
  have hforall : (∀ e ∈ heap.entries r, Crosses env.sol freeze child e.2) ↔
      ∀ m ∈ elements, Crosses env.sol freeze child m.2 := by
    rw [hentries, List.forall_mem_map]
  rw [hforall, helements.keysFit_iff]
  constructor
  · exact fits_of_freezeWith_numbers hne' helements (.inr hkeys)
  · exact fun ⟨hround, hall⟩ => freezeWith_numbers_crosses hnil hne' helements hround hall

end Numbers

end Crossing

section Levels

variable {ρ : Type} {heap : LuaHeap ρ} {env : SnapshotEnv}

/-- One level: what crosses, if it is known what in a table does. -/
theorem freezeWith_crosses_iff {child : LuaValue ρ → Except FreezeError DetachedLuaValue}
    {childShape : LuaValue ρ → Option LuaShape} {Plain Fits : LuaValue ρ → Prop}
    (hsol : env.sol.Lawful) (hnil : ∀ v, childShape v = some .nil → v = .nil)
    (hchild : ∀ v, Plain v → (Crosses env.sol child childShape v ↔ Fits v)) {v : LuaValue ρ}
    (hv : IsDataWith heap plainData Plain v) :
    Crosses env.sol (freezeWith env heap child) (shapeWith heap childShape) v ↔
      ThroughoutWith heap (KeysFit env.maxArray) Fits v := by
  cases v with
  | nil | boolean b | string s => exact iff_of_true ⟨_, rfl, rfl⟩ trivial
  | number x =>
    refine iff_of_true ?_ trivial
    cases x with
    | integer n =>
      refine ⟨.int n, ?_, rfl⟩
      rw [freezeWith, if_pos (hsol.isInt_integer n hv), hsol.asInt_integer n hv]
    | float x =>
      refine ⟨.double x, ?_, rfl⟩
      rw [freezeWith, if_neg, hsol.asDouble_float]
      rw [hsol.isInt_of_not_isIntegral hv]
      exact Bool.false_ne_true
  | table r =>
    obtain ⟨hkeys, hplain⟩ := hv
    have hentries : (∀ e ∈ heap.entries r, Crosses env.sol child childShape e.2) ↔
        ∀ e ∈ heap.entries r, Fits e.2 :=
      forall₂_congr fun e he => hchild e.2 (hplain e he)
    rw [ThroughoutWith, ← hentries]
    by_cases hstrings : ∀ e ∈ heap.entries r, ∃ s, e.1 = .string s
    · rw [freezeWith_strings_crosses_iff hsol hnil hstrings]
      refine and_congr_left fun _ => ⟨fun h => ⟨fun e he n hn => ?_, h⟩, KeysFit.string⟩
      obtain ⟨s, hs⟩ := hstrings e he
      cases hs.symm.trans hn
    · have hne : heap.entries r ≠ [] := by
        intro h
        rw [h] at hstrings
        exact hstrings (List.forall_mem_nil _)
      exact freezeWith_numbers_crosses_iff hnil hne (hkeys.resolve_left hstrings)
  | function | thread | userdata => exact absurd hv id

/-- Plain data crosses exactly if its keys fit. -/
theorem freeze_crosses_iff (hsol : env.sol.Lawful) : ∀ (depth : ℕ) {v : LuaValue ρ},
    IsData heap plainData depth v →
      (Crosses env.sol (freeze env heap (depth + 1)) (shape heap depth) v ↔
        Throughout heap (KeysFit env.maxArray) depth v) := by
  intro depth
  induction depth with
  | zero =>
    intro v hv
    have hnil : ∀ v : LuaValue ρ, (none : Option LuaShape) = some .nil → v = .nil := nofun
    have hchild : ∀ v : LuaValue ρ, False →
        (Crosses env.sol (freeze env heap 0) (fun _ => none) v ↔ True) := nofun
    exact freezeWith_crosses_iff hsol hnil hchild hv
  | succ depth ih =>
    intro v hv
    refine freezeWith_crosses_iff hsol (fun v h => ?_) (fun v hv => ih hv) hv
    cases depth with
    | zero => exact shapeWith_eq_nil_iff.mp h
    | succ depth => exact shapeWith_eq_nil_iff.mp h

/-- One level: a table through which something leads that cannot cross is not frozen. -/
theorem freezeWith_ne_ok {child : LuaValue ρ → Except FreezeError DetachedLuaValue}
    {Leads : LuaValue ρ → Prop} (hchild : ∀ v, Leads v → ∀ d, child v ≠ .ok d) {v : LuaValue ρ}
    (hv : LeadsToUnsupportedWith heap Leads v) (d : DetachedLuaValue) :
    freezeWith env heap child v ≠ .ok d := by
  intro h
  rcases hv with hunsupported | ⟨r, rfl, hkeys, e, he, hleads⟩
  · cases v with
    | function | thread | userdata => exact nomatch h
    | _ => exact hunsupported
  · obtain ⟨_, _, _, hall⟩ := freezeWith_table_eq_ok hkeys h
    exact hchild e.2 hleads _ (hall e he)

theorem freeze_ne_ok : ∀ (depth : ℕ) {v : LuaValue ρ}, LeadsToUnsupported heap depth v →
    ∀ d, freeze env heap (depth + 1) v ≠ .ok d := by
  intro depth
  induction depth with
  | zero =>
    intro v hv
    have hchild : ∀ v : LuaValue ρ, True → ∀ d, freeze env heap 0 v ≠ .ok d := fun _ _ _ => nofun
    exact freezeWith_ne_ok hchild hv
  | succ depth ih =>
    intro v hv
    exact freezeWith_ne_ok (fun v hv => ih hv) hv

end Levels

namespace TLuaResult

variable {ρ : Type} (env : SnapshotEnv) (heap : LuaHeap ρ)

/-- Plain data arrives as it was sent; what cannot cross throws, and the result stays as it was. -/
def CrossesUnchanged (result : TLuaResult) (v : LuaValue ρ) : Prop :=
  (IsData heap plainData 64 v → ∃ value,
    result.markReadySuccess env heap v =
      (none, { mReady := true, mError := false, mDetachedResult := value }) ∧
    shape heap 64 v = some (detachedToLuaObject env.sol value)) ∧
  (LeadsToUnsupported heap 64 v → ∃ e result',
    result.markReadySuccess env heap v = (some e, result') ∧
    result'.mReady = result.mReady ∧ result'.mDetachedResult = result.mDetachedResult)

variable {env heap}

theorem markReadySuccess_eq_of_ok {result : TLuaResult} {v : LuaValue ρ} {d : DetachedLuaValue}
    (h : freeze env heap 65 v = .ok d) : result.markReadySuccess env heap v =
      (none, { mReady := true, mError := false, mDetachedResult := d }) := by
  rw [markReadySuccess, h]

theorem markReadySuccess_eq_of_error {result : TLuaResult} {v : LuaValue ρ} {e : FreezeError}
    (h : freeze env heap 65 v = .error e) : result.markReadySuccess env heap v =
      (some e, { result with mError := false }) := by
  rw [markReadySuccess, h]

/-- Results cross unchanged exactly if the array that each table of positive integers becomes
can be built with the keys as they are, and no key that is a string contains a NUL. -/
theorem crossesUnchanged_iff (hsol : env.sol.Lawful) (result : TLuaResult) (v : LuaValue ρ) :
    result.CrossesUnchanged env heap v ↔
      (IsData heap plainData 64 v → Throughout heap (KeysFit env.maxArray) 64 v) := by
  constructor
  · rintro ⟨hplain, _⟩ hv
    rw [← freeze_crosses_iff hsol 64 hv]
    obtain ⟨value, hmark, hshape⟩ := hplain hv
    refine ⟨value, ?_, hshape⟩
    cases hfreeze : freeze env heap 65 v with
    | error e =>
      rw [markReadySuccess_eq_of_error hfreeze] at hmark
      injection hmark with hmark
      exact nomatch hmark
    | ok d =>
      rw [markReadySuccess_eq_of_ok hfreeze] at hmark
      injection hmark with _ hmark
      injection hmark with _ _ hmark
      rw [hmark]
  · intro hfits
    constructor
    · intro hv
      obtain ⟨d, hfreeze, hshape⟩ := (freeze_crosses_iff hsol 64 hv).mpr (hfits hv)
      exact ⟨d, markReadySuccess_eq_of_ok hfreeze, hshape⟩
    · intro hv
      cases hfreeze : freeze env heap 65 v with
      | error e => exact ⟨e, _, markReadySuccess_eq_of_error hfreeze, rfl, rfl⟩
      | ok d => exact absurd hfreeze (freeze_ne_ok 64 hv d)

def sparseTable (n : ℕ) : LuaHeap Unit where
  entries _ := [(.number (.integer n), .boolean true)]
  isTable _ := ⟨List.nodup_singleton _, by simp⟩

theorem crossesUnchanged_sparse :
    ({} : TLuaResult).CrossesUnchanged { sol := .checked, maxArray := 2 ^ 57 } (sparseTable 5)
      (.table ()) := by
  refine (crossesUnchanged_iff Sol.checked_lawful {} (.table ())).mpr fun _ => ⟨⟨?_, ?_⟩, ?_⟩
  · intro e he n hn
    obtain rfl := List.mem_singleton.mp he
    injection hn with hn
    injection hn with hn
    obtain rfl := Int.ofNat_inj.mp hn
    decide
  · intro e he key hkey
    rw [List.mem_singleton.mp he] at hkey
    exact nomatch hkey
  · intro e he
    obtain rfl := List.mem_singleton.mp he
    trivial

/-- No array is as long as this key says. -/
theorem not_crossesUnchanged_sparse :
    ¬({} : TLuaResult).CrossesUnchanged { sol := .checked, maxArray := 2 ^ 57 }
      (sparseTable (2 ^ 62)) (.table ()) := by
  rintro ⟨h, _⟩
  obtain ⟨value, hmark, _⟩ := h
    ⟨.inr fun e he => ⟨2 ^ 62, by decide, by rw [List.mem_singleton.mp he]⟩, fun e he => by
      rw [List.mem_singleton.mp he]
      trivial⟩
  have hthrows : (({} : TLuaResult).markReadySuccess { sol := .checked, maxArray := 2 ^ 57 }
      (sparseTable (2 ^ 62)) (.table ())).1 = some .length := by
    decide
  rw [hmark] at hthrows
  exact nomatch hthrows

end TLuaResult

end BeamMP
