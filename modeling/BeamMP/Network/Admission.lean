import BeamMP.Network.Authentication

/-!
# The admission decision

`Authentication` puts its decision together from a loop that ends at the first 1,
a search for a string, the guest flag and the player limit. Whatever the order of
the handlers, it comes to one rule. The limit is compared as a `size_t`, so that a
negative one is none at all.
-/
namespace BeamMP

open Programs

inductive AdmissionEvent
  | kicked
  | posted (denied : Bool)
  | inserted
deriving DecidableEq

namespace AuthSection

variable {γ : Type}

def event : AuthSection γ → Option AdmissionEvent
  | .clientKick _ => some .kicked
  | .postPlayerAuth denied _ => some (.posted denied)
  | .insertClient => some .inserted
  | .copyClients | .visit _ | .clientCount => none

/-- What the other threads let a section find. -/
def answer (clients : List γ) (stale : γ → Bool) (count : ℕ) : (k : AuthSection γ) → k.Answer
  | .copyClients => clients
  | .visit d => stale d
  | .clientCount => count
  | .clientKick _ | .postPlayerAuth _ _ | .insertClient => ()

def noted (clients : List γ) (stale : γ → Bool) (count : ℕ) (k : AuthSection γ)
    (sections : List (AuthSection γ)) : k.Answer × List (AuthSection γ) :=
  (answer clients stale count k, sections ++ [k])

end AuthSection

section Decision

variable {γ : Type} (settings : AuthSettings) (isGuest : Bool) (results : List LuaResult)

/-- What `Authentication` does to the client and tells the plugins. -/
def admission (clients : List γ) (stale : γ → Bool) (count : ℕ) : List AdmissionEvent :=
  ((AuthProgram.authentication settings isGuest results).alone
    (AuthSection.noted clients stale count) []).2.filterMap AuthSection.event

/-- The rule: no 1, no string, no guest unless allowed, and room or a 2. -/
def Admits (count : ℕ) : Prop :=
  .int 1 ∉ results ∧ (∀ s, .string s ∉ results) ∧
    (settings.allowGuests = true ∨ isGuest = false) ∧
    ((count : ℤ) < settings.maxPlayers ∨ .int 2 ∈ results)

/-- The client is inserted by the rule, kicked once otherwise, and the plugins are told. -/
def DecidesByRule (count : ℕ) (events : List AdmissionEvent) : Prop :=
  (.inserted ∈ events ↔ Admits settings isGuest results count) ∧
  events.count .kicked = (if .inserted ∈ events then 0 else 1) ∧
  ∀ denied, .posted denied ∈ events ↔ denied = decide (.inserted ∉ events)

def finalVerdict (count : ℕ) : AuthVerdict :=
  if (AuthVerdict.ofResults settings isGuest results).denied then
    .ofResults settings isGuest results
  else (AuthVerdict.ofResults settings isGuest results).withCount settings count

end Decision

theorem scanResults_notAllowed_iff (results : List LuaResult) (bypassLimit : Bool) :
    (scanResults results bypassLimit).1 = true ↔ .int 1 ∈ results := by
  induction results generalizing bypassLimit with
  | nil => simp [scanResults]
  | cons r results ih =>
    cases r with
    | int n =>
      by_cases hone : n = 1
      · simp [scanResults, hone]
      · by_cases htwo : n = 2
        · simp [scanResults, htwo, ih]
        · simp [scanResults, hone, htwo, ih, Ne.symm hone]
    | _ => simp [scanResults, ih]

/-- The loop that does not end early has seen every 2. -/
theorem scanResults_bypass_iff {results : List LuaResult} (hone : .int 1 ∉ results)
    (bypassLimit : Bool) :
    (scanResults results bypassLimit).2 = true ↔ bypassLimit = true ∨ .int 2 ∈ results := by
  induction results generalizing bypassLimit with
  | nil => simp [scanResults]
  | cons r results ih =>
    obtain ⟨hr, hresults⟩ := not_or.mp (mt List.mem_cons.mpr hone)
    cases r with
    | int n =>
      have hn : n ≠ 1 := fun h => hr (h ▸ rfl)
      by_cases htwo : n = 2
      · simp [scanResults, htwo, ih hresults]
      · simp [scanResults, hn, htwo, ih hresults, Ne.symm htwo]
    | _ => simp [scanResults, ih hresults]

theorem stringReason_eq_none_iff (results : List LuaResult) :
    stringReason results = none ↔ ∀ s, .string s ∉ results := by
  unfold stringReason
  rw [List.findSome?_eq_none_iff]
  constructor
  · intro h s hs
    exact nomatch h _ hs
  · intro h r hr
    cases r with
    | string s => exact absurd hr (h s)
    | _ => rfl

section Verdict

variable (settings : AuthSettings) (isGuest : Bool) (results : List LuaResult)

theorem ofResults_denied_eq_false_iff :
    (AuthVerdict.ofResults settings isGuest results).denied = false ↔
      .int 1 ∉ results ∧ (∀ s, .string s ∉ results) ∧
        (settings.allowGuests = true ∨ isGuest = false) := by
  rw [← stringReason_eq_none_iff, ← scanResults_notAllowed_iff results false]
  simp only [AuthVerdict.denied, AuthVerdict.ofResults]
  cases (scanResults results false).1 <;> cases stringReason results <;>
    cases settings.allowGuests <;> cases isGuest <;> simp

/-- The verdict by the rule, with the limit as the code compares it. -/
theorem finalVerdict_denied_eq_false_iff (count : ℕ) :
    (finalVerdict settings isGuest results count).denied = false ↔
      .int 1 ∉ results ∧ (∀ s, .string s ∉ results) ∧
        (settings.allowGuests = true ∨ isGuest = false) ∧
        (count < sizeT settings.maxPlayers ∨ .int 2 ∈ results) := by
  unfold finalVerdict
  cases hdenied : (AuthVerdict.ofResults settings isGuest results).denied with
  | true =>
    rw [if_pos rfl, hdenied]
    refine iff_of_false Bool.noConfusion fun h => ?_
    have hallowed := (ofResults_denied_eq_false_iff settings isGuest results).mpr
      ⟨h.1, h.2.1, h.2.2.1⟩
    rw [hdenied] at hallowed
    exact Bool.noConfusion hallowed
  | false =>
    obtain ⟨hone, hstring, hguest⟩ :=
      (ofResults_denied_eq_false_iff settings isGuest results).mp hdenied
    have hbypass := scanResults_bypass_iff hone false
    simp only [Bool.false_eq_true, false_or] at hbypass
    rw [if_neg Bool.false_ne_true, ← hbypass, ← not_le]
    unfold AuthVerdict.withCount
    split_ifs with hfull
    · simp only [Bool.and_eq_true, decide_eq_true_eq, Bool.not_eq_true'] at hfull
      refine iff_of_false (by simp [AuthVerdict.denied]) fun h => ?_
      rcases h.2.2.2 with hroom | htwo
      · exact hroom hfull.1
      · rw [show (scanResults results false).2 = false from hfull.2] at htwo
        exact Bool.noConfusion htwo
    · refine iff_of_true hdenied ⟨hone, hstring, hguest, ?_⟩
      by_contra h
      obtain ⟨hroom, htwo⟩ := not_or.mp h
      refine hfull (Bool.and_eq_true_iff.mpr ⟨decide_eq_true (not_not.mp hroom), ?_⟩)
      rw [Bool.not_eq_true', ← Bool.not_eq_true]
      exact htwo

end Verdict

section Events

variable {γ : Type} (clients : List γ) (stale : γ → Bool) (count : ℕ)

theorem alone_visit_bind (d : γ) (next : Bool → AuthProgram γ Unit)
    (sections : List (AuthSection γ)) :
    (AuthProgram.visit d >>= next).alone (AuthSection.noted clients stale count) sections =
      (next (stale d)).alone (AuthSection.noted clients stale count)
        (sections ++ [.visit d]) := rfl

theorem scan_events (visited : List γ) (sections : List (AuthSection γ)) :
    ((AuthProgram.scan visited).alone (AuthSection.noted clients stale count)
      sections).2.filterMap AuthSection.event = sections.filterMap AuthSection.event := by
  induction visited generalizing sections with
  | nil => rfl
  | cons d visited ih =>
    have hskip : (sections ++ [AuthSection.visit d]).filterMap AuthSection.event =
        sections.filterMap AuthSection.event := by
      simp [AuthSection.event]
    rw [AuthProgram.scan, alone_visit_bind]
    split_ifs with hstop
    · exact hskip
    · exact (ih _).trans hskip

theorem finish_events (v : AuthVerdict) (sections : List (AuthSection γ)) :
    ((AuthProgram.finish v).alone (AuthSection.noted clients stale count)
      sections).2.filterMap AuthSection.event = sections.filterMap AuthSection.event ++
        if v.denied then [.kicked, .posted true] else [.posted false, .inserted] := by
  unfold AuthProgram.finish AuthProgram.kickIfDenied
  cases v.denied with
  | true =>
    change (sections ++ [AuthSection.clientKick v.kickReason] ++
      [AuthSection.postPlayerAuth true (v.reason.getD [])]).filterMap AuthSection.event = _
    simp [AuthSection.event]
  | false =>
    change (sections ++ [AuthSection.postPlayerAuth false (v.reason.getD [])] ++
      [AuthSection.insertClient]).filterMap AuthSection.event = _
    simp [AuthSection.event]

variable (settings : AuthSettings) (isGuest : Bool) (results : List LuaResult)

theorem verdict_events (sections : List (AuthSection γ)) :
    ((AuthProgram.verdict settings (.ofResults settings isGuest results)).alone
      (AuthSection.noted clients stale count) sections).1 =
        finalVerdict settings isGuest results count ∧
    ((AuthProgram.verdict settings (.ofResults settings isGuest results)).alone
      (AuthSection.noted clients stale count) sections).2.filterMap AuthSection.event =
        sections.filterMap AuthSection.event := by
  unfold AuthProgram.verdict finalVerdict
  cases (AuthVerdict.ofResults settings isGuest results).denied with
  | true => exact ⟨rfl, rfl⟩
  | false =>
    refine ⟨rfl, ?_⟩
    change (sections ++ [AuthSection.clientCount]).filterMap AuthSection.event = _
    simp [AuthSection.event]

theorem admission_eq :
    admission settings isGuest results clients stale count =
      if (finalVerdict settings isGuest results count).denied then [.kicked, .posted true]
      else [.posted false, .inserted] := by
  unfold admission AuthProgram.authentication
  simp only [Program.alone_bind]
  rw [finish_events, (verdict_events clients stale count settings isGuest results _).1,
    (verdict_events clients stale count settings isGuest results _).2, scan_events]
  rfl

/-- Only the comparison of the limit can keep the decision from the rule. -/
theorem decidesByRule_iff_admits :
    DecidesByRule settings isGuest results count
        (admission settings isGuest results clients stale count) ↔
      ((finalVerdict settings isGuest results count).denied = false ↔
        Admits settings isGuest results count) := by
  unfold DecidesByRule
  rw [admission_eq]
  cases (finalVerdict settings isGuest results count).denied <;> simp

/-- The limit decides: nobody denies the client, and no handler lifts the limit. -/
def LimitDecides : Prop :=
  .int 1 ∉ results ∧ (∀ s, .string s ∉ results) ∧
    (settings.allowGuests = true ∨ isGuest = false) ∧ .int 2 ∉ results

theorem finalVerdict_perm {results' : List LuaResult} (h : results.Perm results') :
    (finalVerdict settings isGuest results' count).denied =
      (finalVerdict settings isGuest results count).denied := by
  have hmem : ∀ r, r ∈ results' ↔ r ∈ results := fun r => h.mem_iff.symm
  have hiff : (finalVerdict settings isGuest results' count).denied = false ↔
      (finalVerdict settings isGuest results count).denied = false := by
    rw [finalVerdict_denied_eq_false_iff, finalVerdict_denied_eq_false_iff]
    simp only [hmem]
  exact Bool.eq_iff_iff.mpr (by simpa using not_congr hiff)

theorem lt_sizeT_iff {n : ℤ} (hmax : n ≤ intMax) :
    (count < sizeT n ↔ (count : ℤ) < n) ↔ ¬(n < 0 ∧ count < sizeT n) := by
  have hint : (intMax : ℤ) < 2 ^ 64 := by decide
  rcases lt_or_ge n 0 with hneg | hnonneg
  · have hbelow : ¬(count : ℤ) < n := by omega
    simp [hneg, hbelow]
  · have hsize : (sizeT n : ℤ) = n := by
      rw [sizeT, Int.emod_eq_of_lt hnonneg (by omega), Int.toNat_of_nonneg hnonneg]
    refine iff_of_true ?_ fun h => absurd h.1 (not_lt.mpr hnonneg)
    rw [← Nat.cast_lt (α := ℤ), hsize]

/-- `Authentication` decides by the rule, unless the limit decides, is negative and the number of
clients is below it as a `size_t`; and the order of the handlers never matters. -/
theorem admission_byRule_iff (hmax : settings.maxPlayers ≤ intMax) :
    (DecidesByRule settings isGuest results count
        (admission settings isGuest results clients stale count) ↔
      ¬(LimitDecides settings isGuest results ∧ settings.maxPlayers < 0 ∧
        count < sizeT settings.maxPlayers)) ∧
    ∀ results', results.Perm results' →
      admission settings isGuest results' clients stale count =
        admission settings isGuest results clients stale count := by
  constructor
  · have hsize := lt_sizeT_iff count hmax
    rw [decidesByRule_iff_admits, finalVerdict_denied_eq_false_iff]
    by_cases hlimit : LimitDecides settings isGuest results
    · obtain ⟨hone, hstring, hguest, htwo⟩ := hlimit
      simpa [Admits, LimitDecides, hone, hstring, hguest, htwo] using hsize
    · refine iff_of_true ?_ fun h => hlimit h.1
      refine and_congr_right fun hone => and_congr_right fun hstring =>
        and_congr_right fun hguest => ?_
      have htwo : .int 2 ∈ results := by
        by_contra htwo
        exact hlimit ⟨hone, hstring, hguest, htwo⟩
      exact iff_of_true (.inr htwo) (.inr htwo)
  · intro results' hperm
    rw [admission_eq, admission_eq, finalVerdict_perm count settings isGuest results hperm]

end Events

/-- Two handlers let a player in past the limit and to an empty list of stale clients, in
whatever order they are listed. -/
theorem admission_byRule_with_bypass :
    DecidesByRule ⟨false, 2⟩ false [.other, .int 2] 5
      (admission ⟨false, 2⟩ false [.other, .int 2] ([] : List Unit) (fun _ => false) 5) ∧
    admission ⟨false, 2⟩ false [.int 2, .other] ([] : List Unit) (fun _ => false) 5 =
      admission ⟨false, 2⟩ false [.other, .int 2] ([] : List Unit) (fun _ => false) 5 := by
  obtain ⟨hrule, hperm⟩ := admission_byRule_iff ([] : List Unit) (fun _ => false) 5 ⟨false, 2⟩ false
    [.other, .int 2] (by decide)
  exact ⟨hrule.mpr fun h => absurd h.2.1 (by decide), hperm _ (List.Perm.swap _ _ _)⟩

/-- A server with the limit -1 lets everybody in. -/
theorem not_decidesByRule_with_negative_limit :
    admission ⟨true, -1⟩ false [] ([] : List Unit) (fun _ => false) 0 =
      [.posted false, .inserted] ∧
    ¬DecidesByRule ⟨true, -1⟩ false [] 0
      (admission ⟨true, -1⟩ false [] ([] : List Unit) (fun _ => false) 0) := by
  have hevents : admission ⟨true, -1⟩ false [] ([] : List Unit) (fun _ => false) 0 =
      [.posted false, .inserted] := by rfl
  refine ⟨hevents, fun h => ?_⟩
  have hadmits := h.1.mp (by rw [hevents]; decide)
  rcases hadmits.2.2.2 with hroom | htwo
  · exact absurd hroom (by decide)
  · cases htwo

end BeamMP
