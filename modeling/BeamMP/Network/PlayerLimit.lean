import BeamMP.Network.Authentication
import Mathlib.Tactic.Linarith

/-!
# The player limit

A connection tests `ClientCount` and inserts its client in two steps. The number
of clients stays within `MaxPlayers` as long as no test finds room that other
connections, which have passed their test, are about to take.
-/
namespace BeamMP

open Programs AuthProgram

namespace AuthState

variable {γ : Type} (settings : AuthSettings)

/-- The clients and those for which there was room are together within the limit. -/
def WithinLimit (s : AuthState γ) : Prop :=
  s.clients.length + s.admitted.length ≤ sizeT settings.maxPlayers

/-- A test of `ClientCount` that finds room finds room beside all clients that have passed
theirs and are not inserted yet. -/
def testsAlone (k : AuthSection γ) (s : AuthState γ) : Prop :=
  match k with
  | .clientCount => s.clients.length < sizeT settings.maxPlayers →
      s.clients.length + s.admitted.length < sizeT settings.maxPlayers
  | _ => True

instance (s : AuthState γ) : ∀ k : AuthSection γ, Decidable (testsAlone settings k s)
  | .clientCount => inferInstanceAs (Decidable (_ < _ → _ < _))
  | .copyClients | .visit _ | .clientKick _ | .postPlayerAuth _ _ | .insertClient => isTrue trivial

theorem start_withinLimit : (start γ).WithinLimit settings := Nat.zero_le _

end AuthState

namespace PlayerLimit

variable {γ : Type} (settings : AuthSettings) (identity : γ → Bytes × Bool)

/-- Nobody else takes the room that was found for a client. -/
def rely (c : γ) (s s' : AuthState γ) : Prop := c ∈ s.admitted → c ∈ s'.admitted

def guar (c : γ) (s s' : AuthState γ) : Prop :=
  (s.WithinLimit settings → s'.WithinLimit settings) ∧ ∀ d, d ≠ c → rely d s s'

/-- The sections that change neither `mClients` nor the clients there is room for. -/
def quiet : AuthSection γ → Bool
  | .clientCount | .insertClient => false
  | _ => true

theorem scan_uses (clients : List γ) : (scan clients).Uses (fun k => quiet k = true) := by
  induction clients with
  | nil => exact trivial
  | cons d clients ih =>
    apply Program.Uses.bind
    · exact (Program.uses_perform (AuthSection.visit d)).mpr rfl
    · intro stop
      cases stop with
      | true => exact trivial
      | false => exact ih

theorem scanResults_bypass {results : List LuaResult} (h : ∀ r ∈ results, r ≠ .int 2) :
    (scanResults results false).2 = false := by
  induction results with
  | nil => rfl
  | cons r results ih =>
    have htail := ih fun r hr => h r (List.mem_cons_of_mem _ hr)
    cases r with
    | int n =>
      have hn : n ≠ 2 := by
        intro heq
        exact h (.int n) List.mem_cons_self (by rw [heq])
      simp only [scanResults, if_neg hn]
      split_ifs
      · rfl
      · exact htail
    | _ => exact htail

variable [DecidableEq γ] {c : γ}

abbrev Keeps {α : Type} (c : γ) (post : α → AuthState γ → Prop) (p : AuthProgram γ α)
    (pre : AuthState γ → Prop) : Prop :=
  Meets (AuthState.exec settings identity c) (fun _ => AuthState.testsAlone settings)
    (rely c) (guar settings c) post p pre

variable {settings identity}

theorem keeps_locked {k : AuthSection γ} {pre : AuthState γ → Prop}
    {post : k.Answer → AuthState γ → Prop}
    (hstable : ∀ x, Stable (rely c) (post x))
    (h : ∀ order s, pre s → AuthState.testsAlone settings k s →
      guar settings c s (AuthState.exec settings identity c order k s).2 ∧
        post (AuthState.exec settings identity c order k s).1
          (AuthState.exec settings identity c order k s).2) :
    Keeps settings identity c post (locked k) pre :=
  meets_perform hstable h

variable (settings identity c) in
theorem exec_quiet {k : AuthSection γ} (hk : quiet k = true) (order : List γ) (s : AuthState γ) :
    (AuthState.exec settings identity c order k s).2.clients = s.clients ∧
      (AuthState.exec settings identity c order k s).2.admitted = s.admitted := by
  cases k with
  | clientCount => cases hk
  | insertClient => cases hk
  | visit d =>
    by_cases h : identity d = identity c <;> simp [AuthState.exec, AuthState.disconnect, h]
  | _ => exact ⟨rfl, rfl⟩

theorem keeps_of_quiet {α : Type} {p : AuthProgram γ α} {P : Prop}
    (hp : p.Uses fun k => quiet k = true) :
    Keeps settings identity c (fun _ s => P → c ∈ s.admitted) p
      (fun s => P → c ∈ s.admitted) := by
  apply meets_of_uses hp
  · intro s s' h hrely hP
    exact hrely (h hP)
  · intro k hk order s hs _
    obtain ⟨hclients, hadmitted⟩ :=
      exec_quiet settings identity c hk order s
    refine ⟨⟨?_, ?_⟩, ?_⟩
    · simp [AuthState.WithinLimit, hclients, hadmitted]
    · intro d _ hd
      rwa [hadmitted]
    · rwa [hadmitted]

/-- The test of `ClientCount` reserves the room it finds. -/
theorem keeps_clientCount :
    Keeps settings identity c
      (fun count s => count < sizeT settings.maxPlayers → c ∈ s.admitted) clientCount
      (fun _ => True) := by
  apply keeps_locked (k := .clientCount)
  · intro count s s' h hrely hroom
    exact hrely (h hroom)
  · intro order s _ (halone : _ → _)
    by_cases hroom : s.clients.length < sizeT settings.maxPlayers
    · simp only [AuthState.exec, if_pos hroom]
      refine ⟨⟨?_, ?_⟩, ?_⟩
      · intro _
        have := halone hroom
        simp only [AuthState.WithinLimit, List.length_cons]
        omega
      · exact fun d _ hd => List.mem_cons_of_mem _ hd
      · exact fun _ => List.mem_cons_self
    · simp only [AuthState.exec, if_neg hroom]
      exact ⟨⟨fun h => h, fun _ _ hd => hd⟩, fun h => absurd h hroom⟩

theorem keeps_verdict {v : AuthVerdict} (hbypass : v.bypassLimit = false) :
    Keeps settings identity c
      (fun v' s => v'.denied = false → c ∈ s.admitted) (verdict settings v) (fun _ => True) := by
  unfold verdict
  split_ifs with hdenied
  · apply meets_pure
    intro s _ h
    rw [hdenied] at h
    cases h
  · apply keeps_clientCount.bind
    intro count
    apply meets_pure
    intro s hroom h
    apply hroom
    by_contra hfull
    have hfull : sizeT settings.maxPlayers ≤ count := Nat.le_of_not_lt hfull
    simp [AuthVerdict.withCount, AuthVerdict.denied, hbypass, hfull] at h

theorem keeps_insertClient :
    Keeps settings identity c (fun _ _ => True) insertClient
      (fun s => c ∈ s.admitted) := by
  apply keeps_locked (k := .insertClient)
  · exact fun _ _ _ _ _ => trivial
  · intro order s hmem _
    have hlength : (s.admitted.erase c).length = s.admitted.length - 1 :=
      List.length_erase_of_mem hmem
    have hpos : 0 < s.admitted.length := List.length_pos_of_mem hmem
    refine ⟨⟨?_, ?_⟩, trivial⟩
    · intro h
      simp only [AuthState.WithinLimit, AuthState.exec] at h ⊢
      split_ifs
      · omega
      · simp only [List.length_append, List.length_singleton]
        omega
    · intro d hd hmemd
      exact (List.mem_erase_of_ne hd).mpr hmemd

theorem keeps_finish (v : AuthVerdict) :
    Keeps settings identity c (fun _ _ => True) (finish v)
      (fun s => v.denied = false → c ∈ s.admitted) := by
  unfold finish
  have hkick : (kickIfDenied (γ := γ) v).Uses (fun k => quiet k = true) := by
    unfold kickIfDenied
    split_ifs
    · exact (Program.uses_perform (AuthSection.clientKick v.kickReason)).mpr rfl
    · exact trivial
  have hpost : (postPlayerAuth (γ := γ) v.denied (v.reason.getD [])).Uses
      (fun k => quiet k = true) :=
    (Program.uses_perform (AuthSection.postPlayerAuth _ _)).mpr rfl
  apply (keeps_of_quiet hkick).bind
  intro _
  apply (keeps_of_quiet hpost).bind
  intro _
  cases hdenied : v.denied with
  | true => exact meets_pure fun _ _ => trivial
  | false => exact keeps_insertClient.mono (fun s hs => hs rfl) (fun _ _ h => h)

theorem keeps_authentication {isGuest : Bool} {results : List LuaResult}
    (h : ∀ r ∈ results, r ≠ .int 2) :
    Keeps settings identity c (fun _ _ => True)
      (authentication settings isGuest results) (fun _ => True) := by
  have hquiet : ∀ {α : Type} {p : AuthProgram γ α}, p.Uses (fun k => quiet k = true) →
      Keeps settings identity c (fun _ _ => True) p (fun _ => True) := by
    intro α p hp
    exact (keeps_of_quiet (P := False) hp).mono (fun _ _ h => h.elim) (fun _ _ _ => trivial)
  apply (hquiet ((Program.uses_perform AuthSection.copyClients).mpr rfl)).bind
  intro clients
  apply (hquiet (scan_uses clients)).bind
  intro _
  exact (keeps_verdict (scanResults_bypass h)).bind keeps_finish

end PlayerLimit

namespace AuthThreads

variable {γ : Type} [DecidableEq γ] (settings : AuthSettings) (identity : γ → Bytes × Bool)

/-- The test of the player limit is made alone, in the sense of `AuthState.testsAlone`. -/
def TestsAlone (s : AuthThreads γ) : AuthAction γ → Prop
  | .advance c _ => ∀ k ∈ (s.program c).head?, AuthState.testsAlone settings k s.shared
  | _ => True

instance (s : AuthThreads γ) : ∀ a, Decidable (s.TestsAlone settings a)
  | .advance c _ =>
    inferInstanceAs
      (Decidable (∀ k ∈ (s.program c).head?, AuthState.testsAlone settings k s.shared))
  | .authentication _ _ | .disconnect _ | .removeClient _ => isTrue trivial

/-- No handler of `onPlayerAuth` returns 2. -/
def NoBypass : AuthAction γ → Prop
  | .authentication _ results => ∀ r ∈ results, r ≠ .int 2
  | _ => True

/-- Every thread keeps the clients and the promised room within the limit. -/
def LimitKept (s : AuthThreads γ) : Prop :=
  s.Sound (AuthState.exec settings identity) (fun _ _ => AuthState.testsAlone settings)
    PlayerLimit.rely (PlayerLimit.guar settings) (AuthState.WithinLimit settings)

variable {settings identity} {s t : AuthThreads γ}

/-- Step lemma: only a test that does not reckon with other connections breaks the limit. -/
theorem LimitKept.step {a : AuthAction γ} (h : s.LimitKept settings identity)
    (hbypass : NoBypass a) (halone : s.TestsAlone settings a)
    (hstep : s.step settings identity a = some t) : t.LimitKept settings identity := by
  cases a with
  | authentication c results =>
    simp only [AuthThreads.step] at hstep
    split_ifs at hstep
    have hcreated := Threads.Sound.interfere h (s.shared.create c) h.invariant
      fun _ hd => hd
    exact hcreated.start (PlayerLimit.keeps_authentication hbypass) hstep
  | advance c order =>
    apply Threads.Sound.advance h _ _ _ hstep
    · exact fun u v hne _ _ hguar => hguar.2 v hne
    · exact fun u _ _ hI hguar => hguar.1 hI
    · intro k next hcall
      exact halone k (by simp [hcall, Program.head?])
  | disconnect c =>
    cases hstep
    exact Threads.Sound.interfere h _ h.invariant fun _ hd => hd
  | removeClient c =>
    cases hstep
    apply Threads.Sound.interfere h _
    · have hle := List.length_filter_le (· ≠ c) s.shared.clients
      have hold : s.shared.clients.length + s.shared.admitted.length ≤
          sizeT settings.maxPlayers := h.invariant
      show (s.shared.clients.filter (· ≠ c)).length + s.shared.admitted.length ≤ _
      omega
    · exact fun _ hd => hd

/-- When each test of the player limit that finds room finds it beside the connections that
are about to insert their client, there are never more clients than `MaxPlayers`. -/
theorem clientCount_le_of_testsAlone (settings : AuthSettings) (hmax : 0 ≤ settings.maxPlayers)
    (identity : γ → Bytes × Bool) (as : List (AuthAction γ)) (hbypass : ∀ a ∈ as, NoBypass a)
    (has : Execution.Along (step settings identity) (TestsAlone settings) (start γ) as)
    (s : AuthThreads γ) (hrun : Execution.run (step settings identity) (start γ) as = some s) :
    (s.shared.clients.length : ℤ) ≤ settings.maxPlayers := by
  have hinv : s.LimitKept settings identity := by
    apply Execution.run_invariant _ _ (has.and (Execution.along_of_forall hbypass)) hrun
    · intro s a t h hguard hstep
      exact h.step hguard.2 hguard.1 hstep
    · exact Threads.idle_sound (AuthState.start_withinLimit settings)
  have hlimit : s.shared.clients.length + s.shared.admitted.length ≤
      sizeT settings.maxPlayers := hinv.invariant
  unfold sizeT at hlimit
  omega

/-- A connection is let in when the one before it has left the server again. -/
theorem clientCount_le_after_leave :
    ∃ s, Execution.run (step ⟨true, 1⟩ fun _ => ([], false)) (start (Fin 2))
        [.authentication 0 [], .advance 0 [], .advance 0 [], .advance 0 [], .advance 0 [],
          .disconnect 0, .removeClient 0, .authentication 1 [], .advance 1 [], .advance 1 [],
          .advance 1 [], .advance 1 []] = some s ∧
      (s.shared.clients.length : ℤ) ≤ 1 :=
  ⟨_, rfl, clientCount_le_of_testsAlone ⟨true, 1⟩ (by decide) (fun _ => ([], false))
    [.authentication 0 [], .advance 0 [], .advance 0 [], .advance 0 [], .advance 0 [],
      .disconnect 0, .removeClient 0, .authentication 1 [], .advance 1 [], .advance 1 [],
      .advance 1 [], .advance 1 []] (by simp [NoBypass]) (by decide) _ rfl⟩

/-- Two connections that both test the player limit before either inserts its client. -/
theorem clientCount_gt_after_overlapping_joins :
    ∃ s, Execution.run (step ⟨true, 1⟩ fun c => ([UInt8.ofNat c.val], false)) (start (Fin 2))
        [.authentication 0 [], .authentication 1 [], .advance 0 [], .advance 0 [],
          .advance 1 [], .advance 1 [], .advance 0 [], .advance 0 [], .advance 1 [],
          .advance 1 []] = some s ∧
      ¬ (s.shared.clients.length : ℤ) ≤ 1 :=
  ⟨_, rfl, by decide⟩

end AuthThreads
end BeamMP
