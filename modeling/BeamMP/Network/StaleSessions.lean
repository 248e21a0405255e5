import BeamMP.Network.Authentication

/-!
# One session for each identity

A new connection disconnects the client that has its name and guest flag, and is
inserted much later. Two live clients of one identity are excluded as long as
nobody of an identity is inserted while another connection of that identity is
between its copy of `mClients` and its own insertion, and as long as the scan,
which stops at the first match, does not stop at a client that is dead already
while a live one of the same identity is in `mClients`.
-/
namespace BeamMP

open Programs AuthProgram

namespace AuthState

variable {γ : Type} (identity : γ → Bytes × Bool)

/-- No two clients of one identity are both connected. -/
def OneSession (s : AuthState γ) : Prop :=
  ∀ c ∈ s.clients, ∀ d ∈ s.clients, s.disconnected c = false → s.disconnected d = false →
    identity c = identity d → c = d

/-- A client is inserted while no other connection of its identity is between its copy of
`mClients` and its own insertion, and the scan meets no dead client of the identity while
a live one is in `mClients`. -/
def replacesAlone (c : γ) (k : AuthSection γ) (s : AuthState γ) : Prop :=
  match k with
  | .insertClient => ∀ d ∈ s.scanned, identity d = identity c → d = c
  | .visit d => s.disconnected d = true → identity d = identity c →
      ∀ e ∈ s.clients, identity e = identity c → s.disconnected e = true
  | _ => True

/-- Every connected client of that identity is in the list. -/
def LiveIn (c : γ) (s : AuthState γ) (clients : List γ) : Prop :=
  ∀ d ∈ s.clients, s.disconnected d = false → identity d = identity c → d ∈ clients

instance [DecidableEq γ] (s : AuthState γ) : Decidable (s.OneSession identity) :=
  inferInstanceAs (Decidable (∀ _ ∈ _, ∀ _ ∈ _, _ → _ → _ → _))

instance [DecidableEq γ] (c : γ) (s : AuthState γ) :
    ∀ k : AuthSection γ, Decidable (replacesAlone identity c k s)
  | .insertClient => inferInstanceAs (Decidable (∀ _ ∈ _, _ → _))
  | .visit _ => inferInstanceAs (Decidable (_ → _ → ∀ _ ∈ _, _ → _))
  | .copyClients | .clientCount | .clientKick _ | .postPlayerAuth _ _ => isTrue trivial

theorem start_oneSession : (start γ).OneSession identity := by
  intro c hc
  cases hc

end AuthState

namespace StaleScan

variable {γ : Type} (identity : γ → Bytes × Bool)

/-- Clients stay disconnected, and while a connection has a copy of `mClients` nobody of its
identity is inserted. -/
structure Rely (c : γ) (s s' : AuthState γ) : Prop where
  disconnected : ∀ d, s.disconnected d = true → s'.disconnected d = true
  scanned : c ∈ s.scanned → c ∈ s'.scanned
  clients : c ∈ s.scanned → ∀ d ∈ s'.clients, identity d = identity c → d ∈ s.clients

def guar (c : γ) (s s' : AuthState γ) : Prop :=
  (s.OneSession identity → s'.OneSession identity) ∧ ∀ d, d ≠ c → Rely identity d s s'

/-- What a connection knows while it scans: the live clients of its identity are still to be
visited, and there is one of them at most. -/
structure Scanning (c : γ) (rest : List γ) (s : AuthState γ) : Prop where
  scanned : c ∈ s.scanned
  live : s.LiveIn identity c rest
  alone : ∀ d ∈ rest, ∀ e ∈ rest, s.disconnected d = false → s.disconnected e = false →
    identity d = identity c → identity e = identity c → d = e

variable {identity} {c : γ} {rest : List γ} {s s' : AuthState γ}

theorem live_before (hdisc : ∀ d, s.disconnected d = true → s'.disconnected d = true) {d : γ}
    (hd : s'.disconnected d = false) : s.disconnected d = false := by
  cases hs : s.disconnected d with
  | false => rfl
  | true => exact absurd (hdisc d hs) (by simp [hd])

theorem scanning_stable : Stable (Rely identity c) (Scanning identity c rest) := by
  intro s s' h hrely
  have hlive : ∀ d, s'.disconnected d = false → s.disconnected d = false := fun d hd =>
    live_before hrely.disconnected hd
  constructor
  · exact hrely.scanned h.scanned
  · intro d hd hdlive hid
    exact h.live d (hrely.clients h.scanned d hd hid) (hlive d hdlive) hid
  · intro d hd e he hdlive helive hdid heid
    exact h.alone d hd e he (hlive d hdlive) (hlive e helive) hdid heid

theorem Rely.of_shrink (hdisc : ∀ d, s.disconnected d = true → s'.disconnected d = true)
    (hscanned : c ∈ s.scanned → c ∈ s'.scanned) (hclients : s'.clients ⊆ s.clients) :
    Rely identity c s s' where
  disconnected := hdisc
  scanned := hscanned
  clients _ _ hd _ := hclients hd

theorem oneSession_of_shrink (h : s.OneSession identity)
    (hdisc : ∀ d, s.disconnected d = true → s'.disconnected d = true)
    (hclients : s'.clients ⊆ s.clients) : s'.OneSession identity := by
  intro d hd e he hdlive helive hid
  exact h d (hclients hd) e (hclients he) (live_before hdisc hdlive) (live_before hdisc helive) hid

theorem guar_of_shrink (hdisc : ∀ d, s.disconnected d = true → s'.disconnected d = true)
    (hscanned : ∀ d, d ≠ c → d ∈ s.scanned → d ∈ s'.scanned) (hclients : s'.clients ⊆ s.clients) :
    guar identity c s s' :=
  ⟨fun h => oneSession_of_shrink h hdisc hclients,
    fun d hd => Rely.of_shrink hdisc (hscanned d hd) hclients⟩

theorem Scanning.tail {d : γ} (h : Scanning identity c (d :: rest) s)
    (hd : identity d ≠ identity c) : Scanning identity c rest s where
  scanned := h.scanned
  live e he helive heid := by
    have hne : e ≠ d := fun heq => hd (heq ▸ heid)
    exact (List.mem_cons.mp (h.live e he helive heid)).resolve_left hne
  alone e he e' he' := h.alone e (List.mem_cons_of_mem _ he) e' (List.mem_cons_of_mem _ he')

variable [DecidableEq γ] {settings : AuthSettings}

abbrev Replaces {α : Type} (settings : AuthSettings) (identity : γ → Bytes × Bool) (c : γ)
    (post : α → AuthState γ → Prop) (p : AuthProgram γ α) (pre : AuthState γ → Prop) : Prop :=
  Meets (AuthState.exec settings identity c)
    (fun _ k s => s.OneSession identity ∧ s.replacesAlone identity c k)
    (Rely identity c) (guar identity c) post p pre

theorem replaces_locked {k : AuthSection γ} {pre : AuthState γ → Prop}
    {post : k.Answer → AuthState γ → Prop} (hstable : ∀ x, Stable (Rely identity c) (post x))
    (h : ∀ order s, pre s → s.OneSession identity → s.replacesAlone identity c k →
      guar identity c s (AuthState.exec settings identity c order k s).2 ∧
        post (AuthState.exec settings identity c order k s).1
          (AuthState.exec settings identity c order k s).2) :
    Replaces settings identity c post (locked k) pre :=
  meets_perform hstable fun order s hpre hok => h order s hpre hok.1 hok.2

theorem disconnect_disconnected (d e : γ) (h : s.disconnected e = true) :
    (s.disconnect d).disconnected e = true := by
  by_cases he : e = d
  · simp [AuthState.disconnect, he]
  · simpa [AuthState.disconnect, he] using h

theorem live_of_disconnect {d e : γ} (h : (s.disconnect d).disconnected e = false) :
    e ≠ d ∧ s.disconnected e = false := by
  have hne : e ≠ d := by
    intro heq
    simp [AuthState.disconnect, heq] at h
  exact ⟨hne, by simpa [AuthState.disconnect, hne] using h⟩

theorem replaces_copyClients :
    Replaces settings identity c (Scanning identity c) copyClients (fun _ => True) := by
  apply replaces_locked (k := .copyClients)
  · exact fun _ => scanning_stable
  · intro order s _ hone _
    have hmem : ∀ d, d ∈ (if order.Perm s.clients then order else s.clients) ↔
        d ∈ s.clients := by
      intro d
      split_ifs with hperm
      · exact hperm.mem_iff
      · rfl
    constructor
    · exact guar_of_shrink (fun _ h => h) (fun _ _ h => List.mem_cons_of_mem _ h) (fun _ h => h)
    · constructor
      · exact List.mem_cons_self
      · exact fun d hd _ _ => (hmem d).mpr hd
      · intro d hd e he hdlive helive hdid heid
        exact hone d ((hmem d).mp hd) e ((hmem e).mp he) hdlive helive (hdid.trans heid.symm)

theorem Scanning.disconnect {d : γ} (h : Scanning identity c (d :: rest) s)
    (hd : identity d = identity c) (halone : s.replacesAlone identity c (.visit d)) :
    Scanning identity c [] (s.disconnect d) where
  scanned := h.scanned
  live e he helive heid := by
    obtain ⟨hne, helive⟩ := live_of_disconnect helive
    have hin := h.live e he helive heid
    cases hdlive : s.disconnected d with
    | true =>
      have hdead : s.disconnected e = true := halone hdlive hd e he heid
      rw [hdead] at helive
      cases helive
    | false =>
      exact absurd (h.alone d List.mem_cons_self e hin hdlive helive hd heid).symm hne
  alone := by simp

theorem replaces_visit (d : γ) :
    Replaces settings identity c
      (fun stop s => Scanning identity c (if stop then [] else rest) s) (visit d)
      (Scanning identity c (d :: rest)) := by
  apply replaces_locked (k := .visit d)
  · exact fun _ => scanning_stable
  · intro order s h _ halone
    by_cases hd : identity d = identity c
    · simp only [AuthState.exec, if_pos hd]
      constructor
      · exact guar_of_shrink (disconnect_disconnected d) (fun _ _ h => h) (fun _ h => h)
      · exact h.disconnect hd halone
    · simp only [AuthState.exec, if_neg hd]
      constructor
      · exact guar_of_shrink (fun _ h => h) (fun _ _ h => h) (fun _ h => h)
      · exact h.tail hd

theorem replaces_scan (clients : List γ) :
    Replaces settings identity c (fun _ => Scanning identity c []) (scan clients)
      (Scanning identity c clients) := by
  induction clients with
  | nil => exact meets_pure fun _ h => h
  | cons d clients ih =>
    apply (replaces_visit d).bind
    intro stop
    cases stop with
    | true => exact meets_pure fun _ h => h
    | false => exact ih

/-- The sections between the scan and the insertion of a client that is let in. -/
theorem replaces_waiting {k : AuthSection γ} (hk : ∀ order s,
      (AuthState.exec settings identity c order k s).2.clients = s.clients ∧
      (AuthState.exec settings identity c order k s).2.disconnected = s.disconnected ∧
      (AuthState.exec settings identity c order k s).2.scanned = s.scanned) :
    Replaces settings identity c (fun _ => Scanning identity c []) (locked k)
      (Scanning identity c []) := by
  apply replaces_locked
  · exact fun _ => scanning_stable
  · intro order s h _ _
    obtain ⟨hclients, hdisc, hscanned⟩ := hk order s
    constructor
    · apply guar_of_shrink
      · exact fun d hd => by rwa [hdisc]
      · exact fun d _ hd => by rwa [hscanned]
      · exact fun d hd => by rwa [hclients] at hd
    · constructor
      · rw [hscanned]
        exact h.scanned
      · intro d hd hlive hid
        exact h.live d (by rwa [hclients] at hd) (by rwa [hdisc] at hlive) hid
      · simp

theorem replaces_clientKick (reason : Bytes) :
    Replaces settings identity c (fun _ _ => True) (clientKick reason) (fun _ => True) := by
  apply replaces_locked (k := .clientKick reason)
  · exact fun _ _ _ _ _ => trivial
  · intro order s _ _ _
    constructor
    · apply guar_of_shrink
      · exact disconnect_disconnected c
      · exact fun d hd hmem => (List.mem_erase_of_ne hd).mpr hmem
      · exact fun _ h => h
    · trivial

theorem oneSession_insertClient (h : s.OneSession identity) (hscan : Scanning identity c [] s)
    (order : List γ) :
    (AuthState.exec settings identity c order .insertClient s).2.OneSession identity := by
  have hmem : ∀ d ∈ (AuthState.exec settings identity c order .insertClient s).2.clients,
      d ∈ s.clients ∨ d = c := by
    intro d hd
    simp only [AuthState.exec] at hd
    split_ifs at hd
    · exact Or.inl hd
    · simpa using hd
  have hnone : ∀ d ∈ s.clients, s.disconnected d = false → identity d ≠ identity c := by
    intro d hd hlive hid
    cases hscan.live d hd hlive hid
  intro d hd e he hdlive helive hid
  rcases hmem d hd with hdold | hdc <;> rcases hmem e he with heold | hec
  · exact h d hdold e heold hdlive helive hid
  · exact absurd (hec ▸ hid) (hnone d hdold hdlive)
  · exact absurd (hdc ▸ hid.symm) (hnone e heold helive)
  · rw [hdc, hec]

theorem replaces_insertClient :
    Replaces settings identity c (fun _ _ => True) insertClient (Scanning identity c []) := by
  apply replaces_locked (k := .insertClient)
  · exact fun _ _ _ _ _ => trivial
  · intro order s hscan _ halone
    refine ⟨⟨fun h => oneSession_insertClient h hscan order, ?_⟩, trivial⟩
    intro d hd
    constructor
    · exact fun _ h => h
    · exact (List.mem_erase_of_ne hd).mpr
    · intro hscanned e he hid
      simp only [AuthState.exec] at he
      split_ifs at he
      · exact he
      · rcases List.mem_append.mp he with he | he
        · exact he
        · have hec : e = c := List.mem_singleton.mp he
          exact absurd (halone d hscanned (by rw [← hid, hec])) hd

theorem replaces_finish (v : AuthVerdict) :
    Replaces settings identity c (fun _ _ => True) (finish v) (Scanning identity c []) := by
  have hpost : Replaces settings identity c (fun _ => Scanning identity c [])
      (postPlayerAuth v.denied (v.reason.getD [])) (Scanning identity c []) :=
    replaces_waiting fun _ _ => ⟨rfl, rfl, rfl⟩
  have hpostKicked : Replaces settings identity c (fun _ _ => True)
      (postPlayerAuth v.denied (v.reason.getD [])) (fun _ => True) := by
    apply replaces_locked (k := .postPlayerAuth _ _)
    · exact fun _ _ _ _ _ => trivial
    · exact fun _ _ _ _ _ =>
        ⟨guar_of_shrink (fun _ h => h) (fun _ _ h => h) (fun _ h => h), trivial⟩
  unfold finish kickIfDenied
  cases hdenied : v.denied with
  | true =>
    rw [hdenied] at hpostKicked
    apply ((replaces_clientKick v.kickReason).mono (fun _ _ => trivial) (fun _ _ h => h)).bind
    intro _
    apply hpostKicked.bind
    exact fun _ => meets_pure fun _ _ => trivial
  | false =>
    rw [hdenied] at hpost
    exact hpost.bind fun _ => replaces_insertClient

theorem replaces_authentication {isGuest : Bool} {results : List LuaResult} :
    Replaces settings identity c (fun _ _ => True) (authentication settings isGuest results)
      (fun _ => True) := by
  apply replaces_copyClients.bind
  intro clients
  apply (replaces_scan clients).bind
  intro _
  have hverdict : Replaces settings identity c (fun _ => Scanning identity c [])
      (verdict settings (.ofResults settings isGuest results)) (Scanning identity c []) := by
    unfold verdict
    split_ifs
    · exact meets_pure fun _ h => h
    · have hcount : Replaces settings identity c (fun _ => Scanning identity c []) clientCount
          (Scanning identity c []) := by
        apply replaces_waiting (k := .clientCount)
        intro order s
        by_cases h : s.clients.length < sizeT settings.maxPlayers <;> simp [AuthState.exec, h]
      exact hcount.bind fun _ => meets_pure fun _ h => h
  exact hverdict.bind replaces_finish

end StaleScan

namespace AuthThreads

variable {γ : Type} [DecidableEq γ] (settings : AuthSettings) (identity : γ → Bytes × Bool)

/-- The step meets `AuthState.replacesAlone`. -/
def ReplacesAlone (s : AuthThreads γ) : AuthAction γ → Prop
  | .advance c _ => ∀ k ∈ (s.program c).head?, s.shared.replacesAlone identity c k
  | _ => True

instance (s : AuthThreads γ) : ∀ a, Decidable (s.ReplacesAlone identity a)
  | .advance c _ =>
    inferInstanceAs (Decidable (∀ k ∈ (s.program c).head?, s.shared.replacesAlone identity c k))
  | .authentication _ _ | .disconnect _ | .removeClient _ => isTrue trivial

def SessionKept (s : AuthThreads γ) : Prop :=
  s.Sound (AuthState.exec settings identity)
    (fun c _ k s => s.OneSession identity ∧ s.replacesAlone identity c k)
    (StaleScan.Rely identity) (StaleScan.guar identity) (AuthState.OneSession identity)

variable {settings identity} {s t : AuthThreads γ}

theorem SessionKept.step {a : AuthAction γ} (h : s.SessionKept settings identity)
    (halone : s.ReplacesAlone identity a) (hstep : s.step settings identity a = some t) :
    t.SessionKept settings identity := by
  cases a with
  | authentication c results =>
    simp only [AuthThreads.step] at hstep
    split_ifs at hstep
    have hcreated := Threads.Sound.interfere h (s.shared.create c) h.invariant
      fun _ => StaleScan.Rely.of_shrink (fun _ hd => hd) (fun hd => hd) (fun _ hd => hd)
    exact hcreated.start StaleScan.replaces_authentication hstep
  | advance c order =>
    apply Threads.Sound.advance h _ _ _ hstep
    · exact fun u v hne _ _ hguar => hguar.2 v hne
    · exact fun u _ _ hI hguar => hguar.1 hI
    · intro k next hcall
      exact ⟨h.invariant, halone k (by simp [hcall, Program.head?])⟩
  | disconnect c =>
    cases hstep
    apply Threads.Sound.interfere h _
    · exact StaleScan.oneSession_of_shrink h.invariant (StaleScan.disconnect_disconnected c)
        (fun _ hd => hd)
    · exact fun _ => StaleScan.Rely.of_shrink (StaleScan.disconnect_disconnected c)
        (fun hd => hd) (fun _ hd => hd)
  | removeClient c =>
    cases hstep
    have hsub : (s.shared.removeClient c).clients ⊆ s.shared.clients := List.filter_subset_self _
    apply Threads.Sound.interfere h _
    · exact StaleScan.oneSession_of_shrink h.invariant (fun _ hd => hd) hsub
    · exact fun _ => StaleScan.Rely.of_shrink (fun _ hd => hd) (fun hd => hd) hsub

/-- No two connected clients in `mClients` have one name and guest flag, if no client is
inserted while another connection of its identity has yet to insert its own, and no scan
stops at a dead client of the identity while a live one is in `mClients`. -/
theorem oneSession_of_replacesAlone (settings : AuthSettings) (identity : γ → Bytes × Bool)
    (as : List (AuthAction γ))
    (has : Execution.Along (step settings identity) (ReplacesAlone identity) (start γ) as)
    (s : AuthThreads γ) (hrun : Execution.run (step settings identity) (start γ) as = some s) :
    s.shared.OneSession identity := by
  have hinv : s.SessionKept settings identity :=
    Execution.run_invariant (fun _ _ _ h halone hstep => h.step halone hstep)
      (Threads.idle_sound (AuthState.start_oneSession identity)) has hrun
  exact hinv.invariant

/-- A player who connects again replaces the session that is there. -/
theorem oneSession_after_reconnect :
    ∃ s, Execution.run (step ⟨true, 8⟩ fun _ => ([], false)) (start (Fin 2))
        [.authentication 0 [], .advance 0 [], .advance 0 [], .advance 0 [], .advance 0 [],
          .authentication 1 [], .advance 1 [], .advance 1 [], .advance 1 [], .advance 1 [],
          .advance 1 []] = some s ∧
      s.shared.OneSession fun _ => ([], false) :=
  ⟨_, rfl, oneSession_of_replacesAlone ⟨true, 8⟩ (fun _ => ([], false))
    [.authentication 0 [], .advance 0 [], .advance 0 [], .advance 0 [], .advance 0 [],
      .authentication 1 [], .advance 1 [], .advance 1 [], .advance 1 [], .advance 1 [],
      .advance 1 []] (by decide) _ rfl⟩

/-- Two connections of one player whose scans both run before either is inserted. -/
theorem not_oneSession_after_overlapping_logins :
    ∃ s, Execution.run (step ⟨true, 8⟩ fun _ => ([], false)) (start (Fin 2))
        [.authentication 0 [], .authentication 1 [], .advance 0 [], .advance 1 [],
          .advance 0 [], .advance 0 [], .advance 0 [], .advance 1 [], .advance 1 [],
          .advance 1 []] = some s ∧
      ¬ s.shared.OneSession fun _ => ([], false) :=
  ⟨_, rfl, by decide⟩

-- A scan that stops at a dead session of the player while a live one stands behind it.
example :
    ∃ s, Execution.run (step ⟨true, 8⟩ fun _ => ([], false)) (start (Fin 3))
        [.authentication 0 [], .advance 0 [], .advance 0 [], .advance 0 [], .advance 0 [],
          .authentication 1 [], .advance 1 [0], .advance 1 [], .advance 1 [], .advance 1 [],
          .advance 1 [], .authentication 2 [], .advance 2 [0, 1], .advance 2 [], .advance 2 [],
          .advance 2 [], .advance 2 []] = some s ∧
      ¬ s.shared.OneSession fun _ => ([], false) :=
  ⟨_, rfl, by decide⟩

end AuthThreads
end BeamMP
