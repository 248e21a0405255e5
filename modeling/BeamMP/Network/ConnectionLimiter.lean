import BeamMP.Common.Bytes
import BeamMP.Foundation.CountedKeys
import BeamMP.Foundation.Execution

/-!
# Connection limits

`TCPServerMain` takes a guard from `TConnectionLimiter` for each accepted
connection and hands it to the connection's thread. The limiter counts through
its guards alone: a guard that still points to the limiter gives its count back
when it is overwritten or destroyed, and a move takes the pointer along.
-/
namespace BeamMP

open CountedKeys

/-- `mPerIp` and `mGlobal` under the limits. The constructor throws for a limit of zero. -/
structure TConnectionLimiter where
  mMaxPerIp : ℕ
  mMaxGlobal : ℕ
  maxPerIp_pos : 1 ≤ mMaxPerIp
  maxGlobal_pos : 1 ≤ mMaxGlobal
  mPerIp : AList fun _ : Bytes => ℕ
  mGlobal : ℕ

/-- There is one limiter, so that `mOwner` is the limiter or `nullptr`. -/
structure TGuard where
  mOwner : Bool := false
  mIp : Bytes := []
deriving DecidableEq

namespace TConnectionLimiter

def fresh (maxPerIp maxGlobal : ℕ) (hPerIp : 1 ≤ maxPerIp) (hGlobal : 1 ≤ maxGlobal) :
    TConnectionLimiter where
  mMaxPerIp := maxPerIp
  mMaxGlobal := maxGlobal
  maxPerIp_pos := hPerIp
  maxGlobal_pos := hGlobal
  mPerIp := ∅
  mGlobal := 0

def construct (maxPerIp maxGlobal : ℕ) : Except String TConnectionLimiter :=
  if hPerIp : maxPerIp = 0 then .error "Invalid maximum connections per IP setting"
  else if hGlobal : maxGlobal = 0 then .error "Invalid maximum connections setting"
  else .ok (fresh maxPerIp maxGlobal (Nat.pos_of_ne_zero hPerIp) (Nat.pos_of_ne_zero hGlobal))

variable (l : TConnectionLimiter)

def tryAcquire (ip : Bytes) : TConnectionLimiter × Option TGuard :=
  if l.mMaxGlobal ≤ l.mGlobal then (l, none)
  else
    if l.mMaxPerIp ≤ value (tryEmplace ip 0 l.mPerIp) ip then
      ({ l with mPerIp := tryEmplace ip 0 l.mPerIp }, none)
    else
      ({ l with
          mPerIp := increment ip (tryEmplace ip 0 l.mPerIp)
          mGlobal := l.mGlobal + 1 },
        some { mOwner := true, mIp := ip })

def release (ip : Bytes) : TConnectionLimiter :=
  { l with mPerIp := decrement ip l.mPerIp, mGlobal := l.mGlobal - 1 }

/-- The counts are those of a list with the IP of every live guard, within the limits. -/
structure Accounts (live : List Bytes) : Prop where
  perIp : Counts l.mPerIp live
  total : l.mGlobal = live.length
  perIp_le : ∀ ip, holding live ip ≤ l.mMaxPerIp
  total_le : live.length ≤ l.mMaxGlobal

variable {l} {live other : List Bytes} {ip : Bytes}

theorem fresh_accounts (maxPerIp maxGlobal : ℕ) (hPerIp : 1 ≤ maxPerIp)
    (hGlobal : 1 ≤ maxGlobal) : (fresh maxPerIp maxGlobal hPerIp hGlobal).Accounts [] where
  perIp := counts_empty
  total := rfl
  perIp_le _ := Nat.zero_le _
  total_le := Nat.zero_le _

theorem Accounts.perm (h : l.Accounts live) (hperm : live.Perm other) : l.Accounts other where
  perIp := h.perIp.perm hperm
  total := by rw [h.total, hperm.length_eq]
  perIp_le ip := by
    rw [← holding_perm hperm]
    exact h.perIp_le ip
  total_le := by
    rw [← hperm.length_eq]
    exact h.total_le

theorem Accounts.release (h : l.Accounts (ip :: live)) : (l.release ip).Accounts live where
  perIp := h.perIp.tail
  total := by
    have htotal := h.total
    simp only [TConnectionLimiter.release, List.length_cons] at htotal ⊢
    omega
  perIp_le ip' := le_trans holding_le_cons (h.perIp_le ip')
  total_le := le_trans (Nat.le_succ _) h.total_le

theorem Accounts.tryAcquire_isSome_iff (h : l.Accounts live) :
    (l.tryAcquire ip).2.isSome ↔ l.mGlobal < l.mMaxGlobal ∧ holding live ip < l.mMaxPerIp := by
  have hvalue : value (tryEmplace ip 0 l.mPerIp) ip = holding live ip := by
    rw [value_tryEmplace_zero, h.perIp.value_eq]
  unfold tryAcquire
  split_ifs with hglobal hperIp
  · simp [hglobal]
  · have hfull : l.mMaxPerIp ≤ holding live ip := hvalue ▸ hperIp
    simp [hfull]
  · have hroom : holding live ip < l.mMaxPerIp := hvalue ▸ Nat.lt_of_not_le hperIp
    simp [hroom, Nat.lt_of_not_le hglobal]

/-- A rejected connection leaves no bucket behind, since a bucket that `try_emplace` has
just made is below the limit. -/
theorem Accounts.tryAcquire_none (h : l.Accounts live) (hnone : (l.tryAcquire ip).2 = none) :
    (l.tryAcquire ip).1 = l := by
  unfold tryAcquire at hnone ⊢
  split_ifs at hnone ⊢ with hglobal hperIp
  · rfl
  · have hvalue : value (tryEmplace ip 0 l.mPerIp) ip =
        holding live ip := by
      rw [value_tryEmplace_zero, h.perIp.value_eq]
    have hpos : 0 < holding live ip :=
      lt_of_lt_of_le l.maxPerIp_pos (hvalue ▸ hperIp)
    have hmem : ip ∈ l.mPerIp := by
      apply AList.lookup_isSome.mp
      simp [h.perIp ip, holding_pos_iff.mp hpos]
    simp [tryEmplace, hmem]

theorem tryAcquire_some {guard : TGuard} (hsome : (l.tryAcquire ip).2 = some guard) :
    guard = { mOwner := true, mIp := ip } ∧
      (l.tryAcquire ip).1 =
        { l with
          mPerIp := increment ip (tryEmplace ip 0 l.mPerIp)
          mGlobal := l.mGlobal + 1 } := by
  unfold tryAcquire at hsome ⊢
  split_ifs at hsome ⊢ with hglobal hperIp
  cases hsome
  exact ⟨rfl, rfl⟩

theorem Accounts.tryAcquire {guard : TGuard} (h : l.Accounts live)
    (hsome : (l.tryAcquire ip).2 = some guard) : (l.tryAcquire ip).1.Accounts (ip :: live) := by
  have hroom := h.tryAcquire_isSome_iff.mp (Option.isSome_of_eq_some hsome)
  have htotal := h.total
  rw [(tryAcquire_some hsome).2]
  constructor
  case perIp => exact h.perIp.cons ip
  case total => simpa using htotal
  case perIp_le =>
    intro j
    by_cases hj : j = ip
    · subst hj
      have : holding live j + 1 ≤ l.mMaxPerIp := hroom.2
      simpa using this
    · rw [holding_cons_of_ne hj]
      exact h.perIp_le j
  case total_le =>
    have : live.length + 1 ≤ l.mMaxGlobal := htotal ▸ hroom.1
    simpa using this

end TConnectionLimiter

namespace TGuard

/-- The IP of a guard that has not been released or moved from. -/
def held (g : TGuard) : Option Bytes := if g.mOwner then some g.mIp else none

def release (g : TGuard) (l : TConnectionLimiter) : TGuard × TConnectionLimiter :=
  if g.mOwner then ({ g with mOwner := false }, l.release g.mIp) else (g, l)

/-- `operator=` of two distinct guards: the new `*this`, the new `other` and the limiter. -/
def moveAssign (g other : TGuard) (l : TConnectionLimiter) :
    TGuard × TGuard × TConnectionLimiter :=
  ({ (g.release l).1 with mOwner := other.mOwner, mIp := other.mIp },
    { other with mOwner := false, mIp := ascii "<moved-from>" }, (g.release l).2)

def moveConstruct (other : TGuard) (l : TConnectionLimiter) :
    TGuard × TGuard × TConnectionLimiter :=
  moveAssign {} other l

variable {g other : TGuard} {l : TConnectionLimiter}

theorem release_limiter :
    (g.release l).2 = match g.held with
      | some ip => l.release ip
      | none => l := by
  cases h : g.mOwner <;> simp [release, held, h]

@[simp] theorem moveAssign_held : (g.moveAssign other l).1.held = other.held := rfl

@[simp] theorem moveAssign_other_held : (g.moveAssign other l).2.1.held = none := rfl

@[simp] theorem moveAssign_limiter : (g.moveAssign other l).2.2 = (g.release l).2 := rfl

end TGuard

structure LimiterState (γ : Type*) where
  limiter : TConnectionLimiter
  guards : AList fun _ : γ => TGuard

/-- What the server does with guards; `g` and `other` are the addresses of guard objects. -/
inductive LimiterAction (γ : Type*)
  | tryAcquire (ip : Bytes) (g : γ)
  | construct (g : γ)
  | moveConstruct (g other : γ)
  | moveAssign (g other : γ)
  | destroy (g : γ)

variable {γ : Type*}

def LimiterState.start (γ : Type*) (l : TConnectionLimiter) : LimiterState γ where
  limiter := l
  guards := ∅

namespace LimiterState

variable (s : LimiterState γ)

def live : List Bytes := holders TGuard.held s.guards

variable {s} {t : LimiterState γ} {x y : TGuard}

inductive Change (s t : LimiterState γ) : Prop
  | kept (limiter : t.limiter = s.limiter) (live : s.live.Perm t.live)
  | rejected (ip : Bytes) (limiter : t.limiter = (s.limiter.tryAcquire ip).1)
      (none : (s.limiter.tryAcquire ip).2 = none) (live : t.live = s.live)
  | acquired (ip : Bytes) (limiter : t.limiter = (s.limiter.tryAcquire ip).1)
      (some : (s.limiter.tryAcquire ip).2.isSome) (live : t.live = ip :: s.live)
  | released (ip : Bytes) (limiter : t.limiter = s.limiter.release ip)
      (live : s.live.Perm (ip :: t.live))

theorem Change.of_release (hlimiter : t.limiter = (x.release s.limiter).2)
    (hlive : s.live.Perm (x.held.toList ++ t.live)) : s.Change t := by
  rw [TGuard.release_limiter] at hlimiter
  cases hheld : x.held with
  | none =>
    rw [hheld] at hlimiter hlive
    exact .kept hlimiter hlive
  | some ip =>
    rw [hheld] at hlimiter hlive
    exact .released ip hlimiter hlive

section Step

variable (s) [DecidableEq γ]

/-- A new guard object is put where there is none. The guard that `TryAcquire` returns is
moved into the `optional` and the moved-from temporary is destroyed. -/
def step (s : LimiterState γ) : LimiterAction γ → Option (LimiterState γ)
  | .tryAcquire ip g =>
    if g ∈ s.guards then none
    else
      match s.limiter.tryAcquire ip with
      | (l, none) => some { s with limiter := l }
      | (l, some temporary) =>
        let moved := temporary.moveConstruct l
        some ⟨(moved.2.1.release moved.2.2).2, s.guards.insert g moved.1⟩
  | .construct g => if g ∈ s.guards then none else some { s with guards := s.guards.insert g {} }
  | .moveConstruct g other =>
    if g ∈ s.guards then none
    else
      match s.guards.lookup other with
      | none => none
      | some b =>
        let moved := b.moveConstruct s.limiter
        some ⟨moved.2.2, (s.guards.insert g moved.1).insert other moved.2.1⟩
  | .moveAssign g other =>
    match s.guards.lookup g, s.guards.lookup other with
    | some a, some b =>
      if g = other then some s
      else
        let moved := a.moveAssign b s.limiter
        some ⟨moved.2.2, (s.guards.insert g moved.1).insert other moved.2.1⟩
    | _, _ => none
  | .destroy g =>
    match s.guards.lookup g with
    | none => none
    | some a => some ⟨(a.release s.limiter).2, s.guards.erase g⟩

variable {s} {a : LimiterAction γ} {g other : γ} {guard : TGuard}

theorem live_insert_of_not_mem (h : g ∉ s.guards) :
    holders TGuard.held (s.guards.insert g guard) = guard.held.toList ++ s.live := by
  rw [holders_insert, erase_of_not_mem h, live]

theorem live_erase (h : s.guards.lookup g = some x) :
    s.live.Perm (x.held.toList ++ holders TGuard.held (s.guards.erase g)) :=
  holders_of_lookup h

/-- A move takes the IP of `other` along, so that only the old IP of `g` is gone. -/
theorem live_move (x : TGuard) (l : TConnectionLimiter) (hne : other ≠ g)
    (hother : s.guards.lookup other = some y) :
    (holders TGuard.held ((s.guards.insert g (x.moveAssign y l).1).insert other
      (x.moveAssign y l).2.1)).Perm (holders TGuard.held (s.guards.erase g)) :=
  holders_move hne hother TGuard.moveAssign_held TGuard.moveAssign_other_held

theorem change_tryAcquire {ip : Bytes} (h : s.step (.tryAcquire ip g) = some t) : s.Change t := by
  simp only [step] at h
  split_ifs at h with hg
  split at h
  case h_1 l htry =>
    cases h
    exact .rejected ip (by rw [htry]) (by rw [htry]) rfl
  case h_2 l temporary htry =>
    have hsome : (s.limiter.tryAcquire ip).2 = some temporary := by rw [htry]
    obtain ⟨htemporary, -⟩ := TConnectionLimiter.tryAcquire_some hsome
    cases h
    apply Change.acquired ip
    case limiter => rw [htry]; rfl
    case some => exact Option.isSome_of_eq_some hsome
    case live =>
      rw [live, live_insert_of_not_mem hg, htemporary]
      rfl

/-- What a step does: nothing to the counts, one `TryAcquire`, or the release of one guard. -/
theorem step_change (h : s.step a = some t) : s.Change t := by
  cases a with
  | tryAcquire ip g => exact change_tryAcquire h
  | construct g =>
    obtain ⟨hg, heq⟩ := Option.ite_none_left_eq_some.mp h
    cases heq
    apply Change.kept
    case limiter => rfl
    case live =>
      rw [live, live, ← live, live_insert_of_not_mem hg]
      exact List.Perm.refl _
  | moveConstruct g other =>
    simp only [step] at h
    split_ifs at h with hg
    split at h
    case h_1 => cases h
    case h_2 y hother =>
      cases h
      have hne : other ≠ g := by
        intro heq
        exact hg (heq ▸ AList.lookup_isSome.mp (Option.isSome_of_eq_some hother))
      have hmove := live_move {} s.limiter hne hother
      rw [erase_of_not_mem hg] at hmove
      apply Change.kept
      case limiter => rfl
      case live => exact hmove.symm
  | moveAssign g other =>
    simp only [step] at h
    split at h
    case h_1 x y hg hother =>
      split_ifs at h with heq
      · cases h
        exact .kept rfl (List.Perm.refl _)
      · cases h
        have hmove := live_move x s.limiter (Ne.symm heq) hother
        exact Change.of_release rfl ((live_erase hg).trans (List.Perm.append_left _ hmove.symm))
    case h_2 => cases h
  | destroy g =>
    simp only [step] at h
    split at h
    case h_1 => cases h
    case h_2 x hg =>
      cases h
      exact Change.of_release rfl (live_erase hg)

theorem accounts_step (h : s.limiter.Accounts s.live) (hstep : s.step a = some t) :
    t.limiter.Accounts t.live := by
  cases step_change hstep with
  | kept hlimiter hlive =>
    rw [hlimiter]
    exact h.perm hlive
  | rejected ip hlimiter hnone hlive =>
    rw [hlimiter, h.tryAcquire_none hnone, hlive]
    exact h
  | acquired ip hlimiter hsome hlive =>
    obtain ⟨guard, hguard⟩ := Option.isSome_iff_exists.mp hsome
    rw [hlimiter, hlive]
    exact h.tryAcquire hguard
  | released ip hlimiter hlive =>
    rw [hlimiter]
    exact (h.perm hlive).release

theorem limits_step (hstep : s.step a = some t) :
    t.limiter.mMaxPerIp = s.limiter.mMaxPerIp ∧ t.limiter.mMaxGlobal = s.limiter.mMaxGlobal := by
  have htry : ∀ ip, (s.limiter.tryAcquire ip).1.mMaxPerIp = s.limiter.mMaxPerIp ∧
      (s.limiter.tryAcquire ip).1.mMaxGlobal = s.limiter.mMaxGlobal := by
    intro ip
    unfold TConnectionLimiter.tryAcquire
    split_ifs <;> exact ⟨rfl, rfl⟩
  cases step_change hstep with
  | kept hlimiter => simp [hlimiter]
  | rejected ip hlimiter => simp [hlimiter, htry]
  | acquired ip hlimiter => simp [hlimiter, htry]
  | released ip hlimiter => simp [hlimiter, TConnectionLimiter.release]

end Step
end LimiterState
end BeamMP
