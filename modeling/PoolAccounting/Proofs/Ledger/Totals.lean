import Mathlib
import PoolAccounting.Proofs.Ledger.Commuting
import PoolAccounting.Proofs.Ledger.Entitlement
import PoolAccounting.Proofs.Ledger.Withdrawal
import PoolAccounting.Proofs.Staking.Schedule

/-!
The total of a reward token along a run. What was injected and when its rate was changed can be read
off the journal; the total is determined by that and by the time of the last accrual, whoever acted
in between. Until the first stake nothing of it is released.
-/
namespace PoolAccounting

open Staking Fees Amount

namespace Staking.StakingPool

variable {p q : StakingPool} {token : Scalar} {now rate amount : Operand}

/-- The first rate of a token, if this is what makes it known. -/
def firstRate (p : StakingPool) (token : Scalar) (now rate : Operand) : List RateChange :=
  if p.rewardPools.contains token then [] else [⟨now.toNat, rate.toNat⟩]

/-- What is booked on one token is nothing to the others. -/
theorem booked_withRewardPool {staked injected : ℕ} {changes : List RateChange} {r : RewardPool}
    (h : Booked staked (p.rewardPools.get? token) (some r) injected changes) (k : Key) :
    Booked staked (p.rewardPools.get? k) ((p.withRewardPool token r).rewardPools.get? k)
      (if token.key = k then injected else 0) (if token.key = k then changes else []) := by
  rw [withRewardPool, Table.get?_insert]
  split
  · subst_vars
    exact h
  · exact .refl _

theorem booked_of_addRewardToken (h : p.addRewardToken token now rate = .ok q) (k : Key) :
    Booked p.totalStaked (p.rewardPools.get? k) (q.rewardPools.get? k) 0
      (if token.key = k then p.firstRate token now rate else []) := by
  obtain ⟨t, name, rfl, rfl, -, h⟩ := addRewardToken_eq_ok.1 h
  rw [firstRate]
  split at h
  · rename_i hknown
    rw [if_pos hknown, h, ite_self]
    exact .refl _
  · rename_i hnew
    obtain ⟨n, rfl, -, rfl⟩ := h
    have hnone : p.rewardPools.get? (Scalar.text name) = none :=
      Table.contains_eq_false_iff.1 (eq_false_of_ne_true hnew)
    have hbooked : Booked p.totalStaked _ _ _ _ :=
      p.booked_withRewardPool (hnone ▸ Booked.register t n) k
    rw [if_neg hnew]
    rwa [ite_self] at hbooked

theorem booked_of_setRewardRate (h : p.setRewardRate token rate now = .ok q) (k : Key) :
    Booked p.totalStaked (p.rewardPools.get? k) (q.rewardPools.get? k) 0
      (if token.key = k then [⟨now.toNat, rate.toNat⟩] else []) := by
  obtain ⟨n, r, r', rfl, -, hr, ha, rfl⟩ := setRewardRate_eq_ok.1 h
  have hbooked := p.booked_withRewardPool (hr ▸ (Booked.accrue ha).trans (.changeRate r' n)) k
  rw [ite_self] at hbooked
  rw [RewardPool.lastUpdate_of_accrue ha]
  exact hbooked

theorem totalStaked_of_addRewardToken (h : p.addRewardToken token now rate = .ok q) :
    q.totalStaked = p.totalStaked := by
  obtain ⟨t, name, -, -, -, h⟩ := addRewardToken_eq_ok.1 h
  split at h
  · rw [h]
  · obtain ⟨n, -, -, rfl⟩ := h
    rfl

theorem booked_of_notifyRewardAmount (h : p.notifyRewardAmount token amount now = .ok q)
    (k : Key) :
    Booked p.totalStaked (p.rewardPools.get? k) (q.rewardPools.get? k)
      (if token.key = k then amount.toNat else 0)
      (if token.key = k then p.firstRate token now 0 else []) := by
  obtain ⟨n, p', r, r', r'', rfl, -, -, hadd, hr, ha, hi, rfl⟩ := notifyRewardAmount_eq_ok.1 h
  rw [totalStaked_of_addRewardToken hadd] at ha hi
  have hbooked := (booked_of_addRewardToken hadd k).trans
    (p'.booked_withRewardPool (hr ▸ (Booked.accrue ha).trans (.inject hi)) k)
  simpa using hbooked

end Staking.StakingPool

/-- Where the queue holds everything nothing can have been paid. -/
theorem Column.Solvent.paid_eq_zero {c : Column} {paid : ℕ} (h : c.Solvent paid)
    (hq : c.reward.queued = c.reward.total) : paid = 0 := by
  have hcovered := h.covered
  rw [hq, Nat.mul_add] at hcovered
  have hzero : precision * paid = 0 := by omega
  exact (Nat.mul_eq_zero.1 hzero).resolve_left precision_pos.ne'

namespace Ledger

/-- The rates of a token that the action brings into force. -/
def Entry.rateChanges (k : Key) (e : Entry) : List RateChange :=
  match e.action, e.receipt with
  | .addToken token now rate, _ =>
    if token.key = k then e.before.pool.firstRate token now rate else []
  | .setRate token rate now, _ => if token.key = k then [⟨now.toNat, rate.toNat⟩] else []
  | .notify token _ now, _ => if token.key = k then e.before.pool.firstRate token now 0 else []
  | .toStaking token _ now, .distributed d =>
    if token.key = k ∧ 0 < d.split.staking then e.before.pool.firstRate token now 0 else []
  | _, _ => []

variable {l next : Ledger} {a : Action} {r : Receipt}

/-- All that an action does to the accumulator of a token, it does with the stake that it meets. -/
theorem booked_of_perform (h : l.perform a = .ok (r, next)) (k : Key) :
    Booked l.pool.totalStaked (l.pool.rewardPools.get? k) (next.pool.rewardPools.get? k)
      (Entry.injected k ⟨l, a, r⟩) (Entry.rateChanges k ⟨l, a, r⟩) := by
  have huser : ∀ {name now}, a.byUser? = some (name, now) →
      Booked l.pool.totalStaked (l.pool.rewardPools.get? k) (next.pool.rewardPools.get? k) 0
        [] := by
    intro name now ha
    obtain ⟨p, u, rfl, hp⟩ := caughtUp_of_perform ha h
    exact hp.booked k
  cases a
  case stake | unstake | update | claim | compound => exact huser rfl
  all_goals simp only [perform, bind_eq_ok, Prod.exists, pure, Except.pure, Except.ok.injEq,
    Prod.mk.injEq] at h
  case addToken token now rate =>
    obtain ⟨p, h, rfl, rfl⟩ := h
    exact StakingPool.booked_of_addRewardToken h k
  case setRate token rate now =>
    obtain ⟨p, h, rfl, rfl⟩ := h
    exact StakingPool.booked_of_setRewardRate h k
  case notify token amount now =>
    obtain ⟨p, h, rfl, rfl⟩ := h
    exact StakingPool.booked_of_notifyRewardAmount h k
  case toStaking token shares now =>
    obtain ⟨fees, p, d, h, rfl, rfl⟩ := h
    obtain ⟨h0, rfl⟩ | ⟨h0, h⟩ := distributeToStaking_pool h
    · have hnone : d.split.staking.toNat = 0 := by omega
      simp only [Entry.injected, Entry.rateChanges, h0, and_false, if_false, hnone, ite_self]
      exact .refl _
    · simp only [Entry.injected, Entry.rateChanges, h0, and_true]
      exact StakingPool.booked_of_notifyRewardAmount h k
  case pending | apr | receive =>
    obtain ⟨_, -, rfl, rfl⟩ := h
    exact .refl _
  case distribute | distributeAll =>
    obtain ⟨_, _, -, rfl, rfl⟩ := h
    exact .refl _

theorem recorded_run (actions : List Action) {k : Key} {injected : ℕ} {changes : List RateChange}
    (hl : Recorded (l.pool.rewardPools.get? k) injected changes) :
    Recorded ((l.run actions).pool.rewardPools.get? k)
      (injected + ((l.journal actions).map (·.injected k)).sum)
      (changes ++ (l.journal actions).flatMap (·.rateChanges k)) := by
  induction actions generalizing l injected changes with
  | nil => simpa [journal] using hl
  | cons a actions ih =>
    rw [run_cons]
    cases h : l.perform a with
    | ok answer =>
      obtain ⟨r, next⟩ := answer
      have hnext := ih ((booked_of_perform h k).recorded hl)
      rw [journal_cons_of_ok h, step_of_ok h, List.map_cons, List.sum_cons, List.flatMap_cons,
        ← Nat.add_assoc, ← List.append_assoc]
      exact hnext
    | error f =>
      rw [journal_cons_of_error h, step_of_error h]
      exact ih hl

/-- There is no stake, and all that was ever credited to a token is queued. -/
structure Unreleased (l : Ledger) : Prop where
  totalStaked_eq : l.pool.totalStaked = 0
  queued_eq : ∀ k, ∀ r ∈ l.pool.rewardPools.get? k, r.queued = r.total

theorem Sound.perform (hl : l.Sound) (h : l.perform a = .ok (r, next)) : next.Sound := by
  intro k
  obtain ⟨paid, hs⟩ := hl k
  exact ⟨_, hs.replay (replay_perform h k)⟩

theorem Entry.compounded_le_paid (e : Entry) :
    e.compounded ≤ e.paid (.text e.before.pool.stakingToken) := by
  obtain ⟨l, a, r⟩ := e
  cases a <;> cases r <;> simp [Entry.compounded, Entry.paid]

/-- From a queue that holds everything nothing is paid, so there is nothing to compound either. -/
theorem Unreleased.perform (hu : l.Unreleased) (hl : l.Sound) (h : l.perform a = .ok (r, next))
    (hstaked : Entry.staked ⟨l, a, r⟩ = 0) : next.Unreleased := by
  have hqueued : ∀ k, ∀ r ∈ next.pool.rewardPools.get? k, r.queued = r.total := by
    intro k
    have hbooked := booked_of_perform h k
    rw [hu.totalStaked_eq] at hbooked
    exact hbooked.queued_eq (hu.queued_eq k)
  have hpaid : Entry.paid (.text l.pool.stakingToken) ⟨l, a, r⟩ = 0 := by
    obtain ⟨paid, hs⟩ := hl (.text l.pool.stakingToken)
    have hnext := hs.replay (replay_perform h _)
    rw [Entry.sum_paid] at hnext
    have hqueue : (next.column (.text l.pool.stakingToken)).reward.queued =
        (next.column (.text l.pool.stakingToken)).reward.total := by
      cases hr : next.pool.rewardPools.get? (.text l.pool.stakingToken) with
      | none => simp [Column.reward, column, hr]
      | some s =>
        rw [Column.reward_of_registered hr]
        exact hqueued _ s hr
    exact (Nat.add_eq_zero_iff.1 (hnext.paid_eq_zero hqueue)).2
  have hcompounded : Entry.compounded ⟨l, a, r⟩ = 0 :=
    Nat.le_zero.1 (hpaid ▸ Entry.compounded_le_paid ⟨l, a, r⟩)
  obtain ⟨paid, hs⟩ := hl .null
  obtain ⟨-, hflow⟩ := hs.balanced.replay (replay_perform h .null)
  rw [Entry.sum_deposited, hstaked, hcompounded] at hflow
  change next.pool.totalStaked + _ = l.pool.totalStaked + 0 at hflow
  exact ⟨by rw [hu.totalStaked_eq] at hflow; omega, hqueued⟩

theorem Unreleased.run (actions : List Action) (hu : l.Unreleased) (hl : l.Sound)
    (hstaked : ∀ e ∈ l.journal actions, e.staked = 0) : (l.run actions).Unreleased := by
  induction actions generalizing l with
  | nil => exact hu
  | cons a actions ih =>
    rw [run_cons]
    cases h : l.perform a with
    | ok answer =>
      obtain ⟨r, next⟩ := answer
      rw [journal_cons_of_ok h, step_of_ok h, List.forall_mem_cons] at hstaked
      rw [step_of_ok h]
      exact ih (hu.perform hl h hstaked.1) (hl.perform h) hstaked.2
    | error f =>
      rw [journal_cons_of_error h, step_of_error h] at hstaked
      rw [step_of_error h]
      exact ih hu hl hstaked

/-- The total of a reward token is what was injected and what its rates emitted until the last
accrual, each from the time at which it came into force until that of the next one. What is queued
is part of it, and all of it until somebody stakes. -/
theorem total_exact (stakingToken : String) (fees : Book) (actions : List Action) (k : Key)
    (r : RewardPool)
    (hr : ((opened stakingToken fees).run actions).pool.rewardPools.get? k = some r) :
    let journal := (opened stakingToken fees).journal actions
    let changes := journal.flatMap (·.rateChanges k)
    r.total = (journal.map (·.injected k)).sum + RateChange.emission changes r.lastUpdate ∧
      changes.Pairwise (fun c d => c.time ≤ d.time) ∧ (∀ c ∈ changes, c.time ≤ r.lastUpdate) ∧
      changes.getLast?.map (·.rate) = some r.rate ∧
      r.queued ≤ r.total ∧ ((∀ e ∈ journal, e.staked = 0) → r.queued = r.total) := by
  intro journal changes
  have hrecords : r.Records (journal.map (·.injected k)).sum changes := by
    have hopened : Recorded ((opened stakingToken fees).pool.rewardPools.get? k) 0 [] := ⟨rfl, rfl⟩
    have hrun := recorded_run actions hopened
    rw [hr, Nat.zero_add, List.nil_append] at hrun
    exact hrun
  have hqueued := (solvent_run stakingToken fees actions k).queued_le
  rw [Column.reward_of_registered hr] at hqueued
  refine ⟨hrecords.total_eq, hrecords.ordered, hrecords.time_le, hrecords.rate_eq, hqueued,
    fun hstaked => ?_⟩
  have hopened : (opened stakingToken fees).Unreleased := ⟨rfl, fun k r hr => nomatch hr⟩
  exact (hopened.run actions (sound_run stakingToken fees []) hstaked).queued_eq k r hr

theorem total_exact_unstaked :
    let actions : List Action := [.addToken "R" 1 5, .setRate "R" 7 4, .notify "R" 11 6,
      .claim "bob" 9 .all, .addToken "R" 9 3, .receive "R" 107,
      .toStaking "R" { minimum := 0 } 10]
    let journal := (opened "S" {}).journal actions
    let changes := journal.flatMap (·.rateChanges (.text "R"))
    let r : RewardPool := ⟨0, 10, 7, 100, 100⟩
    ((opened "S" {}).run actions).pool.rewardPools.get? (.text "R") = some r ∧
      changes = [⟨1, 5⟩, ⟨4, 7⟩] ∧
      r.total = (journal.map (·.injected (.text "R"))).sum +
        RateChange.emission changes r.lastUpdate ∧
      changes.Pairwise (fun c d => c.time ≤ d.time) ∧ (∀ c ∈ changes, c.time ≤ r.lastUpdate) ∧
      changes.getLast?.map (·.rate) = some r.rate ∧ r.queued = r.total := by
  intro actions journal changes r
  have hr : ((opened "S" {}).run actions).pool.rewardPools.get? (.text "R") = some r := by
    decide +kernel
  have hstaked : ∀ e ∈ journal, e.staked = 0 := by decide +kernel
  obtain ⟨htotal, hordered, htime, hrate, -, hqueued⟩ :=
    total_exact "S" {} actions (.text "R") r hr
  exact ⟨hr, by decide +kernel, htotal, hordered, htime, hrate, hqueued hstaked⟩

end Ledger

end PoolAccounting
