import Mathlib
import PoolAccounting.Proofs.Ledger.Settlement
import PoolAccounting.Proofs.Regularity.Arithmetic

/-!
Withdrawing the whole principal where no token is emitted any more. A withdrawal releases first what
is queued of every token; nothing else stands in its way. Main statement: it is answered just if the
accumulator of every token has room for its queue, spread over the stake there is, and it is refused
for an overflow otherwise. What is queued while nothing is staked can be too much for a stake that
comes later, so there are principals that cannot be withdrawn.
-/
namespace PoolAccounting

open Staking Fees Amount

namespace Staking

/-- Whether an accumulator can take what its queue is worth to a stake. -/
def RewardPool.Releasable (r : RewardPool) (staked : ℕ) : Prop :=
  r.rewardPerToken + r.queued * precision / staked ≤ maxAmount

/-- An accumulator that emits nothing, at a time and with a stake that it can be brought up to. -/
structure RewardPool.Idle (r : RewardPool) (staked now : ℕ) : Prop where
  rate_eq : r.rate = 0
  lastUpdate_le : r.lastUpdate ≤ now
  now_le : now ≤ maxAmount
  staked_pos : 0 < staked
  staked_le : staked ≤ maxAmount
  rewardPerToken_le : r.rewardPerToken ≤ maxAmount
  queued_le : r.queued ≤ maxAmount
  total_le : r.total ≤ maxAmount

namespace RewardPool.Idle

variable {r : RewardPool} {staked now : ℕ}

theorem emission_eq (h : r.Idle staked now) : r.emission now = 0 := by
  rw [emission, h.rate_eq, Nat.mul_zero]

theorem accrued_eq (h : r.Idle staked now) : r.accrued staked now =
    { r with
      rewardPerToken := r.rewardPerToken + r.queued * precision / staked
      lastUpdate := now
      queued := 0 } := by
  rw [accrued, if_neg h.staked_pos.ne', h.emission_eq, Nat.zero_add, Nat.add_zero]

theorem accrue_iff (h : r.Idle staked now) :
    (∃ r', r.accrue staked now = .ok r') ↔ r.Releasable staked := by
  have hne : staked ≠ 0 := h.staked_pos.ne'
  constructor
  · rintro ⟨r', hr'⟩
    obtain ⟨t, ht, rfl, -, -, -, -, -, hroom⟩ := accrue_eq_ok.1 hr'
    cases ht
    rw [if_neg hne, h.accrued_eq] at hroom
    exact hroom.2
  · intro hroom
    refine ⟨_, accrue_eq_ok.2 ⟨now, rfl, rfl, h.lastUpdate_le, (Nat.sub_le _ _).trans h.now_le,
      h.rate_eq.trans_le (Nat.zero_le _), h.staked_le, ?_, ?_⟩⟩
    · rw [h.accrued_eq]
      exact h.total_le
    · rw [if_neg hne, h.accrued_eq, h.emission_eq, Nat.zero_add]
      exact ⟨h.queued_le, hroom⟩

theorem overflowOnly_accrue (h : r.Idle staked now) : OverflowOnly (r.accrue staked now) := by
  have hstaked : Operand.nonNegative "total_staked" staked = .ok staked :=
    Operand.nonNegative_eq_ok.2 ⟨rfl, h.staked_le⟩
  have hclock : ensure (r.lastUpdate ≤ now) (.clockBackwards now r.lastUpdate) = .ok () :=
    ensure_eq_ok.2 h.lastUpdate_le
  have hemitted : mulNat (now - r.lastUpdate) r.rate = .ok 0 := by
    rw [mulNat_eq_ok, h.rate_eq]
    exact ⟨rfl, (Nat.sub_le _ _).trans h.now_le, Nat.zero_le _, Nat.zero_le _⟩
  refine .bind_ok (Operand.time_natCast now) ?_
  refine .bind_ok hstaked ?_
  refine .bind_ok hclock ?_
  refine .bind_ok hemitted ?_
  apply FailsOnly.bind (overflowOnly_addNat h.total_le (Nat.zero_le _))
  intro total _
  rw [if_neg h.staked_pos.ne']
  apply FailsOnly.bind (overflowOnly_addNat (Nat.zero_le _) h.queued_le)
  intro released hreleased
  obtain ⟨rfl, hle⟩ := addNat_eq_ok.1 hreleased
  apply FailsOnly.bind
    (overflowOnly_mulDivDown hle (by decide) h.staked_le h.staked_pos.ne')
  intro growth hgrowth
  apply FailsOnly.bind
    (overflowOnly_addNat h.rewardPerToken_le (mulDivDown_eq_ok.1 hgrowth).2.2.2.2.2)
  intro rewardPerToken _
  exact .of_ok rfl

end RewardPool.Idle

namespace StakingPool

variable {p : StakingPool} {now : Operand}

theorem overflowOnly_accrue_all
    (h : ∀ k r, p.rewardPools.get? k = some r → OverflowOnly (r.accrue p.totalStaked now)) :
    OverflowOnly (p.accrue p.rewardPools.domain now) := by
  apply FailsOnly.bind
  · apply FailsOnly.traverse
    intro k r hr
    rw [if_pos (Table.contains_domain_of_get? hr)]
    exact h k r hr
  · intro pools _
    exact .of_ok rfl

end StakingPool

end Staking

theorem Column.Solvent.queued_le {c : Column} {paid : ℕ} (h : c.Solvent paid) :
    c.reward.queued ≤ c.reward.total := by
  have hcov := h.covered
  apply Nat.le_of_mul_le_mul_left _ precision_pos
  rw [Nat.mul_add] at hcov
  omega

namespace Ledger

variable {l : Ledger} {p : StakingPool} {chosen : Table Unit} {name : String} {now : Operand}

/-- Every reward token is solvent. -/
def Sound (l : Ledger) : Prop := ∀ k, ∃ paid, (l.column k).Solvent paid

theorem sound_run (stakingToken : String) (fees : Book) (actions : List Action) :
    ((opened stakingToken fees).run actions).Sound :=
  fun k => ⟨_, solvent_run stakingToken fees actions k⟩

namespace Sound

theorem staked_le (h : l.Sound) (name : String) : (l.user name).staked ≤ l.pool.totalStaked := by
  obtain ⟨paid, hs⟩ := h .null
  have hle := hs.balanced.staked_le name
  rwa [seat_column] at hle

theorem totalStaked_le (h : l.Sound) : l.pool.totalStaked ≤ maxAmount := by
  obtain ⟨paid, hs⟩ := h .null
  exact hs.balanced.bounded

theorem settle (h : l.Sound) (ha : l.pool.accrue chosen now = .ok p) (name : String) {k : Key}
    {r : RewardPool} (hr : p.rewardPools.get? k = some r) : ∃ e d,
      ((l.user name).checkpoint k).earned (l.user name).staked r.rewardPerToken = .ok e ∧
      ((l.user name).checkpoint k).settle (l.user name).staked r.rewardPerToken = .ok d := by
  obtain ⟨paid, hs⟩ := h k
  exact settle_of_solvent (solvent_accrue hs ha) hr name

/-- Once all tokens are accrued an update goes through. -/
theorem update (h : l.Sound) (ha : l.pool.accrue l.pool.rewardPools.domain now = .ok p)
    (name : String) : ∃ u, l.pool.update (l.user name) now = .ok (p, u) ∧
      u.staked = (l.user name).staked := by
  obtain ⟨settled, hsettled⟩ := Table.traverse_succeeds fun k r hr => by
    obtain ⟨e, d, -, hd⟩ := h.settle ha name hr
    exact ⟨d, hd⟩
  refine ⟨_, StakingPool.update_eq_ok.2 ⟨settled, ha, ?_, rfl⟩, rfl⟩
  rw [StakingPool.settled, Table.restrict_domain]
  exact hsettled

/-- Then every user can also be told what is owed. -/
theorem pendingRewards (h : l.Sound) (ha : l.pool.accrue l.pool.rewardPools.domain now = .ok p)
    (name : String) : ∃ amounts, l.pool.pendingRewards (l.user name) now = .ok amounts := by
  obtain ⟨amounts, hearned⟩ := Table.traverse_succeeds fun k r hr => by
    obtain ⟨e, d, he, -⟩ := h.settle ha name hr
    exact ⟨e, he⟩
  exact ⟨amounts, bind_eq_ok.2 ⟨p, ha, hearned⟩⟩

/-- A withdrawal of the whole principal goes through just if all tokens can be accrued. -/
theorem unstake_all_iff (h : l.Sound) (h0 : 0 < (l.user name).staked) :
    (∃ q v, l.pool.unstake (l.user name) (l.user name).staked now = .ok (q, v) ∧ v.staked = 0) ↔
      ∃ p, l.pool.accrue l.pool.rewardPools.domain now = .ok p := by
  constructor
  · rintro ⟨q, v, hq, -⟩
    obtain ⟨n, p, u, -, -, -, -, hu, -⟩ := StakingPool.unstake_eq_ok.1 hq
    obtain ⟨settled, ha, -, -⟩ := StakingPool.update_eq_ok.1 hu
    exact ⟨p, ha⟩
  · rintro ⟨p, ha⟩
    obtain ⟨u, hu, hs⟩ := h.update ha name
    have hstaked := h.staked_le name
    have htotal := h.totalStaked_le
    have hp := StakingPool.totalStaked_of_accrue ha
    refine ⟨_, _, StakingPool.unstake_eq_ok.2 ⟨_, p, u, rfl, h0, hstaked.trans htotal, le_rfl, hu,
      hs.ge, by omega, by omega, by omega, rfl, rfl⟩, ?_⟩
    rw [hs]
    exact Nat.sub_self _

theorem overflowOnly_unstake_all (h : l.Sound) (h0 : 0 < (l.user name).staked)
    (ha : OverflowOnly (l.pool.accrue l.pool.rewardPools.domain now)) :
    OverflowOnly (l.pool.unstake (l.user name) (l.user name).staked now) := by
  intro f hf
  cases hp : l.pool.accrue l.pool.rewardPools.domain now with
  | ok p =>
    obtain ⟨q, v, hq, -⟩ := (h.unstake_all_iff h0).2 ⟨p, hp⟩
    rw [hq] at hf
    cases hf
  | error g =>
    have hpos : Operand.positive "amount" (l.user name).staked = .ok (l.user name).staked :=
      Operand.positive_eq_ok.2 ⟨rfl, h0, (h.staked_le name).trans h.totalStaked_le⟩
    -- the accrual is the first step that can fail
    have hunstake : l.pool.unstake (l.user name) (l.user name).staked now = .error g := by
      simp [StakingPool.unstake, StakingPool.update, hpos, hp, ensure]
    obtain rfl : g = f := Except.error.inj (hunstake.symm.trans hf)
    exact ha g hp

/-- The books of a solvent token bound its level and its queue. -/
theorem rewardPool_le (h : l.Sound) {k : Key} {r : RewardPool}
    (hr : l.pool.rewardPools.get? k = some r) :
    r.rewardPerToken ≤ maxAmount ∧ r.queued ≤ maxAmount ∧ r.total ≤ maxAmount := by
  obtain ⟨paid, hs⟩ := h k
  have hreward : (l.column k).reward = r := Column.reward_of_registered hr
  have hlevel := hs.rewardPerToken_le
  have htotal := hs.total_le
  have hqueued := hs.queued_le
  rw [hreward] at hlevel htotal hqueued
  exact ⟨hlevel, hqueued.trans htotal, htotal⟩

theorem idle (h : l.Sound) {k : Key} {r : RewardPool} {t : ℕ}
    (hr : l.pool.rewardPools.get? k = some r) (hrate : r.rate = 0) (hlast : r.lastUpdate ≤ t)
    (ht : t ≤ maxAmount) (h0 : 0 < l.pool.totalStaked) : r.Idle l.pool.totalStaked t := by
  obtain ⟨hlevel, hqueued, htotal⟩ := h.rewardPool_le hr
  exact ⟨hrate, hlast, ht, h0, h.totalStaked_le, hlevel, hqueued, htotal⟩

end Sound

/-- Where no token is emitted any more, a user can withdraw the whole principal just if the
accumulator of every token can take what is queued of it. Nothing but an overflow of such an
accumulator refuses the withdrawal. -/
theorem withdrawal_iff_releasable (stakingToken : String) (fees : Book) (actions : List Action)
    (name : String) (now : ℤ) :
    let l := (opened stakingToken fees).run actions
    (∀ r ∈ l.pool.rewardPools.values, r.rate = 0) → 0 < (l.user name).staked →
    now ≤ maxAmount → (∀ r ∈ l.pool.rewardPools.values, r.lastUpdate ≤ now) →
    ((∃ p u, l.pool.unstake (l.user name) (l.user name).staked now = .ok (p, u) ∧ u.staked = 0) ↔
      ∀ r ∈ l.pool.rewardPools.values,
        r.rewardPerToken + r.queued * precision / l.pool.totalStaked ≤ maxAmount) ∧
    ∀ f, l.pool.unstake (l.user name) (l.user name).staked now = .error f →
      f.kind = .accounting .overflow := by
  intro l hrate h0 hnow hlast
  have hl : l.Sound := sound_run stakingToken fees actions
  -- a time that is not before some update is a natural number
  have hidle : ∀ k r, l.pool.rewardPools.get? k = some r → ∃ t : ℕ, now = t ∧
      r.Idle l.pool.totalStaked t := by
    intro k r hr
    have hmem : r ∈ l.pool.rewardPools.values := Table.mem_values_iff.2 ⟨k, hr⟩
    have hle := hlast r hmem
    obtain ⟨t, rfl⟩ := Int.eq_ofNat_of_zero_le ((Int.natCast_nonneg _).trans hle)
    exact ⟨t, rfl, hl.idle hr (hrate r hmem) (Nat.cast_le.1 hle) (Nat.cast_le.1 hnow)
      (h0.trans_le (hl.staked_le name))⟩
  constructor
  · rw [hl.unstake_all_iff h0, StakingPool.accrue_all_iff]
    constructor
    · intro h r hmem
      obtain ⟨k, hr⟩ := Table.mem_values_iff.1 hmem
      obtain ⟨t, rfl, hi⟩ := hidle k r hr
      exact hi.accrue_iff.1 (h k r hr)
    · intro h k r hr
      obtain ⟨t, rfl, hi⟩ := hidle k r hr
      exact hi.accrue_iff.2 (h r (Table.mem_values_iff.2 ⟨k, hr⟩))
  · apply hl.overflowOnly_unstake_all h0
    apply StakingPool.overflowOnly_accrue_all
    intro k r hr
    obtain ⟨t, rfl, hi⟩ := hidle k r hr
    exact hi.overflowOnly_accrue

theorem withdrawal_iff_releasable_queued :
    let l := (opened "S" {}).run [.notify "R" 1000 0, .stake "alice" 3 1 none]
    (∀ r ∈ l.pool.rewardPools.values, r.rate = 0) ∧ 0 < (l.user "alice").staked ∧
    (9 : ℤ) ≤ maxAmount ∧ (∀ r ∈ l.pool.rewardPools.values, (r.lastUpdate : ℤ) ≤ 9) ∧
    ((∃ p u, l.pool.unstake (l.user "alice") (l.user "alice").staked 9 = .ok (p, u) ∧
        u.staked = 0) ↔
      ∀ r ∈ l.pool.rewardPools.values,
        r.rewardPerToken + r.queued * precision / l.pool.totalStaked ≤ maxAmount) ∧
    ∀ f, l.pool.unstake (l.user "alice") (l.user "alice").staked 9 = .error f →
      f.kind = .accounting .overflow := by
  intro l
  have hrate : ∀ r ∈ l.pool.rewardPools.values, r.rate = 0 := by decide
  have h0 : 0 < (l.user "alice").staked := by decide
  have hnow : (9 : ℤ) ≤ maxAmount := by decide
  have hlast : ∀ r ∈ l.pool.rewardPools.values, (r.lastUpdate : ℤ) ≤ 9 := by decide
  exact ⟨hrate, h0, hnow, hlast, withdrawal_iff_releasable "S" {} _ "alice" 9 hrate h0 hnow hlast⟩

/-- A lump sum that is queued while nobody stakes can be too much for the first stake, which is then
locked: releasing it to a single unit would take the accumulator out of the amount domain. -/
theorem withdrawal_refused_queued :
    let l := (opened "S" {}).run
      [.notify "R" 1000000000000000000000 0, .stake "alice" 1 0 none]
    (∀ r ∈ l.pool.rewardPools.values, r.rate = 0) ∧ 0 < (l.user "alice").staked ∧
    (0 : ℤ) ≤ maxAmount ∧ (∀ r ∈ l.pool.rewardPools.values, (r.lastUpdate : ℤ) ≤ 0) ∧
    l.pool.unstake (l.user "alice") (l.user "alice").staked 0 =
      .error (.aboveDomain 1000000000000000000000000000000000000000) := by
  decide +kernel

end Ledger

end PoolAccounting
