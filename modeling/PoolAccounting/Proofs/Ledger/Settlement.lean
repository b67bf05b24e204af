import Mathlib
import PoolAccounting.Proofs.Ledger.Solvency
import PoolAccounting.Proofs.Regularity.Operations

/-!
In a ledger that is reached from an empty one every user can be settled: accumulators never fall,
checkpoints are never ahead of them, and what is owed fits the amount domain. So no action on such
a ledger is refused for an underflow or for a division by zero.
-/
namespace PoolAccounting

open Staking Fees Amount

namespace Column

variable {c d : Column} {p : Posting} {ps : List Posting} {r : RewardPool}

theorem rewardPerToken_post (h : c.post p = some d) (hr : c.accumulator = some r) :
    ∃ r', d.accumulator = some r' ∧ r.rewardPerToken ≤ r'.rewardPerToken := by
  cases p with
  | book b =>
    obtain ⟨accumulator, hb, rfl⟩ := post_book.1 h
    cases hacc : accumulator with
    | none =>
      rw [registered_of_book hb hacc] at hr
      cases hr
    | some r' =>
      obtain ⟨credit, hcr⟩ := credited_of_book hb
      have hmono := hcr.rewardPerToken_mono
      rw [reward_of_registered hr, hacc] at hmono
      exact ⟨r', rfl, hmono⟩
  | move user m =>
    obtain ⟨s, -, rfl⟩ := post_move.1 h
    exact ⟨r, hr, Nat.le_refl _⟩

/-- A token that is registered stays registered, and its accumulator never falls. -/
theorem rewardPerToken_replay (h : c.replay ps = some d) (hr : c.accumulator = some r) :
    ∃ r', d.accumulator = some r' ∧ r.rewardPerToken ≤ r'.rewardPerToken := by
  apply replay_invariant
    (fun e _ => ∃ r', e.accumulator = some r' ∧ r.rewardPerToken ≤ r'.rewardPerToken) ?_ h
  · exact ⟨r, hr, Nat.le_refl _⟩
  · intro e e' q qs he hp
    obtain ⟨r', hr', hle⟩ := he
    obtain ⟨r'', hr'', hle'⟩ := rewardPerToken_post hp hr'
    exact ⟨r'', hr'', hle.trans hle'⟩

end Column

namespace Ledger

variable {l : Ledger} {p : StakingPool} {chosen : Table Unit} {now : Operand} {k : Key} {paid : Nat}

/-- Accruing some of the tokens leaves every token solvent. -/
theorem solvent_accrue (hl : (l.column k).Solvent paid) (h : l.pool.accrue chosen now = .ok p) :
    (Ledger.column { l with pool := p } k).Solvent paid := by
  have hp : Ledger.column { l with pool := p } k =
      ⟨p.rewardPools.get? k, p.totalStaked, (l.column k).seats⟩ := rfl
  by_cases hk : chosen.contains k = true ∨ l.pool.rewardPools.get? k = none
  · have hpost := hl.post (post_accrue h hk)
    rwa [← hp] at hpost
  · rw [not_or] at hk
    obtain ⟨r, hr⟩ := Option.ne_none_iff_exists'.1 hk.2
    obtain ⟨r', hr', ha⟩ := StakingPool.get?_accrue h hr
    rw [if_neg hk.1] at ha
    rw [hp, hr', ha, ← hr, StakingPool.totalStaked_of_accrue h]
    exact hl

theorem within_of_dominated (h : ∀ k, (l.column k).Dominated) (name : String) :
    (l.user name).Within l.pool := by
  intro k r hr
  have hp := (h k).seat_paid name
  rwa [seat_column, UserStake.seat_checkpoint, Column.reward_of_registered hr] at hp

/-- A checkpoint that is stored is of a registered token, and not ahead of its accumulator. -/
theorem registered_of_dominated (h : (l.column k).Dominated) {name : String} {c : Checkpoint}
    (hc : (l.user name).checkpoints.get? k = some c) :
    ∃ r, l.pool.rewardPools.get? k = some r ∧ c.paid ≤ r.rewardPerToken := by
  have hseat : ((l.column k).seat name).stored = some c := by
    rw [seat_column]
    exact hc
  cases hr : l.pool.rewardPools.get? k with
  | none =>
    rw [h.seat_stored name hr] at hseat
    cases hseat
  | some r =>
    have hpaid := h.seat_paid name
    rw [Seat.checkpoint, hseat, Column.reward_of_registered hr] at hpaid
    exact ⟨r, rfl, hpaid⟩

/-- In a solvent ledger every user can be settled. -/
theorem settle_of_solvent (h : (l.column k).Solvent paid) {r : RewardPool}
    (hr : l.pool.rewardPools.get? k = some r) (name : String) : ∃ e d,
      ((l.user name).checkpoint k).earned (l.user name).staked r.rewardPerToken = .ok e ∧
      ((l.user name).checkpoint k).settle (l.user name).staked r.rewardPerToken = .ok d := by
  obtain ⟨e, he⟩ := h.earned (Column.mem_values_or _ name)
  rw [seat_column, UserStake.seat_checkpoint, UserStake.seat_staked,
    Column.reward_of_registered hr] at he
  exact ⟨e, ⟨r.rewardPerToken, e⟩, he, Checkpoint.settle_eq_ok.2 ⟨he, rfl⟩⟩

theorem ordinary_perform (hd : ∀ k, (l.column k).Dominated)
    (hb : ∀ name, (l.user name).staked ≤ l.pool.totalStaked) (a : Action) :
    Ordinary (l.perform a) := by
  have hu := within_of_dominated hd
  cases a with
  | stake name amount now limits =>
    apply FailsOnly.bind (StakingPool.ordinary_stake (hu name) amount now limits)
    intro ⟨p, u⟩ _
    exact .pure _
  | unstake name amount now =>
    apply FailsOnly.bind (StakingPool.ordinary_unstake (hu name) (hb name) amount now)
    intro ⟨p, u⟩ _
    exact .pure _
  | update name now =>
    apply FailsOnly.bind (StakingPool.ordinary_update (hu name) now)
    intro ⟨p, u⟩ _
    exact .pure _
  | claim name now choice =>
    apply FailsOnly.bind (StakingPool.ordinary_claim (hu name) now choice)
    intro c _
    exact .pure _
  | compound name now limits =>
    apply FailsOnly.bind (StakingPool.ordinary_compound (hu name) now limits)
    intro c _
    exact .pure _
  | pending name now =>
    apply FailsOnly.bind (StakingPool.ordinary_pendingRewards (hu name) now)
    intro amounts _
    exact .pure _
  | apr token period =>
    apply FailsOnly.bind (l.pool.ordinary_estimateAprBps token period)
    intro bps _
    exact .pure _
  | addToken token now rate =>
    apply FailsOnly.bind (l.pool.ordinary_addRewardToken token now rate)
    intro p _
    exact .pure _
  | setRate token rate now =>
    apply FailsOnly.bind (l.pool.ordinary_setRewardRate token rate now)
    intro p _
    exact .pure _
  | notify token amount now =>
    apply FailsOnly.bind (l.pool.ordinary_notifyRewardAmount token amount now)
    intro p _
    exact .pure _
  | receive token amount =>
    apply FailsOnly.bind (l.fees.ordinary_receive token amount)
    intro fees _
    exact .pure _
  | distribute token shares =>
    apply FailsOnly.bind (l.fees.ordinary_distribute token shares)
    intro ⟨fees, result⟩ _
    exact .pure _
  | distributeAll shares =>
    apply FailsOnly.bind (Book.ordinary_distributeEach shares _ l.fees)
    intro ⟨fees, results⟩ _
    exact .pure _
  | toStaking token shares now =>
    apply FailsOnly.bind (l.fees.ordinary_distributeToStaking l.pool token shares now)
    intro ⟨fees, p, result⟩ _
    exact .pure _

/-- Along every run accumulators never fall; checkpoints are of registered tokens and not ahead of
their accumulators; after an accrual every user can be settled against every token; and no action
meets an underflow or a division by zero. -/
theorem settlement_succeeds (stakingToken : String) (fees : Book) (before after : List Action) :
    let l := (opened stakingToken fees).run before
    (∀ k r, l.pool.rewardPools.get? k = some r → ∃ r',
      (l.run after).pool.rewardPools.get? k = some r' ∧ r.rewardPerToken ≤ r'.rewardPerToken) ∧
    (∀ name k c, (l.user name).checkpoints.get? k = some c → ∃ r,
      l.pool.rewardPools.get? k = some r ∧ c.paid ≤ r.rewardPerToken) ∧
    (∀ chosen now p, l.pool.accrue chosen now = .ok p → ∀ name k r,
      p.rewardPools.get? k = some r → ∃ e d,
        ((l.user name).checkpoint k).earned (l.user name).staked r.rewardPerToken = .ok e ∧
        ((l.user name).checkpoint k).settle (l.user name).staked r.rewardPerToken = .ok d) ∧
    ∀ a f, l.perform a = .error f →
      f.kind ≠ .accounting .underflow ∧ f.kind ≠ .accounting .divisionByZero := by
  intro l
  have hsolvent : ∀ k, (l.column k).Solvent _ := solvent_run stakingToken fees before
  refine ⟨?_, ?_, ?_, ?_⟩
  · intro k r hr
    exact Column.rewardPerToken_replay (replay_run l after k) hr
  · intro name k c hc
    exact registered_of_dominated (hsolvent k).dominated hc
  · intro chosen now p hp name k r hr
    have hs := solvent_accrue (hsolvent k) hp
    exact settle_of_solvent hs hr name
  · intro a f hf
    have hbound : ∀ name, (l.user name).staked ≤ l.pool.totalStaked := by
      intro name
      have hle := (hsolvent .null).balanced.staked_le name
      rwa [seat_column] at hle
    have hreg := (ordinary_perform (fun k => (hsolvent k).dominated) hbound a).regular f hf
    simpa [Fault.isIrregular] using hreg

end Ledger

end PoolAccounting
