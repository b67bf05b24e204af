import Mathlib
import PoolAccounting.Proofs.Fees.Distribution
import PoolAccounting.Proofs.Regularity.Arithmetic

/-!
The operations on accumulators, pools, users and fees are ordinary. A settlement subtracts what a
checkpoint was paid up to from the accumulator, so it needs a user whose checkpoints are not ahead
of the pool; a withdrawal needs a pool that holds at least what the user has staked.
-/
namespace PoolAccounting

open Amount

namespace Staking

theorem RewardPool.ordinary_accrue (r : RewardPool) (totalStaked now : Operand) :
    Ordinary (r.accrue totalStaked now) := by
  apply FailsOnly.bind now.ordinary_time
  intro t _
  apply FailsOnly.bind (totalStaked.ordinary_nonNegative _)
  intro staked _
  refine .bind (.ensure fun _ => rfl) ?_
  intro _ _
  apply FailsOnly.bind (ordinary_mulNat _ _)
  intro emitted _
  apply FailsOnly.bind (ordinary_addNat _ _)
  intro total _
  apply FailsOnly.ite
  · intro _
    apply FailsOnly.bind (ordinary_addNat _ _)
    intro queued _
    exact .pure _
  · intro h0
    apply FailsOnly.bind (ordinary_addNat _ _)
    intro released _
    apply FailsOnly.bind (ordinary_mulDivDown h0 _ _)
    intro growth _
    apply FailsOnly.bind (ordinary_addNat _ _)
    intro rewardPerToken _
    exact .pure _

theorem RewardPool.ordinary_inject (r : RewardPool) (amount totalStaked : Nat) :
    Ordinary (r.inject amount totalStaked) := by
  apply FailsOnly.ite
  · intro _
    apply FailsOnly.bind (ordinary_addNat _ _)
    intro queued _
    apply FailsOnly.bind (ordinary_addNat _ _)
    intro total _
    exact .pure _
  · intro h0
    apply FailsOnly.bind (ordinary_mulDivDown h0 _ _)
    intro growth _
    apply FailsOnly.bind (ordinary_addNat _ _)
    intro rewardPerToken _
    apply FailsOnly.bind (ordinary_addNat _ _)
    intro total _
    exact .pure _

theorem Checkpoint.ordinary_earned {c : Checkpoint} {rewardPerToken : Nat}
    (h : c.paid ≤ rewardPerToken) (staked : Operand) :
    Ordinary (c.earned staked rewardPerToken) := by
  apply FailsOnly.bind (ordinary_sub h)
  intro growth _
  apply FailsOnly.bind (ordinary_mulDivDown (by decide) _ _)
  intro share _
  exact ordinary_addNat _ _

theorem Checkpoint.ordinary_settle {c : Checkpoint} {rewardPerToken : Nat}
    (h : c.paid ≤ rewardPerToken) (staked : Operand) :
    Ordinary (c.settle staked rewardPerToken) := by
  apply FailsOnly.bind (ordinary_earned h staked)
  intro accrued _
  apply FailsOnly.bind (Operand.ordinary_field _ _)
  intro paid _
  exact .pure _

/-- No checkpoint of the user is ahead of the pool. -/
def UserStake.Within (u : UserStake) (p : StakingPool) : Prop :=
  ∀ k r, p.rewardPools.get? k = some r → (u.checkpoint k).paid ≤ r.rewardPerToken

theorem ordinary_tokenName (field : String) (token : Scalar) : Ordinary (tokenName field token) := by
  cases token with
  | text name =>
    refine .bind (.ensure fun _ => rfl) ?_
    intro _ _
    exact .pure name
  | _ => exact .error rfl

theorem StakeLimits.ordinary_checkStake (limits : Option StakeLimits) (amount : Nat) :
    Ordinary (checkStake limits amount) := by
  cases limits with
  | none => exact .pure ()
  | some l => exact .ensure fun _ => rfl

theorem StakeLimits.ordinary_checkPrincipal (limits : Option StakeLimits) (staked : Nat) :
    Ordinary (checkPrincipal limits staked) := by
  cases limits with
  | none => exact .pure ()
  | some l => exact .ensure fun _ => rfl

namespace StakingPool

variable {p p' : StakingPool} {u u' : UserStake} {chosen : Table Unit} {now : Operand}

theorem within_of_accrue (hu : u.Within p) (h : p.accrue chosen now = .ok p') : u.Within p' := by
  intro k r' hr'
  cases hr : p.rewardPools.get? k with
  | none =>
    rw [get?_eq_none_of_accrue h hr] at hr'
    cases hr'
  | some r =>
    obtain ⟨r'', hr'', ha⟩ := get?_accrue h hr
    rw [hr'] at hr''
    cases hr''
    refine (hu k r hr).trans ?_
    split at ha
    · obtain ⟨t, -, hc⟩ := RewardPool.credited_of_accrue ha
      exact hc.rewardPerToken_mono
    · rw [ha]

/-- A user who is settled against some of the tokens is still not ahead of the pool. -/
theorem within_of_settled {settled : Table Checkpoint} (hu : u.Within p)
    (h : p.settled chosen u = .ok settled) (f : Checkpoint → Checkpoint)
    (hf : ∀ c, (f c).paid = c.paid) :
    UserStake.Within { u with checkpoints := u.checkpoints.override (settled.map f) } p := by
  intro k r hr
  rw [UserStake.checkpoint, Table.get?_override, Table.get?_map]
  cases hk : chosen.contains k with
  | true =>
    obtain ⟨d, hd, hs⟩ := get?_settled h hk hr
    rw [hd, Option.map_some, Option.some_or, Option.getD_some, hf]
    exact (Checkpoint.settle_eq_ok.1 hs).2.le
  | false =>
    rw [get?_settled_eq_none h (.inl hk)]
    exact hu k r hr

theorem ordinary_rewardPool (p : StakingPool) (token : Scalar) : Ordinary (p.rewardPool token) := by
  rw [rewardPool]
  cases p.rewardPools.get? token.key with
  | none => exact .error rfl
  | some r => exact .pure r

theorem ordinary_accrue (p : StakingPool) (chosen : Table Unit) (now : Operand) :
    Ordinary (p.accrue chosen now) := by
  apply FailsOnly.bind
  · apply FailsOnly.traverse
    intro k r _
    exact .ite (fun _ => r.ordinary_accrue _ _) fun _ => .pure r
  · intro pools _
    exact .pure _

theorem ordinary_settled (hu : u.Within p) (chosen : Table Unit) :
    Ordinary (p.settled chosen u) := by
  apply FailsOnly.traverse
  intro k r hr
  rw [Table.get?_restrict, Option.ite_none_right_eq_some] at hr
  exact Checkpoint.ordinary_settle (hu k r hr.2) _

theorem ordinary_update (hu : u.Within p) (now : Operand) : Ordinary (p.update u now) := by
  apply FailsOnly.bind (ordinary_accrue _ _ _)
  intro p' hp
  apply FailsOnly.bind (ordinary_settled (within_of_accrue hu hp) _)
  intro settled _
  exact .pure _

theorem ordinary_addStake (hu : u.Within p) (amount : Nat) (now : Operand)
    (limits : Option StakeLimits) : Ordinary (p.addStake u amount now limits) := by
  apply FailsOnly.bind (ordinary_update hu now)
  intro ⟨p', u'⟩ _
  apply FailsOnly.bind (ordinary_addNat _ _)
  intro staked _
  apply FailsOnly.bind (StakeLimits.ordinary_checkPrincipal _ _)
  intro _ _
  apply FailsOnly.bind (Operand.ordinary_field _ _)
  intro stakeTime _
  apply FailsOnly.bind (ordinary_addNat _ _)
  intro totalStaked _
  exact .pure _

theorem ordinary_stake (hu : u.Within p) (amount now : Operand) (limits : Option StakeLimits) :
    Ordinary (p.stake u amount now limits) := by
  apply FailsOnly.bind (amount.ordinary_positive _)
  intro n _
  apply FailsOnly.bind (StakeLimits.ordinary_checkStake _ _)
  intro _ _
  exact ordinary_addStake hu n now limits

theorem ordinary_unstake (hu : u.Within p) (hs : u.staked ≤ p.totalStaked) (amount now : Operand) :
    Ordinary (p.unstake u amount now) := by
  apply FailsOnly.bind (amount.ordinary_positive _)
  intro n _
  refine .bind (.ensure fun _ => rfl) ?_
  intro _ hn
  apply FailsOnly.bind (ordinary_update hu now)
  intro ⟨p', u'⟩ h
  obtain ⟨settled, ha, -, rfl⟩ := update_eq_ok.1 h
  have hle : n ≤ u.staked := ensure_eq_ok.1 hn
  apply FailsOnly.bind (ordinary_sub hle)
  intro staked _
  apply FailsOnly.bind (ordinary_sub (by rw [totalStaked_of_accrue ha]; exact hle.trans hs))
  intro totalStaked _
  exact .pure _

theorem ordinary_resolve (p : StakingPool) (choice : TokenChoice) :
    Ordinary (p.resolve choice) := by
  cases choice with
  | all => exact .pure _
  | single given => exact .error rfl
  | listed tokens =>
    rw [resolve]
    split
    · exact .error rfl
    · exact .pure _

theorem ordinary_claim (hu : u.Within p) (now : Operand) (choice : TokenChoice) :
    Ordinary (p.claim u now choice) := by
  apply FailsOnly.bind (ordinary_resolve _ _)
  intro chosen _
  apply FailsOnly.bind (ordinary_accrue _ _ _)
  intro p' hp
  apply FailsOnly.bind (ordinary_settled (within_of_accrue hu hp) _)
  intro settled _
  apply FailsOnly.bind (now.ordinary_field _)
  intro lastClaimTime _
  exact .pure _

theorem within_of_claim {choice : TokenChoice} {c : ClaimResult} (hu : u.Within p)
    (h : p.claim u now choice = .ok c) : c.user.Within c.pool := by
  obtain ⟨chosen, p', settled, t, -, ha, hs, -, rfl⟩ := claim_eq_ok.1 h
  exact within_of_settled (within_of_accrue hu ha) hs _ fun _ => rfl

theorem ordinary_compound (hu : u.Within p) (now : Operand) (limits : Option StakeLimits) :
    Ordinary (p.compound u now limits) := by
  apply FailsOnly.bind (ordinary_claim hu now .all)
  intro c hc
  apply FailsOnly.ite
  · intro _
    exact .pure _
  · intro _
    apply FailsOnly.bind (ordinary_addStake (within_of_claim hu hc) _ _ _)
    intro ⟨p', u'⟩ _
    exact .pure _

theorem ordinary_addRewardToken (p : StakingPool) (token : Scalar) (now rate : Operand) :
    Ordinary (p.addRewardToken token now rate) := by
  apply FailsOnly.bind now.ordinary_time
  intro t _
  apply FailsOnly.bind (ordinary_tokenName _ _)
  intro name _
  apply FailsOnly.ite
  · intro _
    exact .pure _
  · intro _
    apply FailsOnly.bind (rate.ordinary_nonNegative _)
    intro n _
    exact .pure _

theorem ordinary_setRewardRate (p : StakingPool) (token : Scalar) (rate now : Operand) :
    Ordinary (p.setRewardRate token rate now) := by
  apply FailsOnly.bind (rate.ordinary_nonNegative _)
  intro n _
  apply FailsOnly.bind (ordinary_rewardPool _ _)
  intro r _
  apply FailsOnly.bind (r.ordinary_accrue _ _)
  intro r' _
  exact .pure _

theorem ordinary_notifyRewardAmount (p : StakingPool) (token : Scalar) (amount now : Operand) :
    Ordinary (p.notifyRewardAmount token amount now) := by
  apply FailsOnly.bind (amount.ordinary_positive _)
  intro n _
  apply FailsOnly.bind (ordinary_addRewardToken _ _ _ _)
  intro p' _
  apply FailsOnly.bind (ordinary_rewardPool _ _)
  intro r _
  apply FailsOnly.bind (r.ordinary_accrue _ _)
  intro r' _
  apply FailsOnly.bind (r'.ordinary_inject _ _)
  intro r'' _
  exact .pure _

theorem ordinary_pendingRewards (hu : u.Within p) (now : Operand) :
    Ordinary (p.pendingRewards u now) := by
  apply FailsOnly.bind (ordinary_accrue _ _ _)
  intro p' hp
  apply FailsOnly.traverse
  intro k r hr
  exact Checkpoint.ordinary_earned (within_of_accrue hu hp k r hr) _

theorem ordinary_estimateAprBps (p : StakingPool) (token : Scalar) (period : Operand) :
    Ordinary (p.estimateAprBps token period) := by
  apply FailsOnly.bind (ordinary_rewardPool _ _)
  intro r _
  apply FailsOnly.bind (period.ordinary_positive _)
  intro n _
  apply FailsOnly.ite
  · intro _
    exact .pure 0
  · intro h0
    apply FailsOnly.bind (ordinary_mulNat _ _)
    intro emission _
    apply FailsOnly.bind (ordinary_addNat _ _)
    intro rewards _
    exact ordinary_mulDivDown h0 _ _

end StakingPool

end Staking

namespace Fees

/-- The shares of staking and burning leave something for the treasury. -/
theorem Shares.apply_add_apply_le {c : Shares} {amount staking burn : Nat}
    (hs : BasisPoints.apply amount c.staking = .ok staking)
    (hb : BasisPoints.apply amount c.burn = .ok burn) : staking + burn ≤ amount := by
  obtain ⟨rfl, -⟩ := BasisPoints.apply_eq_ok.1 hs
  obtain ⟨rfl, -⟩ := BasisPoints.apply_eq_ok.1 hb
  exact c.shared_le amount

theorem Shares.ordinary_split (c : Shares) (amount : Operand) : Ordinary (c.split amount) := by
  apply FailsOnly.bind (amount.ordinary_nonNegative _)
  intro n _
  apply FailsOnly.bind (BasisPoints.ordinary_apply _ _)
  intro staking hs
  apply FailsOnly.bind (BasisPoints.ordinary_apply _ _)
  intro burn hb
  apply FailsOnly.bind (ordinary_addNat _ _)
  intro shared hshared
  have hle : shared ≤ n := by
    rw [(addNat_eq_ok.1 hshared).1]
    exact apply_add_apply_le hs hb
  apply FailsOnly.bind (ordinary_sub hle)
  intro treasury _
  exact .pure _

namespace Book

open Staking

theorem ordinary_receive (b : Book) (token : Scalar) (amount : Operand) :
    Ordinary (b.receive token amount) := by
  apply FailsOnly.bind (amount.ordinary_positive _)
  intro n _
  apply FailsOnly.bind (ordinary_addNat _ _)
  intro pending _
  exact .pure _

theorem ordinary_distribute (b : Book) (token : Scalar) (c : Shares) :
    Ordinary (b.distribute token c) := by
  refine .bind (.ensure fun _ => rfl) ?_
  intro _ _
  apply FailsOnly.bind (c.ordinary_split _)
  intro split _
  apply FailsOnly.bind (ordinary_addNat _ _)
  intro distributed _
  exact .pure _

theorem ordinary_distributeEach (c : Shares) (tokens : List Scalar) (b : Book) :
    Ordinary (distributeEach c tokens b) := by
  induction tokens generalizing b with
  | nil => exact .pure _
  | cons token rest ih =>
    apply FailsOnly.ite
    · intro _
      apply FailsOnly.bind (ordinary_distribute _ _ _)
      intro ⟨b', result⟩ _
      apply FailsOnly.bind (ih b')
      intro ⟨b'', results⟩ _
      exact .pure _
    · intro _
      exact ih b

theorem ordinary_distributeToStaking (b : Book) (p : StakingPool) (token : Scalar) (c : Shares)
    (now : Operand) : Ordinary (b.distributeToStaking p token c now) := by
  apply FailsOnly.bind (ordinary_distribute _ _ _)
  intro ⟨b', result⟩ _
  apply FailsOnly.ite
  · intro _
    apply FailsOnly.bind (p.ordinary_notifyRewardAmount _ _ _)
    intro p' _
    exact .pure _
  · intro _
    exact .pure _

end Book

end Fees

end PoolAccounting
