import Mathlib
import PoolAccounting.Proofs.Staking.Refresh
import PoolAccounting.Proofs.Table.Erasure

/-!
A pool and a user without one reward token. An operation that is answered on the whole records and
is not for that token is answered on what is left of them, with what is left of its answer; and an
operation that is for that token alone changes nothing of what is left.
-/
namespace PoolAccounting.Staking

open Amount

/-- The pool without the reward token `k`. -/
def StakingPool.erase (p : StakingPool) (k : Key) : StakingPool :=
  { p with rewardPools := p.rewardPools.erase k }

/-- The user without the checkpoint at the reward token `k`. -/
def UserStake.erase (u : UserStake) (k : Key) : UserStake :=
  { u with checkpoints := u.checkpoints.erase k }

theorem UserStake.checkpoint_erase_of_ne (u : UserStake) {j k : Key} (hj : j ≠ k) :
    (u.erase k).checkpoint j = u.checkpoint j := by
  rw [checkpoint, erase, Table.get?_erase_of_ne hj]
  rfl

def ClaimResult.erase (c : ClaimResult) (k : Key) : ClaimResult :=
  ⟨c.pool.erase k, c.user.erase k, c.claimed.erase k⟩

def CompoundResult.erase (x : CompoundResult) (k : Key) : CompoundResult :=
  ⟨x.pool.erase k, x.user.erase k, x.claimed.erase k, x.compounded⟩

/-- Whether a claim lists a token. -/
def TokenChoice.lists (k : Key) : TokenChoice → Bool
  | .listed tokens => tokens.any (·.key = k)
  | _ => false

/-- Whether a claim lists nothing but a token. -/
def TokenChoice.listsOnly (k : Key) : TokenChoice → Bool
  | .listed tokens => tokens.all (·.key = k)
  | _ => false

namespace StakingPool

variable {p q : StakingPool} {u v : UserStake} {chosen : Table Unit} {now amount rate : Operand}
  {limits : Option StakeLimits} {token : Scalar} {k : Key}

theorem accrue_erase (h : p.accrue chosen now = .ok q) (k : Key) :
    (p.erase k).accrue (chosen.erase k) now = .ok (q.erase k) := by
  obtain ⟨pools, ht, rfl⟩ := accrue_eq_ok.1 h
  refine accrue_eq_ok.2 ⟨pools.erase k, Table.traverse_erase ht fun j r hj => ?_, rfl⟩
  rw [Table.contains_erase_of_ne hj]
  rfl

theorem settled_erase {settled : Table Checkpoint} (h : p.settled chosen u = .ok settled)
    (k : Key) : (p.erase k).settled (chosen.erase k) (u.erase k) = .ok (settled.erase k) := by
  rw [StakingPool.settled, erase, ← Table.erase_restrict]
  apply Table.traverse_erase h
  intro j r hj
  rw [u.checkpoint_erase_of_ne hj]
  rfl

theorem domain_erase (p : StakingPool) (k : Key) :
    (p.erase k).rewardPools.domain = p.rewardPools.domain.erase k :=
  (Table.erase_domain p.rewardPools k).symm

theorem update_erase (h : p.update u now = .ok (q, v)) (k : Key) :
    (p.erase k).update (u.erase k) now = .ok (q.erase k, v.erase k) := by
  obtain ⟨settled, ha, hs, rfl⟩ := update_eq_ok.1 h
  refine update_eq_ok.2 ⟨settled.erase k, ?_, ?_, ?_⟩
  · rw [domain_erase]
    exact accrue_erase ha k
  · rw [domain_erase]
    exact settled_erase hs k
  · rw [UserStake.erase, Table.erase_override]
    rfl

theorem addStake_erase {amount : ℕ} (h : p.addStake u amount now limits = .ok (q, v)) (k : Key) :
    (p.erase k).addStake (u.erase k) amount now limits = .ok (q.erase k, v.erase k) := by
  obtain ⟨p', u', t, hu, ht, hl, hv, hq, rfl, rfl⟩ := addStake_eq_ok.1 h
  exact addStake_eq_ok.2 ⟨_, _, t, update_erase hu k, ht, hl, hv, hq, rfl, rfl⟩

theorem stake_erase (h : p.stake u amount now limits = .ok (q, v)) (k : Key) :
    (p.erase k).stake (u.erase k) amount now limits = .ok (q.erase k, v.erase k) := by
  obtain ⟨n, rfl, h0, hn, hl, h⟩ := stake_eq_ok.1 h
  exact stake_eq_ok.2 ⟨n, rfl, h0, hn, hl, addStake_erase h k⟩

theorem unstake_erase (h : p.unstake u amount now = .ok (q, v)) (k : Key) :
    (p.erase k).unstake (u.erase k) amount now = .ok (q.erase k, v.erase k) := by
  obtain ⟨n, p', u', rfl, h0, hn, hle, hu, hv, hv', hq, hq', rfl, rfl⟩ := unstake_eq_ok.1 h
  exact unstake_eq_ok.2
    ⟨n, _, _, rfl, h0, hn, hle, update_erase hu k, hv, hv', hq, hq', rfl, rfl⟩

theorem resolve_erase {choice : TokenChoice} (h : p.resolve choice = .ok chosen)
    (hk : choice.lists k = false) : (p.erase k).resolve choice = .ok (chosen.erase k) := by
  cases choice with
  | all =>
    obtain rfl : p.rewardPools.domain = chosen := Except.ok.inj h
    rw [← domain_erase]
    rfl
  | listed tokens =>
    obtain ⟨hall, rfl⟩ := resolve_listed_eq_ok.1 h
    have hout : (Table.ofNames tokens).contains k = false := by
      rw [Table.contains_ofNames]
      exact hk
    rw [Table.erase_of_contains_eq_false hout]
    refine resolve_listed_eq_ok.2 ⟨fun j hj => ?_, rfl⟩
    have hne : j ≠ k := fun he => Bool.false_ne_true (hout.symm.trans (he ▸ hj))
    rw [erase, Table.contains_erase_of_ne hne]
    exact hall j hj
  | single given => cases h

variable {choice : TokenChoice} {c : ClaimResult} {x : CompoundResult}

theorem claim_erase (h : p.claim u now choice = .ok c) (hk : choice.lists k = false) :
    (p.erase k).claim (u.erase k) now choice = .ok (c.erase k) := by
  obtain ⟨chosen, q, settled, t, hc, ha, hs, ht, rfl⟩ := claim_eq_ok.1 h
  refine claim_eq_ok.2 ⟨chosen.erase k, q.erase k, settled.erase k, t, resolve_erase hc hk,
    accrue_erase ha k, settled_erase hs k, ht, ?_⟩
  rw [ClaimResult.erase, UserStake.erase, Table.erase_override, Table.erase_map, Table.erase_map]
  rfl

/-- The staking token is not the one that is taken out, so what is staked again stays the same. -/
theorem compound_erase (h : p.compound u now limits = .ok x) (hk : k ≠ .text p.stakingToken) :
    (p.erase k).compound (u.erase k) now limits = .ok (x.erase k) := by
  obtain ⟨c, hc, hcompounded, hclaimed, hx⟩ := compound_eq_ok.1 h
  refine compound_eq_ok.2 ⟨c.erase k, claim_erase hc rfl, ?_, ?_, ?_⟩
  · have hget := Table.get?_erase_of_ne (t := c.claimed) hk.symm
    exact hcompounded.trans (congrArg (·.getD 0) hget.symm)
  · change x.claimed.erase k = (c.claimed.erase k).erase p.stakingToken
    rw [hclaimed, Table.erase_erase]
  · change if x.compounded = 0 then _ else _
    split
    · rw [if_pos ‹_›] at hx
      exact ⟨congrArg (·.erase k) hx.1, congrArg (·.erase k) hx.2⟩
    · rw [if_neg ‹_›] at hx
      exact addStake_erase hx k

theorem pendingRewards_erase {amounts : Table ℕ} (h : p.pendingRewards u now = .ok amounts)
    (k : Key) : (p.erase k).pendingRewards (u.erase k) now = .ok (amounts.erase k) := by
  obtain ⟨q, ha, ht⟩ := bind_eq_ok.1 h
  refine bind_eq_ok.2 ⟨q.erase k, ?_, Table.traverse_erase ht fun j r hj => ?_⟩
  · rw [domain_erase]
    exact accrue_erase ha k
  · rw [u.checkpoint_erase_of_ne hj]
    rfl

theorem erase_withRewardPool_self (p : StakingPool) (token : Scalar) (r : RewardPool) :
    (p.withRewardPool token r).erase token = p.erase token := by
  rw [erase, withRewardPool, Table.erase_insert_self]
  rfl

theorem erase_withRewardPool_of_ne (hk : token.key ≠ k) (p : StakingPool) (r : RewardPool) :
    (p.withRewardPool token r).erase k = (p.erase k).withRewardPool token r := by
  rw [erase, withRewardPool, Table.erase_insert_of_ne hk]
  rfl

theorem rewardPool_erase_of_ne (hk : token.key ≠ k) (p : StakingPool) :
    (p.erase k).rewardPool token = p.rewardPool token := by
  rw [rewardPool, rewardPool, erase, Table.get?_erase_of_ne hk]

theorem addRewardToken_erase (h : p.addRewardToken token now rate = .ok q) (hk : token.key ≠ k) :
    (p.erase k).addRewardToken token now rate = .ok (q.erase k) := by
  obtain ⟨t, name, rfl, rfl, hname, h⟩ := addRewardToken_eq_ok.1 h
  refine addRewardToken_eq_ok.2 ⟨t, name, rfl, rfl, hname, ?_⟩
  rw [erase, Table.contains_erase_of_ne hk]
  split
  · rw [if_pos ‹_›] at h
    rw [h]
    rfl
  · rw [if_neg ‹_›] at h
    obtain ⟨n, rfl, hn, rfl⟩ := h
    exact ⟨n, rfl, hn, erase_withRewardPool_of_ne hk p _⟩

theorem setRewardRate_erase (h : p.setRewardRate token rate now = .ok q) (hk : token.key ≠ k) :
    (p.erase k).setRewardRate token rate now = .ok (q.erase k) := by
  obtain ⟨n, r, r', rfl, hn, hr, ha, rfl⟩ := setRewardRate_eq_ok.1 h
  rw [erase_withRewardPool_of_ne hk]
  refine setRewardRate_eq_ok.2 ⟨n, r, r', rfl, hn, ?_, ha, rfl⟩
  rw [erase, Table.get?_erase_of_ne hk]
  exact hr

theorem notifyRewardAmount_erase (h : p.notifyRewardAmount token amount now = .ok q)
    (hk : token.key ≠ k) : (p.erase k).notifyRewardAmount token amount now = .ok (q.erase k) := by
  obtain ⟨n, p', r, r', r'', rfl, h0, hn, hadd, hr, ha, hi, rfl⟩ := notifyRewardAmount_eq_ok.1 h
  rw [erase_withRewardPool_of_ne hk]
  refine notifyRewardAmount_eq_ok.2
    ⟨n, p'.erase k, r, r', r'', rfl, h0, hn, addRewardToken_erase hadd hk, ?_, ha, hi, rfl⟩
  rw [erase, Table.get?_erase_of_ne hk]
  exact hr

theorem estimateAprBps_erase_of_ne (hk : token.key ≠ k) (p : StakingPool) (period : Operand) :
    (p.erase k).estimateAprBps token period = p.estimateAprBps token period := by
  rw [estimateAprBps, estimateAprBps, rewardPool_erase_of_ne hk]
  rfl

theorem erase_of_addRewardToken (h : p.addRewardToken token now rate = .ok q) :
    q.erase token = p.erase token := by
  obtain ⟨t, name, rfl, rfl, -, h⟩ := addRewardToken_eq_ok.1 h
  split at h
  · rw [h]
  · obtain ⟨n, -, -, rfl⟩ := h
    exact erase_withRewardPool_self p _ _

theorem erase_of_setRewardRate (h : p.setRewardRate token rate now = .ok q) :
    q.erase token = p.erase token := by
  obtain ⟨n, r, r', -, -, -, -, rfl⟩ := setRewardRate_eq_ok.1 h
  exact erase_withRewardPool_self p _ _

theorem erase_of_notifyRewardAmount (h : p.notifyRewardAmount token amount now = .ok q) :
    q.erase token = p.erase token := by
  obtain ⟨n, p', r, r', r'', -, -, -, hadd, -, -, -, rfl⟩ := notifyRewardAmount_eq_ok.1 h
  rw [erase_withRewardPool_self, erase_of_addRewardToken hadd]

/-- Accruing no other token than one leaves the others as they were. -/
theorem erase_of_accrue (h : p.accrue chosen now = .ok q)
    (hother : ∀ j, j ≠ k → chosen.contains j = false) : q.erase k = p.erase k := by
  have hpools : q.rewardPools.erase k = p.rewardPools.erase k := by
    apply Table.erase_eq_of_agree
    intro j hj
    refine ⟨?_, Table.name?_eq_of_names_eq (names_of_accrue h) j⟩
    cases hr : p.rewardPools.get? j with
    | none => exact get?_eq_none_of_accrue h hr
    | some r =>
      obtain ⟨r', hr', hacc⟩ := get?_accrue h hr
      rw [hother j hj, if_neg Bool.false_ne_true] at hacc
      rw [hr', hacc]
  obtain ⟨pools, -, rfl⟩ := accrue_eq_ok.1 h
  rw [erase, hpools]
  rfl

theorem contains_of_resolve_of_ne (h : p.resolve choice = .ok chosen)
    (honly : choice.listsOnly k = true) {j : Key} (hj : j ≠ k) : chosen.contains j = false := by
  cases choice with
  | all => cases honly
  | single given => cases honly
  | listed tokens =>
    obtain ⟨-, rfl⟩ := resolve_listed_eq_ok.1 h
    rw [Table.contains_ofNames, List.any_eq_false]
    intro token ht hkey
    have hk := of_decide_eq_true (List.all_eq_true.1 honly token ht)
    exact hj ((of_decide_eq_true hkey).symm.trans hk)

/-- A claim that lists no other token leaves everything else of the pool and of the user as it was,
but for the time of the claim. -/
theorem erase_of_claim (h : p.claim u now choice = .ok c) (honly : choice.listsOnly k = true) :
    c.pool.erase k = p.erase k ∧
      c.user.erase k = { u.erase k with lastClaimTime := c.user.lastClaimTime } := by
  obtain ⟨chosen, q, settled, t, hc, ha, hs, -, rfl⟩ := claim_eq_ok.1 h
  have hother : ∀ j, j ≠ k → chosen.contains j = false :=
    fun j hj => contains_of_resolve_of_ne hc honly hj
  refine ⟨erase_of_accrue ha hother, ?_⟩
  rw [UserStake.erase, UserStake.erase, Table.erase_override_of_forall]
  intro j hj
  rw [Table.get?_map, get?_settled_eq_none hs (.inl (hother j hj))]
  rfl

end StakingPool

end PoolAccounting.Staking
