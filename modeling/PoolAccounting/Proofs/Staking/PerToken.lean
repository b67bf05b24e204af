import Mathlib
import PoolAccounting.Proofs.Staking.Accrual
import PoolAccounting.Proofs.Table.Traversal
import PoolAccounting.Staking.Stakes

/-!
The operations on a staking pool as one reward token sees them: a token that is chosen is accrued
and settled by the rules of a single accumulator and checkpoint, and nothing else is touched.
-/
namespace PoolAccounting

variable {α β ε : Type}

theorem Table.get?_eq_none_of_traverse {f : Key → α → Except ε β} {t : Table α} {u : Table β}
    (h : t.traverse f = .ok u) {k : Key} (hk : t.get? k = none) : u.get? k = none :=
  get?_eq_none_of_names_eq (names_of_traverse h) hk

theorem Table.contains_domain_of_get? {t : Table α} {k : Key} {v : α} (h : t.get? k = some v) :
    t.domain.contains k = true := by
  rw [contains_domain, contains_of_get? h]

namespace Staking

open Amount

variable {p p' : StakingPool} {u u' : UserStake} {chosen : Table Unit} {now : Operand}

namespace StakingPool

theorem accrue_eq_ok : p.accrue chosen now = .ok p' ↔ ∃ pools,
    p.rewardPools.traverse (fun token r =>
      if chosen.contains token then r.accrue p.totalStaked now else pure r) = .ok pools ∧
    p' = { p with rewardPools := pools } := by
  simp only [accrue, bind_eq_ok, pure, Except.pure, Except.ok.injEq]
  constructor
  · rintro ⟨pools, h, rfl⟩
    exact ⟨pools, h, rfl⟩
  · rintro ⟨pools, h, rfl⟩
    exact ⟨pools, h, rfl⟩

theorem totalStaked_of_accrue (h : p.accrue chosen now = .ok p') :
    p'.totalStaked = p.totalStaked := by
  obtain ⟨_, -, rfl⟩ := accrue_eq_ok.1 h
  rfl

theorem get?_eq_none_of_accrue (h : p.accrue chosen now = .ok p') {k : Key}
    (hk : p.rewardPools.get? k = none) : p'.rewardPools.get? k = none := by
  obtain ⟨_, ht, rfl⟩ := accrue_eq_ok.1 h
  exact Table.get?_eq_none_of_traverse ht hk

/-- A chosen token is accrued, another one stays as it is. -/
theorem get?_accrue (h : p.accrue chosen now = .ok p') {k : Key} {r : RewardPool}
    (hk : p.rewardPools.get? k = some r) : ∃ r', p'.rewardPools.get? k = some r' ∧
      if chosen.contains k then r.accrue p.totalStaked now = .ok r' else r' = r := by
  obtain ⟨_, ht, rfl⟩ := accrue_eq_ok.1 h
  obtain ⟨r', hr, hk'⟩ := Table.get?_of_traverse ht hk
  refine ⟨r', hk', ?_⟩
  split at hr
  · rw [if_pos ‹_›]
    exact hr
  · rw [if_neg ‹_›]
    exact (Except.ok.inj hr).symm

theorem accrue_succeeds (h : ∀ k r, chosen.contains k = true → p.rewardPools.get? k = some r →
    ∃ r', r.accrue p.totalStaked now = .ok r') : ∃ p', p.accrue chosen now = .ok p' := by
  have hchosen : ∀ k r, p.rewardPools.get? k = some r → ∃ r',
      (if chosen.contains k then r.accrue p.totalStaked now else pure r) = .ok r' := by
    intro k r hr
    split
    · exact h k r ‹_› hr
    · exact ⟨r, rfl⟩
  obtain ⟨pools, hpools⟩ := Table.traverse_succeeds hchosen
  exact ⟨_, accrue_eq_ok.2 ⟨pools, hpools, rfl⟩⟩

theorem accrue_all_succeeds
    (h : ∀ k r, p.rewardPools.get? k = some r → ∃ r', r.accrue p.totalStaked now = .ok r') :
    ∃ p', p.accrue p.rewardPools.domain now = .ok p' := accrue_succeeds fun k r _ => h k r

theorem accrue_all_iff : (∃ p', p.accrue p.rewardPools.domain now = .ok p') ↔
    ∀ k r, p.rewardPools.get? k = some r → ∃ r', r.accrue p.totalStaked now = .ok r' := by
  refine ⟨?_, accrue_all_succeeds⟩
  rintro ⟨p', ha⟩ k r hr
  obtain ⟨r', -, hr'⟩ := get?_accrue ha hr
  rw [if_pos (Table.contains_domain_of_get? hr)] at hr'
  exact ⟨r', hr'⟩

variable {settled : Table Checkpoint}

theorem get?_settled (h : p.settled chosen u = .ok settled) {k : Key} {r : RewardPool}
    (hc : chosen.contains k = true) (hk : p.rewardPools.get? k = some r) :
    ∃ d, settled.get? k = some d ∧ (u.checkpoint k).settle u.staked r.rewardPerToken = .ok d := by
  have hr : (p.rewardPools.restrict chosen).get? k = some r := by simp [hc, hk]
  obtain ⟨d, hd, hs⟩ := Table.get?_of_traverse h hr
  exact ⟨d, hs, hd⟩

theorem get?_settled_eq_none (h : p.settled chosen u = .ok settled) {k : Key}
    (hk : chosen.contains k = false ∨ p.rewardPools.get? k = none) : settled.get? k = none := by
  refine Table.get?_eq_none_of_traverse h ?_
  rcases hk with hk | hk <;> simp [hk]

theorem update_eq_ok : p.update u now = .ok (p', u') ↔ ∃ settled,
    p.accrue p.rewardPools.domain now = .ok p' ∧
    p'.settled p'.rewardPools.domain u = .ok settled ∧
    u' = { u with checkpoints := u.checkpoints.override settled } := by
  simp only [update, bind_eq_ok, pure, Except.pure, Except.ok.injEq, Prod.mk.injEq]
  constructor
  · rintro ⟨_, ha, s, hs, rfl, rfl⟩
    exact ⟨s, ha, hs, rfl⟩
  · rintro ⟨s, ha, hs, rfl⟩
    exact ⟨p', ha, s, hs, rfl, rfl⟩

theorem staked_of_update (h : p.update u now = .ok (p', u')) : u'.staked = u.staked := by
  obtain ⟨settled, -, -, rfl⟩ := update_eq_ok.1 h
  rfl

theorem totalStaked_of_update (h : p.update u now = .ok (p', u')) :
    p'.totalStaked = p.totalStaked := by
  obtain ⟨settled, ha, -, -⟩ := update_eq_ok.1 h
  exact totalStaked_of_accrue ha

theorem addStake_eq_ok {amount : Nat} {limits : Option StakeLimits} {q : StakingPool}
    {v : UserStake} :
    p.addStake u amount now limits = .ok (q, v) ↔ ∃ p' u' t, p.update u now = .ok (p', u') ∧
      now.field "stake_time" = .ok t ∧
      StakeLimits.checkPrincipal limits (u'.staked + amount) = .ok () ∧
      u'.staked + amount ≤ maxAmount ∧ p'.totalStaked + amount ≤ maxAmount ∧
      q = { p' with totalStaked := p'.totalStaked + amount } ∧
      v = { u' with staked := u'.staked + amount, stakeTime := t } := by
  simp only [addStake, bind_eq_ok, Prod.exists, addNat_eq_ok, pure, Except.pure, Except.ok.injEq,
    Prod.mk.injEq]
  constructor
  · rintro ⟨p', u', h, _, ⟨rfl, h1⟩, _, hl, t, ht, _, ⟨rfl, h2⟩, rfl, rfl⟩
    exact ⟨p', u', t, h, ht, hl, h1, h2, rfl, rfl⟩
  · rintro ⟨p', u', t, h, ht, hl, h1, h2, rfl, rfl⟩
    exact ⟨p', u', h, _, ⟨rfl, h1⟩, (), hl, t, ht, _, ⟨rfl, h2⟩, rfl, rfl⟩

theorem stake_eq_ok {amount : Operand} {limits : Option StakeLimits} {q : StakingPool}
    {v : UserStake} :
    p.stake u amount now limits = .ok (q, v) ↔ ∃ n : Nat, amount = n ∧ 0 < n ∧ n ≤ maxAmount ∧
      StakeLimits.checkStake limits n = .ok () ∧ p.addStake u n now limits = .ok (q, v) := by
  simp only [stake, bind_eq_ok, Operand.positive_eq_ok]
  constructor
  · rintro ⟨n, ⟨rfl, h1, h2⟩, _, hl, h⟩
    exact ⟨n, rfl, h1, h2, hl, h⟩
  · rintro ⟨n, rfl, h1, h2, hl, h⟩
    exact ⟨n, ⟨rfl, h1, h2⟩, (), hl, h⟩

theorem unstake_eq_ok {amount : Operand} {q : StakingPool} {v : UserStake} :
    p.unstake u amount now = .ok (q, v) ↔ ∃ (n : Nat) (p' : StakingPool) (u' : UserStake),
      amount = n ∧ 0 < n ∧ n ≤ maxAmount ∧ n ≤ u.staked ∧ p.update u now = .ok (p', u') ∧
      n ≤ u'.staked ∧ u'.staked ≤ maxAmount ∧ n ≤ p'.totalStaked ∧ p'.totalStaked ≤ maxAmount ∧
      q = { p' with totalStaked := p'.totalStaked - n } ∧
      v = { u' with staked := u'.staked - n } := by
  simp only [unstake, bind_eq_ok, Prod.exists, Operand.positive_eq_ok, ensure_eq_ok,
    sub_natCast_eq_ok, pure, Except.pure, Except.ok.injEq, Prod.mk.injEq]
  constructor
  · rintro ⟨n, ⟨rfl, h1, h2⟩, -, h3, p', u', h, _, ⟨rfl, h4, h5⟩, _, ⟨rfl, h6, h7⟩, rfl, rfl⟩
    exact ⟨n, p', u', rfl, h1, h2, h3, h, h4, h5, h6, h7, rfl, rfl⟩
  · rintro ⟨n, p', u', rfl, h1, h2, h3, h, h4, h5, h6, h7, rfl, rfl⟩
    exact ⟨n, ⟨rfl, h1, h2⟩, (), h3, p', u', h, _, ⟨rfl, h4, h5⟩, _, ⟨rfl, h6, h7⟩, rfl, rfl⟩

/-- A list of tokens stands for those that it names, if they are all registered. -/
theorem resolve_listed_eq_ok {tokens : List Scalar} : p.resolve (.listed tokens) = .ok chosen ↔
    (∀ k, (Table.ofNames tokens).contains k = true → p.rewardPools.contains k = true) ∧
      chosen = Table.ofNames tokens := by
  have hall : (Table.ofNames tokens).names.find?
      (fun token : Scalar => !p.rewardPools.contains token) = none ↔
        ∀ k, (Table.ofNames tokens).contains k = true → p.rewardPools.contains k = true := by
    simp [Table.contains_eq_true_iff, Table.keys]
  rw [← hall, resolve]
  split
  · rename_i hfind
    simp [hfind]
  · rename_i hfind
    simp [hfind, pure, Except.pure, eq_comm]

theorem claim_eq_ok {choice : TokenChoice} {c : ClaimResult} :
    p.claim u now choice = .ok c ↔ ∃ chosen p' settled t, p.resolve choice = .ok chosen ∧
      p.accrue chosen now = .ok p' ∧ p'.settled chosen u = .ok settled ∧
      now.field "last_claim_time" = .ok t ∧
      c = ⟨p', { u with
        checkpoints := u.checkpoints.override (settled.map fun c => { c with accrued := 0 })
        lastClaimTime := t }, settled.map (·.accrued)⟩ := by
  simp only [claim, bind_eq_ok, pure, Except.pure, Except.ok.injEq]
  constructor
  · rintro ⟨chosen, hc, p', ha, s, hs, t, ht, rfl⟩
    exact ⟨chosen, p', s, t, hc, ha, hs, ht, rfl⟩
  · rintro ⟨chosen, p', s, t, hc, ha, hs, ht, rfl⟩
    exact ⟨chosen, hc, p', ha, s, hs, t, ht, rfl⟩

theorem staked_of_claim {choice : TokenChoice} {c : ClaimResult}
    (h : p.claim u now choice = .ok c) : c.user.staked = u.staked := by
  obtain ⟨chosen, p', settled, t, -, -, -, -, rfl⟩ := claim_eq_ok.1 h
  rfl

theorem totalStaked_of_claim {choice : TokenChoice} {c : ClaimResult}
    (h : p.claim u now choice = .ok c) : c.pool.totalStaked = p.totalStaked := by
  obtain ⟨chosen, p', settled, t, -, ha, -, -, rfl⟩ := claim_eq_ok.1 h
  exact totalStaked_of_accrue ha

theorem compound_eq_ok {limits : Option StakeLimits} {x : CompoundResult} :
    p.compound u now limits = .ok x ↔ ∃ c : ClaimResult, p.claim u now .all = .ok c ∧
      x.compounded = (c.claimed.get? p.stakingToken).getD 0 ∧
      x.claimed = c.claimed.erase p.stakingToken ∧
      if x.compounded = 0 then x.pool = c.pool ∧ x.user = c.user
      else c.pool.addStake c.user x.compounded now limits = .ok (x.pool, x.user) := by
  obtain ⟨q, v, claimed, n⟩ := x
  simp only [compound, bind_eq_ok]
  refine exists_congr fun c => and_congr_right fun _ => ?_
  by_cases h0 : (c.claimed.get? p.stakingToken).getD 0 = 0
  · rw [if_pos h0]
    simp only [pure, Except.pure, Except.ok.injEq, CompoundResult.mk.injEq]
    constructor
    · rintro ⟨rfl, rfl, rfl, rfl⟩
      exact ⟨rfl, rfl, by rw [if_pos h0]; exact ⟨rfl, rfl⟩⟩
    · rintro ⟨rfl, rfl, h⟩
      rw [if_pos h0] at h
      exact ⟨h.1.symm, h.2.symm, rfl, rfl⟩
  · rw [if_neg h0]
    simp only [bind_eq_ok, Prod.exists, pure, Except.pure, Except.ok.injEq,
      CompoundResult.mk.injEq]
    constructor
    · rintro ⟨_, _, h, rfl, rfl, rfl, rfl⟩
      exact ⟨rfl, rfl, by rwa [if_neg h0]⟩
    · rintro ⟨rfl, rfl, h⟩
      rw [if_neg h0] at h
      exact ⟨q, v, h, rfl, rfl, rfl, rfl⟩

theorem addRewardToken_eq_ok {token : Scalar} {rate : Operand} :
    p.addRewardToken token now rate = .ok p' ↔ ∃ (t : Nat) (name : String),
      now = t ∧ token = name ∧ name ≠ "" ∧
      if p.rewardPools.contains token then p' = p
      else ∃ n : Nat, rate = n ∧ n ≤ maxAmount ∧
        p' = p.withRewardPool token { lastUpdate := t, rate := n } := by
  simp only [addRewardToken, bind_eq_ok, Operand.time_eq_ok, tokenName_eq_ok]
  refine exists_congr fun t => ?_
  constructor
  · rintro ⟨ht, name, ⟨rfl, hn⟩, h⟩
    refine ⟨name, ht, rfl, hn, ?_⟩
    split
    · rename_i hc
      rw [if_pos hc] at h
      exact (Except.ok.inj h).symm
    · rename_i hc
      rw [if_neg hc] at h
      obtain ⟨n, hr, h⟩ := bind_eq_ok.1 h
      exact ⟨n, (Operand.nonNegative_eq_ok.1 hr).1, (Operand.nonNegative_eq_ok.1 hr).2,
        (Except.ok.inj h).symm⟩
  · rintro ⟨name, ht, rfl, hn, h⟩
    refine ⟨ht, name, ⟨rfl, hn⟩, ?_⟩
    split
    · rename_i hc
      rw [if_pos hc] at h
      rw [h]
      rfl
    · rename_i hc
      rw [if_neg hc] at h
      obtain ⟨n, hr, hm, rfl⟩ := h
      exact bind_eq_ok.2 ⟨n, Operand.nonNegative_eq_ok.2 ⟨hr, hm⟩, rfl⟩

theorem setRewardRate_eq_ok {token : Scalar} {rate : Operand} :
    p.setRewardRate token rate now = .ok p' ↔ ∃ (n : Nat) (r r' : RewardPool),
      rate = n ∧ n ≤ maxAmount ∧ p.rewardPools.get? token = some r ∧
      r.accrue p.totalStaked now = .ok r' ∧ p' = p.withRewardPool token { r' with rate := n } := by
  simp only [setRewardRate, bind_eq_ok, Operand.nonNegative_eq_ok, rewardPool_eq_ok, pure,
    Except.pure, Except.ok.injEq]
  constructor
  · rintro ⟨n, ⟨rfl, hn⟩, r, hr, r', ha, rfl⟩
    exact ⟨n, r, r', rfl, hn, hr, ha, rfl⟩
  · rintro ⟨n, r, r', rfl, hn, hr, ha, rfl⟩
    exact ⟨n, ⟨rfl, hn⟩, r, hr, r', ha, rfl⟩

theorem notifyRewardAmount_eq_ok {token : Scalar} {amount : Operand} {q : StakingPool} :
    p.notifyRewardAmount token amount now = .ok q ↔ ∃ (n : Nat) (p' : StakingPool)
      (r r' r'' : RewardPool), amount = n ∧ 0 < n ∧ n ≤ maxAmount ∧
      p.addRewardToken token now 0 = .ok p' ∧ p'.rewardPools.get? token = some r ∧
      r.accrue p'.totalStaked now = .ok r' ∧ r'.inject n p'.totalStaked = .ok r'' ∧
      q = p'.withRewardPool token r'' := by
  simp only [notifyRewardAmount, bind_eq_ok, Operand.positive_eq_ok, rewardPool_eq_ok, pure,
    Except.pure, Except.ok.injEq]
  constructor
  · rintro ⟨n, ⟨rfl, h0, hn⟩, p', hp, r, hr, r', ha, r'', hi, rfl⟩
    exact ⟨n, p', r, r', r'', rfl, h0, hn, hp, hr, ha, hi, rfl⟩
  · rintro ⟨n, p', r, r', r'', rfl, h0, hn, hp, hr, ha, hi, rfl⟩
    exact ⟨n, ⟨rfl, h0, hn⟩, p', hp, r, hr, r', ha, r'', hi, rfl⟩

/-- The accumulator of a token; one that is not registered counts as all zero. -/
def accumulator (p : StakingPool) (k : Key) : RewardPool := (p.rewardPools.get? k).getD {}

theorem accumulator_of_registered {p : StakingPool} {k : Key} {r : RewardPool}
    (h : p.rewardPools.get? k = some r) : p.accumulator k = r := by
  rw [accumulator, h, Option.getD_some]

@[simp] theorem accumulator_withRewardPool (p : StakingPool) (token : Scalar) (r : RewardPool) :
    (p.withRewardPool token r).accumulator token = r := by
  simp [accumulator, withRewardPool]

/-- A lump sum adds itself and the emission up to that time to what was ever credited. A token that
is registered on this occasion has emitted nothing. -/
theorem total_of_notifyRewardAmount {p q : StakingPool} {token : Scalar} {amount now : Operand}
    (h : p.notifyRewardAmount token amount now = .ok q) : ∃ n t : ℕ, amount = n ∧ now = t ∧
      (p.accumulator token).lastUpdate ≤ t ∧ (q.accumulator token).total =
        (p.accumulator token).total + (p.accumulator token).emission t + n := by
  obtain ⟨n, p', r, r', r'', rfl, -, -, hadd, hr, hacc, hinj, rfl⟩ :=
    notifyRewardAmount_eq_ok.1 h
  obtain ⟨t, rfl, hcredit⟩ := RewardPool.credited_of_accrue hacc
  obtain ⟨t', ht, -, hlast, -⟩ := RewardPool.accrue_eq_ok.1 hacc
  obtain rfl : t = t' := by simpa using ht
  refine ⟨n, t, rfl, rfl, ?_⟩
  rw [accumulator_withRewardPool, (RewardPool.credited_of_inject hinj).total_eq, hcredit.total_eq]
  obtain ⟨t', name, ht', -, -, hadd⟩ := addRewardToken_eq_ok.1 hadd
  obtain rfl : t = t' := by simpa using ht'
  split at hadd
  · subst hadd
    rw [accumulator_of_registered hr]
    exact ⟨hlast, rfl⟩
  · rename_i hc
    obtain ⟨rate, hrate, -, rfl⟩ := hadd
    have hnone : p.rewardPools.get? token = none :=
      Table.contains_eq_false_iff.1 (eq_false_of_ne_true hc)
    obtain rfl : rate = 0 := Operand.natCast_eq_zero.1 hrate.symm
    obtain rfl : ({ lastUpdate := t } : RewardPool) = r := by simpa [withRewardPool] using hr
    simp [accumulator, hnone, RewardPool.emission]

end StakingPool

end Staking

end PoolAccounting
