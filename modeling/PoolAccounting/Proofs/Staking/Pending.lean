import Mathlib
import PoolAccounting.Proofs.Staking.PerToken

/-!
What the reward tokens owe a user at some time. Where there is a stake, an accumulator that was
brought up to that time stays as it is when this is done again, so accruing tokens and settling
users against them moves nothing that is owed at that time.
-/
namespace PoolAccounting.Staking

open Amount

namespace RewardPool

/-- What a token owes a user with the checkpoint `c`. -/
def due (r : RewardPool) (c : Checkpoint) (staked totalStaked : ℕ) (now : Operand) :
    Except Fault ℕ := do
  let r ← r.accrue totalStaked now
  c.earned staked r.rewardPerToken

variable {r r' : RewardPool} {c d : Checkpoint} {staked totalStaked n : ℕ} {now : Operand}

theorem due_eq_ok : r.due c staked totalStaked now = .ok n ↔
    ∃ r', r.accrue totalStaked now = .ok r' ∧ c.earned staked r'.rewardPerToken = .ok n :=
  bind_eq_ok

theorem due_of_ok (h : r.accrue totalStaked now = .ok r') :
    r.due c staked totalStaked now = c.earned staked r'.rewardPerToken := by
  rw [due, h, ok_bind]

/-- An accumulator that is up to date and has nothing queued. -/
theorem accrued_of_lastUpdate (hq : r.queued = 0) (totalStaked : ℕ) :
    r.accrued totalStaked r.lastUpdate = r := by
  obtain ⟨level, last, rate, queued, total⟩ := r
  obtain rfl : queued = 0 := hq
  simp [accrued, emission]

/-- The second accrual meets no emission and no queue, so it does not matter what is staked then. -/
theorem accrue_again {later : ℕ} (h : r.accrue totalStaked now = .ok r') (h0 : 0 < totalStaked)
    (hl : later ≤ maxAmount) : r'.accrue later now = .ok r' := by
  obtain ⟨t, rfl, hr', -, -, hrate, -, htotal, hroom⟩ := accrue_eq_ok.1 h
  rw [accrued, if_neg h0.ne'] at hr'
  rw [if_neg h0.ne'] at hroom
  have hrate' : r'.rate = r.rate := by rw [hr']
  have hqueued : r'.queued = 0 := by rw [hr']
  obtain rfl : r'.lastUpdate = t := by rw [hr']
  have hemission : r'.emission r'.lastUpdate = 0 := by rw [emission, Nat.sub_self, Nat.zero_mul]
  refine accrue_eq_ok.2 ⟨_, rfl, (accrued_of_lastUpdate hqueued later).symm, le_rfl, ?_,
    hrate'.trans_le hrate, hl, htotal, ?_⟩
  · rw [Nat.sub_self]
    exact Nat.zero_le _
  · rw [hemission, hqueued]
    split
    · exact Nat.zero_le _
    · exact ⟨Nat.zero_le _, hroom.2⟩

/-- A second accrual that meets the same stake changes nothing, with a stake or without. -/
theorem accrue_same (h : r.accrue totalStaked now = .ok r') :
    r'.accrue totalStaked now = .ok r' := by
  obtain ⟨t, rfl, hr', -, -, hrate, hle, htotal, hroom⟩ := accrue_eq_ok.1 h
  rcases Nat.eq_zero_or_pos totalStaked with rfl | h0
  · have hsame : r' = r'.accrued 0 t := by simp [hr', accrued, emission]
    refine accrue_eq_ok.2 ⟨t, rfl, hsame, ?_, ?_, ?_, hle, htotal, hroom⟩
    · rw [hr', lastUpdate_accrued]
    · rw [hr', lastUpdate_accrued, Nat.sub_self]
      exact Nat.zero_le _
    · rwa [hr', rate_accrued]
  · exact accrue_again h h0 hle

theorem due_of_accrue {later : ℕ} (h : r.accrue totalStaked now = .ok r') (h0 : 0 < totalStaked)
    (hl : later ≤ maxAmount) : r'.due c staked later now = r.due c staked totalStaked now := by
  rw [due_of_ok h, due_of_ok (accrue_again h h0 hl)]

end RewardPool

/-- A settled checkpoint is owed what it has accrued, whatever the stake. -/
theorem Checkpoint.earned_of_settled {staked level n : ℕ} (hl : level ≤ maxAmount)
    (hs : staked ≤ maxAmount) (hn : n ≤ maxAmount) :
    (Checkpoint.mk level n).earned staked level = .ok n := by
  refine earned_eq_ok.2 ⟨le_rfl, hl, hs, ?_, hn⟩
  simp

namespace StakingPool

variable {p q : StakingPool} {u v w : UserStake} {now : Operand} {amounts : Table ℕ}
  {chosen : Table Unit}

theorem names_of_accrue (h : p.accrue chosen now = .ok q) :
    q.rewardPools.names = p.rewardPools.names := by
  obtain ⟨pools, hpools, rfl⟩ := accrue_eq_ok.1 h
  exact Table.names_of_traverse hpools

/-- Where every token is accrued already, accruing them all does nothing. -/
theorem accrue_all_again (h : p.accrue p.rewardPools.domain now = .ok q) :
    q.accrue q.rewardPools.domain now = .ok q := by
  refine accrue_eq_ok.2 ⟨q.rewardPools, Table.traverse_eq_ok_iff.2 ⟨rfl, fun k s hs => ?_⟩, rfl⟩
  obtain ⟨r, hr⟩ := Table.exists_get?_of_names_eq (names_of_accrue h) hs
  obtain ⟨s', hs', hacc⟩ := get?_accrue h hr
  obtain rfl : s' = s := Option.some.inj (hs'.symm.trans hs)
  rw [if_pos (Table.contains_domain_of_get? hr), ← totalStaked_of_accrue h] at hacc
  rw [if_pos (Table.contains_domain_of_get? hs)]
  exact ⟨s', RewardPool.accrue_same hacc, hs⟩

theorem pendingRewards_eq_ok : p.pendingRewards u now = .ok amounts ↔
    amounts.names = p.rewardPools.names ∧ ∀ k r, p.rewardPools.get? k = some r →
      ∃ n, r.due (u.checkpoint k) u.staked p.totalStaked now = .ok n ∧
        amounts.get? k = some n := by
  simp only [pendingRewards, bind_eq_ok, Table.traverse_eq_ok_iff, RewardPool.due_eq_ok]
  constructor
  · rintro ⟨q, ha, hnames, hk⟩
    refine ⟨hnames.trans (names_of_accrue ha), fun k r hr => ?_⟩
    obtain ⟨r', hr', hacc⟩ := get?_accrue ha hr
    rw [if_pos (Table.contains_domain_of_get? hr)] at hacc
    obtain ⟨n, hn, hget⟩ := hk k r' hr'
    exact ⟨n, ⟨r', hacc, hn⟩, hget⟩
  · rintro ⟨hnames, hk⟩
    obtain ⟨q, ha⟩ := accrue_all_succeeds fun k r hr => by
      obtain ⟨n, ⟨r', hacc, -⟩, -⟩ := hk k r hr
      exact ⟨r', hacc⟩
    refine ⟨q, ha, hnames.trans (names_of_accrue ha).symm, fun k r' hr' => ?_⟩
    obtain ⟨r, hr⟩ := Table.exists_get?_of_names_eq (names_of_accrue ha) hr'
    obtain ⟨r'', hr'', hacc⟩ := get?_accrue ha hr
    obtain rfl : r'' = r' := Option.some.inj (hr''.symm.trans hr')
    rw [if_pos (Table.contains_domain_of_get? hr)] at hacc
    obtain ⟨n, ⟨s, hs, hn⟩, hget⟩ := hk k r hr
    obtain rfl : s = r'' := Except.ok.inj (hs.symm.trans hacc)
    exact ⟨n, hn, hget⟩

/-- What an accrued pool owes, token by token. -/
theorem earned_of_pendingRewards (h : p.pendingRewards u now = .ok amounts)
    (ha : p.accrue p.rewardPools.domain now = .ok q) {k : Key} {r' : RewardPool}
    (hr' : q.rewardPools.get? k = some r') : ∃ n,
      (u.checkpoint k).earned u.staked r'.rewardPerToken = .ok n ∧ amounts.get? k = some n := by
  rw [pendingRewards, ha, ok_bind] at h
  exact Table.get?_of_traverse h hr'

theorem pendingRewards_succeeds (hdue : ∀ k r, p.rewardPools.get? k = some r →
    ∃ n, r.due (u.checkpoint k) u.staked p.totalStaked now = .ok n) :
    ∃ amounts, p.pendingRewards u now = .ok amounts := by
  obtain ⟨amounts, h⟩ := Table.traverse_succeeds hdue
  exact ⟨amounts, pendingRewards_eq_ok.2 (Table.traverse_eq_ok_iff.1 h)⟩

/-- A user can be settled against tokens that can say what they owe. -/
theorem settled_succeeds (ha : p.accrue chosen now = .ok q)
    (hdue : ∀ k r, chosen.contains k = true → p.rewardPools.get? k = some r →
      ∃ n, r.due (u.checkpoint k) u.staked p.totalStaked now = .ok n) :
    ∃ settled, q.settled chosen u = .ok settled := by
  apply Table.traverse_succeeds
  intro k r' hr'
  rw [Table.get?_restrict, Option.ite_none_right_eq_some] at hr'
  obtain ⟨hk, hr'⟩ := hr'
  obtain ⟨r, hr⟩ := Table.exists_get?_of_names_eq (names_of_accrue ha) hr'
  obtain ⟨s, hs, hacc⟩ := get?_accrue ha hr
  obtain rfl : s = r' := Option.some.inj (hs.symm.trans hr')
  rw [if_pos hk] at hacc
  obtain ⟨n, hn⟩ := hdue k r hk hr
  rw [RewardPool.due_of_ok hacc] at hn
  exact ⟨⟨s.rewardPerToken, n⟩, Checkpoint.settle_eq_ok.2 ⟨hn, rfl⟩⟩

theorem update_succeeds (hdue : ∀ k r, p.rewardPools.get? k = some r →
    ∃ n, r.due (u.checkpoint k) u.staked p.totalStaked now = .ok n) :
    ∃ q v, p.update u now = .ok (q, v) := by
  obtain ⟨q, ha⟩ := accrue_all_succeeds fun k r hr => by
    obtain ⟨n, hn⟩ := hdue k r hr
    obtain ⟨r', hacc, -⟩ := RewardPool.due_eq_ok.1 hn
    exact ⟨r', hacc⟩
  obtain ⟨settled, hs⟩ := settled_succeeds ha fun k r _ => hdue k r
  rw [Table.domain_eq_of_names_eq (names_of_accrue ha).symm] at hs
  exact ⟨q, _, update_eq_ok.2 ⟨settled, ha, hs, rfl⟩⟩

/-- If every token of `p` owes `v` at `q` what `keep` leaves of what it owes `u`, so does the pool. -/
theorem pendingRewards_transfer (keep : Key → ℕ → ℕ)
    (hnames : q.rewardPools.names = p.rewardPools.names)
    (hkeep : ∀ k r n, p.rewardPools.get? k = some r →
      r.due (u.checkpoint k) u.staked p.totalStaked now = .ok n →
      ∃ r', q.rewardPools.get? k = some r' ∧
        r'.due (v.checkpoint k) v.staked q.totalStaked now = .ok (keep k n))
    (h : p.pendingRewards u now = .ok amounts) :
    ∃ rest, q.pendingRewards v now = .ok rest ∧ rest.names = amounts.names ∧
      ∀ k, rest.get? k = (amounts.get? k).map (keep k) := by
  obtain ⟨hamounts, hdue⟩ := pendingRewards_eq_ok.1 h
  have hq : ∀ k r', q.rewardPools.get? k = some r' → ∃ n, amounts.get? k = some n ∧
      r'.due (v.checkpoint k) v.staked q.totalStaked now = .ok (keep k n) := by
    intro k r' hr'
    obtain ⟨r, hr⟩ := Table.exists_get?_of_names_eq hnames hr'
    obtain ⟨n, hn, hget⟩ := hdue k r hr
    obtain ⟨s, hs, hleft⟩ := hkeep k r n hr hn
    obtain rfl : s = r' := Option.some.inj (hs.symm.trans hr')
    exact ⟨n, hget, hleft⟩
  obtain ⟨rest, hrest⟩ := pendingRewards_succeeds fun k r' hr' =>
    (hq k r' hr').imp' (keep k) fun n hn => hn.2
  obtain ⟨hrestNames, hrestDue⟩ := pendingRewards_eq_ok.1 hrest
  refine ⟨rest, hrest, ?_, fun k => ?_⟩
  · rw [hrestNames, hnames, hamounts]
  · cases hr : q.rewardPools.get? k with
    | none =>
      rw [Table.get?_eq_none_of_names_eq hrestNames hr,
        Table.get?_eq_none_of_names_eq (hamounts.trans hnames.symm) hr]
      rfl
    | some r' =>
      obtain ⟨n, hget, hleft⟩ := hq k r' hr
      obtain ⟨m, hm, hgetr⟩ := hrestDue k r' hr
      rw [hgetr, hget, Option.map_some, ← Except.ok.inj (hm.symm.trans hleft)]

end StakingPool

end PoolAccounting.Staking
