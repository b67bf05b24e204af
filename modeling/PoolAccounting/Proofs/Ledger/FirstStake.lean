import Mathlib
import PoolAccounting.Proofs.Ledger.Totals

/-!
The first stake. What is emitted and injected while nobody has a stake is queued, and the first stake
does not release it: the next accrual does, whoever brings it about. At the same time this accrual
still meets the first stake alone, so the queue goes to the first staker, and only once.
-/
namespace PoolAccounting

open Staking Fees Amount

namespace Staking

/-- What was queued up to some time is released to the stake that came in at that time. -/
theorem RewardPool.rewardPerToken_released {r r' r'' : RewardPool} {a now : ℕ}
    (h : r.accrue (0 : ℕ) now = .ok r') (h' : r'.accrue a now = .ok r'') :
    r''.rewardPerToken = r'.rewardPerToken +
      (r.queued + r.rate * (now - r.lastUpdate)) * precision / a := by
  obtain ⟨t, ht, rfl, -⟩ := accrue_eq_ok.1 h
  obtain rfl : now = t := by simpa using ht
  obtain ⟨t, ht, rfl, -⟩ := accrue_eq_ok.1 h'
  obtain rfl : now = t := by simpa using ht
  rw [rewardPerToken_accrued _ a, queued_accrued, if_pos rfl, emission, emission,
    lastUpdate_accrued, Nat.sub_self, Nat.zero_mul, Nat.zero_add, Nat.mul_comm (now - _)]

namespace StakingPool

variable {p q : StakingPool} {u v : UserStake} {a now : ℕ} {limits : Option StakeLimits}
  {k : Key} {r : RewardPool}

theorem totalStaked_pos_of_addStake {now : Operand} (h : p.addStake u a now limits = .ok (q, v))
    (ha : 0 < a) : 0 < q.totalStaked := by
  obtain ⟨p', u', t, -, -, -, -, -, rfl, -⟩ := addStake_eq_ok.1 h
  exact Nat.add_pos_right _ ha

/-- After a first stake a token owes the new staker the queue besides what had accrued before, and
everybody else what had accrued before. -/
theorem due_of_first_stake (h0 : p.totalStaked = 0) (hu : u.staked = 0)
    (h : p.addStake u a now limits = .ok (q, v)) (hr : p.rewardPools.get? k = some r) :
    r.lastUpdate ≤ now ∧ ∃ r', q.rewardPools.get? k = some r' ∧
      (∀ n, r'.due (v.checkpoint k) v.staked q.totalStaked now = .ok n →
        n = (u.checkpoint k).accrued +
          a * ((r.queued + r.rate * (now - r.lastUpdate)) * precision / a) / precision) ∧
      ∀ w : UserStake, w.staked = 0 → ∀ n,
        r'.due (w.checkpoint k) w.staked q.totalStaked now = .ok n →
          n = (w.checkpoint k).accrued := by
  obtain ⟨p', u', t, hupdate, -, -, -, -, rfl, rfl⟩ := addStake_eq_ok.1 h
  obtain ⟨r', hr', hacc, hsettle⟩ := get?_of_update hupdate hr
  have htotal : p'.totalStaked + a = a := by rw [totalStaked_of_update hupdate, h0, Nat.zero_add]
  have hstaked : u'.staked + a = a := by rw [staked_of_update hupdate, hu, Nat.zero_add]
  rw [h0] at hacc
  obtain ⟨t, ht, -, hlast, -⟩ := RewardPool.accrue_eq_ok.1 hacc
  obtain rfl : now = t := by simpa using ht
  refine ⟨hlast, r', hr', fun n hn => ?_, fun w hw n hn => ?_⟩
  all_goals
    obtain ⟨r'', hacc', hearned⟩ := RewardPool.due_eq_ok.1 hn
    obtain ⟨-, -, -, rfl, -⟩ := Checkpoint.earned_eq_ok.1 hearned
  · obtain ⟨hearned', hpaid⟩ := Checkpoint.settle_eq_ok.1 hsettle
    obtain ⟨-, -, -, haccrued, -⟩ := Checkpoint.earned_eq_ok.1 hearned'
    rw [hu, Nat.zero_mul, Nat.zero_div, Nat.add_zero] at haccrued
    have hgrowth : r''.rewardPerToken - (u'.checkpoint k).paid =
        (r.queued + r.rate * (now - r.lastUpdate)) * precision / a := by
      dsimp only at hacc'
      rw [htotal] at hacc'
      rw [hpaid, RewardPool.rewardPerToken_released hacc hacc', Nat.add_sub_cancel_left]
    rw [← hgrowth, ← haccrued, hstaked]
    rfl
  · rw [hw, Nat.zero_mul, Nat.zero_div, Nat.add_zero]

end StakingPool

end Staking

namespace Ledger

variable {l next : Ledger} {r : Receipt} {name : String} {amount now : Operand}
  {limits : Option StakeLimits} {amounts : Table ℕ} {others : List Action}

theorem stake_of_perform (h : l.perform (.stake name amount now limits) = .ok (r, next)) :
    ∃ (n : ℕ) (p : StakingPool) (u : UserStake), amount = n ∧ 0 < n ∧
      l.pool.addStake (l.user name) n now limits = .ok (p, u) ∧ next = l.write name p u := by
  simp only [perform, bind_eq_ok, Prod.exists, pure, Except.pure, Except.ok.injEq,
    Prod.mk.injEq] at h
  obtain ⟨p, u, h, -, rfl⟩ := h
  obtain ⟨n, rfl, hn, -, -, h⟩ := StakingPool.stake_eq_ok.1 h
  exact ⟨n, p, u, rfl, hn, h, rfl⟩

/-- What the ledger owes after a stake it owed before it. -/
theorem pendingRewards_before_stake (hl : l.Sound) (h0 : 0 < l.pool.totalStaked)
    (h : l.perform (.stake name amount now limits) = .ok (r, next)) {w : String}
    (hw : next.pool.pendingRewards (next.user w) now = .ok amounts) :
    l.pool.pendingRewards (l.user w) now = .ok amounts := by
  obtain ⟨n, p, u, -, -, hadd, -⟩ := stake_of_perform h
  obtain ⟨p', u', t, hupdate, -⟩ := StakingPool.addStake_eq_ok.1 hadd
  obtain ⟨settled, ha, -⟩ := StakingPool.update_eq_ok.1 hupdate
  -- the stake went through, so every token could be accrued before it
  obtain ⟨before, hbefore⟩ := hl.pendingRewards ha w
  obtain ⟨p, u, rfl, howes⟩ := owes_of_perform h0 rfl h
  have hafter : (l.write name p u).pool.pendingRewards ((l.write name p u).user w) now =
      .ok before := by
    rw [user_write]
    split
    · obtain rfl : name = w := ‹_›
      obtain ⟨rest, hrest, rfl⟩ := howes.own hbefore
      exact hrest
    · exact howes.others hbefore
  rwa [Except.ok.inj (hw.symm.trans hafter)]

/-- Any number of stakes at one time move nothing that is owed at that time. -/
theorem pendingRewards_before_stakes (hl : l.Sound) (h0 : 0 < l.pool.totalStaked)
    (hothers : ∀ a ∈ others, ∃ other amount limits, a = .stake other amount now limits) :
    ∀ w amounts, (l.run others).pool.pendingRewards ((l.run others).user w) now = .ok amounts →
      l.pool.pendingRewards (l.user w) now = .ok amounts := by
  refine (run_invariant (fun m => m.Sound ∧ 0 < m.pool.totalStaked ∧ ∀ w amounts,
    m.pool.pendingRewards (m.user w) now = .ok amounts →
      l.pool.pendingRewards (l.user w) now = .ok amounts)
    ⟨hl, h0, fun _ _ hw => hw⟩ ?_).2.2
  intro m m' a r ha hm h
  obtain ⟨hsound, hpos, hback⟩ := hm
  obtain ⟨other, amount, limits, rfl⟩ := hothers a ha
  refine ⟨hsound.perform h, ?_, fun w amounts hw =>
    hback w amounts (pendingRewards_before_stake hsound hpos h hw)⟩
  obtain ⟨n, p, u, -, hn, hadd, rfl⟩ := stake_of_perform h
  exact StakingPool.totalStaked_pos_of_addStake hadd hn

/-- What was queued up to a first stake is owed to the first staker alone, whoever stakes after that at
the same time; all others are owed what they had accrued before. -/
theorem first_staker_takes_queue (stakingToken : String) (fees : Book)
    (actions others : List Action) (name : String) (a now : ℕ) (limits : Option StakeLimits)
    (r : Receipt) (next : Ledger) (k : Key) (reward : RewardPool) :
    let l := (opened stakingToken fees).run actions
    let queue := reward.queued + reward.rate * (now - reward.lastUpdate)
    let share := a * (queue * precision / a) / precision
    let m := next.run others
    l.pool.totalStaked = 0 →
    l.perform (.stake name a now limits) = .ok (r, next) →
    (∀ b ∈ others, ∃ other amount limits, b = .stake other amount now limits) →
    l.pool.rewardPools.get? k = some reward →
      reward.lastUpdate ≤ now ∧ share ≤ queue ∧
      (∀ amounts, m.pool.pendingRewards (m.user name) now = .ok amounts →
        amounts.get? k = some (((l.user name).checkpoint k).accrued + share)) ∧
      ∀ other, other ≠ name → ∀ amounts, m.pool.pendingRewards (m.user other) now = .ok amounts →
        amounts.get? k = some ((l.user other).checkpoint k).accrued := by
  intro l queue share m h0 h hothers hreward
  have hl : l.Sound := sound_run stakingToken fees actions
  have hnobody : ∀ w, (l.user w).staked = 0 := fun w =>
    Nat.le_zero.1 ((hl.staked_le w).trans_eq h0)
  obtain ⟨n, p, u, hn, hpos, hadd, rfl⟩ := stake_of_perform h
  obtain rfl : a = n := by simpa using hn
  have hback := pendingRewards_before_stakes (hl.perform h)
    (StakingPool.totalStaked_pos_of_addStake hadd hpos) hothers
  obtain ⟨hlast, r', hr', hown, hothers'⟩ :=
    StakingPool.due_of_first_stake h0 (hnobody name) hadd hreward
  refine ⟨hlast, ?_, fun amounts hm => ?_, fun other hne amounts hm => ?_⟩
  · calc share ≤ queue * precision / precision := Nat.div_le_div_right (Nat.mul_div_le _ _)
      _ = queue := Nat.mul_div_cancel _ precision_pos
  · have hview := hback name amounts hm
    rw [user_write, if_pos rfl] at hview
    obtain ⟨n, hn, hget⟩ := (StakingPool.pendingRewards_eq_ok.1 hview).2 k r' hr'
    rw [hget, hown n hn]
  · have hview := hback other amounts hm
    rw [user_write, if_neg hne.symm] at hview
    obtain ⟨n, hn, hget⟩ := (StakingPool.pendingRewards_eq_ok.1 hview).2 k r' hr'
    rw [hget, hothers' _ (hnobody other) n hn]

theorem first_staker_takes_queue_later_stakes :
    let l := (opened "S" {}).run [.addToken "S" 0 5, .addToken "R" 0 7, .stake "alice" 30 2 none,
      .unstake "alice" 30 5, .notify "R" 11 6]
    let next := l.step (.stake "bob" 41 9 none)
    let others : List Action := [.stake "alice" 10 9 none, .stake "carol" 5 9 none]
    let m := next.run others
    l.pool.totalStaked = 0 ∧ l.perform (.stake "bob" 41 9 none) = .ok (.done, next) ∧
      (∀ b ∈ others, ∃ other amount limits, b = .stake other amount 9 limits) ∧
      (∃ reward, l.pool.rewardPools.get? (.text "R") = some reward ∧ reward.lastUpdate ≤ 9 ∧
        reward.queued + reward.rate * (9 - reward.lastUpdate) = 39) ∧
      (∃ amounts, m.pool.pendingRewards (m.user "bob") 9 = .ok amounts ∧
        amounts.get? (.text "R") = some 38) ∧
      ∃ amounts, m.pool.pendingRewards (m.user "alice") 9 = .ok amounts ∧
        amounts.get? (.text "R") = some 34 := by
  intro l next others m
  have h0 : l.pool.totalStaked = 0 := by decide +kernel
  have hstake : l.perform (.stake "bob" 41 9 none) = .ok (.done, next) := by decide +kernel
  have hothers : ∀ b ∈ others, ∃ other amount limits, b = .stake other amount 9 limits := by
    intro b hb
    simp only [others, List.mem_cons, List.not_mem_nil, or_false] at hb
    rcases hb with rfl | rfl
    · exact ⟨_, _, _, rfl⟩
    · exact ⟨_, _, _, rfl⟩
  have hreward : l.pool.rewardPools.get? (.text "R") = some
      { rewardPerToken := 1166666666666666666, lastUpdate := 6, rate := 7, queued := 18,
        total := 53 } := by decide +kernel
  have hbob : m.pool.pendingRewards (m.user "bob") 9 = .ok (.ofList [("R", 38), ("S", 19)]) := by
    decide +kernel
  have halice : m.pool.pendingRewards (m.user "alice") 9 =
      .ok (.ofList [("R", 34), ("S", 24)]) := by decide +kernel
  have haccrued : ((l.user "bob").checkpoint (.text "R")).accrued = 0 ∧
      ((l.user "alice").checkpoint (.text "R")).accrued = 34 := by decide +kernel
  obtain ⟨hlast, -, hfirst, hrest⟩ := first_staker_takes_queue "S" {} _ others "bob" 41 9 none
    .done next (.text "R") _ h0 hstake hothers hreward
  refine ⟨h0, hstake, hothers, ⟨_, hreward, hlast, rfl⟩, ⟨_, hbob, ?_⟩, _, halice, ?_⟩
  · rw [hfirst _ hbob, haccrued.1]
    decide
  · rw [hrest "alice" (by decide) _ halice, haccrued.2]

end Ledger

end PoolAccounting
