import Mathlib
import PoolAccounting.Proofs.Exchange.Dilution
import PoolAccounting.Proofs.Ledger.Totals

/-!
Amounts stay amounts. A record can be made of any natural numbers, so its size is not the record's to
see to: whatever an operation writes has gone through a checked operation, or is no more than what a
solvent token has on its books. Main statement: every number in a ledger and in a pool is in the
amount domain, in every state of every run.
-/
namespace PoolAccounting

open Staking Fees Amount

namespace Staking

/-- The numbers of an accumulator are amounts. -/
structure RewardPool.InDomain (r : RewardPool) : Prop where
  rewardPerToken_le : r.rewardPerToken ≤ maxAmount
  rate_le : r.rate ≤ maxAmount
  queued_le : r.queued ≤ maxAmount
  total_le : r.total ≤ maxAmount

structure Checkpoint.InDomain (c : Checkpoint) : Prop where
  paid_le : c.paid ≤ maxAmount
  accrued_le : c.accrued ≤ maxAmount

structure UserStake.InDomain (u : UserStake) : Prop where
  staked_le : u.staked ≤ maxAmount
  checkpoints : ∀ c ∈ u.checkpoints.values, c.InDomain

/-- A record takes any natural numbers. -/
theorem RewardPool.ofOperands_natCast (rewardPerToken lastUpdate rate queued total : ℕ) :
    RewardPool.ofOperands rewardPerToken lastUpdate rate queued total =
      .ok ⟨rewardPerToken, lastUpdate, rate, queued, total⟩ := by
  simp [ofOperands, pure, Except.pure]

theorem Checkpoint.ofOperands_natCast (paid accrued : ℕ) :
    Checkpoint.ofOperands paid accrued = .ok ⟨paid, accrued⟩ := by
  simp [ofOperands, pure, Except.pure]

theorem UserStake.ofOperands_natCast (staked : ℕ) (checkpoints : Table Checkpoint)
    (stakeTime lastClaimTime : ℕ) : UserStake.ofOperands staked checkpoints stakeTime lastClaimTime =
      .ok ⟨staked, checkpoints, stakeTime, lastClaimTime⟩ := by
  simp [ofOperands, pure, Except.pure]

theorem StakingPool.ofOperands_natCast {stakingToken : String} (h : stakingToken ≠ "")
    (totalStaked : ℕ) (rewardPools : Table RewardPool) :
    StakingPool.ofOperands (.text stakingToken) totalStaked rewardPools =
      .ok ⟨stakingToken, totalStaked, rewardPools⟩ := by
  simp [ofOperands, tokenName_eq_ok.2 ⟨rfl, h⟩, pure, Except.pure]

/-- What an accepted rate is set to is an amount. -/
theorem StakingPool.firstRate_le {p q : StakingPool} {token : Scalar} {now rate : Operand}
    (h : p.addRewardToken token now rate = .ok q) :
    ∀ c ∈ p.firstRate token now rate, c.rate ≤ maxAmount := by
  obtain ⟨t, name, rfl, rfl, -, h⟩ := addRewardToken_eq_ok.1 h
  rw [firstRate]
  split at h
  · rw [if_pos ‹_›]
    simp
  · rw [if_neg ‹_›]
    obtain ⟨n, rfl, hn, -⟩ := h
    simpa using hn

theorem StakingPool.firstRate_le_of_notify {p q : StakingPool} {token : Scalar}
    {amount now : Operand} (h : p.notifyRewardAmount token amount now = .ok q) :
    ∀ c ∈ p.firstRate token now 0, c.rate ≤ maxAmount := by
  obtain ⟨n, p', r, r', r'', -, -, -, hadd, -⟩ := notifyRewardAmount_eq_ok.1 h
  exact firstRate_le hadd

/-- The rate of an accumulator is one that was brought into force. -/
theorem Booked.rate_le {staked injected : ℕ} {a b : Option RewardPool} {changes : List RateChange}
    (h : Booked staked a b injected changes) (hc : ∀ c ∈ changes, c.rate ≤ maxAmount)
    (ha : ∀ r ∈ a, r.rate ≤ maxAmount) : ∀ r ∈ b, r.rate ≤ maxAmount := by
  induction h with
  | refl accumulator => exact ha
  | register now rate => simpa using hc
  | accrue h =>
    obtain ⟨t, -, rfl, -⟩ := RewardPool.accrue_eq_ok.1 h
    simpa using ha
  | inject h =>
    obtain ⟨rfl, -⟩ := RewardPool.inject_eq_ok.1 h
    simpa using ha
  | changeRate r rate => simpa using hc
  | trans _ _ ih ih' =>
    rw [List.forall_mem_append] at hc
    exact ih' hc.2 (ih hc.1 ha)

end Staking

namespace Fees.Book

structure InDomain (b : Book) : Prop where
  pending_le : ∀ n ∈ b.pending.values, n ≤ maxAmount
  distributed_le : ∀ n ∈ b.distributed.values, n ≤ maxAmount

variable {b b' : Book} {c : Shares} {token : Scalar} {d : Distribution}

theorem amounts_natCast (table : String) (es : List (Scalar × ℕ)) :
    amounts table (es.map fun e => (e.1, (e.2 : Operand))) = .ok es := by
  induction es with
  | nil => rfl
  | cons e es ih => simp [amounts, ih, pure, Except.pure]

theorem ofOperands_natCast (pending distributed : List (Scalar × ℕ)) :
    Book.ofOperands (pending.map fun e => (e.1, (e.2 : Operand)))
        (distributed.map fun e => (e.1, (e.2 : Operand))) =
      .ok ⟨.ofList pending, .ofList distributed⟩ := by
  simp [ofOperands, amounts_natCast, pure, Except.pure]

theorem inDomain_empty : InDomain {} := ⟨nofun, nofun⟩

theorem InDomain.receive {amount : Operand} (hb : b.InDomain)
    (h : b.receive token amount = .ok b') : b'.InDomain := by
  obtain ⟨n, -, -, hn, rfl⟩ := receive_eq_ok.1 h
  exact ⟨Table.forall_mem_values_insert hb.pending_le hn token, hb.distributed_le⟩

theorem InDomain.distribute (hb : b.InDomain) (h : b.distribute token c = .ok (b', d)) :
    b'.InDomain := by
  obtain ⟨-, hn, rfl, -⟩ := distribute_eq_ok.1 h
  exact ⟨Table.forall_mem_values_insert hb.pending_le (Nat.zero_le _) token,
    Table.forall_mem_values_insert hb.distributed_le hn token⟩

theorem InDomain.distributeEach {tokens : List Scalar} {ds : List Distribution}
    (hb : b.InDomain) (h : Book.distributeEach c tokens b = .ok (b', ds)) : b'.InDomain := by
  induction tokens generalizing b ds with
  | nil =>
    obtain ⟨rfl, -⟩ : b = b' ∧ [] = ds := by
      simpa [Book.distributeEach, pure, Except.pure] using h
    exact hb
  | cons token rest ih =>
    rw [distributeEach_cons_eq_ok] at h
    split at h
    · obtain ⟨m, d, es, hd, hes, -⟩ := h
      exact ih (hb.distribute hd) hes
    · exact ih hb h

end Fees.Book

namespace Ledger

/-- The numbers of a ledger, but for the times, are amounts. -/
structure InDomain (l : Ledger) : Prop where
  totalStaked_le : l.pool.totalStaked ≤ maxAmount
  rewardPools : ∀ r ∈ l.pool.rewardPools.values, r.InDomain
  users : ∀ u ∈ l.users.values, u.InDomain
  fees : l.fees.InDomain

variable {l next : Ledger} {a : Action} {r : Receipt}

theorem rate_le_of_perform (h : l.perform a = .ok (r, next)) (k : Key) :
    ∀ c ∈ Entry.rateChanges k ⟨l, a, r⟩, c.rate ≤ maxAmount := by
  have hchosen : ∀ {P : Prop} [Decidable P] {changes : List RateChange},
      (∀ c ∈ changes, c.rate ≤ maxAmount) →
        ∀ c ∈ if P then changes else [], c.rate ≤ maxAmount := by
    intro P _ changes hc
    split
    · exact hc
    · simp
  cases a <;> simp only [perform, bind_eq_ok, Prod.exists, pure, Except.pure, Except.ok.injEq,
    Prod.mk.injEq] at h
  case addToken token now rate =>
    obtain ⟨p, h, -, -⟩ := h
    exact hchosen (StakingPool.firstRate_le h)
  case setRate token rate now =>
    obtain ⟨p, h, -, -⟩ := h
    obtain ⟨n, s, s', rfl, hn, -⟩ := StakingPool.setRewardRate_eq_ok.1 h
    exact hchosen (by simpa using hn)
  case notify token amount now =>
    obtain ⟨p, h, -, -⟩ := h
    exact hchosen (StakingPool.firstRate_le_of_notify h)
  case toStaking token shares now =>
    obtain ⟨fees, p, d, h, rfl, -⟩ := h
    obtain ⟨h0, -⟩ | ⟨-, h⟩ := distributeToStaking_pool h
    · simp [Entry.rateChanges, h0]
    · exact hchosen (StakingPool.firstRate_le_of_notify h)
  all_goals simp [Entry.rateChanges]

theorem fees_inDomain_of_perform (hl : l.fees.InDomain) (h : l.perform a = .ok (r, next)) :
    next.fees.InDomain := by
  cases a <;> simp only [perform, bind_eq_ok, Prod.exists, pure, Except.pure, Except.ok.injEq,
    Prod.mk.injEq] at h
  case receive token amount =>
    obtain ⟨fees, h, -, rfl⟩ := h
    exact hl.receive h
  case distribute token shares =>
    obtain ⟨fees, d, h, -, rfl⟩ := h
    exact hl.distribute h
  case distributeAll shares =>
    obtain ⟨fees, ds, h, -, rfl⟩ := h
    exact hl.distributeEach h
  case toStaking token shares now =>
    obtain ⟨fees, p, d, h, -, rfl⟩ := h
    exact hl.distribute (Book.distributeToStaking_eq_ok.1 h).1
  case stake | unstake | update =>
    obtain ⟨p, u, -, -, rfl⟩ := h
    exact hl
  case claim | compound | pending | apr | addToken | setRate | notify =>
    obtain ⟨_, -, -, rfl⟩ := h
    exact hl

theorem Sound.userStake_inDomain (h : l.Sound) {u : UserStake} (hu : u ∈ l.users.values) :
    u.InDomain := by
  have hseat : ∀ k, u.seat k ∈ (l.column k).seats.values := by
    intro k
    rw [column, Table.values_map]
    exact List.mem_map_of_mem hu
  constructor
  · obtain ⟨paid, hc⟩ := h .null
    have hle := Table.le_sum_values (·.staked) (hseat .null)
    rw [← hc.balanced.principal] at hle
    exact hle.trans hc.balanced.bounded
  · intro c hmem
    obtain ⟨k, hk⟩ := Table.mem_values_iff.1 hmem
    obtain ⟨paid, hc⟩ := h k
    have hcheckpoint : (u.seat k).checkpoint = c := by
      rw [UserStake.seat_checkpoint, UserStake.checkpoint, hk, Option.getD_some]
    obtain ⟨e, he⟩ := hc.earned (.inl (hseat k))
    rw [hcheckpoint] at he
    obtain ⟨hpaid, hlevel, -, rfl, hearned⟩ := Checkpoint.earned_eq_ok.1 he
    exact ⟨hpaid.trans hlevel, Nat.le_of_add_right_le hearned⟩

theorem rate_le_run (stakingToken : String) (actions : List Action) (k : Key) :
    ∀ s ∈ ((opened stakingToken {}).run actions).pool.rewardPools.get? k, s.rate ≤ maxAmount :=
  run_invariant (fun l => ∀ s ∈ l.pool.rewardPools.get? k, s.rate ≤ maxAmount)
    (fun _ hs => nomatch hs)
    fun _ hl h => (booked_of_perform h k).rate_le (rate_le_of_perform h k) hl

theorem fees_inDomain_run (stakingToken : String) (actions : List Action) :
    ((opened stakingToken {}).run actions).fees.InDomain :=
  run_invariant (fun l => l.fees.InDomain) Book.inDomain_empty
    fun _ hl h => fees_inDomain_of_perform hl h

theorem inDomain_run (stakingToken : String) (actions : List Action) :
    ((opened stakingToken {}).run actions).InDomain := by
  have hsound := sound_run stakingToken {} actions
  refine ⟨hsound.totalStaked_le, fun s hmem => ?_, fun u hu => hsound.userStake_inDomain hu,
    fees_inDomain_run stakingToken actions⟩
  obtain ⟨k, hs⟩ := Table.mem_values_iff.1 hmem
  obtain ⟨hlevel, hqueued, htotal⟩ := hsound.rewardPool_le hs
  exact ⟨hlevel, rate_le_run stakingToken actions k s hs, hqueued, htotal⟩

end Ledger

open Exchange in
/-- In every state of every run of a ledger from empty records on, and in every state of every run of
a pool from amounts on, all numbers are amounts. The records themselves take any natural numbers. -/
theorem amounts_in_domain :
    (∀ (stakingToken : String) (actions : List Ledger.Action),
      ((Ledger.opened stakingToken {}).run actions).InDomain) ∧
    (∀ (p : Pool) (supply : ℕ) (actions : List Pool.Action), p.supply = supply →
      p.reserves.Within supply → ∃ supply' : ℕ, (p.run actions).supply = supply' ∧
        (p.run actions).reserves.Within supply') ∧
    (∀ n m k i j : ℕ, RewardPool.ofOperands n m k i j = .ok ⟨n, m, k, i, j⟩) ∧
    (∀ n m : ℕ, Checkpoint.ofOperands n m = .ok ⟨n, m⟩) ∧
    (∀ (n m k : ℕ) checkpoints,
      UserStake.ofOperands n checkpoints m k = .ok ⟨n, checkpoints, m, k⟩) ∧
    (∀ (n : ℕ) (stakingToken : String) rewardPools, stakingToken ≠ "" →
      StakingPool.ofOperands (.text stakingToken) n rewardPools =
        .ok ⟨stakingToken, n, rewardPools⟩) ∧
    (∀ pending distributed : List (Scalar × ℕ),
      Book.ofOperands (pending.map fun e => (e.1, (e.2 : Operand)))
          (distributed.map fun e => (e.1, (e.2 : Operand))) =
        .ok ⟨.ofList pending, .ofList distributed⟩) ∧
    ∀ n m : ℕ, Reserves.ofOperands n m = .ok ⟨n, m⟩ :=
  ⟨Ledger.inDomain_run, fun _ _ actions hp hr => Pool.within_run hp hr actions,
    RewardPool.ofOperands_natCast, Checkpoint.ofOperands_natCast,
    fun n m k checkpoints => UserStake.ofOperands_natCast n checkpoints m k,
    fun n _ rewardPools h => StakingPool.ofOperands_natCast h n rewardPools,
    Book.ofOperands_natCast, Reserves.ofOperands_natCast⟩

open Exchange in
theorem amounts_in_domain_full :
    let p : Pool := ⟨⟨maxAmount, 900⟩, 5⟩
    let actions : List Pool.Action := [.swapIn 7 30 .zeroForOne, .swapOut 9 30 .oneForZero, .remove 2]
    p.supply = (5 : ℕ) ∧ p.reserves.Within 5 ∧
      (∃ supply : ℕ, (p.run actions).supply = supply ∧ (p.run actions).reserves.Within supply) ∧
      "S" ≠ "" ∧ StakingPool.ofOperands (.text "S") (maxAmount + 1 : ℕ) ∅ =
        .ok ⟨"S", maxAmount + 1, ∅⟩ := by
  intro p actions
  have hp : p.supply = (5 : ℕ) := rfl
  have hr : p.reserves.Within 5 := ⟨by decide, by decide, by decide⟩
  obtain ⟨-, hrun, -, -, -, hpool, -⟩ := amounts_in_domain
  exact ⟨hp, hr, hrun p 5 actions hp hr, by decide, hpool _ "S" ∅ (by decide)⟩

end PoolAccounting
