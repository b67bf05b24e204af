import Mathlib
import PoolAccounting.Staking.Accrual

/-!
What an accrual and a lump sum do to an accumulator, in closed form and as a credit: some amount is
added to the total, and part of it and of the queue is released to the stake.
-/
namespace PoolAccounting.Staking

open Amount

namespace RewardPool

def emission (r : RewardPool) (now : Nat) : Nat := (now - r.lastUpdate) * r.rate

/-- The accumulator at `now`, whatever the size of its numbers. -/
def accrued (r : RewardPool) (staked now : Nat) : RewardPool :=
  if staked = 0 then
    { r with lastUpdate := now, queued := r.queued + r.emission now, total := r.total + r.emission now }
  else
    { r with
      rewardPerToken := r.rewardPerToken + (r.emission now + r.queued) * precision / staked
      lastUpdate := now
      queued := 0
      total := r.total + r.emission now }

def injected (r : RewardPool) (amount staked : Nat) : RewardPool :=
  if staked = 0 then { r with queued := r.queued + amount, total := r.total + amount }
  else
    { r with
      rewardPerToken := r.rewardPerToken + amount * precision / staked
      total := r.total + amount }

@[simp] theorem lastUpdate_accrued (r : RewardPool) (staked now : Nat) :
    (r.accrued staked now).lastUpdate = now := by
  rw [accrued]
  split <;> rfl

@[simp] theorem rate_accrued (r : RewardPool) (staked now : Nat) :
    (r.accrued staked now).rate = r.rate := by
  rw [accrued]
  split <;> rfl

@[simp] theorem total_accrued (r : RewardPool) (staked now : Nat) :
    (r.accrued staked now).total = r.total + r.emission now := by
  rw [accrued]
  split <;> rfl

theorem queued_accrued (r : RewardPool) (staked now : Nat) :
    (r.accrued staked now).queued = if staked = 0 then r.queued + r.emission now else 0 := by
  rw [accrued]
  split <;> rfl

/-- Without a stake the quotient is zero, as a quotient by zero is. -/
theorem rewardPerToken_accrued (r : RewardPool) (staked now : Nat) :
    (r.accrued staked now).rewardPerToken =
      r.rewardPerToken + (r.emission now + r.queued) * precision / staked := by
  rw [accrued]
  split
  · rename_i h0
    rw [h0, Nat.div_zero, Nat.add_zero]
  · rfl

theorem rewardPerToken_le_accrued (r : RewardPool) (staked now : Nat) :
    r.rewardPerToken ≤ (r.accrued staked now).rewardPerToken := by
  rw [rewardPerToken_accrued]
  exact Nat.le_add_right _ _

theorem emission_mono (r : RewardPool) {now later : Nat} (h : now ≤ later) :
    r.emission now ≤ r.emission later := Nat.mul_le_mul_right _ (Nat.sub_le_sub_right h _)

theorem emission_add {r : RewardPool} {now later : Nat} (h : r.lastUpdate ≤ now)
    (h' : now ≤ later) (staked : Nat) :
    r.emission now + (r.accrued staked now).emission later = r.emission later := by
  rw [emission, emission, emission, lastUpdate_accrued, rate_accrued, ← Nat.add_mul]
  congr 1
  omega

@[simp] theorem lastUpdate_injected (r : RewardPool) (amount staked : Nat) :
    (r.injected amount staked).lastUpdate = r.lastUpdate := by
  rw [injected]
  split <;> rfl

@[simp] theorem rate_injected (r : RewardPool) (amount staked : Nat) :
    (r.injected amount staked).rate = r.rate := by
  rw [injected]
  split <;> rfl

@[simp] theorem total_injected (r : RewardPool) (amount staked : Nat) :
    (r.injected amount staked).total = r.total + amount := by
  rw [injected]
  split <;> rfl

theorem accrue_eq_ok {r r' : RewardPool} {staked : Nat} {now : Operand} :
    r.accrue staked now = .ok r' ↔ ∃ t : Nat, now = t ∧ r' = r.accrued staked t ∧
      r.lastUpdate ≤ t ∧ t - r.lastUpdate ≤ maxAmount ∧ r.rate ≤ maxAmount ∧ staked ≤ maxAmount ∧
      r'.total ≤ maxAmount ∧
      if staked = 0 then r'.queued ≤ maxAmount
      else r.emission t + r.queued ≤ maxAmount ∧ r'.rewardPerToken ≤ maxAmount := by
  simp only [accrue, accrued, emission, bind_eq_ok, Operand.time_eq_ok, Operand.nonNegative_eq_ok,
    ensure_eq_ok, mulNat_eq_ok, addNat_eq_ok]
  constructor
  · rintro ⟨t, rfl, n, ⟨hn, h0⟩, -, hle, _, ⟨rfl, h1, h2, -⟩, _, ⟨rfl, h3⟩, h⟩
    obtain rfl : n = staked := by simpa using hn.symm
    by_cases hs : n = 0
    · simp only [hs, if_true, bind_eq_ok, addNat_eq_ok, pure, Except.pure, Except.ok.injEq] at h ⊢
      obtain ⟨_, ⟨rfl, h4⟩, rfl⟩ := h
      exact ⟨t, rfl, rfl, hle, h1, h2, Nat.zero_le _, h3, h4⟩
    · simp only [hs, if_false, bind_eq_ok, addNat_eq_ok, mulDivDown_eq_ok, pure, Except.pure,
        Except.ok.injEq] at h ⊢
      obtain ⟨_, ⟨rfl, h4⟩, _, ⟨rfl, -, -, -, -, -⟩, _, ⟨rfl, h5⟩, rfl⟩ := h
      exact ⟨t, rfl, rfl, hle, h1, h2, h0, h3, h4, h5⟩
  · rintro ⟨t, rfl, rfl, hle, h1, h2, h0, h⟩
    refine ⟨t, rfl, staked, ⟨rfl, h0⟩, (), hle, ?_⟩
    by_cases hs : staked = 0
    · simp only [hs, if_true, bind_eq_ok, addNat_eq_ok] at h ⊢
      obtain ⟨h3, h4⟩ := h
      exact ⟨_, ⟨rfl, h1, h2, by omega⟩, _, ⟨rfl, h3⟩, _, ⟨rfl, h4⟩, rfl⟩
    · simp only [hs, if_false, bind_eq_ok, addNat_eq_ok, mulDivDown_eq_ok] at h ⊢
      obtain ⟨h3, h4, h5⟩ := h
      exact ⟨_, ⟨rfl, h1, h2, by omega⟩, _, ⟨rfl, h3⟩, _, ⟨rfl, h4⟩, _,
        ⟨rfl, h4, by decide, h0, hs, by omega⟩, _, ⟨rfl, h5⟩, rfl⟩

theorem lastUpdate_of_accrue {r r' : RewardPool} {staked : Nat} {now : Operand}
    (h : r.accrue staked now = .ok r') : now = r'.lastUpdate := by
  obtain ⟨t, rfl, rfl, -⟩ := accrue_eq_ok.1 h
  rw [lastUpdate_accrued]

theorem inject_eq_ok {r r' : RewardPool} {amount staked : Nat} :
    r.inject amount staked = .ok r' ↔ r' = r.injected amount staked ∧ r'.total ≤ maxAmount ∧
      if staked = 0 then r'.queued ≤ maxAmount
      else amount ≤ maxAmount ∧ staked ≤ maxAmount ∧ r'.rewardPerToken ≤ maxAmount := by
  rw [inject, injected]
  by_cases hs : staked = 0
  · simp only [hs, if_true, bind_eq_ok, addNat_eq_ok, pure, Except.pure, Except.ok.injEq]
    constructor
    · rintro ⟨_, ⟨rfl, h1⟩, _, ⟨rfl, h2⟩, rfl⟩
      exact ⟨rfl, h2, h1⟩
    · rintro ⟨rfl, h1, h2⟩
      exact ⟨_, ⟨rfl, h2⟩, _, ⟨rfl, h1⟩, rfl⟩
  · simp only [hs, if_false, bind_eq_ok, addNat_eq_ok, mulDivDown_eq_ok, pure, Except.pure,
      Except.ok.injEq]
    constructor
    · rintro ⟨_, ⟨rfl, h1, -, h2, -, -⟩, _, ⟨rfl, h3⟩, _, ⟨rfl, h4⟩, rfl⟩
      exact ⟨rfl, h4, h1, h2, h3⟩
    · rintro ⟨rfl, h1, h2, h3, h4⟩
      have h5 : amount * precision / staked ≤ maxAmount := Nat.le_of_add_left_le h4
      exact ⟨_, ⟨rfl, h2, by decide, h3, hs, h5⟩, _, ⟨rfl, h4⟩, _, ⟨rfl, h1⟩, rfl⟩

/-- The accumulator `r'` has `credit` more on its books than `r`, and `release` of that and of the
queue has gone to a stake of `staked`. -/
structure Credited (r r' : RewardPool) (staked credit release : Nat) : Prop where
  total_eq : r'.total = r.total + credit
  total_le : r.total ≤ maxAmount → r'.total ≤ maxAmount
  queued_add : r'.queued + release = r.queued + credit
  rewardPerToken_eq : r'.rewardPerToken = r.rewardPerToken + release * precision / staked
  rewardPerToken_le : r.rewardPerToken ≤ maxAmount → r'.rewardPerToken ≤ maxAmount
  release_eq_zero : staked = 0 → release = 0

theorem Credited.rfl {r : RewardPool} {staked : Nat} : r.Credited r staked 0 0 :=
  ⟨by simp, id, by simp, by simp, id, fun _ => by simp⟩

theorem credited_of_accrue {r r' : RewardPool} {staked : Nat} {now : Operand}
    (h : r.accrue staked now = .ok r') : ∃ t : Nat, now = t ∧
      r.Credited r' staked (r.emission t) (if staked = 0 then 0 else r.emission t + r.queued) := by
  obtain ⟨t, rfl, rfl, -, -, -, -, ht, hr⟩ := accrue_eq_ok.1 h
  refine ⟨t, rfl, ?_, fun _ => ht, ?_, ?_, ?_, ?_⟩ <;> by_cases hs : staked = 0 <;>
    simp_all [accrued, Nat.add_comm]

theorem credited_of_inject {r r' : RewardPool} {amount staked : Nat}
    (h : r.inject amount staked = .ok r') :
    r.Credited r' staked amount (if staked = 0 then 0 else amount) := by
  obtain ⟨rfl, ht, hr⟩ := inject_eq_ok.1 h
  refine ⟨?_, fun _ => ht, ?_, ?_, ?_, ?_⟩ <;> by_cases hs : staked = 0 <;> simp_all [injected]

theorem Credited.rewardPerToken_mono {r r' : RewardPool} {staked credit release : Nat}
    (h : r.Credited r' staked credit release) : r.rewardPerToken ≤ r'.rewardPerToken := by
  rw [h.rewardPerToken_eq]
  exact Nat.le_add_right _ _

end RewardPool

end PoolAccounting.Staking
