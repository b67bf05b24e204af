import Mathlib
import PoolAccounting.Fees
import PoolAccounting.Proofs.Staking.PerToken

/-!
Receiving and distributing fees in closed form. The parts of a split are floors but for that of the
treasury, which is what the others leave.
-/
namespace PoolAccounting

open Amount Staking

namespace Fees

variable {b b' : Book} {c : Shares} {d : Distribution} {token : Scalar}

namespace Shares

theorem shared_le (c : Shares) (amount : ℕ) :
    amount * c.staking / bpsDenominator + amount * c.burn / bpsDenominator ≤ amount := by
  have hsum : c.staking + c.burn ≤ bpsDenominator := by
    have h := c.sum_eq
    omega
  calc amount * c.staking / bpsDenominator + amount * c.burn / bpsDenominator
    _ ≤ (amount * c.staking + amount * c.burn) / bpsDenominator := Nat.div_add_div_le_add_div
    _ = amount * (c.staking + c.burn) / bpsDenominator := by rw [Nat.mul_add]
    _ ≤ amount * bpsDenominator / bpsDenominator :=
      Nat.div_le_div_right (Nat.mul_le_mul_left amount hsum)
    _ = amount := Nat.mul_div_cancel amount (by decide)

/-- The parts of an amount, whatever its size. -/
def parts (c : Shares) (amount : ℕ) : Split where
  treasury := amount - amount * c.staking / bpsDenominator - amount * c.burn / bpsDenominator
  staking := amount * c.staking / bpsDenominator
  burn := amount * c.burn / bpsDenominator

@[simp] theorem total_parts (c : Shares) (amount : ℕ) : (c.parts amount).total = amount := by
  simp only [parts, Split.total]
  omega

theorem split_eq_ok {amount : ℕ} {s : Split} :
    c.split amount = .ok s ↔ amount ≤ maxAmount ∧ s = c.parts amount := by
  have hshared := c.shared_le amount
  have hstaking := Nat.le_of_add_right_le hshared
  have hburn := Nat.le_of_add_left_le hshared
  have hsum := c.sum_eq
  simp only [split, bind_eq_ok, Operand.nonNegative_eq_ok, BasisPoints.apply_eq_ok, addNat_eq_ok,
    sub_natCast_eq_ok, pure, Except.pure, Except.ok.injEq, Operand.int.injEq, Int.natCast_inj]
  constructor
  · rintro ⟨_, ⟨rfl, hm⟩, _, ⟨rfl, -⟩, _, ⟨rfl, -⟩, _, ⟨rfl, -⟩, _, ⟨rfl, -⟩, rfl⟩
    refine ⟨hm, ?_⟩
    rw [parts, Nat.cast_sub hshared, Nat.cast_add, ← sub_sub]
    rfl
  · rintro ⟨hm, rfl⟩
    refine ⟨_, ⟨rfl, hm⟩, _, ⟨rfl, hm, by omega, hstaking.trans hm⟩, _,
      ⟨rfl, hm, by omega, hburn.trans hm⟩, _, ⟨rfl, hshared.trans hm⟩, _, ⟨rfl, hshared, hm⟩, ?_⟩
    rw [parts, Nat.cast_sub hshared, Nat.cast_add, ← sub_sub]
    rfl

/-- The treasury takes the remainders of the other two parts on top of its share. -/
theorem treasury_parts (c : Shares) (amount : ℕ) :
    bpsDenominator * (c.parts amount).treasury =
      (amount * c.treasury + amount * c.staking % bpsDenominator +
        amount * c.burn % bpsDenominator : ℕ) := by
  have hwhole : amount * c.treasury + amount * c.staking + amount * c.burn =
      bpsDenominator * amount := by
    rw [← Nat.mul_add, ← Nat.mul_add, c.sum_eq, Nat.mul_comm]
  have hstaking := Nat.div_add_mod (amount * c.staking) bpsDenominator
  have hburn := Nat.div_add_mod (amount * c.burn) bpsDenominator
  zify at hwhole hstaking hburn
  simp only [parts]
  push_cast
  linear_combination -hstaking - hburn - hwhole

/-- Every amount can be split. Nothing is lost, the parts of staking and burning are their shares
rounded down, and the treasury gets its share and less than two units more. -/
theorem split_exact (c : Shares) {amount : ℕ} (h : amount ≤ maxAmount) :
    ∃ s, c.split amount = .ok s ∧
      0 ≤ s.treasury ∧ 0 ≤ s.staking ∧ 0 ≤ s.burn ∧
      s.treasury + s.staking + s.burn = amount ∧
      s.staking = (amount * c.staking / bpsDenominator : ℕ) ∧
      s.burn = (amount * c.burn / bpsDenominator : ℕ) ∧
      amount * c.treasury ≤ bpsDenominator * s.treasury ∧
      bpsDenominator * s.treasury < amount * c.treasury + 2 * bpsDenominator ∧
      (amount * c.treasury / bpsDenominator : ℕ) ≤ s.treasury ∧
      s.treasury ≤ (amount * c.treasury / bpsDenominator : ℕ) + 2 := by
  refine ⟨c.parts amount, split_eq_ok.2 ⟨h, rfl⟩, ?_, Int.natCast_nonneg _, Int.natCast_nonneg _,
    c.total_parts amount, rfl, rfl, ?_⟩
  · have hshared := c.shared_le amount
    zify at hshared
    simp only [parts]
    omega
  · have htreasury := c.treasury_parts amount
    have hstaking := Nat.mod_lt (amount * c.staking) (by decide : bpsDenominator > 0)
    have hburn := Nat.mod_lt (amount * c.burn) (by decide : bpsDenominator > 0)
    have hshare := Nat.div_add_mod (amount * c.treasury) bpsDenominator
    have hrest := Nat.mod_lt (amount * c.treasury) (by decide : bpsDenominator > 0)
    rw [← Nat.cast_mul]
    simp only [bpsDenominator] at htreasury hstaking hburn hshare hrest ⊢
    omega

theorem split_exact_nine :
    9 ≤ maxAmount ∧ Shares.split {} 9 = .ok ⟨6, 2, 1⟩ ∧ (6 : ℤ) ≤ (9 * 5000 / 10000 : ℕ) + 2 := by
  have h : 9 ≤ maxAmount := by decide
  obtain ⟨s, hs, -, -, -, -, -, -, -, -, -, htreasury⟩ := split_exact {} h
  have hsplit : Shares.split {} 9 = .ok ⟨6, 2, 1⟩ := by decide +kernel
  cases hs.symm.trans hsplit
  exact ⟨h, hsplit, htreasury⟩

end Shares

namespace Book

theorem receive_eq_ok {amount : Operand} : b.receive token amount = .ok b' ↔ ∃ n : ℕ,
    amount = n ∧ 0 < n ∧ b.pendingFor token + n ≤ maxAmount ∧
      b' = { b with pending := b.pending.insert token (b.pendingFor token + n) } := by
  simp only [receive, bind_eq_ok, Operand.positive_eq_ok, addNat_eq_ok, pure, Except.pure,
    Except.ok.injEq]
  constructor
  · rintro ⟨n, ⟨rfl, h0, -⟩, _, ⟨rfl, hm⟩, rfl⟩
    exact ⟨n, rfl, h0, hm, rfl⟩
  · rintro ⟨n, rfl, h0, hm, rfl⟩
    exact ⟨n, ⟨rfl, h0, Nat.le_of_add_left_le hm⟩, _, ⟨rfl, hm⟩, rfl⟩

/-- The book once everything that is pending of a token is distributed. -/
def distributing (b : Book) (token : Scalar) : Book where
  pending := b.pending.insert token 0
  distributed := b.distributed.insert token (b.distributedFor token + b.pendingFor token)

theorem distribute_eq_ok : b.distribute token c = .ok (b', d) ↔
    c.minimum ≤ b.pendingFor token ∧ b.distributedFor token + b.pendingFor token ≤ maxAmount ∧
      b' = b.distributing token ∧
      d = ⟨token, b.pendingFor token, c.parts (b.pendingFor token)⟩ := by
  simp only [distribute, bind_eq_ok, ensure_eq_ok, Shares.split_eq_ok, addNat_eq_ok, pure,
    Except.pure, Except.ok.injEq, Prod.mk.injEq]
  constructor
  · rintro ⟨-, hmin, _, ⟨-, rfl⟩, _, ⟨rfl, hm⟩, rfl, rfl⟩
    exact ⟨hmin, hm, rfl, rfl⟩
  · rintro ⟨hmin, hm, rfl, rfl⟩
    exact ⟨(), hmin, _, ⟨Nat.le_of_add_left_le hm, rfl⟩, _, ⟨rfl, hm⟩, rfl, rfl⟩

theorem distributeEach_cons_eq_ok {rest : List Scalar} {ds : List Distribution} :
    distributeEach c (token :: rest) b = .ok (b', ds) ↔
      if b.isDue c token then ∃ m d es, b.distribute token c = .ok (m, d) ∧
        distributeEach c rest m = .ok (b', es) ∧ ds = d :: es
      else distributeEach c rest b = .ok (b', ds) := by
  rw [distributeEach]
  split
  · simp only [bind_eq_ok, Prod.exists, pure, Except.pure, Except.ok.injEq, Prod.mk.injEq]
    constructor
    · rintro ⟨m, d, hd, _, es, hes, rfl, rfl⟩
      exact ⟨m, d, es, hd, hes, rfl⟩
    · rintro ⟨m, d, es, hd, hes, rfl⟩
      exact ⟨m, d, hd, b', es, hes, rfl, rfl⟩
  · rfl

theorem distributeToStaking_eq_ok {p q : StakingPool} {now : Operand} :
    b.distributeToStaking p token c now = .ok (b', q, d) ↔ b.distribute token c = .ok (b', d) ∧
      if 0 < d.split.staking then p.notifyRewardAmount token d.split.staking now = .ok q
      else q = p := by
  simp only [distributeToStaking, bind_eq_ok, Prod.exists]
  constructor
  · rintro ⟨m, e, hd, h⟩
    split at h
    · simp only [bind_eq_ok, pure, Except.pure, Except.ok.injEq, Prod.mk.injEq] at h
      obtain ⟨_, hn, rfl, rfl, rfl⟩ := h
      exact ⟨hd, by rwa [if_pos ‹_›]⟩
    · simp only [pure, Except.pure, Except.ok.injEq, Prod.mk.injEq] at h
      obtain ⟨rfl, rfl, rfl⟩ := h
      exact ⟨hd, by rw [if_neg ‹_›]⟩
  · rintro ⟨hd, h⟩
    refine ⟨b', d, hd, ?_⟩
    split
    · rw [if_pos ‹_›] at h
      exact bind_eq_ok.2 ⟨q, h, rfl⟩
    · rw [if_neg ‹_›] at h
      rw [h]
      rfl

end Book

end Fees

end PoolAccounting
