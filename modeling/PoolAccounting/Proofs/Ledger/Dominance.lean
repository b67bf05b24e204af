import Mathlib
import PoolAccounting.Proofs.Ledger.Principal

/-!
Every booking is a credit on an accumulator, so accumulators never fall; and every checkpoint is
taken from an accumulator, so none is ever ahead of it.
-/
namespace PoolAccounting

open Staking Amount

namespace Column

variable {c d : Column} {user : String} {m : Move} {s : Seat} {b : Booking} {p : Posting}

/-- What a posting releases to the stake: an accrual the emission with the queue, a lump sum itself.
Nothing is released while there is no stake. -/
def release (c : Column) : Posting → Nat
  | .book (.accrue now) =>
    if c.totalStaked = 0 then 0
    else c.accumulator.elim 0 fun r => r.emission now.toNat + r.queued
  | .book (.inject amount) =>
    if c.totalStaked = 0 then 0 else c.accumulator.elim 0 fun _ => amount
  | _ => 0

/-- Every booking is a credit, of which it releases what `release` says. -/
theorem credited_of_book {accumulator : Option RewardPool} (h : c.book b = some accumulator) :
    ∃ credit, c.reward.Credited (accumulator.getD {}) c.totalStaked credit
      (c.release (.book b)) := by
  rw [reward]
  cases b with
  | register now rate =>
    obtain rfl : some (c.accumulator.getD { lastUpdate := now, rate }) = accumulator := by
      simpa [book] using h
    refine ⟨0, ?_⟩
    cases c.accumulator with
    | none => exact ⟨rfl, id, rfl, by simp [release], id, fun _ => rfl⟩
    | some r => exact .rfl
  | accrue now =>
    obtain ⟨hr, rfl⟩ | ⟨r, r', hr, ha, rfl⟩ := book_accrue.1 h
    · exact ⟨0, by simpa [release, hr] using RewardPool.Credited.rfl⟩
    · obtain ⟨n, rfl, hn⟩ := RewardPool.credited_of_accrue ha
      refine ⟨r.emission n, ?_⟩
      simpa [release, hr] using hn
  | inject amount =>
    obtain ⟨hr, rfl⟩ | ⟨r, r', hr, hi, rfl⟩ := book_inject.1 h
    · exact ⟨0, by simpa [release, hr] using RewardPool.Credited.rfl⟩
    · refine ⟨amount, ?_⟩
      simpa [release, hr] using RewardPool.credited_of_inject hi
  | changeRate rate =>
    obtain rfl : c.accumulator.map _ = accumulator := by simpa [book] using h
    refine ⟨0, ?_⟩
    cases c.accumulator with
    | none => exact .rfl
    | some r => exact ⟨rfl, id, rfl, by simp [release], id, fun _ => rfl⟩

/-- A token that is registered stays so. -/
theorem registered_of_book {accumulator : Option RewardPool} (h : c.book b = some accumulator)
    (hn : accumulator = none) : c.accumulator = none := by
  subst hn
  cases b with
  | register now rate => simp [book] at h
  | accrue now =>
    obtain ⟨hr, -⟩ | ⟨r, r', -, -, he⟩ := book_accrue.1 h
    · exact hr
    · cases he
  | inject amount =>
    obtain ⟨hr, -⟩ | ⟨r, r', -, -, he⟩ := book_inject.1 h
    · exact hr
    · cases he
  | changeRate rate => simpa [book] using h

/-- Checkpoints are kept at registered tokens only, and none is ahead of the accumulator. -/
structure Dominated (c : Column) : Prop where
  stored_eq_none : c.accumulator = none → ∀ s ∈ c.seats.values, s.stored = none
  paid_le : ∀ s ∈ c.seats.values, s.checkpoint.paid ≤ c.reward.rewardPerToken

theorem dominated_empty : Dominated {} :=
  ⟨fun _ _ hs => (List.not_mem_nil hs).elim, fun _ hs => (List.not_mem_nil hs).elim⟩

theorem mem_values_or (c : Column) (user : String) :
    c.seat user ∈ c.seats.values ∨ c.seat user = {} := by
  rw [seat]
  cases h : c.seats.get? user with
  | none => exact .inr rfl
  | some s => exact .inl (Table.mem_values_iff.2 ⟨_, h⟩)

theorem Dominated.seat_stored (hc : c.Dominated) (user : String) (hr : c.accumulator = none) :
    (c.seat user).stored = none := by
  rcases c.mem_values_or user with hs | hs
  · exact hc.stored_eq_none hr _ hs
  · rw [hs]

theorem Dominated.seat_paid (hc : c.Dominated) (user : String) :
    (c.seat user).checkpoint.paid ≤ c.reward.rewardPerToken := by
  rcases c.mem_values_or user with hs | hs
  · exact hc.paid_le _ hs
  · rw [hs]
    exact Nat.zero_le _

theorem paid_pay (s : Seat) :
    (Seat.checkpoint { s with stored := s.stored.map fun d => { d with accrued := 0 } }).paid =
      s.checkpoint.paid := by
  cases h : s.stored <;> simp [Seat.checkpoint, h]

/-- What a move makes of a seat is not ahead of the accumulator either. -/
theorem Dominated.moved (hc : c.Dominated) (h : c.moved (c.seat user) m = some s) :
    (c.accumulator = none → s.stored = none) ∧ s.checkpoint.paid ≤ c.reward.rewardPerToken := by
  have hn := hc.seat_stored user
  have hp := hc.seat_paid user
  cases m with
  | enter =>
    obtain rfl : c.seat user = s := Option.some.inj h
    exact ⟨hn, hp⟩
  | settle =>
    obtain ⟨-, rfl⟩ | ⟨r, d, hr, hd, rfl⟩ := moved_settle.1 h
    · exact ⟨hn, hp⟩
    · refine ⟨fun h0 => ?_, ?_⟩
      · rw [hr] at h0
        cases h0
      · rw [reward_of_registered hr]
        exact (Checkpoint.settle_eq_ok.1 hd).2.le
  | pay amount =>
    obtain ⟨-, -, rfl⟩ | ⟨hr, -, rfl⟩ := moved_pay.1 h
    · exact ⟨hn, hp⟩
    · refine ⟨fun h0 => ?_, ?_⟩
      · rw [h0] at hr
        cases hr
      · rw [paid_pay]
        exact hp
  | deposit amount =>
    obtain ⟨-, -, rfl⟩ := moved_deposit.1 h
    exact ⟨hn, hp⟩
  | withdraw amount =>
    obtain ⟨-, -, rfl⟩ := moved_withdraw.1 h
    exact ⟨hn, hp⟩

theorem Dominated.post (hc : c.Dominated) (h : c.post p = some d) : d.Dominated := by
  cases p with
  | book b =>
    obtain ⟨accumulator, hb, rfl⟩ := post_book.1 h
    obtain ⟨credit, hcr⟩ := credited_of_book hb
    refine ⟨fun hn => hc.stored_eq_none (registered_of_book hb hn), fun s hs => ?_⟩
    exact (hc.paid_le s hs).trans hcr.rewardPerToken_mono
  | move user m =>
    obtain ⟨s, hm, rfl⟩ := post_move.1 h
    obtain ⟨hn, hp⟩ := hc.moved hm
    refine ⟨fun h0 t ht => ?_, fun t ht => ?_⟩
    · rcases Table.mem_values_insert ht with rfl | ht
      · exact hn h0
      · exact hc.stored_eq_none h0 t ht
    · rcases Table.mem_values_insert ht with rfl | ht
      · exact hp
      · exact hc.paid_le t ht

end Column

end PoolAccounting
