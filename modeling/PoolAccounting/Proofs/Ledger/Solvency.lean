import Mathlib
import PoolAccounting.Proofs.Ledger.Dominance

/-!
No more of a reward token is owed and paid than was emitted and injected. What is owed is counted
without rounding, in parts of the precision: an accrual adds to it at most what it releases, a
settlement rounds it down, and a payment takes off what it pays.
-/
namespace PoolAccounting

open Staking Fees Amount

theorem Amount.precision_pos : 0 < precision := by decide

/-- What a seat is owed at an accumulator, in parts of the precision. -/
def Seat.owed (rewardPerToken : Nat) (s : Seat) : Nat :=
  precision * s.checkpoint.accrued + s.staked * (rewardPerToken - s.checkpoint.paid)

theorem Seat.owed_add {s : Seat} {level : Nat} (growth : Nat) (h : s.checkpoint.paid ≤ level) :
    s.owed (level + growth) = s.owed level + s.staked * growth := by
  rw [owed, owed, Nat.sub_add_comm h, Nat.mul_add, Nat.add_assoc]

theorem Seat.owed_mono (s : Seat) {lower level : Nat} (h : lower ≤ level) :
    s.owed lower ≤ s.owed level :=
  Nat.add_le_add_left (Nat.mul_le_mul_left _ (Nat.sub_le_sub_right h _)) _

theorem Seat.precision_mul_le_owed (s : Seat) (level : Nat) : precision *
    (s.checkpoint.accrued + s.staked * (level - s.checkpoint.paid) / precision) ≤ s.owed level := by
  rw [owed, Nat.mul_add]
  exact Nat.add_le_add_left (Nat.mul_div_le _ _) _

theorem Seat.precision_mul_earned_le {s : Seat} {level e : Nat}
    (h : s.checkpoint.earned s.staked level = .ok e) : precision * e ≤ s.owed level := by
  obtain ⟨-, -, -, rfl, -⟩ := Checkpoint.earned_eq_ok.1 h
  exact s.precision_mul_le_owed level

/-- What an accumulator at `level` and a growth beyond it owe to several seats. -/
theorem Seat.sum_owed_add {seats : List Seat} {level : Nat} (growth : Nat)
    (h : ∀ s ∈ seats, s.checkpoint.paid ≤ level) :
    (seats.map (·.owed (level + growth))).sum =
      (seats.map (·.owed level)).sum + (seats.map (·.staked)).sum * growth := by
  induction seats with
  | nil => simp
  | cons s seats ih =>
    have hs := Seat.owed_add growth (h s List.mem_cons_self)
    have ht := ih fun t ht => h t (List.mem_cons_of_mem s ht)
    simp only [List.map_cons, List.sum_cons, hs, ht, Nat.add_mul]
    omega

namespace Column

variable {c d : Column} {user : String} {m : Move} {s t : Seat} {b : Booking} {p : Posting}
  {ps : List Posting} {paid : Nat}

theorem growth_of_isSettled (h : c.isSettled s = true) :
    c.reward.rewardPerToken - s.checkpoint.paid = 0 := by
  rw [reward]
  cases hr : c.accumulator with
  | none => exact Nat.zero_sub _
  | some r =>
    have hp : s.checkpoint.paid = r.rewardPerToken := by simpa [isSettled, hr] using h
    rw [hp]
    exact Nat.sub_self _

theorem accrued_pay (s : Seat) :
    (Seat.checkpoint { s with stored := s.stored.map fun d => { d with accrued := 0 } }).accrued =
      0 := by
  cases h : s.stored <;> simp [Seat.checkpoint]

/-- What a seat that is settled is owed does not depend on its stake. -/
theorem owed_of_isSettled (h : c.isSettled s = true) (staked : Nat) :
    Seat.owed c.reward.rewardPerToken { s with staked } = s.owed c.reward.rewardPerToken := by
  have hg := growth_of_isSettled h
  change _ + staked * (c.reward.rewardPerToken - s.checkpoint.paid) = _
  rw [Seat.owed, hg, Nat.mul_zero, Nat.mul_zero]
  rfl

/-- A move takes off what a seat is owed at least what it pays. -/
theorem owed_moved_le (h : c.moved s m = some t) (user : String) :
    t.owed c.reward.rewardPerToken + precision * (Posting.move user m).paid ≤
      s.owed c.reward.rewardPerToken := by
  cases m with
  | enter =>
    obtain rfl : s = t := Option.some.inj h
    exact le_rfl
  | settle =>
    obtain ⟨-, rfl⟩ | ⟨r, d, hr, hd, rfl⟩ := moved_settle.1 h
    · exact le_rfl
    · obtain ⟨he, hp⟩ := Checkpoint.settle_eq_ok.1 hd
      have hle := Seat.precision_mul_earned_le he
      rw [reward_of_registered hr]
      simpa [Seat.owed, Seat.checkpoint, Posting.paid, hp] using hle
  | pay amount =>
    obtain ⟨-, rfl, rfl⟩ | ⟨-, rfl, rfl⟩ := moved_pay.1 h
    · exact le_rfl
    · simp only [Seat.owed, paid_pay, accrued_pay, Posting.paid]
      omega
  | deposit amount =>
    obtain ⟨hs, -, rfl⟩ := moved_deposit.1 h
    rw [owed_of_isSettled hs]
    exact Nat.le_refl _
  | withdraw amount =>
    obtain ⟨hs, -, rfl⟩ := moved_withdraw.1 h
    rw [owed_of_isSettled hs]
    exact Nat.le_refl _

def owed (c : Column) : Nat := (c.seats.values.map (·.owed c.reward.rewardPerToken)).sum

/-- The books of a token cover what is queued, what was paid and what is owed. With the principal
and the order of the checkpoints this is kept by every posting. -/
structure Solvent (c : Column) (paid : Nat) : Prop where
  balanced : c.Balanced
  dominated : c.Dominated
  rewardPerToken_le : c.reward.rewardPerToken ≤ maxAmount
  total_le : c.reward.total ≤ maxAmount
  covered : precision * (c.reward.queued + paid) + c.owed ≤ precision * c.reward.total

/-- What a booking releases is owed to the whole stake, and not more than it. -/
theorem owed_book_le {accumulator : Option RewardPool} {credit release : Nat} (hb : c.Balanced)
    (hd : c.Dominated)
    (h : c.reward.Credited (accumulator.getD {}) c.totalStaked credit release) :
    Column.owed { c with accumulator } ≤ c.owed + precision * release := by
  have hsum := Seat.sum_owed_add (release * precision / c.totalStaked) hd.paid_le
  rw [← hb.principal, ← h.rewardPerToken_eq] at hsum
  change (c.seats.values.map (·.owed (accumulator.getD {}).rewardPerToken)).sum ≤ _
  rw [hsum, Nat.mul_comm precision]
  exact Nat.add_le_add_left (Nat.mul_div_le _ _) _

theorem Solvent.post (hc : c.Solvent paid) (h : c.post p = some d) :
    d.Solvent (paid + p.paid) := by
  have hbal := (hc.balanced.post h).1
  have hdom := hc.dominated.post h
  have hcov := hc.covered
  cases p with
  | book b =>
    obtain ⟨accumulator, hb, rfl⟩ := post_book.1 h
    obtain ⟨credit, hcr⟩ := credited_of_book hb
    refine ⟨hbal, hdom, hcr.rewardPerToken_le hc.rewardPerToken_le, hcr.total_le hc.total_le, ?_⟩
    have howed := owed_book_le hc.balanced hc.dominated hcr
    have hq := hcr.queued_add
    change precision * ((accumulator.getD {}).queued + paid) + _ ≤
      precision * (accumulator.getD {}).total
    rw [hcr.total_eq]
    generalize c.release (.book b) = release at howed hq
    calc precision * ((accumulator.getD {}).queued + paid) + Column.owed { c with accumulator }
      _ ≤ precision * ((accumulator.getD {}).queued + paid) + (c.owed + precision * release) :=
        Nat.add_le_add_left howed _
      _ = precision * ((accumulator.getD {}).queued + release + paid) + c.owed := by ring
      _ = precision * (c.reward.queued + paid) + c.owed + precision * credit := by rw [hq]; ring
      _ ≤ precision * c.reward.total + precision * credit := Nat.add_le_add_right hcov _
      _ = precision * (c.reward.total + credit) := (Nat.mul_add _ _ _).symm
  | move user m =>
    obtain ⟨s, hm, rfl⟩ := post_move.1 h
    refine ⟨hbal, hdom, hc.rewardPerToken_le, hc.total_le, ?_⟩
    have hsum := sum_sit c user s (·.owed c.reward.rewardPerToken)
      (by simp [Seat.owed, Seat.checkpoint])
    have hle := owed_moved_le hm user
    change (c.sit user s).owed + (c.seat user).owed c.reward.rewardPerToken =
      c.owed + s.owed c.reward.rewardPerToken at hsum
    change precision * (c.reward.queued + (paid + _)) + (c.sit user s).owed ≤
      precision * c.reward.total
    rw [← Nat.add_assoc, Nat.mul_add]
    omega

theorem Solvent.replay (hc : c.Solvent paid) (h : c.replay ps = some d) :
    d.Solvent (paid + (ps.map Posting.paid).sum) := by
  refine replay_invariant (fun e qs => e.Solvent (paid + (qs.map Posting.paid).sum))
    (fun he hp => ?_) h hc
  rw [List.map_append, List.sum_append, List.map_singleton, List.sum_singleton, ← Nat.add_assoc]
  exact he.post hp

/-- While a token is solvent, what it owes to a seat can always be told. -/
theorem Solvent.earned (hc : c.Solvent paid) (hs : s ∈ c.seats.values ∨ s = {}) :
    ∃ e, s.checkpoint.earned s.staked c.reward.rewardPerToken = .ok e := by
  have hpaid : s.checkpoint.paid ≤ c.reward.rewardPerToken := by
    rcases hs with hs | rfl
    · exact hc.dominated.paid_le s hs
    · exact Nat.zero_le _
  have hstaked : s.staked ≤ maxAmount := by
    rcases hs with hs | rfl
    · have hle := Table.le_sum_values (·.staked) hs
      rw [← hc.balanced.principal] at hle
      exact hle.trans hc.balanced.bounded
    · exact Nat.zero_le _
  have howed : s.owed c.reward.rewardPerToken ≤ c.owed := by
    rcases hs with hs | rfl
    · exact Table.le_sum_values (·.owed c.reward.rewardPerToken) hs
    · simp [Seat.owed, Seat.checkpoint]
  refine ⟨_, Checkpoint.earned_eq_ok.2 ⟨hpaid, hc.rewardPerToken_le, hstaked, rfl, ?_⟩⟩
  -- what is earned comes to at most everything that was ever credited
  have hcov := hc.covered
  have htotal := Nat.mul_le_mul_left precision hc.total_le
  apply Nat.le_of_mul_le_mul_left _ precision_pos
  calc precision * (s.checkpoint.accrued +
        s.staked * (c.reward.rewardPerToken - s.checkpoint.paid) / precision)
    _ ≤ s.owed c.reward.rewardPerToken := by
      rw [Seat.owed, Nat.mul_add]
      exact Nat.add_le_add_left (Nat.mul_div_le _ _) _
    _ ≤ precision * maxAmount := by omega

end Column

namespace Ledger

theorem solvent_run (stakingToken : String) (fees : Book) (actions : List Action) (k : Key) :
    (((opened stakingToken fees).run actions).column k).Solvent
      (((opened stakingToken fees).journal actions).map (·.paid k)).sum := by
  have hr := replay_run (opened stakingToken fees) actions k
  have hempty : Column.Solvent {} 0 :=
    ⟨⟨rfl, Nat.zero_le _⟩, Column.dominated_empty, Nat.zero_le _, Nat.zero_le _, Nat.le_refl _⟩
  have hs := hempty.replay hr
  rwa [sum_paid, Nat.zero_add] at hs

/-- What is queued of a reward token, what was ever paid of it and what every user could claim at
once come to no more than everything that was emitted and injected. -/
theorem rewards_solvent (stakingToken : String) (fees : Book) (actions : List Action) (k : Key)
    (r : RewardPool)
    (hr : ((opened stakingToken fees).run actions).pool.rewardPools.get? k = some r) :
    let l := (opened stakingToken fees).run actions
    let journal := (opened stakingToken fees).journal actions
    ∃ claimable : Table Nat,
      l.users.traverse (fun _ u => (u.checkpoint k).earned u.staked r.rewardPerToken) =
        .ok claimable ∧
      r.queued + (journal.map (·.paid k)).sum + claimable.values.sum ≤ r.total := by
  intro l journal
  have hc : (l.column k).Solvent (journal.map (·.paid k)).sum :=
    solvent_run stakingToken fees actions k
  have hreward : (l.column k).reward = r := Column.reward_of_registered hr
  have hearned : ∀ name u, l.users.get? name = some u →
      ∃ e, (u.checkpoint k).earned u.staked r.rewardPerToken = .ok e := by
    intro name u hu
    have hseat : u.seat k ∈ (l.column k).seats.values :=
      Table.mem_values_iff.2 ⟨name, by simp [column, hu]⟩
    have he := hc.earned (.inl hseat)
    rwa [hreward] at he
  obtain ⟨claimable, hclaimable⟩ := Table.traverse_succeeds hearned
  refine ⟨claimable, hclaimable, ?_⟩
  have hsum := Table.mul_sum_values_traverse_le precision (fun _ u e he =>
    Seat.precision_mul_earned_le (s := u.seat k) he) hclaimable
  have howed : (l.column k).owed =
      (l.users.values.map fun u => (u.seat k).owed r.rewardPerToken).sum := by
    rw [Column.owed, hreward]
    simp [column, Function.comp_def]
  have hcov := hc.covered
  rw [hreward, howed] at hcov
  apply Nat.le_of_mul_le_mul_left _ precision_pos
  rw [Nat.mul_add]
  omega

theorem rewards_solvent_twoStakers :
    let l := (opened "S" {}).run twoStakers
    let journal := (opened "S" {}).journal twoStakers
    let r : RewardPool := ⟨1698522167487684728, 12, 7, 0, 95⟩
    l.pool.rewardPools.get? (.text "R") = some r ∧ ∃ claimable : Table Nat,
      l.users.traverse (fun _ u => (u.checkpoint (.text "R")).earned u.staked r.rewardPerToken) =
        .ok claimable ∧
      r.queued + (journal.map (·.paid (.text "R"))).sum + claimable.values.sum ≤ r.total :=
  ⟨by decide, rewards_solvent "S" {} twoStakers (.text "R") _ (by decide)⟩

end Ledger

end PoolAccounting
