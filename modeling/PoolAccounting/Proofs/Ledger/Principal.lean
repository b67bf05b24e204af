import Mathlib
import PoolAccounting.Proofs.Ledger.Transfers

/-!
The principal of a pool is the sum of the stakes of its users, and moves only by what is staked,
withdrawn and compounded.
-/
namespace PoolAccounting

open Staking Fees Amount

namespace Column

structure Balanced (c : Column) : Prop where
  principal : c.totalStaked = (c.seats.values.map (·.staked)).sum
  bounded : c.totalStaked ≤ maxAmount

variable {c d : Column} {user : String} {m : Move} {s t : Seat} {p : Posting} {ps : List Posting}

theorem staked_moved (h : c.moved (c.seat user) m = some s) :
    s.staked + (Posting.move user m).withdrawn =
      (c.seat user).staked + (Posting.move user m).deposited := by
  cases m with
  | enter =>
    obtain rfl : c.seat user = s := Option.some.inj h
    rfl
  | settle =>
    obtain ⟨-, rfl⟩ | ⟨r, d, -, -, rfl⟩ := moved_settle.1 h <;> rfl
  | pay amount =>
    obtain ⟨-, -, rfl⟩ | ⟨-, -, rfl⟩ := moved_pay.1 h <;> rfl
  | deposit amount =>
    obtain ⟨-, -, rfl⟩ := moved_deposit.1 h
    rfl
  | withdraw amount =>
    obtain ⟨-, hs, rfl⟩ := moved_withdraw.1 h
    exact Nat.sub_add_cancel hs

theorem deposited_moved_le (hc : c.totalStaked ≤ maxAmount) (h : c.moved s m = some t)
    (user : String) : c.totalStaked + (Posting.move user m).deposited ≤ maxAmount := by
  cases m with
  | deposit amount => exact (moved_deposit.1 h).2.1
  | _ => exact hc

theorem Balanced.staked_le (hc : c.Balanced) (user : String) :
    (c.seat user).staked ≤ c.totalStaked := by
  rw [hc.principal, seat]
  cases h : c.seats.get? user with
  | none => exact Nat.zero_le _
  | some s => exact Table.le_sum_values (·.staked) (Table.mem_values_iff.2 ⟨_, h⟩)

theorem Balanced.post (hc : c.Balanced) (h : c.post p = some d) :
    d.Balanced ∧ d.totalStaked + p.withdrawn = c.totalStaked + p.deposited := by
  cases p with
  | book b =>
    obtain ⟨acc, -, rfl⟩ := post_book.1 h
    exact ⟨⟨hc.principal, hc.bounded⟩, rfl⟩
  | move user m =>
    obtain ⟨s, hm, rfl⟩ := post_move.1 h
    have hs := staked_moved hm
    have hle := hc.staked_le user
    have hsum := sum_sit c user s (·.staked) rfl
    have hd := deposited_moved_le hc.bounded hm user
    have ht : (c.sit user s).totalStaked = c.totalStaked + s.staked - (c.seat user).staked := rfl
    rw [← hc.principal] at hsum
    exact ⟨⟨by omega, by omega⟩, by omega⟩

theorem Balanced.replay (hc : c.Balanced) (h : c.replay ps = some d) :
    d.Balanced ∧ d.totalStaked + (ps.map Posting.withdrawn).sum =
      c.totalStaked + (ps.map Posting.deposited).sum := by
  refine replay_invariant (fun e qs => e.Balanced ∧
    e.totalStaked + (qs.map Posting.withdrawn).sum =
      c.totalStaked + (qs.map Posting.deposited).sum) ?_ h ⟨hc, rfl⟩
  intro e e' p qs he hp
  obtain ⟨he, hqs⟩ := he
  obtain ⟨he', hpe⟩ := he.post hp
  simp only [List.map_append, List.sum_append, List.map_singleton, List.sum_singleton]
  exact ⟨he', by omega⟩

end Column

namespace Ledger

theorem column_opened (stakingToken : String) (fees : Book) (k : Key) :
    (opened stakingToken fees).column k = {} := rfl

/-- The principal of the pool is what its users have staked, and that is what was ever staked less
what was withdrawn, with the rewards that were compounded. -/
theorem principal_conserved (stakingToken : String) (fees : Book) (actions : List Action) :
    let l := (opened stakingToken fees).run actions
    let journal := (opened stakingToken fees).journal actions
    l.pool.totalStaked = (l.users.values.map (·.staked)).sum ∧
      (l.pool.totalStaked : ℤ) = (journal.map (·.staked)).sum - (journal.map (·.unstaked)).sum +
        (journal.map (·.compounded)).sum := by
  intro l journal
  have hr := replay_run (opened stakingToken fees) actions .null
  obtain ⟨hl, hflow⟩ := Column.Balanced.replay ⟨rfl, Nat.zero_le _⟩ hr
  have hseats : (l.column .null).seats.values.map (·.staked) = l.users.values.map (·.staked) := by
    simp [column, Function.comp_def]
  have hsum := hl.principal
  rw [sum_deposited, sum_withdrawn] at hflow
  change l.pool.totalStaked + (journal.map (·.unstaked)).sum =
    0 + ((journal.map (·.staked)).sum + (journal.map (·.compounded)).sum) at hflow
  change l.pool.totalStaked = _ at hsum
  rw [hseats] at hsum
  exact ⟨hsum, by omega⟩

end Ledger

end PoolAccounting
