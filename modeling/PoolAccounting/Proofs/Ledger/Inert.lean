import Mathlib
import PoolAccounting.Proofs.Ledger.Isolation
import PoolAccounting.Proofs.Ledger.Settlement

/-!
Empty records. Without a stake nothing is earned, so a user who has withdrawn the whole principal is
owed what was accrued at that time and no more, whatever becomes of the tokens. In a ledger that is
reached from an empty one, a record that looks empty is one that no token owes anything, and it stays
so until its user stakes again.
-/
namespace PoolAccounting

open Staking Fees Amount

namespace Staking

theorem Checkpoint.earned_unstaked {c : Checkpoint} {level n : ℕ}
    (h : c.earned (0 : ℕ) level = .ok n) : n = c.accrued := by
  obtain ⟨-, -, -, rfl, -⟩ := earned_eq_ok.1 h
  rw [Nat.zero_mul, Nat.zero_div, Nat.add_zero]

namespace StakingPool

variable {p q : StakingPool} {u v : UserStake} {now : Operand} {chosen : Table Unit}
  {settled : Table Checkpoint} {amounts : Table ℕ} {choice : TokenChoice} {c : ClaimResult}

/-- A user without a stake is owed what is accrued, at every time. -/
theorem get?_pendingRewards_unstaked (h0 : u.staked = 0)
    (h : p.pendingRewards u now = .ok amounts) {k : Key} {n : ℕ} (hn : amounts.get? k = some n) :
    n = (u.checkpoint k).accrued := by
  obtain ⟨hnames, hdue⟩ := pendingRewards_eq_ok.1 h
  obtain ⟨r, hr⟩ := Table.exists_get?_of_names_eq hnames hn
  obtain ⟨m, hm, hget⟩ := hdue k r hr
  obtain rfl : m = n := Option.some.inj (hget.symm.trans hn)
  obtain ⟨r', -, hearned⟩ := RewardPool.due_eq_ok.1 hm
  rw [h0] at hearned
  exact Checkpoint.earned_unstaked hearned

/-- Where checkpoints are of registered tokens only, a user without a stake has an empty record just
if nothing is owed. -/
theorem isEmpty_iff_pendingRewards (h0 : u.staked = 0)
    (hregistered : ∀ k c, u.checkpoints.get? k = some c → ∃ r, p.rewardPools.get? k = some r)
    (h : p.pendingRewards u now = .ok amounts) :
    u.isEmpty = true ↔ ∀ n ∈ amounts.values, n = 0 := by
  rw [UserStake.isEmpty_iff]
  constructor
  · rintro ⟨-, haccrued⟩ n hn
    obtain ⟨k, hk⟩ := Table.mem_values_iff.1 hn
    rw [get?_pendingRewards_unstaked h0 h hk, haccrued k]
  · intro hzero
    refine ⟨h0, fun k => ?_⟩
    rw [UserStake.checkpoint]
    cases hc : u.checkpoints.get? k with
    | none => rfl
    | some c =>
      obtain ⟨r, hr⟩ := hregistered k c hc
      obtain ⟨n, -, hn⟩ := (pendingRewards_eq_ok.1 h).2 k r hr
      have haccrued := get?_pendingRewards_unstaked h0 h hn
      rw [UserStake.checkpoint, hc] at haccrued
      rw [← haccrued]
      exact hzero n (Table.mem_values_iff.2 ⟨k, hn⟩)

section Empty

variable (hu : u.isEmpty = true)
include hu

theorem pendingRewards_of_isEmpty (h : p.pendingRewards u now = .ok amounts) :
    ∀ n ∈ amounts.values, n = 0 := by
  obtain ⟨h0, haccrued⟩ := UserStake.isEmpty_iff.1 hu
  intro n hn
  obtain ⟨k, hk⟩ := Table.mem_values_iff.1 hn
  rw [get?_pendingRewards_unstaked h0 h hk, haccrued k]

/-- Settling an empty record accrues nothing. -/
theorem accrued_settled (hs : p.settled chosen u = .ok settled) {k : Key} {d : Checkpoint}
    (hd : settled.get? k = some d) : d.accrued = 0 := by
  obtain ⟨h0, haccrued⟩ := UserStake.isEmpty_iff.1 hu
  obtain ⟨r, hr⟩ := Table.exists_get?_of_names_eq (Table.names_of_traverse hs) hd
  obtain ⟨d', hsettle, hd'⟩ := Table.get?_of_traverse hs hr
  obtain rfl : d' = d := Option.some.inj (hd'.symm.trans hd)
  have hearned := (Checkpoint.settle_eq_ok.1 hsettle).1
  rw [h0] at hearned
  rw [Checkpoint.earned_unstaked hearned, haccrued k]

/-- New checkpoints that have accrued nothing leave the record empty. -/
theorem isEmpty_of_override {kept : Table Checkpoint} (hstaked : v.staked = u.staked)
    (hv : v.checkpoints = u.checkpoints.override kept)
    (hkept : ∀ k d, kept.get? k = some d → d.accrued = 0) : v.isEmpty = true := by
  obtain ⟨h0, haccrued⟩ := UserStake.isEmpty_iff.1 hu
  refine UserStake.isEmpty_iff.2 ⟨hstaked.trans h0, fun k => ?_⟩
  rw [UserStake.checkpoint, hv, Table.get?_override]
  cases hd : kept.get? k with
  | none => exact haccrued k
  | some d => exact hkept k d hd

theorem isEmpty_of_update (h : p.update u now = .ok (q, v)) : v.isEmpty = true := by
  obtain ⟨settled, -, hs, rfl⟩ := update_eq_ok.1 h
  exact isEmpty_of_override hu rfl rfl fun _ _ => accrued_settled hu hs

theorem unstake_of_isEmpty {amount : Operand} : p.unstake u amount now ≠ .ok (q, v) := by
  intro h
  obtain ⟨n, p', u', -, hpos, -, hle, -⟩ := unstake_eq_ok.1 h
  rw [(UserStake.isEmpty_iff.1 hu).1] at hle
  exact Nat.not_lt.2 hle hpos

theorem isEmpty_of_claim (h : p.claim u now choice = .ok c) : c.user.isEmpty = true := by
  obtain ⟨chosen, p', settled, t, -, -, -, -, rfl⟩ := claim_eq_ok.1 h
  refine isEmpty_of_override hu rfl rfl fun k d hd => ?_
  rw [Table.get?_map, Option.map_eq_some_iff] at hd
  obtain ⟨d, -, rfl⟩ := hd
  rfl

theorem get?_claimed_of_isEmpty (h : p.claim u now choice = .ok c) {k : Key} {n : ℕ}
    (hn : c.claimed.get? k = some n) : n = 0 := by
  obtain ⟨chosen, p', settled, t, -, -, hs, -, rfl⟩ := claim_eq_ok.1 h
  rw [Table.get?_map, Option.map_eq_some_iff] at hn
  obtain ⟨d, hd, rfl⟩ := hn
  exact accrued_settled hu hs hd

theorem claim_of_isEmpty (h : p.claim u now choice = .ok c) : ∀ n ∈ c.claimed.values, n = 0 := by
  intro n hn
  obtain ⟨k, hk⟩ := Table.mem_values_iff.1 hn
  exact get?_claimed_of_isEmpty hu h hk

/-- Nothing is claimed, so nothing is staked again. -/
theorem compound_of_isEmpty {limits : Option StakeLimits} {x : CompoundResult}
    (h : p.compound u now limits = .ok x) :
    x.user.isEmpty = true ∧ x.compounded = 0 ∧ ∀ n ∈ x.claimed.values, n = 0 := by
  obtain ⟨c, hc, hcompounded, hclaimed, hx⟩ := compound_eq_ok.1 h
  have h0 : x.compounded = 0 := by
    rw [hcompounded]
    cases hn : c.claimed.get? p.stakingToken with
    | none => rfl
    | some n => exact get?_claimed_of_isEmpty hu hc hn
  rw [if_pos h0] at hx
  refine ⟨?_, h0, fun n hn => ?_⟩
  · rw [hx.2]
    exact isEmpty_of_claim hu hc
  · obtain ⟨k, hk⟩ := Table.mem_values_iff.1 hn
    rw [hclaimed, Table.get?_erase, Option.ite_none_left_eq_some] at hk
    exact get?_claimed_of_isEmpty hu hc hk.2

end Empty

end StakingPool

end Staking

namespace Ledger

variable {l next : Ledger} {a : Action} {r : Receipt} {name : String}

/-- An empty record stays empty, but for a stake of its user. -/
theorem isEmpty_of_perform (hu : (l.user name).isEmpty = true)
    (ha : ∀ amount now limits, a ≠ .stake name amount now limits)
    (h : l.perform a = .ok (r, next)) : (next.user name).isEmpty = true := by
  by_cases hname : a.byUser?.map Prod.fst = some name
  swap
  · rwa [user_of_perform h hname]
  cases a
  case pending | apr | addToken | setRate | notify | receive | distribute | distributeAll |
    toStaking => cases hname
  all_goals
    obtain rfl := Option.some.inj hname
    simp only [perform, bind_eq_ok, Prod.exists, pure, Except.pure, Except.ok.injEq,
      Prod.mk.injEq] at h
  case stake amount now limits => exact absurd rfl (ha amount now limits)
  case unstake amount now =>
    obtain ⟨p, u, h, -⟩ := h
    exact absurd h (StakingPool.unstake_of_isEmpty hu)
  case update now =>
    obtain ⟨p, u, h, -, rfl⟩ := h
    rw [user_write, if_pos rfl]
    exact StakingPool.isEmpty_of_update hu h
  case claim now choice =>
    obtain ⟨c, h, -, rfl⟩ := h
    rw [user_write, if_pos rfl]
    exact StakingPool.isEmpty_of_claim hu h
  case compound now limits =>
    obtain ⟨x, h, -, rfl⟩ := h
    rw [user_write, if_pos rfl]
    exact (StakingPool.compound_of_isEmpty hu h).1

theorem isEmpty_run {later : List Action} (hu : (l.user name).isEmpty = true)
    (hlater : ∀ a ∈ later, ∀ amount now limits, a ≠ .stake name amount now limits) :
    ((l.run later).user name).isEmpty = true :=
  run_invariant (fun m => (m.user name).isEmpty = true) hu
    fun ha hm h => isEmpty_of_perform hm (hlater _ ha) h

/-- The record of a user without a stake is empty just if no view of the pending rewards shows
anything. From then on, until the user stakes again, every view shows zeros, every claim pays zeros,
and a compounding stakes nothing, whatever others do and whatever becomes of the tokens. -/
theorem empty_is_inert (stakingToken : String) (fees : Book) (before later : List Action)
    (name : String) :
    let l := (opened stakingToken fees).run before
    let m := l.run later
    ((l.user name).staked = 0 → ∀ now amounts,
      l.pool.pendingRewards (l.user name) now = .ok amounts →
        ((l.user name).isEmpty = true ↔ ∀ n ∈ amounts.values, n = 0)) ∧
    ((l.user name).isEmpty = true →
      (∀ a ∈ later, ∀ amount now limits, a ≠ .stake name amount now limits) →
        (∀ now amounts, m.pool.pendingRewards (m.user name) now = .ok amounts →
          ∀ n ∈ amounts.values, n = 0) ∧
        (∀ now choice c, m.pool.claim (m.user name) now choice = .ok c →
          ∀ n ∈ c.claimed.values, n = 0) ∧
        ∀ now limits x, m.pool.compound (m.user name) now limits = .ok x →
          x.compounded = 0 ∧ ∀ n ∈ x.claimed.values, n = 0) := by
  intro l m
  have hsolvent : ∀ k, (l.column k).Solvent _ := solvent_run stakingToken fees before
  constructor
  · intro h0 now amounts h
    apply StakingPool.isEmpty_iff_pendingRewards h0 _ h
    intro k c hc
    obtain ⟨r, hr, -⟩ := registered_of_dominated (hsolvent k).dominated hc
    exact ⟨r, hr⟩
  · intro hu hlater
    have hm : (m.user name).isEmpty = true := isEmpty_run hu hlater
    exact ⟨fun now amounts => StakingPool.pendingRewards_of_isEmpty hm,
      fun now choice c => StakingPool.claim_of_isEmpty hm,
      fun now limits x h => (StakingPool.compound_of_isEmpty hm h).2⟩

theorem empty_is_inert_withdrawn :
    let before : List Action := [.addToken "R" 0 7, .stake "alice" 30 2 none,
      .stake "bob" 40 3 none, .unstake "alice" 30 8]
    let claimed : List Action := before ++ [.claim "alice" 9 .all]
    let later : List Action := [.addToken "S" 9 5, .unstake "bob" 40 12, .notify "R" 50 14,
      .stake "carol" 5 15 none, .update "alice" 16]
    let l := (opened "S" {}).run before
    let amounts : Table ℕ := .ofList [("R", 36)]
    let l' := (opened "S" {}).run claimed
    let m := l'.run later
    (l.user "alice").staked = 0 ∧ l.pool.pendingRewards (l.user "alice") 9 = .ok amounts ∧
      (l.user "alice").isEmpty = false ∧ (¬∀ n ∈ amounts.values, n = 0) ∧
      (l'.user "alice").isEmpty = true ∧
      (∀ a ∈ later, ∀ amount now limits, a ≠ .stake "alice" amount now limits) ∧
      ∃ amounts, m.pool.pendingRewards (m.user "alice") 20 = .ok amounts ∧
        amounts.names = ["R", "S"] ∧ ∀ n ∈ amounts.values, n = 0 := by
  intro before claimed later l amounts l' m
  have h0 : (l.user "alice").staked = 0 := by decide +kernel
  have hview : l.pool.pendingRewards (l.user "alice") 9 = .ok amounts := by decide +kernel
  have hfull : (l.user "alice").isEmpty = false := by decide +kernel
  have hempty : (l'.user "alice").isEmpty = true := by decide +kernel
  have hviewed : m.pool.pendingRewards (m.user "alice") 20 = .ok (.ofList [("R", 0), ("S", 0)]) := by
    decide +kernel
  have hlater : ∀ a ∈ later, ∀ amount now limits, a ≠ .stake "alice" amount now limits := by
    simp [later]
  have hiff := (empty_is_inert "S" {} before later "alice").1 h0 9 amounts hview
  obtain ⟨hzero, -⟩ := (empty_is_inert "S" {} claimed later "alice").2 hempty hlater
  refine ⟨h0, hview, hfull, fun h => ?_, hempty, hlater, _, hviewed, by decide, hzero 20 _ hviewed⟩
  exact Bool.false_ne_true (hfull.symm.trans (hiff.2 h))

end Ledger

end PoolAccounting
