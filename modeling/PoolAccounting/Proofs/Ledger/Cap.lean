import Mathlib
import PoolAccounting.Proofs.Ledger.Isolation
import PoolAccounting.Proofs.Ledger.Totals

/-!
A cap on what a user has staked. Only stakes and compoundings raise a principal, and both look at the
cap once the user is settled, so the cap holds along a run in which both are given it. A compounding
claims first; if the rewards do not fit under the cap, it is refused as a whole, and they stay owed.
-/
namespace PoolAccounting

open Staking Fees Amount

namespace Staking.StakingPool

variable {p q : StakingPool} {u v : UserStake} {now : Operand} {limits : StakeLimits} {n : ℕ}
  {c : ClaimResult}

theorem staked_le_of_unstake {amount : Operand} (h : p.unstake u amount now = .ok (q, v)) :
    v.staked ≤ u.staked := by
  obtain ⟨n, p', u', -, -, -, -, hu, -, -, -, -, -, rfl⟩ := unstake_eq_ok.1 h
  exact (Nat.sub_le _ _).trans (staked_of_update hu).le

/-- Whatever the user had staked, what is added to it is added under the cap. -/
theorem staked_le_cap_of_addStake (hcap : 0 < limits.cap)
    (h : p.addStake u n now (some limits) = .ok (q, v)) : v.staked ≤ limits.cap := by
  obtain ⟨p', u', t, -, -, hlimit, -, -, -, rfl⟩ := addStake_eq_ok.1 h
  exact (ensure_eq_ok.1 hlimit).resolve_left hcap.ne'

theorem staked_le_cap_of_compound {x : CompoundResult} (hcap : 0 < limits.cap)
    (hu : u.staked ≤ limits.cap) (h : p.compound u now (some limits) = .ok x) :
    x.user.staked ≤ limits.cap := by
  obtain ⟨c, hc, -, -, hx⟩ := compound_eq_ok.1 h
  split at hx
  · rw [hx.2, staked_of_claim hc]
    exact hu
  · exact staked_le_cap_of_addStake hcap hx

/-- Why a principal that is too large is refused. -/
def capFault (limits : StakeLimits) (principal : ℕ) : Fault :=
  if principal ≤ maxAmount then .stakeAboveCap principal limits.cap else .aboveDomain principal

/-- If the user can be settled, nothing but the cap and the amount domain is in the way of a stake that
goes beyond the cap. -/
theorem addStake_of_cap_lt (hu : p.update u now = .ok (q, v)) (hcap : 0 < limits.cap)
    (hstaked : u.staked ≤ maxAmount) (hn : n ≤ maxAmount) (h : limits.cap < u.staked + n) :
    p.addStake u n now (some limits) = .error (capFault limits (u.staked + n)) := by
  rw [addStake, hu, ok_bind, capFault]
  dsimp only
  rw [staked_of_update hu]
  split
  · have hadd : addNat u.staked n = .ok (u.staked + n) := addNat_eq_ok.2 ⟨rfl, ‹_›⟩
    have hrefused : StakeLimits.checkPrincipal (some limits) (u.staked + n) =
        .error (.stakeAboveCap (u.staked + n) limits.cap) :=
      ensure_eq_error.2 ⟨by omega, rfl⟩
    rw [hadd, ok_bind, hrefused, error_bind]
  · rw [addNat_overflows hstaked hn (not_le.1 ‹_›), error_bind]

theorem compound_of_cap_lt (hc : p.claim u now .all = .ok c)
    (hu : c.pool.update c.user now = .ok (q, v)) (hcap : 0 < limits.cap)
    (hstaked : u.staked ≤ min limits.cap maxAmount)
    (h : limits.cap < u.staked + (c.claimed.get? p.stakingToken).getD 0) :
    p.compound u now (some limits) =
      .error (capFault limits (u.staked + (c.claimed.get? p.stakingToken).getD 0)) := by
  have hpaid : (c.claimed.get? p.stakingToken).getD 0 ≤ maxAmount := claimed_le hc _
  rw [compound, hc, ok_bind]
  dsimp only
  generalize (c.claimed.get? p.stakingToken).getD 0 = rewards at h hpaid
  have h0 : rewards ≠ 0 := by omega
  rw [← staked_of_claim hc] at h hstaked ⊢
  rw [if_neg h0, addStake_of_cap_lt hu hcap (by omega) hpaid h, error_bind]

end Staking.StakingPool

namespace Ledger

/-- Whether the action is given these limits, if it adds to a stake. -/
def Action.isUnder (limits : StakeLimits) : Action → Bool
  | .stake _ _ _ given | .compound _ _ given => given = some limits
  | _ => true

def Capped (l : Ledger) (cap : ℕ) : Prop := ∀ name, (l.user name).staked ≤ cap

variable {l next : Ledger} {a : Action} {r : Receipt} {limits : StakeLimits} {name : String}
  {now : Operand}

theorem Capped.write {cap : ℕ} {p : StakingPool} {u : UserStake} (hl : l.Capped cap)
    (hu : u.staked ≤ cap) : (l.write name p u).Capped cap := by
  intro other
  rw [user_write]
  split
  · exact hu
  · exact hl other

theorem Capped.perform (hl : l.Capped limits.cap) (hcap : 0 < limits.cap)
    (ha : a.isUnder limits = true) (h : l.perform a = .ok (r, next)) : next.Capped limits.cap := by
  have hothers : a.byUser? = none → next.Capped limits.cap := by
    intro hnone name
    rw [user_of_perform h (by simp [hnone])]
    exact hl name
  cases a
  case pending | apr | addToken | setRate | notify | receive | distribute | distributeAll |
    toStaking => exact hothers rfl
  all_goals simp only [Ledger.perform, bind_eq_ok, Prod.exists, pure, Except.pure, Except.ok.injEq,
    Prod.mk.injEq] at h
  case stake name amount now given =>
    obtain rfl : given = some limits := of_decide_eq_true ha
    obtain ⟨p, u, h, -, rfl⟩ := h
    obtain ⟨n, -, -, -, -, h⟩ := StakingPool.stake_eq_ok.1 h
    exact hl.write (StakingPool.staked_le_cap_of_addStake hcap h)
  case unstake name amount now =>
    obtain ⟨p, u, h, -, rfl⟩ := h
    exact hl.write ((StakingPool.staked_le_of_unstake h).trans (hl name))
  case update name now =>
    obtain ⟨p, u, h, -, rfl⟩ := h
    exact hl.write ((StakingPool.staked_of_update h).trans_le (hl name))
  case claim name now choice =>
    obtain ⟨c, h, -, rfl⟩ := h
    exact hl.write ((StakingPool.staked_of_claim h).trans_le (hl name))
  case compound name now given =>
    obtain rfl : given = some limits := of_decide_eq_true ha
    obtain ⟨x, h, -, rfl⟩ := h
    exact hl.write (StakingPool.staked_le_cap_of_compound hcap (hl name) h)

/-- After a claim for every token its user can be settled again at the same time. -/
theorem Sound.update_of_claim {c : ClaimResult} (hl : l.Sound)
    (hc : l.pool.claim (l.user name) now .all = .ok c) :
    ∃ q v, c.pool.update c.user now = .ok (q, v) := by
  have hperform : l.perform (.claim name now .all) =
      .ok (.claimed c.claimed, l.write name c.pool c.user) := by
    rw [Ledger.perform, hc]
    rfl
  have haccrued : c.pool.accrue c.pool.rewardPools.domain now = .ok c.pool := by
    obtain ⟨chosen, q, settled, t, hchosen, ha, -, -, rfl⟩ := StakingPool.claim_eq_ok.1 hc
    obtain rfl : l.pool.rewardPools.domain = chosen := Except.ok.inj hchosen
    exact StakingPool.accrue_all_again ha
  obtain ⟨v, hv, -⟩ := (hl.perform hperform).update haccrued name
  rw [user_write, if_pos rfl] at hv
  exact ⟨_, v, hv⟩

/-- Where every stake and every compounding is given a cap, no user ever has more than the cap staked.
A compounding that would take a user beyond it is refused, changes nothing, and leaves the rewards
owed that it would have claimed. -/
theorem cap_kept (stakingToken : String) (fees : Book) (limits : StakeLimits)
    (actions : List Action) (hcap : 0 < limits.cap)
    (hlimits : ∀ a ∈ actions, a.isUnder limits = true) :
    let l := (opened stakingToken fees).run actions
    (∀ name, (l.user name).staked ≤ limits.cap) ∧
      ∀ name now (c : ClaimResult), l.pool.claim (l.user name) now .all = .ok c →
        let principal := (l.user name).staked + (c.claimed.get? l.pool.stakingToken).getD 0
        let compound : Action := .compound name now (some limits)
        limits.cap < principal →
          l.perform compound = .error (if principal ≤ maxAmount then
            .stakeAboveCap principal limits.cap else .aboveDomain principal) ∧
          l.step compound = l ∧
          (l.step compound).pool.pendingRewards ((l.step compound).user name) now =
            .ok c.claimed := by
  intro l
  have hsound : l.Sound := sound_run stakingToken fees actions
  have hcapped : l.Capped limits.cap :=
    run_invariant (·.Capped limits.cap) (fun _ => Nat.zero_le _)
      fun ha hl h => hl.perform hcap (hlimits _ ha) h
  refine ⟨hcapped, ?_⟩
  intro name now c hc principal compound habove
  obtain ⟨q, v, hv⟩ := hsound.update_of_claim hc
  have hstaked : (l.user name).staked ≤ min limits.cap maxAmount :=
    le_min (hcapped name) ((hsound.staked_le name).trans hsound.totalStaked_le)
  have hrefused : l.perform compound = .error (StakingPool.capFault limits principal) := by
    rw [perform, StakingPool.compound_of_cap_lt hc hv hcap hstaked habove]
    rfl
  have hstep : l.step compound = l := step_of_error hrefused
  rw [hstep]
  exact ⟨hrefused, rfl, StakingPool.pendingRewards_of_claim_all hc⟩

theorem cap_kept_compound :
    let limits : StakeLimits := { cap := 45 }
    let actions : List Action := [.addToken "S" 0 5, .stake "alice" 30 2 (some limits),
      .stake "bob" 40 3 (some limits), .compound "alice" 5 (some limits), .unstake "alice" 4 6]
    let l := (opened "S" {}).run actions
    let compound : Action := .compound "bob" 9 (some limits)
    0 < limits.cap ∧ (∀ a ∈ actions, a.isUnder limits = true) ∧
      (l.user "bob").staked ≤ limits.cap ∧ l.perform compound = .error (.stakeAboveCap 57 45) ∧
      l.step compound = l ∧ (l.step compound).pool.pendingRewards ((l.step compound).user "bob") 9 =
        .ok (.ofList [("S", 17)]) := by
  intro limits actions l compound
  have hcap : 0 < limits.cap := by decide
  have hlimits : ∀ a ∈ actions, a.isUnder limits = true := by decide
  obtain ⟨hstaked, hrefused⟩ := cap_kept "S" {} limits actions hcap hlimits
  have hpaid : ClaimResult.claimed <$> l.pool.claim (l.user "bob") 9 .all =
      .ok (.ofList [("S", 17)]) := by decide +kernel
  obtain ⟨c, hc, hclaimed⟩ := map_eq_ok.1 hpaid
  have hprincipal : (l.user "bob").staked + (c.claimed.get? l.pool.stakingToken).getD 0 = 57 := by
    rw [hclaimed]
    decide +kernel
  obtain ⟨hfault, hstep, hpending⟩ := hrefused "bob" 9 c hc (by rw [hprincipal]; decide)
  rw [hprincipal] at hfault
  rw [hclaimed] at hpending
  exact ⟨hcap, hlimits, hstaked "bob", hfault, hstep, hpending⟩

end Ledger

end PoolAccounting
