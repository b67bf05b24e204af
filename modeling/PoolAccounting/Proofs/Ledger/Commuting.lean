import Mathlib
import PoolAccounting.Proofs.Ledger.Neutrality
import PoolAccounting.Proofs.Staking.CaughtUp
import PoolAccounting.Proofs.Table.Sums

/-!
What two users do at one time, in either order. While there is a stake the first of them only
accrues tokens that the second would accrue to the same level, so neither sees whether the other
came first, and the records are the same in the end.
-/
namespace PoolAccounting

open Staking

namespace Ledger

/-- Whether an action on a stake accrues a token, provided that the token is registered. -/
def Action.covers (k : Key) : Action → Bool
  | .claim _ _ choice => choice.covers k
  | _ => true

variable {l l' next next' : Ledger} {a b : Action} {r r' : Receipt} {name other : String}
  {now : Operand} {covered : Key → Bool}

theorem caughtUp_of_perform (ha : a.byUser? = some (name, now))
    (h : l.perform a = .ok (r, next)) :
    ∃ p u, next = l.write name p u ∧ CaughtUp l.pool p a.covers now := by
  cases a <;> cases ha <;> simp only [perform, bind_eq_ok, Prod.exists, pure, Except.pure,
    Except.ok.injEq, Prod.mk.injEq] at h
  case stake amount limits =>
    obtain ⟨p, u, h, -, rfl⟩ := h
    obtain ⟨n, -, -, -, -, h⟩ := StakingPool.stake_eq_ok.1 h
    exact ⟨p, u, rfl, StakingPool.caughtUp_of_addStake h⟩
  case unstake amount =>
    obtain ⟨p, u, h, -, rfl⟩ := h
    exact ⟨p, u, rfl, StakingPool.caughtUp_of_unstake h⟩
  case update =>
    obtain ⟨p, u, h, -, rfl⟩ := h
    exact ⟨p, u, rfl, StakingPool.caughtUp_of_update h⟩
  case claim choice =>
    obtain ⟨c, h, -, rfl⟩ := h
    exact ⟨c.pool, c.user, rfl, StakingPool.caughtUp_of_claim h⟩
  case compound limits =>
    obtain ⟨x, h, -, rfl⟩ := h
    exact ⟨x.pool, x.user, rfl, StakingPool.caughtUp_of_compound h⟩

/-- An action on a stake does the same on a ledger whose pool has some tokens accrued already: it
answers the same, leaves the same user and moves the principal of the pool by the same amount. -/
theorem perform_agrees (h : CaughtUp l.pool l'.pool covered now) (h0 : 0 < l.pool.totalStaked)
    (hu : l'.user name = l.user name) (ha : a.byUser? = some (name, now))
    (hp : l.perform a = .ok (r, next)) (hp' : l'.perform a = .ok (r', next')) :
    r' = r ∧ next'.user name = next.user name ∧
      next'.pool.totalStaked + l.pool.totalStaked =
        next.pool.totalStaked + l'.pool.totalStaked := by
  have huser : ∀ {p p' : StakingPool} {u u' : UserStake}, u' = u →
      (l'.write name p' u').user name = (l.write name p u).user name := by
    rintro p p' u _ rfl
    rw [user_write, user_write, if_pos rfl, if_pos rfl]
  cases a <;> cases ha <;> simp only [perform, bind_eq_ok, Prod.exists, pure, Except.pure,
    Except.ok.injEq, Prod.mk.injEq, hu] at hp hp'
  case stake amount limits =>
    obtain ⟨p, u, hp, rfl, rfl⟩ := hp
    obtain ⟨p', u', hp', rfl, rfl⟩ := hp'
    obtain ⟨hv, htotal⟩ := StakingPool.stake_agrees h h0 hp hp'
    exact ⟨rfl, huser hv, htotal⟩
  case unstake amount =>
    obtain ⟨p, u, hp, rfl, rfl⟩ := hp
    obtain ⟨p', u', hp', rfl, rfl⟩ := hp'
    obtain ⟨hv, htotal⟩ := StakingPool.unstake_agrees h h0 hp hp'
    exact ⟨rfl, huser hv, htotal⟩
  case update =>
    obtain ⟨p, u, hp, rfl, rfl⟩ := hp
    obtain ⟨p', u', hp', rfl, rfl⟩ := hp'
    obtain ⟨hv, htotal⟩ := StakingPool.update_agrees h h0 hp hp'
    exact ⟨rfl, huser hv, htotal⟩
  case claim choice =>
    obtain ⟨c, hp, rfl, rfl⟩ := hp
    obtain ⟨c', hp', rfl, rfl⟩ := hp'
    obtain ⟨hclaimed, hv, htotal⟩ := StakingPool.claim_agrees h h0 hp hp'
    exact ⟨by rw [hclaimed], huser hv, htotal⟩
  case compound limits =>
    obtain ⟨x, hp, rfl, rfl⟩ := hp
    obtain ⟨x', hp', rfl, rfl⟩ := hp'
    obtain ⟨⟨hclaimed, hcompounded⟩, hv, htotal⟩ := StakingPool.compound_agrees h h0 hp hp'
    exact ⟨by rw [hclaimed, hcompounded], huser hv, htotal⟩

variable {la lab lb lba : Ledger} {ra ra' rb rb' : Receipt}

/-- While there is a stake, actions of two users at one time commute. If both orders succeed they
end in the same ledger, and each action answers the same in both. -/
theorem user_actions_commute (h0 : 0 < l.pool.totalStaked) (hne : name ≠ other)
    (ha : a.byUser? = some (name, now)) (hb : b.byUser? = some (other, now))
    (hla : l.perform a = .ok (ra, la)) (hlab : la.perform b = .ok (rb, lab))
    (hlb : l.perform b = .ok (rb', lb)) (hlba : lb.perform a = .ok (ra', lba)) :
    lab = lba ∧ ra = ra' ∧ rb = rb' := by
  obtain ⟨pa, ua, rfl, hpa⟩ := caughtUp_of_perform ha hla
  obtain ⟨pb, ub, rfl, hpb⟩ := caughtUp_of_perform hb hlb
  obtain ⟨hrb, hub, htb⟩ :=
    perform_agrees hpa h0 (by rw [user_write, if_neg hne]) hb hlb hlab
  obtain ⟨hra, hua, hta⟩ :=
    perform_agrees hpb h0 (by rw [user_write, if_neg hne.symm]) ha hla hlba
  obtain ⟨pab, ub', rfl, hpab⟩ := caughtUp_of_perform hb hlab
  obtain ⟨pba, ua', rfl, hpba⟩ := caughtUp_of_perform ha hlba
  simp only [user_write, if_true] at hub hua
  subst hub hua
  refine ⟨?_, hra.symm, hrb⟩
  -- both orders accrue the same tokens and move the principal by the same amounts
  have hpool : pab = pba := by
    have hab := hpa.trans hpab (.inl h0)
    have hba := hpb.trans hpba (.inl h0)
    have hswap := hab.congr fun k _ => Bool.or_comm (b.covers k) (a.covers k)
    apply hba.pool_eq hswap
    simp only [write] at hta htb
    omega
  have hkeys : (Scalar.text name).key ≠ (Scalar.text other).key := by simpa using hne
  rw [hpool]
  simp only [write, Table.insert_comm hkeys]

theorem user_actions_commute_unstake_compound :
    let l := (opened "S" {}).run (twoStakers.take 5)
    let a : Action := .unstake "alice" 30 9
    let b : Action := .compound "bob" 9 none
    let r : Receipt := .compounded (.ofList [("R", 30)]) 17
    0 < l.pool.totalStaked ∧ l.perform a = .ok (.done, l.step a) ∧
      l.perform b = .ok (r, l.step b) ∧ (l.step a).step b = (l.step b).step a := by
  intro l a b r
  have h0 : 0 < l.pool.totalStaked := by decide +kernel
  have ha : l.perform a = .ok (.done, l.step a) := by decide +kernel
  have hb : l.perform b = .ok (r, l.step b) := by decide +kernel
  have hab : (l.step a).perform b = .ok (r, (l.step a).step b) := by decide +kernel
  have hba : (l.step b).perform a = .ok (.done, (l.step b).step a) := by decide +kernel
  exact ⟨h0, ha, hb, (user_actions_commute h0 (by decide) rfl rfl ha hab hb hba).1⟩

end Ledger

end PoolAccounting
