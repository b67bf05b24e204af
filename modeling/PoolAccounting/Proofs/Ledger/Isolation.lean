import Mathlib
import PoolAccounting.Proofs.Fees.Distribution
import PoolAccounting.Proofs.Ledger.Neutrality
import PoolAccounting.Proofs.Staking.Isolation
import PoolAccounting.Proofs.Table.Sums

/-!
A ledger without one reward token. What the reward tokens have in common is the stake, and only a
compounding takes rewards into it. So an action that is not for the token does the same to what is
left of the ledger, and an action that is for nothing else leaves the rest alone.
-/
namespace PoolAccounting

open Staking Fees

namespace Ledger

/-- The ledger without the reward token `k`; fees are no rewards yet. -/
def erase (l : Ledger) (k : Key) : Ledger :=
  { l with pool := l.pool.erase k, users := l.users.map (·.erase k) }

def Receipt.erase (k : Key) : Receipt → Receipt
  | .claimed amounts => .claimed (amounts.erase k)
  | .compounded amounts amount => .compounded (amounts.erase k) amount
  | .pending amounts => .pending (amounts.erase k)
  | r => r

/-- Whether an action is for a reward token by name. -/
def Action.mentions (k : Key) : Action → Bool
  | .claim _ _ choice => choice.lists k
  | .apr token _ | .addToken token _ _ | .setRate token _ _ | .notify token _ _
  | .toStaking token _ _ => token.key = k
  | _ => false

/-- Whether an action is for one reward token and no other. -/
def Action.isOnlyFor (k : Key) : Action → Bool
  | .claim _ _ choice => choice.listsOnly k
  | .addToken token _ _ | .setRate token _ _ | .notify token _ _ | .toStaking token _ _ =>
    token.key = k
  | _ => false

variable {l next : Ledger} {a : Action} {r : Receipt} {k : Key}

theorem user_erase (l : Ledger) (k : Key) (name : String) :
    (l.erase k).user name = (l.user name).erase k := by
  rw [user, user, erase, Table.get?_map]
  cases l.users.get? name <;> rfl

theorem write_erase (l : Ledger) (k : Key) (name : String) (p : StakingPool) (u : UserStake) :
    (l.write name p u).erase k = (l.erase k).write name (p.erase k) (u.erase k) := by
  rw [erase, write, Table.map_insert]
  rfl

theorem perform_erase (hk : k ≠ .text l.pool.stakingToken) (ha : a.mentions k = false)
    (h : l.perform a = .ok (r, next)) :
    (l.erase k).perform a = .ok (r.erase k, next.erase k) := by
  cases a <;> simp only [perform, bind_eq_ok, Prod.exists, pure, Except.pure, Except.ok.injEq,
    Prod.mk.injEq, user_erase] at h ⊢
  case stake name amount now limits =>
    obtain ⟨p, u, h, rfl, rfl⟩ := h
    exact ⟨_, _, StakingPool.stake_erase h k, rfl, (write_erase l k name p u).symm⟩
  case unstake name amount now =>
    obtain ⟨p, u, h, rfl, rfl⟩ := h
    exact ⟨_, _, StakingPool.unstake_erase h k, rfl, (write_erase l k name p u).symm⟩
  case update name now =>
    obtain ⟨p, u, h, rfl, rfl⟩ := h
    exact ⟨_, _, StakingPool.update_erase h k, rfl, (write_erase l k name p u).symm⟩
  case claim name now choice =>
    obtain ⟨c, h, rfl, rfl⟩ := h
    exact ⟨_, StakingPool.claim_erase h ha, rfl, (write_erase l k name c.pool c.user).symm⟩
  case compound name now limits =>
    obtain ⟨x, h, rfl, rfl⟩ := h
    exact ⟨_, StakingPool.compound_erase h hk, rfl, (write_erase l k name x.pool x.user).symm⟩
  case pending name now =>
    obtain ⟨amounts, h, rfl, rfl⟩ := h
    exact ⟨_, StakingPool.pendingRewards_erase h k, rfl, rfl⟩
  case apr token period =>
    obtain ⟨bps, h, rfl, rfl⟩ := h
    exact ⟨bps, (StakingPool.estimateAprBps_erase_of_ne (of_decide_eq_false ha) _ _).trans h,
      rfl, rfl⟩
  case addToken token now rate =>
    obtain ⟨p, h, rfl, rfl⟩ := h
    exact ⟨_, StakingPool.addRewardToken_erase h (of_decide_eq_false ha), rfl, rfl⟩
  case setRate token rate now =>
    obtain ⟨p, h, rfl, rfl⟩ := h
    exact ⟨_, StakingPool.setRewardRate_erase h (of_decide_eq_false ha), rfl, rfl⟩
  case notify token amount now =>
    obtain ⟨p, h, rfl, rfl⟩ := h
    exact ⟨_, StakingPool.notifyRewardAmount_erase h (of_decide_eq_false ha), rfl, rfl⟩
  case receive token amount =>
    obtain ⟨fees, h, rfl, rfl⟩ := h
    exact ⟨fees, h, rfl, rfl⟩
  case distribute token shares =>
    obtain ⟨fees, d, h, rfl, rfl⟩ := h
    exact ⟨fees, d, h, rfl, rfl⟩
  case distributeAll shares =>
    obtain ⟨fees, ds, h, rfl, rfl⟩ := h
    exact ⟨fees, ds, h, rfl, rfl⟩
  case toStaking token shares now =>
    obtain ⟨fees, p, d, h, rfl, rfl⟩ := h
    refine ⟨fees, p.erase k, d, ?_, rfl, rfl⟩
    obtain ⟨hd, h⟩ := Book.distributeToStaking_eq_ok.1 h
    refine Book.distributeToStaking_eq_ok.2 ⟨hd, ?_⟩
    split
    · rw [if_pos ‹_›] at h
      exact StakingPool.notifyRewardAmount_erase h (of_decide_eq_false ha)
    · rw [if_neg ‹_›] at h
      rw [h]
      rfl

/-- The ledgers differ in one reward token alone, but for the times of the last claims. -/
structure AgreesBut (k : Key) (l next : Ledger) : Prop where
  pool : next.pool.erase k = l.pool.erase k
  user : ∀ name, (next.user name).erase k =
    { (l.user name).erase k with lastClaimTime := (next.user name).lastClaimTime }

theorem agreesBut_of_pool (hpool : next.pool.erase k = l.pool.erase k)
    (husers : next.users = l.users) : AgreesBut k l next where
  pool := hpool
  user name := by
    rw [user, husers]
    rfl

theorem agreesBut_write {p : StakingPool} {u : UserStake} {name : String}
    (hpool : p.erase k = l.pool.erase k)
    (huser : u.erase k = { (l.user name).erase k with lastClaimTime := u.lastClaimTime }) :
    AgreesBut k l (l.write name p u) where
  pool := hpool
  user other := by
    rw [user_write]
    split
    · subst_vars
      exact huser
    · rfl

theorem agreesBut_of_perform (ha : a.isOnlyFor k = true) (h : l.perform a = .ok (r, next)) :
    AgreesBut k l next := by
  cases a <;> simp only [Action.isOnlyFor, Bool.false_eq_true, decide_eq_true_eq] at ha <;>
    simp only [perform, bind_eq_ok, Prod.exists, pure, Except.pure, Except.ok.injEq,
      Prod.mk.injEq] at h
  case claim name now choice =>
    obtain ⟨c, h, -, rfl⟩ := h
    obtain ⟨hpool, huser⟩ := StakingPool.erase_of_claim h ha
    exact agreesBut_write hpool huser
  case addToken token now rate =>
    obtain ⟨p, h, -, rfl⟩ := h
    exact agreesBut_of_pool (ha ▸ StakingPool.erase_of_addRewardToken h) rfl
  case setRate token rate now =>
    obtain ⟨p, h, -, rfl⟩ := h
    exact agreesBut_of_pool (ha ▸ StakingPool.erase_of_setRewardRate h) rfl
  case notify token amount now =>
    obtain ⟨p, h, -, rfl⟩ := h
    exact agreesBut_of_pool (ha ▸ StakingPool.erase_of_notifyRewardAmount h) rfl
  case toStaking token shares now =>
    obtain ⟨fees, p, d, h, -, rfl⟩ := h
    obtain ⟨-, h⟩ := Book.distributeToStaking_eq_ok.1 h
    split at h
    · exact agreesBut_of_pool (ha ▸ StakingPool.erase_of_notifyRewardAmount h) rfl
    · exact agreesBut_of_pool (by rw [h]) rfl

/-- An action changes the records of the user who acts and of no other. -/
theorem user_of_perform (h : l.perform a = .ok (r, next)) {name : String}
    (hname : a.byUser?.map Prod.fst ≠ some name) : next.user name = l.user name := by
  have husers : (∃ other now p u, a.byUser? = some (other, now) ∧ next = l.write other p u) ∨
      next.users = l.users := by
    cases a <;> simp only [perform, bind_eq_ok, Prod.exists, pure, Except.pure, Except.ok.injEq,
      Prod.mk.injEq, Action.byUser?] at h ⊢ <;> grind
  rcases husers with ⟨other, now, p, u, ha, rfl⟩ | husers
  · rw [ha] at hname
    rw [user_write, if_neg fun he => hname (congrArg some he)]
  · rw [user, husers]
    rfl

/-- No reward token can be seen at the others. An action that succeeds and is not for the token
succeeds without it, with what is left of the receipt and of the ledger; compounding takes the
rewards of the staking token into the stake, so that one has to stay. An action that is for the
token alone leaves the rest of the pool and of the users, but for the time of a claim. -/
theorem tokens_isolated (h : l.perform a = .ok (r, next)) :
    (k ≠ .text l.pool.stakingToken → a.mentions k = false →
      (l.erase k).perform a = .ok (r.erase k, next.erase k)) ∧
    (a.isOnlyFor k = true → AgreesBut k l next ∧
      ∀ name, a.byUser?.map Prod.fst ≠ some name → next.user name = l.user name) :=
  ⟨fun hk ha => perform_erase hk ha h,
    fun ha => ⟨agreesBut_of_perform ha h, fun _ hname => user_of_perform h hname⟩⟩

theorem tokens_isolated_compound_claim :
    let l := (opened "S" {}).run (twoStakers.take 5)
    let compound := Action.compound "bob" 9 none
    let claim := Action.claim "alice" 9 (.listed ["R"])
    l.perform compound = .ok (.compounded (.ofList [("R", 30)]) 17, l.step compound) ∧
      (l.erase (.text "R")).perform compound =
        .ok (.compounded ∅ 17, (l.step compound).erase (.text "R")) ∧
      l.perform claim = .ok (.claimed (.ofList [("R", 43)]), l.step claim) ∧
      AgreesBut (.text "R") l (l.step claim) := by
  intro l compound claim
  have hcompound : l.perform compound =
      .ok (.compounded (.ofList [("R", 30)]) 17, l.step compound) := by decide +kernel
  have hclaim : l.perform claim = .ok (.claimed (.ofList [("R", 43)]), l.step claim) := by
    decide +kernel
  exact ⟨hcompound, (tokens_isolated hcompound).1 (by decide) (by decide), hclaim,
    ((tokens_isolated hclaim).2 (by decide)).1⟩

end Ledger

end PoolAccounting
