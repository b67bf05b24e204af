import Mathlib
import PoolAccounting.Proofs.Ledger.Journal
import PoolAccounting.Proofs.Staking.Refresh

/-!
What a user does at some time moves nothing that is owed at that time, to others or to the user,
but for the rewards that the user is paid.
-/
namespace PoolAccounting

open Staking

namespace Ledger

/-- The user who acts, and when, if the action is one on a stake. -/
def Action.byUser? : Action → Option (String × Operand)
  | .stake name _ now _ | .unstake name _ now | .update name now | .claim name now _
  | .compound name now _ => some (name, now)
  | _ => none

/-- How `rest`, what the acting user is owed after the action, comes of `amounts`, what the user was
owed before. A claim pays what the tokens that it is for owe, and a compounding what all tokens owe;
it stakes what the staking token owes. Nothing else is paid. -/
def Entry.Leaves (e : Entry) (amounts rest : Table ℕ) : Prop :=
  match e.action, e.receipt with
  | .claim _ _ choice, .claimed claimed => rest.names = amounts.names ∧ ∀ k,
      claimed.get? k = (if choice.covers k then amounts.get? k else none) ∧
        rest.get? k = if choice.covers k then (amounts.get? k).map fun _ => 0 else amounts.get? k
  | .compound .., .compounded claimed amount => rest = (amounts.map fun _ => 0) ∧
      claimed = amounts.erase e.before.pool.stakingToken ∧
        amount = (amounts.get? e.before.pool.stakingToken).getD 0
  | _, _ => rest = amounts

variable {l next : Ledger} {a : Action} {r : Receipt} {p : StakingPool} {u : UserStake}
  {name : String} {now : Operand}

/-- The records of a pool and of a user owe to all others what the ledger owes them, and to the
user what `left` relates to it. -/
structure Owes (l : Ledger) (p : StakingPool) (u : UserStake) (name : String) (now : Operand)
    (left : Table ℕ → Table ℕ → Prop) : Prop where
  others : ∀ {w amounts}, l.pool.pendingRewards w now = .ok amounts →
    p.pendingRewards w now = .ok amounts
  own : ∀ {amounts}, l.pool.pendingRewards (l.user name) now = .ok amounts →
    ∃ rest, p.pendingRewards u now = .ok rest ∧ left amounts rest

theorem owes_of_refreshed {chosen : Table Unit}
    (h : Refreshed l.pool p (l.user name) u chosen now id) (h0 : 0 < l.pool.totalStaked) :
    l.Owes p u name now fun amounts rest => rest = amounts where
  others hw := h.pendingRewards_other h0 hw
  own hu := ⟨_, h.pendingRewards_own_eq h0 hu, rfl⟩

theorem owes_of_perform (h0 : 0 < l.pool.totalStaked) (ha : a.byUser? = some (name, now))
    (h : l.perform a = .ok (r, next)) : ∃ p u, next = l.write name p u ∧
      l.Owes p u name now (Entry.Leaves ⟨l, a, r⟩) := by
  cases a <;> cases ha <;> simp only [perform, bind_eq_ok, Prod.exists, pure, Except.pure,
    Except.ok.injEq, Prod.mk.injEq] at h
  case stake amount limits =>
    obtain ⟨p, u, h, rfl, rfl⟩ := h
    obtain ⟨n, -, -, -, -, h⟩ := StakingPool.stake_eq_ok.1 h
    exact ⟨p, u, rfl, owes_of_refreshed (StakingPool.refreshed_of_addStake h) h0⟩
  case unstake amount =>
    obtain ⟨p, u, h, rfl, rfl⟩ := h
    exact ⟨p, u, rfl, owes_of_refreshed (StakingPool.refreshed_of_unstake h) h0⟩
  case update =>
    obtain ⟨p, u, h, rfl, rfl⟩ := h
    exact ⟨p, u, rfl, owes_of_refreshed (StakingPool.refreshed_of_update h) h0⟩
  case claim choice =>
    obtain ⟨c, h, rfl, rfl⟩ := h
    obtain ⟨chosen, -, hrefreshed⟩ := StakingPool.refreshed_of_claim h
    refine ⟨c.pool, c.user, rfl, fun hw => hrefreshed.pendingRewards_other h0 hw, fun hu => ?_⟩
    obtain ⟨rest, hrest, hnames, hget⟩ := StakingPool.pendingRewards_of_claim h h0 hu
    exact ⟨rest, hrest, hnames, fun k => ⟨StakingPool.get?_claimed h hu k, hget k⟩⟩
  case compound limits =>
    obtain ⟨x, h, rfl, rfl⟩ := h
    refine ⟨x.pool, x.user, rfl,
      fun hw => StakingPool.pendingRewards_other_of_compound h h0 hw, fun hu => ?_⟩
    obtain ⟨hclaimed, hcompounded, hleft⟩ := StakingPool.compound_pays h h0 hu
    exact ⟨_, hleft, rfl, hclaimed, hcompounded⟩

/-- While there is a stake, whatever a user does on a stake of their own leaves every other user
with the same pending rewards at that time, and the user with those that are not paid out. -/
theorem entitlements_unmoved (h0 : 0 < l.pool.totalStaked) (ha : a.byUser? = some (name, now))
    (h : l.perform a = .ok (r, next)) :
    (∀ other, other ≠ name → ∀ amounts, l.pool.pendingRewards (l.user other) now = .ok amounts →
      next.pool.pendingRewards (next.user other) now = .ok amounts) ∧
    ∀ amounts, l.pool.pendingRewards (l.user name) now = .ok amounts →
      ∃ rest, next.pool.pendingRewards (next.user name) now = .ok rest ∧
        Entry.Leaves ⟨l, a, r⟩ amounts rest := by
  obtain ⟨p, u, rfl, howes⟩ := owes_of_perform h0 ha h
  constructor
  · intro other hne amounts hw
    rw [user_write, if_neg hne.symm]
    exact howes.others hw
  · intro amounts hu
    rw [user_write, if_pos rfl]
    exact howes.own hu

theorem entitlements_unmoved_claim :
    let l := (opened "S" {}).run [.addToken "S" 0 5, .addToken "R" 0 7,
      .stake "alice" 30 2 none, .stake "bob" 40 3 none]
    let a : Action := .claim "alice" 8 (.listed ["R"])
    let r : Receipt := .claimed (.ofList [("R", 36)])
    0 < l.pool.totalStaked ∧ a.byUser? = some ("alice", 8) ∧ l.perform a = .ok (r, l.step a) ∧
      l.pool.pendingRewards (l.user "bob") 8 = .ok (.ofList [("R", 20), ("S", 14)]) ∧
      (l.step a).pool.pendingRewards ((l.step a).user "bob") 8 =
        .ok (.ofList [("R", 20), ("S", 14)]) ∧
      l.pool.pendingRewards (l.user "alice") 8 = .ok (.ofList [("R", 36), ("S", 25)]) ∧
      ∃ rest, (l.step a).pool.pendingRewards ((l.step a).user "alice") 8 = .ok rest ∧
        Entry.Leaves ⟨l, a, r⟩ (.ofList [("R", 36), ("S", 25)]) rest := by
  intro l a r
  have h0 : 0 < l.pool.totalStaked := by decide
  have hok : l.perform a = .ok (r, l.step a) := by decide +kernel
  have hbob : l.pool.pendingRewards (l.user "bob") 8 = .ok (.ofList [("R", 20), ("S", 14)]) := by
    decide +kernel
  have halice : l.pool.pendingRewards (l.user "alice") 8 =
      .ok (.ofList [("R", 36), ("S", 25)]) := by decide +kernel
  obtain ⟨hothers, hown⟩ := entitlements_unmoved h0 rfl hok
  exact ⟨h0, rfl, hok, hbob, hothers "bob" (by decide) _ hbob, halice, hown _ halice⟩

end Ledger

end PoolAccounting
