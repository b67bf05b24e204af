import Mathlib
import PoolAccounting.Proofs.Ledger.Isolation
import PoolAccounting.Proofs.Ledger.Totals

/-!
The clock of a run. It is kept by the reward tokens, each of which refuses to be accrued at a time
before its last accrual; the times of a user are written down and looked at by nothing. Main
statement: a time that was set while some token was settled is not set back by actions that settle
this token too. By actions that settle none of the tokens of that time it can be.
-/
namespace PoolAccounting

open Staking Fees

namespace Staking

/-- A time in the records of a user. -/
inductive Stamp
  | stake
  | claim
  deriving DecidableEq, Repr

def Stamp.of : Stamp → UserStake → ℕ
  | stake, u => u.stakeTime
  | claim, u => u.lastClaimTime

/-- Of the times of `u` those in `set` become `now` in `v`, and the others stay. -/
def Stamped (set : Stamp → Bool) (u v : UserStake) (now : Operand) : Prop :=
  ∀ s : Stamp, if set s then now = s.of v else s.of v = s.of u

namespace StakingPool

variable {p q : StakingPool} {u v : UserStake} {now : Operand} {limits : Option StakeLimits}

theorem stamped_of_update (h : p.update u now = .ok (q, v)) : Stamped (fun _ => false) u v now := by
  obtain ⟨settled, -, -, rfl⟩ := update_eq_ok.1 h
  rintro (_ | _) <;> rfl

theorem stamped_of_unstake {amount : Operand} (h : p.unstake u amount now = .ok (q, v)) :
    Stamped (fun _ => false) u v now := by
  obtain ⟨n, p', u', -, -, -, -, hu, -, -, -, -, -, rfl⟩ := unstake_eq_ok.1 h
  rintro (_ | _)
  · exact stamped_of_update hu .stake
  · exact stamped_of_update hu .claim

theorem stamped_of_addStake {amount : ℕ} (h : p.addStake u amount now limits = .ok (q, v)) :
    Stamped (· = .stake) u v now := by
  obtain ⟨p', u', t, hu, ht, -, -, -, -, rfl⟩ := addStake_eq_ok.1 h
  rintro (_ | _)
  · exact Operand.field_eq_ok.1 ht
  · exact stamped_of_update hu .claim

theorem stamped_of_claim {choice : TokenChoice} {c : ClaimResult} (h : p.claim u now choice = .ok c) :
    Stamped (· = .claim) u c.user now := by
  obtain ⟨chosen, p', settled, t, -, -, -, ht, rfl⟩ := claim_eq_ok.1 h
  rintro (_ | _)
  · rfl
  · exact Operand.field_eq_ok.1 ht

theorem stamped_of_compound {x : CompoundResult} (h : p.compound u now limits = .ok x) :
    Stamped (fun s => s = .claim ∨ x.compounded ≠ 0) u x.user now := by
  obtain ⟨c, hc, -, -, hx⟩ := compound_eq_ok.1 h
  have hclaim := stamped_of_claim hc
  split at hx
  · rename_i h0
    rw [hx.2]
    simpa only [h0, ne_eq, not_true_eq_false, or_false] using hclaim
  · rename_i h0
    have hstake := stamped_of_addStake hx
    rintro (_ | _)
    · simpa [h0] using hstake .stake
    · have hkept : x.user.lastClaimTime = c.user.lastClaimTime := hstake .claim
      have htime : now = c.user.lastClaimTime := hclaim .claim
      simpa [Stamp.of, hkept] using htime

end StakingPool

end Staking

namespace Ledger

/-- Whether the action set this time of its user. -/
def Entry.sets (s : Stamp) (e : Entry) : Bool :=
  match e.action, e.receipt with
  | .stake .., _ => s = .stake
  | .claim .., _ => s = .claim
  | .compound .., .compounded _ amount => s = .claim ∨ amount ≠ 0
  | _, _ => false

/-- Whether the action settled its user against this token. -/
def Entry.settles (k : Key) (e : Entry) : Bool :=
  e.action.byUser?.isSome && e.before.pool.rewardPools.contains k && e.action.covers k

/-- The action that last set this time of a user. -/
def lastSet (name : String) (s : Stamp) (journal : List Entry) : Option Entry :=
  (journal.filter fun e => e.action.byUser?.map Prod.fst = some name ∧ e.sets s).getLast?

/-- The token is registered, and its last accrual is no earlier than this time of the user. -/
def Reaches (l : Ledger) (k : Key) (name : String) (s : Stamp) : Prop :=
  ∃ p, l.pool.rewardPools.get? k = some p ∧ s.of (l.user name) ≤ p.lastUpdate

/-- The tokens that were settled when a user's time was set reach that time. -/
def Upheld (l : Ledger) (name : String) (s : Stamp) : Option Entry → Prop
  | none => s.of (l.user name) = 0
  | some e => ∀ k, e.settles k = true → l.Reaches k name s

variable {l next : Ledger} {a : Action} {r : Receipt} {name : String} {now : Operand} {s : Stamp}
  {k : Key}

theorem stamped_of_perform (ha : a.byUser? = some (name, now)) (h : l.perform a = .ok (r, next)) :
    Stamped (fun s => Entry.sets s ⟨l, a, r⟩) (l.user name) (next.user name) now := by
  cases a <;> cases ha <;> simp only [perform, bind_eq_ok, Prod.exists, pure, Except.pure,
    Except.ok.injEq, Prod.mk.injEq] at h
  case stake amount limits =>
    obtain ⟨p, u, h, rfl, rfl⟩ := h
    obtain ⟨n, -, -, -, -, h⟩ := StakingPool.stake_eq_ok.1 h
    rw [user_write, if_pos rfl]
    exact StakingPool.stamped_of_addStake h
  case unstake amount =>
    obtain ⟨p, u, h, rfl, rfl⟩ := h
    rw [user_write, if_pos rfl]
    exact StakingPool.stamped_of_unstake h
  case update =>
    obtain ⟨p, u, h, rfl, rfl⟩ := h
    rw [user_write, if_pos rfl]
    exact StakingPool.stamped_of_update h
  case claim choice =>
    obtain ⟨c, h, rfl, rfl⟩ := h
    rw [user_write, if_pos rfl]
    exact StakingPool.stamped_of_claim h
  case compound limits =>
    obtain ⟨x, h, rfl, rfl⟩ := h
    rw [user_write, if_pos rfl]
    exact StakingPool.stamped_of_compound h

/-- A token that an action settles was not accrued later, and is accrued at its time. -/
theorem lastUpdate_of_perform (ha : a.byUser? = some (name, now))
    (h : l.perform a = .ok (r, next)) {p : RewardPool} (hk : a.covers k = true)
    (hp : l.pool.rewardPools.get? k = some p) :
    ∃ p', next.pool.rewardPools.get? k = some p' ∧ now = p'.lastUpdate ∧
      p.lastUpdate ≤ p'.lastUpdate := by
  obtain ⟨q, u, rfl, hq⟩ := caughtUp_of_perform ha h
  obtain ⟨p', hp', hacc⟩ := hq.covered_get? hk hp
  obtain ⟨t, rfl, rfl, hle, -⟩ := RewardPool.accrue_eq_ok.1 hacc
  refine ⟨_, hp', ?_, ?_⟩ <;> rw [RewardPool.lastUpdate_accrued]
  exact hle

theorem Reaches.of_user_eq (hl : l.Reaches k name s) (h : l.perform a = .ok (r, next))
    (hs : s.of (next.user name) = s.of (l.user name)) : next.Reaches k name s := by
  obtain ⟨p, hp, hle⟩ := hl
  obtain ⟨p', hp', hmono⟩ := (booked_of_perform h k).lastUpdate_mono hp
  exact ⟨p', hp', hs.trans_le (hle.trans hmono)⟩

/-- When a time is set, the tokens that are settled reach it. -/
theorem reaches_of_sets (ha : a.byUser? = some (name, now)) (h : l.perform a = .ok (r, next))
    (hs : Entry.sets s ⟨l, a, r⟩ = true) (hk : Entry.settles k ⟨l, a, r⟩ = true) :
    next.Reaches k name s := by
  simp only [Entry.settles, Bool.and_eq_true] at hk
  obtain ⟨p, hp⟩ := Option.isSome_iff_exists.1 hk.1.2
  obtain ⟨p', hp', hnow, -⟩ := lastUpdate_of_perform ha h hk.2 hp
  have hset := stamped_of_perform ha h s
  rw [if_pos hs] at hset
  have htime : s.of (next.user name) = p'.lastUpdate := by simpa using hset.symm.trans hnow
  exact ⟨p', hp', htime.le⟩

/-- A token that the user settles in every action of theirs keeps reaching their times, which are not
set back. -/
theorem Reaches.perform (hl : l.Reaches k name s) (h : l.perform a = .ok (r, next))
    (hk : a.byUser?.map Prod.fst = some name → a.covers k = true) :
    next.Reaches k name s ∧ s.of (l.user name) ≤ s.of (next.user name) := by
  by_cases hname : a.byUser?.map Prod.fst = some name
  · obtain ⟨⟨other, now⟩, ha, hother⟩ := Option.map_eq_some_iff.1 hname
    obtain rfl : name = other := hother.symm
    have hset := stamped_of_perform ha h s
    split at hset
    · obtain ⟨p, hp, hle⟩ := hl
      obtain ⟨p', hp', hnow, hmono⟩ := lastUpdate_of_perform ha h (hk hname) hp
      have htime : s.of (next.user name) = p'.lastUpdate := by simpa using hset.symm.trans hnow
      exact ⟨⟨p', hp', htime.le⟩, htime ▸ hle.trans hmono⟩
    · exact ⟨hl.of_user_eq h hset, hset.ge⟩
  · have huser : s.of (next.user name) = s.of (l.user name) := by rw [user_of_perform h hname]
    exact ⟨hl.of_user_eq h huser, huser.ge⟩

theorem Reaches.run (hl : l.Reaches k name s) (actions : List Action)
    (hk : ∀ a ∈ actions, a.byUser?.map Prod.fst = some name → a.covers k = true) :
    s.of (l.user name) ≤ s.of ((l.run actions).user name) := by
  induction actions generalizing l with
  | nil => exact le_rfl
  | cons a actions ih =>
    rw [List.forall_mem_cons] at hk
    rw [run_cons]
    cases h : l.perform a with
    | ok answer =>
      obtain ⟨r, next⟩ := answer
      obtain ⟨hnext, hle⟩ := hl.perform h hk.1
      rw [step_of_ok h]
      exact hle.trans (ih hnext hk.2)
    | error f =>
      rw [step_of_error h]
      exact ih hl hk.2

theorem Upheld.perform {last : Option Entry} (hl : l.Upheld name s last)
    (h : l.perform a = .ok (r, next)) : next.Upheld name s
      (if a.byUser?.map Prod.fst = some name ∧ Entry.sets s ⟨l, a, r⟩ then some ⟨l, a, r⟩
        else last) := by
  have hkept : s.of (next.user name) = s.of (l.user name) → next.Upheld name s last := by
    intro hs
    cases last with
    | none => exact hs.trans hl
    | some e => exact fun k hk => (hl k hk).of_user_eq h hs
  by_cases hname : a.byUser?.map Prod.fst = some name
  · obtain ⟨⟨other, now⟩, ha, hother⟩ := Option.map_eq_some_iff.1 hname
    obtain rfl : name = other := hother.symm
    cases hs : Entry.sets s ⟨l, a, r⟩ with
    | true =>
      rw [if_pos ⟨hname, rfl⟩]
      exact fun k hk => reaches_of_sets ha h hs hk
    | false =>
      have hset := stamped_of_perform ha h s
      rw [if_neg (by simp)]
      rw [if_neg (by simp [hs])] at hset
      exact hkept hset
  · rw [if_neg fun hc => hname hc.1]
    exact hkept (by rw [user_of_perform h hname])

theorem lastSet_cons (e : Entry) (journal : List Entry) (last : Option Entry) :
    (lastSet name s (e :: journal)).or last = (lastSet name s journal).or
      (if e.action.byUser?.map Prod.fst = some name ∧ e.sets s then some e else last) := by
  rw [lastSet, List.filter_cons]
  split
  · rw [List.getLast?_cons, if_pos (of_decide_eq_true ‹_›), ← lastSet]
    cases lastSet name s journal <;> rfl
  · rw [if_neg (of_decide_eq_false (eq_false_of_ne_true ‹_›))]
    rfl

theorem Upheld.run {last : Option Entry} (hl : l.Upheld name s last) (actions : List Action) :
    (l.run actions).Upheld name s ((lastSet name s (l.journal actions)).or last) := by
  induction actions generalizing l last with
  | nil => exact hl
  | cons a actions ih =>
    rw [run_cons]
    cases h : l.perform a with
    | ok answer =>
      obtain ⟨r, next⟩ := answer
      rw [journal_cons_of_ok h, step_of_ok h, lastSet_cons]
      exact ih (hl.perform h)
    | error f =>
      rw [journal_cons_of_error h, step_of_error h]
      exact ih hl

section AtInteger

variable {now : ℤ} (ha : a.byUser? = some (name, .int now)) (h : l.perform a = .ok (r, next))

include ha h

theorem lastUpdate_le_of_perform {p : RewardPool} (hk : a.covers k = true)
    (hp : l.pool.rewardPools.get? k = some p) : p.lastUpdate ≤ now := by
  obtain ⟨p', -, hnow, hle⟩ := lastUpdate_of_perform ha h hk hp
  cases hnow
  exact Int.ofNat_le.2 hle

theorem now_nonneg_of_settles (hk : Entry.settles k ⟨l, a, r⟩ = true) : 0 ≤ now := by
  simp only [Entry.settles, Bool.and_eq_true] at hk
  obtain ⟨p, hp⟩ := Option.isSome_iff_exists.1 hk.1.2
  exact (Int.natCast_nonneg _).trans (lastUpdate_le_of_perform ha h hk.2 hp)

theorem now_nonneg_of_sets (hs : Entry.sets s ⟨l, a, r⟩ = true) : 0 ≤ now := by
  have hset := stamped_of_perform ha h s
  rw [if_pos hs] at hset
  cases hset
  exact Int.natCast_nonneg _

theorem Reaches.le_now (hl : l.Reaches k name s) (hk : a.covers k = true) :
    s.of (l.user name) ≤ now := by
  obtain ⟨p, hp, hle⟩ := hl
  exact (Int.ofNat_le.2 hle).trans (lastUpdate_le_of_perform ha h hk hp)

end AtInteger

/-- What a run leaves of the time of a user: one that was never set is zero, and one that was set is
reached by every token that was settled then. -/
theorem upheld_run (stakingToken : String) (fees : Book) (actions : List Action) (name : String)
    (s : Stamp) : ((opened stakingToken fees).run actions).Upheld name s
      (lastSet name s ((opened stakingToken fees).journal actions)) := by
  have hopened : (opened stakingToken fees).Upheld name s none := by cases s <;> rfl
  have hrun := hopened.run actions
  rwa [Option.or_none] at hrun

/-- An action that succeeds settles no token that was accrued at a later time than its own, and its
time is not negative if it settles a token or sets a time. A time of a user that was never set is
zero. One that was set is no later than any action of the user that settles a token which was settled
then, and it is not set back as long as all actions of the user settle that token. -/
theorem times_kept (stakingToken : String) (fees : Book) (actions : List Action) (name : String) :
    let l := (opened stakingToken fees).run actions
    (∀ a (now : ℤ) r next, a.byUser? = some (name, .int now) → l.perform a = .ok (r, next) →
      let e : Entry := ⟨l, a, r⟩
      (∀ k p, a.covers k = true → l.pool.rewardPools.get? k = some p → p.lastUpdate ≤ now) ∧
        ((∃ k, e.settles k = true) ∨ (∃ s, e.sets s = true) → 0 ≤ now)) ∧
    ∀ s, match lastSet name s ((opened stakingToken fees).journal actions) with
      | none => s.of (l.user name) = 0
      | some earlier => ∀ k, earlier.settles k = true →
        (∀ a (now : ℤ) r next, a.byUser? = some (name, .int now) → l.perform a = .ok (r, next) →
          a.covers k = true → s.of (l.user name) ≤ now) ∧
        ∀ later : List Action,
          (∀ a ∈ later, a.byUser?.map Prod.fst = some name → a.covers k = true) →
          s.of (l.user name) ≤ s.of ((l.run later).user name) := by
  intro l
  constructor
  · intro a now r next ha h e
    refine ⟨fun k p hk hp => lastUpdate_le_of_perform ha h hk hp, ?_⟩
    rintro (⟨k, hk⟩ | ⟨s, hs⟩)
    · exact now_nonneg_of_settles ha h hk
    · exact now_nonneg_of_sets ha h hs
  · intro s
    have hl : l.Upheld name s _ := upheld_run stakingToken fees actions name s
    split <;> rename_i hlast <;> rw [hlast] at hl
    · exact hl
    · intro k hk
      have hreaches := hl k hk
      exact ⟨fun a now r next ha h hcovers => hreaches.le_now ha h hcovers,
        fun later hlater => hreaches.run later hlater⟩

theorem times_kept_compound :
    let actions := twoStakers.take 6
    let l := (opened "S" {}).run actions
    let a : Action := .compound "alice" 9 none
    let e : Entry := ⟨l, a, .compounded (.ofList [("R", 3)]) 27⟩
    let claim : Entry := ⟨(opened "S" {}).run (twoStakers.take 5), .claim "alice" 8 (.listed ["R"]),
      .claimed (.ofList [("R", 40)])⟩
    a.byUser? = some ("alice", 9) ∧ l.perform a = .ok (e.receipt, l.step a) ∧
      e.sets .stake = true ∧ (0 : ℤ) ≤ 9 ∧
      lastSet "alice" .claim ((opened "S" {}).journal actions) = some claim ∧
      claim.settles (.text "R") = true ∧ (l.user "alice").lastClaimTime = 8 ∧
      ((l.user "alice").lastClaimTime : ℤ) ≤ 9 ∧
      (l.user "alice").lastClaimTime ≤ ((l.run [a]).user "alice").lastClaimTime := by
  intro actions l a e claim
  have h : l.perform a = .ok (e.receipt, l.step a) := by decide +kernel
  have hsets : e.sets .stake = true := by decide
  have hlast : lastSet "alice" .claim ((opened "S" {}).journal actions) = some claim := rfl
  have hsettles : claim.settles (.text "R") = true := by decide +kernel
  obtain ⟨haction, htimes⟩ := times_kept "S" {} actions "alice"
  have htimes := htimes .claim
  rw [hlast] at htimes
  obtain ⟨hnow, hlater⟩ := htimes (.text "R") hsettles
  exact ⟨rfl, h, hsets, (haction a 9 _ _ rfl h).2 (.inr ⟨.stake, hsets⟩), hlast, hsettles,
    by decide +kernel, hnow a 9 _ _ rfl h rfl, hlater [a] (by decide)⟩

/-- Without reward tokens nothing looks at the clock, and a claim looks at that of the tokens which
it is for. -/
theorem time_set_back :
    let staked := (opened "S" {}).run [.stake "alice" 5 100 none]
    let claimed := (opened "S" {}).run
      [.addToken "A" 0 0, .addToken "B" 0 0, .claim "alice" 100 (.listed ["B"])]
    let stake : Action := .stake "alice" 5 50 none
    let claim : Action := .claim "alice" 50 (.listed ["A"])
    staked.perform stake = .ok (.done, staked.step stake) ∧
      (staked.user "alice").stakeTime = 100 ∧ ((staked.step stake).user "alice").stakeTime = 50 ∧
      claimed.perform claim = .ok (.claimed (.ofList [("A", 0)]), claimed.step claim) ∧
      (claimed.user "alice").lastClaimTime = 100 ∧
      ((claimed.step claim).user "alice").lastClaimTime = 50 := by
  decide +kernel

end Ledger

end PoolAccounting
