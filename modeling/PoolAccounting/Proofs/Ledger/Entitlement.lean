import Mathlib
import PoolAccounting.Proofs.Ledger.Dominance

/-!
What the actions of a journal entitle a user to: an exact share in every amount that is released
while the user has a stake. The postings of an action release the same amounts as the action.
-/
namespace PoolAccounting

open Staking Amount

namespace Ledger.Entry

/-- The time up to which the action accrues a token, if it does. -/
def accruesTo (k : Key) (e : Entry) : Option Operand :=
  match e.action, e.receipt with
  | .stake _ _ now _, _ | .unstake _ _ now, _ | .update _ now, _ | .compound _ now _, _ => some now
  | .claim _ now _, .claimed amounts => if amounts.contains k then some now else none
  | .setRate token _ now, _ | .notify token _ now, _ => if token.key = k then some now else none
  | .toStaking token _ now, .distributed d =>
    if token.key = k ∧ 0 < d.split.staking then some now else none
  | _, _ => none

/-- The emission up to that time, with the queue. A token that is not registered has neither. -/
def emitted (k : Key) (e : Entry) : Nat :=
  match e.accruesTo k, e.before.pool.rewardPools.get? k with
  | some now, some r => r.emission now.toNat + r.queued
  | _, _ => 0

/-- The lump sum that the action credits to a token. -/
def injected (k : Key) (e : Entry) : Nat :=
  match e.action, e.receipt with
  | .notify token amount _, _ => if token.key = k then amount.toNat else 0
  | .toStaking token _ _, .distributed d => if token.key = k then d.split.staking.toNat else 0
  | _, _ => 0

/-- The amounts of a token that the action releases to the stake, if there is one. -/
def releases (k : Key) (e : Entry) : List Nat :=
  if e.before.pool.totalStaked = 0 then [] else [e.emitted k, e.injected k].filter (0 < ·)

/-- The exact share of a user in what the action releases. -/
def entitlement (user : String) (k : Key) (e : Entry) : ℚ :=
  ((e.releases k).map fun n : Nat =>
    ((e.before.user user).staked * n / e.before.pool.totalStaked : ℚ)).sum

/-- What the accumulator may round off of that share: for each staked unit one part of the
precision at every release. -/
def dust (user : String) (k : Key) (e : Entry) : ℚ :=
  ((e.releases k).map fun _ => ((e.before.user user).staked / precision : ℚ)).sum

/-- How often the action settles a user against a token. To compound is to claim and then to stake,
so it may settle twice. -/
def settlements (user : String) (k : Key) (e : Entry) : Nat :=
  match e.action, e.receipt with
  | .stake name _ _ _, _ | .unstake name _ _, _ | .update name _, _ =>
    if name = user ∧ e.before.pool.rewardPools.contains k then 1 else 0
  | .claim name _ _, .claimed amounts => if name = user ∧ amounts.contains k then 1 else 0
  | .compound name _ _, .compounded _ amount =>
    if name = user ∧ e.before.pool.rewardPools.contains k then if amount = 0 then 1 else 2 else 0
  | _, _ => 0

end Ledger.Entry

/-- How often a posting asks to settle a user. -/
def Posting.settles (user : String) : Posting → Nat
  | .move name .settle => if name = user then 1 else 0
  | _ => 0

namespace Column

variable {c d : Column} {p : Posting} {ps : List Posting} {user : String} {now : Operand}

/-- How often a posting settles a user; against a token that is not registered there is nothing to
settle. -/
def settlements (c : Column) (user : String) (p : Posting) : Nat :=
  if c.accumulator.isSome then p.settles user else 0

theorem sum_settlements_le (c : Column) (user : String) (ps : List Posting) :
    ((c.visits ps).map fun v => v.1.settlements user v.2).sum ≤
      (ps.map (Posting.settles user)).sum := by
  induction ps generalizing c with
  | nil => exact Nat.le_refl 0
  | cons p ps ih =>
    have hp : c.settlements user p ≤ p.settles user := by
      rw [settlements]
      split
      · exact Nat.le_refl _
      · exact Nat.zero_le _
    rw [visits, List.map_cons, List.sum_cons, List.map_cons, List.sum_cons]
    apply Nat.add_le_add hp
    cases c.post p with
    | none => exact Nat.zero_le _
    | some d => exact ih d

theorem accumulator_post_eq_none (hc : c.accumulator = none)
    (hp : ∀ time rate, p ≠ .book (.register time rate)) (h : c.post p = some d) :
    d.accumulator = none := by
  cases p with
  | book b =>
    obtain ⟨accumulator, hb, rfl⟩ := post_book.1 h
    cases b with
    | register time rate => exact (hp time rate rfl).elim
    | accrue now => simpa [book, hc, eq_comm] using hb
    | inject amount => simpa [book, hc, eq_comm] using hb
    | changeRate rate => simpa [book, hc, eq_comm] using hb
  | move user m =>
    obtain ⟨s, -, rfl⟩ := post_move.1 h
    exact hc

theorem sum_settlements_eq_zero (hc : c.accumulator = none)
    (hps : ∀ p ∈ ps, ∀ time rate, p ≠ .book (.register time rate)) :
    ((c.visits ps).map fun v => v.1.settlements user v.2).sum = 0 := by
  induction ps generalizing c with
  | nil => rfl
  | cons p ps ih =>
    have hp : c.settlements user p = 0 := by simp [settlements, hc]
    rw [visits, List.map_cons, List.sum_cons, hp, Nat.zero_add]
    cases hpost : c.post p with
    | none => rfl
    | some d =>
      have hd := accumulator_post_eq_none hc (hps p List.mem_cons_self) hpost
      exact ih hd fun q hq => hps q (List.mem_cons_of_mem p hq)

theorem visits_append (h : c.replay ps = some d) (qs : List Posting) :
    c.visits (ps ++ qs) = c.visits ps ++ d.visits qs := by
  induction ps generalizing c with
  | nil =>
    obtain rfl : c = d := by simpa using h
    rfl
  | cons p ps ih =>
    rw [replay_cons, Option.bind_eq_some_iff] at h
    obtain ⟨e, hp, h⟩ := h
    simp only [List.cons_append, visits, hp, Option.elim_some, ih h]

/-- A quantity that depends on a stake, on the total and on the amount released. -/
def weigh (g : Nat → Nat → Nat → ℚ) (user : String) (v : Column × Posting) : ℚ :=
  g (v.1.seat user).staked v.1.totalStaked (v.1.release v.2)

variable {g : Nat → Nat → Nat → ℚ}

theorem sum_weigh_eq_zero (hg : ∀ s t, g s t 0 = 0)
    (hps : ∀ p ∈ ps, ∀ c : Column, c.release p = 0) (c : Column) :
    ((c.visits ps).map (weigh g user)).sum = 0 := by
  induction ps generalizing c with
  | nil => rfl
  | cons p ps ih =>
    have hp : weigh g user (c, p) = 0 := by
      rw [weigh, hps p List.mem_cons_self c, hg]
    rw [visits, List.map_cons, List.sum_cons, hp, zero_add]
    cases c.post p with
    | none => rfl
    | some d => exact ih (fun q hq => hps q (List.mem_cons_of_mem p hq)) d

/-- Where only the first posting may release something, only that one counts. -/
theorem sum_weigh_cons (hg : ∀ s t, g s t 0 = 0)
    (hps : ∀ q ∈ ps, ∀ c : Column, c.release q = 0) (c : Column) (p : Posting) :
    ((c.visits (p :: ps)).map (weigh g user)).sum = weigh g user (c, p) := by
  rw [visits, List.map_cons, List.sum_cons]
  cases c.post p with
  | none => exact add_zero _
  | some d =>
    change _ + ((d.visits ps).map (weigh g user)).sum = _
    rw [sum_weigh_eq_zero hg hps, add_zero]

/-- A token that is registered in front of an accrual has emitted nothing yet. -/
theorem weigh_registered (c : Column) (user : String) (now : Operand) :
    weigh g user ({ c with accumulator := some (c.accumulator.getD { lastUpdate := now.toNat }) },
      .book (.accrue now)) = weigh g user (c, .book (.accrue now)) := by
  have hrelease : release
      { c with accumulator := some (c.accumulator.getD { lastUpdate := now.toNat }) }
      (.book (.accrue now)) = c.release (.book (.accrue now)) := by
    simp only [release]
    cases c.accumulator <;> simp [RewardPool.emission]
  rw [weigh, weigh, hrelease]
  rfl

theorem weigh_inject (hg : ∀ s t, g s t 0 = 0) (c : Column) (user : String) (r : RewardPool)
    (amount : Nat) :
    weigh g user ({ c with accumulator := some r }, .book (.inject amount)) =
      if c.totalStaked = 0 then 0 else g (c.seat user).staked c.totalStaked amount := by
  change g (c.seat user).staked c.totalStaked (if c.totalStaked = 0 then 0 else amount) = _
  split
  · exact hg _ _
  · rfl

theorem visits_credit {amount : Nat} (h : c.replay (Ledger.credit now amount) = some d) :
    ∃ r : RewardPool, c.visits (Ledger.credit now amount) =
      [(c, .book (.register now.toNat 0)),
        ({ c with accumulator := some (c.accumulator.getD { lastUpdate := now.toNat }) },
          .book (.accrue now)),
        ({ c with accumulator := some r }, .book (.inject amount))] := by
  have hregister : c.post (.book (.register now.toNat 0)) =
      some { c with accumulator := some (c.accumulator.getD { lastUpdate := now.toNat }) } := rfl
  rw [Ledger.credit, replay_cons, hregister, Option.bind_some, replay_cons,
    Option.bind_eq_some_iff] at h
  obtain ⟨c', hc', -⟩ := h
  obtain ⟨accumulator, hb, rfl⟩ := post_book.1 hc'
  obtain ⟨hn, -⟩ | ⟨r, r', -, -, rfl⟩ := book_accrue.1 hb
  · cases hn
  refine ⟨r', ?_⟩
  rw [Ledger.credit, visits, hregister, Option.elim_some, visits, hc', Option.elim_some, visits]
  cases post _ (.book (.inject amount)) <;> rfl

/-- Once a token is accrued up to a time, nothing is left to release at that time. -/
theorem release_of_accrue {r r' : RewardPool} {staked : Nat} {seats : Table Seat}
    (h : r.accrue staked now = .ok r') :
    release ⟨some r', staked, seats⟩ (.book (.accrue now)) = 0 := by
  obtain ⟨t, rfl, rfl, -⟩ := RewardPool.accrue_eq_ok.1 h
  by_cases hs : staked = 0
  · simp [release, hs]
  · simp [release, hs, RewardPool.accrued, RewardPool.emission]

end Column

namespace Ledger

open Column

variable {l next : Ledger} {e : Entry} {a : Action} {r : Receipt} {k : Key} {now : Operand}
  {g : Nat → Nat → Nat → ℚ} {user : String}

theorem Entry.sum_releases {f : Nat → ℚ} (hf : f 0 = 0) (e : Entry) (k : Key) :
    ((e.releases k).map f).sum =
      if e.before.pool.totalStaked = 0 then 0 else f (e.emitted k) + f (e.injected k) := by
  rw [releases]
  split
  · rfl
  · by_cases he : e.emitted k = 0 <;> by_cases hi : e.injected k = 0 <;>
      simp [he, hi, hf, Nat.pos_iff_ne_zero]

theorem weigh_accrue (hg : ∀ s t, g s t 0 = 0) (ha : e.accruesTo k = some now) :
    weigh g user (e.before.column k, .book (.accrue now)) =
      if e.before.pool.totalStaked = 0 then 0
      else g (e.before.user user).staked e.before.pool.totalStaked (e.emitted k) := by
  have hs : ((e.before.column k).seat user).staked = (e.before.user user).staked := by
    rw [seat_column, UserStake.seat_staked]
  have hr : (e.before.column k).release (.book (.accrue now)) =
      if e.before.pool.totalStaked = 0 then 0 else e.emitted k := by
    rw [Entry.emitted, ha]
    simp only [release, column]
    cases e.before.pool.rewardPools.get? k <;> rfl
  rw [weigh, hs, hr]
  change g _ e.before.pool.totalStaked _ = _
  split
  · exact hg _ _
  · rfl

/-- An action that accrues a token first and releases nothing after that. -/
theorem sum_weigh_accrual (hg : ∀ s t, g s t 0 = 0) (ha : e.accruesTo k = some now)
    (hi : e.injected k = 0) {ps : List Posting} (hps : ∀ p ∈ ps, ∀ c : Column, c.release p = 0) :
    (((e.before.column k).visits (.book (.accrue now) :: ps)).map (weigh g user)).sum =
      ((e.releases k).map (g (e.before.user user).staked e.before.pool.totalStaked)).sum := by
  rw [sum_weigh_cons hg hps, weigh_accrue hg ha, Entry.sum_releases (hg _ _), hi, hg, add_zero]

theorem sum_releases_eq_zero (hg : ∀ s t, g s t 0 = 0) (ha : e.accruesTo k = none)
    (hi : e.injected k = 0) :
    ((e.releases k).map (g (e.before.user user).staked e.before.pool.totalStaked)).sum = 0 := by
  have he : e.emitted k = 0 := by
    rw [Entry.emitted, ha]
  rw [Entry.sum_releases (hg _ _), he, hi, hg, add_zero, ite_self]

/-- A credit releases what had been emitted and queued, and the lump sum. -/
theorem sum_weigh_credit (hg : ∀ s t, g s t 0 = 0) {amount : Nat} {d : Column}
    (ha : e.accruesTo k = some now) (hi : e.injected k = amount)
    (h : (e.before.column k).replay (credit now amount) = some d) :
    (((e.before.column k).visits (credit now amount)).map (weigh g user)).sum =
      ((e.releases k).map (g (e.before.user user).staked e.before.pool.totalStaked)).sum := by
  obtain ⟨r, hv⟩ := visits_credit h
  have hzero : weigh g user (e.before.column k, .book (.register now.toNat 0)) = 0 := hg _ _
  have hs : ((e.before.column k).seat user).staked = (e.before.user user).staked := by
    rw [seat_column, UserStake.seat_staked]
  have ht : (e.before.column k).totalStaked = e.before.pool.totalStaked := rfl
  rw [hv, List.map_cons, List.map_cons, List.map_cons, List.map_nil, List.sum_cons, List.sum_cons,
    List.sum_cons, List.sum_nil, hzero, weigh_registered, weigh_inject hg, weigh_accrue hg ha,
    Entry.sum_releases (hg _ _), hi, hs, ht]
  split
  · simp
  · simp

/-- An action that credits a token under a condition. -/
theorem sum_weigh_credit_of {p : Prop} [Decidable p] (hg : ∀ s t, g s t 0 = 0) {amount : Nat}
    {d : Column} (ha : e.accruesTo k = if p then some now else none)
    (hi : e.injected k = if p then amount else 0)
    (h : (e.before.column k).replay (if p then credit now amount else []) = some d) :
    (((e.before.column k).visits (if p then credit now amount else [])).map (weigh g user)).sum =
      ((e.releases k).map (g (e.before.user user).staked e.before.pool.totalStaked)).sum := by
  by_cases hp : p
  · rw [if_pos hp] at ha hi h ⊢
    exact sum_weigh_credit hg ha hi h
  · rw [if_neg hp] at ha hi ⊢
    rw [sum_releases_eq_zero hg ha hi]
    rfl

theorem release_of_claim {name : String} {c : ClaimResult}
    (h : l.pool.claim (l.user name) now .all = .ok c) (k : Key) :
    ((l.write name c.pool c.user).column k).release (.book (.accrue now)) = 0 := by
  obtain ⟨chosen, p, settled, t, hc, ha, -, -, rfl⟩ := StakingPool.claim_eq_ok.1 h
  obtain rfl : l.pool.rewardPools.domain = chosen := Except.ok.inj hc
  rw [column_write]
  cases hr : l.pool.rewardPools.get? k with
  | none => simp [release, StakingPool.get?_eq_none_of_accrue ha hr]
  | some r =>
    obtain ⟨r', hr', hacc⟩ := StakingPool.get?_accrue ha hr
    rw [if_pos (Table.contains_domain_of_get? hr), ← StakingPool.totalStaked_of_accrue ha] at hacc
    rw [hr']
    exact release_of_accrue hacc

/-- The postings of an action release what the action does. -/
theorem Entry.sum_weigh (hg : ∀ s t, g s t 0 = 0) (h : l.perform a = .ok (r, next)) (k : Key)
    (user : String) :
    (((l.column k).visits (Entry.postings k ⟨l, a, r⟩)).map (weigh g user)).sum =
      ((Entry.releases k ⟨l, a, r⟩).map (g (l.user user).staked l.pool.totalStaked)).sum := by
  have hr := replay_perform h k
  cases a <;> simp only [perform, bind_eq_ok, Prod.exists, pure, Except.pure, Except.ok.injEq,
    Prod.mk.injEq] at h
  case stake name amount now limits =>
    exact sum_weigh_accrual (e := ⟨l, _, r⟩) hg rfl rfl (by simp [release])
  case unstake name amount now =>
    exact sum_weigh_accrual (e := ⟨l, _, r⟩) hg rfl rfl (by simp [release])
  case update name now =>
    exact sum_weigh_accrual (e := ⟨l, _, r⟩) hg rfl rfl (by simp [release])
  case claim name now choice =>
    obtain ⟨c, -, rfl, -⟩ := h
    change (((l.column k).visits (collect name now (c.claimed.get? k))).map _).sum = _
    cases hk : c.claimed.get? k with
    | none =>
      have ha : accruesTo k ⟨l, .claim name now choice, .claimed c.claimed⟩ = none := by
        simp [accruesTo, Table.contains, hk]
      rw [sum_releases_eq_zero hg ha rfl]
      exact sum_weigh_eq_zero hg (by simp [collect, release]) _
    | some n =>
      have ha : accruesTo k ⟨l, .claim name now choice, .claimed c.claimed⟩ = some now := by
        simp [accruesTo, Table.contains, hk]
      exact sum_weigh_accrual hg ha rfl (by simp [release])
  case compound name now limits =>
    obtain ⟨x, h, rfl, -⟩ := h
    obtain ⟨c, hc, hpaid, -⟩ := claim_of_compound h k
    have hreplay := replay_claim_paid (k := k) hc (claimed_of_registered hc)
    have hp : paid k ⟨l, .compound name now limits, .compounded x.claimed x.compounded⟩ =
        (c.claimed.get? k).getD 0 := hpaid
    rw [postings, hp, visits_append hreplay, List.map_append, List.sum_append]
    -- what is staked again meets a token that is accrued already
    have hzero : ((((l.write name c.pool c.user).column k).visits
        (if x.compounded = 0 then [] else restake name now x.compounded)).map
          (weigh g user)).sum = 0 := by
      split
      · rfl
      · rw [restake, refresh, List.cons_append, sum_weigh_cons hg (by simp [release]), weigh,
          release_of_claim hc, hg]
    rw [hzero, add_zero]
    exact sum_weigh_accrual (e := ⟨l, .compound name now limits, .compounded x.claimed x.compounded⟩)
      hg rfl rfl (by simp [release])
  case addToken token now rate =>
    rw [sum_releases_eq_zero (e := ⟨l, .addToken token now rate, r⟩) hg rfl rfl]
    refine sum_weigh_eq_zero hg ?_ _
    by_cases hk : token.key = k <;> simp [postings, hk, release]
  case setRate token rate now =>
    by_cases hk : token.key = k
    · have ha : accruesTo k ⟨l, .setRate token rate now, r⟩ = some now := by
        simp [accruesTo, hk]
      have hp : postings k ⟨l, .setRate token rate now, r⟩ =
          [.book (.accrue now), .book (.changeRate rate.toNat)] := by simp [postings, hk]
      rw [hp]
      exact sum_weigh_accrual hg ha rfl (by simp [release])
    · have ha : accruesTo k ⟨l, .setRate token rate now, r⟩ = none := by
        simp [accruesTo, hk]
      have hp : postings k ⟨l, .setRate token rate now, r⟩ = [] := by simp [postings, hk]
      rw [hp, sum_releases_eq_zero hg ha rfl]
      rfl
  case notify token amount now =>
    exact sum_weigh_credit_of (e := ⟨l, .notify token amount now, r⟩) hg rfl rfl hr
  case toStaking token shares now =>
    obtain ⟨fees, p, d, -, rfl, -⟩ := h
    refine sum_weigh_credit_of (e := ⟨l, .toStaking token shares now, .distributed d⟩) hg rfl ?_ hr
    by_cases htoken : token.key = k
    · by_cases h0 : 0 < d.split.staking
      · simp [injected, htoken, h0]
      · have hn : d.split.staking.toNat = 0 := by omega
        simp [injected, htoken, h0, hn]
    · simp [injected, htoken]
  case pending | apr | receive | distribute | distributeAll =>
    rw [sum_releases_eq_zero (e := ⟨l, _, r⟩) hg rfl rfl]
    rfl

/-- An action asks to settle nobody, or it registers no token and asks to settle a user no more
often than it settles the user against a registered token. -/
theorem Entry.settles_or (e : Entry) (user : String) (k : Key) :
    ((e.postings k).map (Posting.settles user)).sum = 0 ∨
      (∀ p ∈ e.postings k, ∀ time rate, p ≠ .book (.register time rate)) ∧
      (e.before.pool.rewardPools.contains k = true →
        ((e.postings k).map (Posting.settles user)).sum ≤ e.settlements user k) := by
  obtain ⟨l, a, r⟩ := e
  cases a
  case stake | unstake | update =>
    right
    constructor
    · simp [postings, restake, refresh]
    · intro hk
      simp [postings, settlements, restake, refresh, Posting.settles, hk]
  case claim name now choice =>
    right
    cases r
    case claimed amounts =>
      cases ha : amounts.get? k <;>
        simp [postings, settlements, collect, refresh, Posting.settles, Table.contains, ha]
    all_goals simp [postings]
  case compound name now limits =>
    right
    cases r
    case compounded claimed amount =>
      constructor
      · by_cases h0 : amount = 0 <;> simp [postings, collect, restake, refresh, h0]
      · intro hk
        by_cases hname : name = user <;> by_cases h0 : amount = 0 <;>
          simp [postings, settlements, collect, restake, refresh, Posting.settles, hk, hname, h0]
    all_goals simp [postings]
  case addToken token now rate =>
    left
    by_cases htoken : token.key = k <;> simp [postings, Posting.settles, htoken]
  case setRate token rate now =>
    left
    by_cases htoken : token.key = k <;> simp [postings, Posting.settles, htoken]
  case notify token amount now =>
    left
    by_cases htoken : token.key = k <;> simp [postings, credit, Posting.settles, htoken]
  case toStaking token shares now =>
    left
    cases r
    case distributed d =>
      by_cases htoken : token.key = k ∧ 0 < d.split.staking <;>
        simp [postings, credit, Posting.settles, htoken]
    all_goals rfl
  all_goals
    left
    rfl

/-- The postings of an action settle a user no more often than the action does. -/
theorem Entry.sum_settlements_le (e : Entry) (user : String) (k : Key) :
    (((e.before.column k).visits (e.postings k)).map fun v => v.1.settlements user v.2).sum ≤
      e.settlements user k := by
  have hle := Column.sum_settlements_le (e.before.column k) user (e.postings k)
  rcases e.settles_or user k with h0 | ⟨hps, hs⟩
  · rw [h0] at hle
    exact hle.trans (Nat.zero_le _)
  · cases hk : e.before.pool.rewardPools.get? k with
    | none =>
      rw [sum_settlements_eq_zero hk hps]
      exact Nat.zero_le _
    | some r =>
      have hc : e.before.pool.rewardPools.contains k = true := by
        rw [Table.contains, hk, Option.isSome_some]
      exact hle.trans (hs hc)

end Ledger

end PoolAccounting
