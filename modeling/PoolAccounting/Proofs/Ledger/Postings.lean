import Mathlib
import PoolAccounting.Proofs.Fees.Distribution
import PoolAccounting.Proofs.Ledger.Column
import PoolAccounting.Proofs.Staking.PerToken

/-!
The postings that each action makes on the column of a reward token. Replaying the postings of a
journal takes the column from the start of a run to its end, so what every posting keeps holds of
every ledger that is reached.
-/
namespace PoolAccounting

open Staking Fees Amount

namespace Ledger

/-- Brings the accumulator up to date and settles a user against it. -/
def refresh (user : String) (now : Operand) : List Posting :=
  [.book (.accrue now), .move user .settle]

def restake (user : String) (now : Operand) (amount : Nat) : List Posting :=
  refresh user now ++ [.move user (.deposit amount)]

/-- What a claim makes of a token that it pays out, or does not ask for. -/
def collect (user : String) (now : Operand) : Option Nat → List Posting
  | some amount => refresh user now ++ [.move user (.pay amount)]
  | none => [.move user .enter]

/-- A token that is not registered is registered first. -/
def credit (now : Operand) (amount : Nat) : List Posting :=
  [.book (.register now.toNat 0), .book (.accrue now), .book (.inject amount)]

/-- What an action that succeeded posts on the column of a token, in this order. -/
def Entry.postings (k : Key) (e : Entry) : List Posting :=
  match e.action, e.receipt with
  | .stake name amount now _, _ => restake name now amount.toNat
  | .unstake name amount now, _ => refresh name now ++ [.move name (.withdraw amount.toNat)]
  | .update name now, _ => refresh name now
  | .claim name now _, .claimed amounts => collect name now (amounts.get? k)
  | .compound name now _, .compounded _ amount =>
    collect name now (some (e.paid k)) ++ if amount = 0 then [] else restake name now amount
  | .addToken token now rate, _ =>
    if token.key = k then [.book (.register now.toNat rate.toNat)] else []
  | .setRate token rate now, _ =>
    if token.key = k then [.book (.accrue now), .book (.changeRate rate.toNat)] else []
  | .notify token amount now, _ => if token.key = k then credit now amount.toNat else []
  | .toStaking token _ now, .distributed d =>
    if token.key = k ∧ 0 < d.split.staking then credit now d.split.staking.toNat else []
  | _, _ => []

def column (l : Ledger) (k : Key) : Column :=
  ⟨l.pool.rewardPools.get? k, l.pool.totalStaked, l.users.map (·.seat k)⟩

/-- All that a run posts on the column of a token. -/
def postings (l : Ledger) (actions : List Action) (k : Key) : List Posting :=
  (l.journal actions).flatMap (·.postings k)

variable {l : Ledger} {p q : StakingPool} {u v : UserStake} {name : String} {now : Operand}

@[simp] theorem seat_column (l : Ledger) (k : Key) (name : String) :
    (l.column k).seat name = (l.user name).seat k := by
  simp only [Column.seat, column, Table.get?_map, user]
  cases l.users.get? name <;> rfl

theorem column_write (l : Ledger) (name : String) (p : StakingPool) (u : UserStake) (k : Key) :
    (l.write name p u).column k =
      ⟨p.rewardPools.get? k, p.totalStaked, (l.column k).seats.insert name (u.seat k)⟩ := by
  simp only [column, write, Table.map_insert]

theorem write_write (l : Ledger) (name : String) (p q : StakingPool) (u v : UserStake) :
    (l.write name p u).write name q v = l.write name q v := by
  simp only [write, Table.insert_insert]

/-- A seat that is written again counts with what it had before. -/
theorem sit_column_write (l : Ledger) (name : String) (p : StakingPool) (u v : UserStake)
    (k : Key) :
    ((l.write name p u).column k).sit name (v.seat k) = ⟨p.rewardPools.get? k,
      p.totalStaked + v.staked - u.staked, (l.column k).seats.insert name (v.seat k)⟩ := by
  have hs : ((l.write name p u).column k).seat name = u.seat k := by
    rw [seat_column, user_write, if_pos rfl]
  rw [Column.sit, hs]
  simp only [column_write, Table.insert_insert, UserStake.seat_staked]

theorem post_accrue {chosen : Table Unit} (h : l.pool.accrue chosen now = .ok p) {k : Key}
    (hk : chosen.contains k = true ∨ l.pool.rewardPools.get? k = none) :
    (l.column k).post (.book (.accrue now)) =
      some ⟨p.rewardPools.get? k, p.totalStaked, (l.column k).seats⟩ := by
  rw [StakingPool.totalStaked_of_accrue h]
  simp only [Column.post, Column.book, column]
  cases hr : l.pool.rewardPools.get? k with
  | none => simp [StakingPool.get?_eq_none_of_accrue h hr]
  | some r =>
    obtain ⟨r', hr', ha⟩ := StakingPool.get?_accrue h hr
    rcases hk with hk | hk
    · rw [if_pos hk] at ha
      simp [hr', ha, Except.toOption]
    · simp [hk] at hr

theorem post_settle {chosen : Table Unit} {settled : Table Checkpoint} {c : Column}
    (h : p.settled chosen u = .ok settled) {k : Key}
    (hk : chosen.contains k = true ∨ p.rewardPools.get? k = none)
    (hc : c.accumulator = p.rewardPools.get? k) (hu : c.seat name = u.seat k) :
    c.post (.move name .settle) =
      some (c.sit name ⟨u.staked, (settled.get? k).or (u.checkpoints.get? k)⟩) := by
  simp only [Column.post, Column.moved, hu]
  cases hr : p.rewardPools.get? k with
  | none =>
    rw [StakingPool.get?_settled_eq_none h (.inr hr), hc, hr]
    rfl
  | some r =>
    rcases hk with hk | hk
    · obtain ⟨d, hd, hs⟩ := StakingPool.get?_settled h hk hr
      simp [hc, hr, hd, hs, Except.toOption]
    · simp [hk] at hr

/-- Accruing the chosen tokens and settling a user against them is a refresh of every column but
those of registered tokens that are not chosen. -/
theorem replay_refresh {chosen others : Table Unit} {settled : Table Checkpoint} {k : Key}
    (ha : l.pool.accrue chosen now = .ok p) (hs : p.settled others (l.user name) = .ok settled)
    (hk : chosen.contains k = true ∧ others.contains k = true ∨ l.pool.rewardPools.get? k = none)
    (hv : v.seat k =
      ⟨(l.user name).staked, (settled.get? k).or ((l.user name).checkpoints.get? k)⟩) :
    (l.column k).replay (refresh name now) = some ((l.write name p v).column k) := by
  have hp : others.contains k = true ∨ p.rewardPools.get? k = none :=
    hk.imp And.right (StakingPool.get?_eq_none_of_accrue ha)
  have hu : (l.column k).seat name = (l.user name).seat k := seat_column l k name
  have hset := post_settle (c := ⟨p.rewardPools.get? k, p.totalStaked, (l.column k).seats⟩)
    hs hp rfl hu
  rw [refresh, Column.replay_cons, post_accrue ha (hk.imp And.left id), Option.bind_some,
    Column.replay_cons, hset, Option.bind_some, Column.replay_nil, ← hv, column_write, Column.sit]
  congr 2
  change p.totalStaked + v.staked - ((l.column k).seat name).staked = p.totalStaked
  have hvs : v.staked = (l.user name).staked := congrArg Seat.staked hv
  rw [hu, hvs]
  exact Nat.add_sub_cancel _ _

theorem replay_update (h : l.pool.update (l.user name) now = .ok (p, u)) (k : Key) :
    (l.column k).replay (refresh name now) = some ((l.write name p u).column k) := by
  obtain ⟨settled, ha, hs, rfl⟩ := StakingPool.update_eq_ok.1 h
  refine replay_refresh ha hs ?_ (by simp [UserStake.seat])
  cases hr : l.pool.rewardPools.get? k with
  | none => exact .inr rfl
  | some r =>
    obtain ⟨r', hr', -⟩ := StakingPool.get?_accrue ha hr
    exact .inl ⟨Table.contains_domain_of_get? hr, Table.contains_domain_of_get? hr'⟩

/-- After an update the user is settled against every token. -/
theorem isSettled_of_update (h : l.pool.update (l.user name) now = .ok (p, u)) (k : Key) :
    ((l.write name p u).column k).isSettled (u.seat k) = true := by
  obtain ⟨settled, ha, hs, rfl⟩ := StakingPool.update_eq_ok.1 h
  rw [column_write, Column.isSettled]
  cases hr : p.rewardPools.get? k with
  | none => rfl
  | some r =>
    have hc := Table.contains_domain_of_get? hr
    obtain ⟨d, hd, hsd⟩ := StakingPool.get?_settled hs hc hr
    have hpaid := (Checkpoint.settle_eq_ok.1 hsd).2
    simpa [UserStake.seat, Seat.checkpoint, hd] using hpaid

theorem seat_column_write (l : Ledger) (name : String) (p : StakingPool) (u : UserStake)
    (k : Key) : ((l.write name p u).column k).seat name = u.seat k := by
  rw [seat_column, user_write, if_pos rfl]

theorem replay_addStake {amount : Nat} {limits : Option StakeLimits}
    (h : l.pool.addStake (l.user name) amount now limits = .ok (q, v)) (k : Key) :
    (l.column k).replay (restake name now amount) = some ((l.write name q v).column k) := by
  obtain ⟨p, u, t, hu, -, -, -, hm, rfl, rfl⟩ := StakingPool.addStake_eq_ok.1 h
  have ht : ((l.write name p u).column k).totalStaked + amount ≤ maxAmount := hm
  have hm : ((l.write name p u).column k).moved (u.seat k) (.deposit amount) =
      some (UserStake.seat k { u with staked := u.staked + amount, stakeTime := t }) :=
    if_pos ⟨isSettled_of_update hu k, ht⟩
  rw [restake, Column.replay_append, replay_update hu, Option.bind_some, Column.replay_cons,
    Column.post, seat_column_write, hm, Option.map_some, Option.bind_some, Column.replay_nil,
    sit_column_write, column_write]
  congr 2
  change p.totalStaked + (u.staked + amount) - u.staked = p.totalStaked + amount
  omega

theorem replay_unstake {amount : Operand}
    (h : l.pool.unstake (l.user name) amount now = .ok (q, v)) (k : Key) :
    (l.column k).replay (refresh name now ++ [.move name (.withdraw amount.toNat)]) =
      some ((l.write name q v).column k) := by
  obtain ⟨n, p, u, rfl, -, -, -, hu, hs, -, ht, -, rfl, rfl⟩ := StakingPool.unstake_eq_ok.1 h
  have hm : ((l.write name p u).column k).moved (u.seat k) (.withdraw n) =
      some (UserStake.seat k { u with staked := u.staked - n }) :=
    if_pos ⟨isSettled_of_update hu k, hs⟩
  rw [Operand.toNat_natCast, Column.replay_append, replay_update hu, Option.bind_some,
    Column.replay_cons, Column.post, seat_column_write, hm, Option.map_some, Option.bind_some,
    Column.replay_nil, sit_column_write, column_write]
  congr 2
  change p.totalStaked + (u.staked - n) - u.staked = p.totalStaked - n
  omega

variable {choice : TokenChoice} {c : ClaimResult} {k : Key}

/-- Paying out what was settled leaves the settled checkpoint with nothing accrued. -/
theorem moved_pay_settled {chosen : Table Unit} {settled : Table Checkpoint} {c : Column}
    (h : p.settled chosen u = .ok settled)
    (hk : chosen.contains k = true ∨ p.rewardPools.get? k = none)
    (hc : c.accumulator = p.rewardPools.get? k) :
    c.moved ⟨u.staked, (settled.get? k).or (u.checkpoints.get? k)⟩
        (.pay (((settled.get? k).map (·.accrued)).getD 0)) =
      some ⟨u.staked, ((settled.get? k).map fun d => { d with accrued := 0 }).or
        (u.checkpoints.get? k)⟩ := by
  rw [Column.moved, hc]
  cases hr : p.rewardPools.get? k with
  | none =>
    rw [StakingPool.get?_settled_eq_none h (.inr hr)]
    rfl
  | some r =>
    rcases hk with hk | hk
    · obtain ⟨d, hd, -⟩ := StakingPool.get?_settled h hk hr
      simp [hd, Seat.checkpoint]
    · simp [hk] at hr

theorem replay_claim_paid (h : l.pool.claim (l.user name) now choice = .ok c)
    (hk : (c.claimed.get? k).isSome ∨ l.pool.rewardPools.get? k = none) :
    (l.column k).replay (collect name now (some ((c.claimed.get? k).getD 0))) =
      some ((l.write name c.pool c.user).column k) := by
  obtain ⟨chosen, p, settled, t, -, ha, hs, -, rfl⟩ := StakingPool.claim_eq_ok.1 h
  simp only [Table.get?_map, Option.isSome_map] at hk ⊢
  have hc : chosen.contains k = true ∨ l.pool.rewardPools.get? k = none := by
    rcases hk with hk | hk
    · by_cases hc : chosen.contains k = true
      · exact .inl hc
      · rw [StakingPool.get?_settled_eq_none hs (.inl (by simpa using hc))] at hk
        cases hk
    · exact .inr hk
  -- the user between the settlement and the payment, and after it
  let v : UserStake :=
    { l.user name with checkpoints := (l.user name).checkpoints.override settled }
  let w : UserStake :=
    { l.user name with
      checkpoints := (l.user name).checkpoints.override
        (settled.map fun c => { c with accrued := 0 })
      lastClaimTime := t }
  have hv : v.seat k =
      ⟨(l.user name).staked, (settled.get? k).or ((l.user name).checkpoints.get? k)⟩ := by
    simp [v, UserStake.seat]
  have hw : w.seat k = ⟨(l.user name).staked,
      ((settled.get? k).map fun d => { d with accrued := 0 }).or
        ((l.user name).checkpoints.get? k)⟩ := by
    simp [w, UserStake.seat]
  have hm : ((l.write name p v).column k).moved (v.seat k)
      (.pay (((settled.get? k).map (·.accrued)).getD 0)) = some (w.seat k) := by
    rw [hv, hw]
    exact moved_pay_settled hs (hc.imp id (StakingPool.get?_eq_none_of_accrue ha)) rfl
  rw [collect, Column.replay_append,
    replay_refresh ha hs (hc.imp (fun hc => ⟨hc, hc⟩) id) hv, Option.bind_some,
    Column.replay_cons, Column.post, seat_column_write, hm, Option.map_some, Option.bind_some,
    Column.replay_nil, sit_column_write, column_write]
  congr 2
  exact Nat.add_sub_cancel _ _

theorem replay_claim_other (h : l.pool.claim (l.user name) now choice = .ok c)
    (hk : c.claimed.get? k = none) :
    (l.column k).replay (collect name now none) =
      some ((l.write name c.pool c.user).column k) := by
  obtain ⟨chosen, p, settled, t, -, ha, hs, -, rfl⟩ := StakingPool.claim_eq_ok.1 h
  have hn : settled.get? k = none := by simpa using hk
  have hp : p.rewardPools.get? k = l.pool.rewardPools.get? k := by
    cases hr : l.pool.rewardPools.get? k with
    | none => exact StakingPool.get?_eq_none_of_accrue ha hr
    | some r =>
      obtain ⟨r', hr', hc⟩ := StakingPool.get?_accrue ha hr
      split at hc
      · obtain ⟨d, hd, -⟩ := StakingPool.get?_settled hs ‹_› hr'
        simp [hn] at hd
      · rw [hr', hc]
  rw [collect, column_write, Column.replay_cons, Column.post, seat_column, Column.moved,
    Option.map_some, Option.bind_some, Column.replay_nil, Column.sit, seat_column, hp,
    StakingPool.totalStaked_of_accrue ha]
  congr 2
  · exact Nat.add_sub_cancel _ _
  · simp [UserStake.seat, hn]

theorem claimed_of_registered (h : l.pool.claim (l.user name) now .all = .ok c) :
    (c.claimed.get? k).isSome ∨ l.pool.rewardPools.get? k = none := by
  obtain ⟨chosen, p, settled, t, hc, ha, hs, -, rfl⟩ := StakingPool.claim_eq_ok.1 h
  obtain rfl : l.pool.rewardPools.domain = chosen := Except.ok.inj hc
  cases hr : l.pool.rewardPools.get? k with
  | none => exact .inr rfl
  | some r =>
    obtain ⟨r', hr', -⟩ := StakingPool.get?_accrue ha hr
    have hk := Table.contains_domain_of_get? hr
    obtain ⟨d, hd, -⟩ := StakingPool.get?_settled hs hk hr'
    exact .inl (by simp [hd])

/-- To compound is to claim everything and to stake again what was paid in the staking token. -/
theorem claim_of_compound {limits : Option StakeLimits} {x : CompoundResult}
    (h : l.pool.compound (l.user name) now limits = .ok x) (k : Key) :
    ∃ c, l.pool.claim (l.user name) now .all = .ok c ∧
      (x.claimed.get? k).getD 0 + (if k = .text l.pool.stakingToken then x.compounded else 0) =
        (c.claimed.get? k).getD 0 ∧
      if x.compounded = 0 then x.pool = c.pool ∧ x.user = c.user
      else c.pool.addStake c.user x.compounded now limits = .ok (x.pool, x.user) := by
  obtain ⟨c, hc, hn, hx, h⟩ := StakingPool.compound_eq_ok.1 h
  refine ⟨c, hc, ?_, h⟩
  rw [hx, hn, Table.get?_erase, Scalar.key_text]
  by_cases hk : k = .text l.pool.stakingToken
  · simp [hk]
  · simp [hk]

theorem replay_compound {limits : Option StakeLimits} {x : CompoundResult}
    (h : l.pool.compound (l.user name) now limits = .ok x) (k : Key) :
    (l.column k).replay (collect name now (some ((x.claimed.get? k).getD 0 +
        if k = .text l.pool.stakingToken then x.compounded else 0)) ++
      if x.compounded = 0 then [] else restake name now x.compounded) =
      some ((l.write name x.pool x.user).column k) := by
  obtain ⟨c, hc, hpaid, h⟩ := claim_of_compound h k
  rw [hpaid, Column.replay_append, replay_claim_paid hc (claimed_of_registered hc),
    Option.bind_some]
  by_cases h0 : x.compounded = 0
  · rw [if_pos h0] at h ⊢
    rw [h.1, h.2, Column.replay_nil]
  · rw [if_neg h0] at h ⊢
    have hu : (l.write name c.pool c.user).user name = c.user := by rw [user_write, if_pos rfl]
    rw [← hu] at h
    have hr := replay_addStake (l := l.write name c.pool c.user) h k
    rw [hr, write_write]

theorem column_withRewardPool (l : Ledger) (p : StakingPool) (token : Scalar) (r : RewardPool)
    (k : Key) :
    Ledger.column { l with pool := p.withRewardPool token r } k =
      ⟨if token.key = k then some r else p.rewardPools.get? k, p.totalStaked,
        (l.column k).seats⟩ := by
  simp only [column, StakingPool.withRewardPool, Table.get?_insert]

theorem replay_addRewardToken {token : Scalar} {rate : Operand}
    (h : l.pool.addRewardToken token now rate = .ok p) (k : Key) :
    (l.column k).replay
        (if token.key = k then [.book (.register now.toNat rate.toNat)] else []) =
      some (Ledger.column { l with pool := p } k) := by
  obtain ⟨t, s, rfl, rfl, -, h⟩ := StakingPool.addRewardToken_eq_ok.1 h
  split at h
  · rename_i hc
    subst h
    split
    · rename_i hk
      obtain ⟨r, hr⟩ := Option.isSome_iff_exists.1 hc
      rw [hk] at hr
      simp [Column.replay, Column.post, Column.book, column, hr]
    · rfl
  · rename_i hc
    obtain ⟨n, rfl, -, rfl⟩ := h
    rw [column_withRewardPool]
    split
    · rename_i hk
      have hr : l.pool.rewardPools.get? k = none :=
        Table.contains_eq_false_iff.1 (hk ▸ eq_false_of_ne_true hc)
      simp [Column.replay, Column.post, Column.book, column, hr]
    · rfl

theorem replay_setRewardRate {token : Scalar} {rate : Operand}
    (h : l.pool.setRewardRate token rate now = .ok p) (k : Key) :
    (l.column k).replay (if token.key = k then
        [.book (.accrue now), .book (.changeRate rate.toNat)] else []) =
      some (Ledger.column { l with pool := p } k) := by
  obtain ⟨n, r, r', rfl, -, hr, ha, rfl⟩ := StakingPool.setRewardRate_eq_ok.1 h
  rw [column_withRewardPool]
  split
  · rename_i hk
    rw [hk] at hr
    simp [Column.replay, Column.post, Column.book, column, hr, ha, Except.toOption]
  · rfl

theorem replay_notify {token : Scalar} {amount : Operand}
    (h : l.pool.notifyRewardAmount token amount now = .ok p) (k : Key) :
    (l.column k).replay (if token.key = k then credit now amount.toNat else []) =
      some (Ledger.column { l with pool := p } k) := by
  obtain ⟨n, q, r, r', r'', rfl, -, -, hq, hr, ha, hi, rfl⟩ :=
    StakingPool.notifyRewardAmount_eq_ok.1 h
  have hadd := replay_addRewardToken hq k
  rw [column_withRewardPool, Operand.toNat_natCast]
  split
  · rename_i hk
    rw [hk] at hr
    rw [if_pos hk] at hadd
    rw [credit, ← List.singleton_append, Column.replay_append]
    change ((l.column k).replay [.book (.register now.toNat (Operand.toNat 0))]).bind _ = _
    rw [hadd, Option.bind_some]
    simp [Column.replay, Column.post, Column.book, column, hr, ha, hi, Except.toOption]
  · rename_i hk
    rw [if_neg hk] at hadd
    exact hadd

/-- The staking part of a distribution is injected unless it is zero. -/
theorem distributeToStaking_pool {b fees : Book} {token : Scalar} {shares : Shares}
    {d : Distribution}
    (h : b.distributeToStaking p token shares now = .ok (fees, q, d)) :
    ¬0 < d.split.staking ∧ q = p ∨
      0 < d.split.staking ∧ p.notifyRewardAmount token d.split.staking now = .ok q := by
  obtain ⟨-, hp⟩ := Book.distributeToStaking_eq_ok.1 h
  split at hp
  · exact .inr ⟨‹_›, hp⟩
  · exact .inl ⟨‹_›, hp⟩

/-- An action that succeeds makes exactly its postings on the column of every token. -/
theorem replay_perform {next : Ledger} {a : Action} {r : Receipt}
    (h : l.perform a = .ok (r, next)) (k : Key) :
    (l.column k).replay (Entry.postings k ⟨l, a, r⟩) = some (next.column k) := by
  cases a <;> simp only [perform, bind_eq_ok, Prod.exists, pure, Except.pure, Except.ok.injEq,
    Prod.mk.injEq] at h
  case stake name amount now limits =>
    obtain ⟨p, u, h, rfl, rfl⟩ := h
    obtain ⟨n, rfl, -, -, -, h⟩ := StakingPool.stake_eq_ok.1 h
    exact replay_addStake h k
  case unstake name amount now =>
    obtain ⟨p, u, h, rfl, rfl⟩ := h
    exact replay_unstake h k
  case update name now =>
    obtain ⟨p, u, h, rfl, rfl⟩ := h
    exact replay_update h k
  case claim name now choice =>
    obtain ⟨c, h, rfl, rfl⟩ := h
    change (l.column k).replay (collect name now (c.claimed.get? k)) = _
    cases hk : c.claimed.get? k with
    | none => exact replay_claim_other h hk
    | some n =>
      have hs : (c.claimed.get? k).isSome = true := by rw [hk, Option.isSome_some]
      have hp := replay_claim_paid h (.inl hs)
      rwa [hk, Option.getD_some] at hp
  case compound name now limits =>
    obtain ⟨c, h, rfl, rfl⟩ := h
    exact replay_compound h k
  case addToken token now rate =>
    obtain ⟨p, h, rfl, rfl⟩ := h
    exact replay_addRewardToken h k
  case setRate token rate now =>
    obtain ⟨p, h, rfl, rfl⟩ := h
    exact replay_setRewardRate h k
  case notify token amount now =>
    obtain ⟨p, h, rfl, rfl⟩ := h
    exact replay_notify h k
  case toStaking token shares now =>
    obtain ⟨fees, p, d, h, rfl, rfl⟩ := h
    change (l.column k).replay (if token.key = k ∧ 0 < d.split.staking then _ else []) = _
    obtain ⟨h0, rfl⟩ | ⟨h0, h⟩ := distributeToStaking_pool h
    · rw [if_neg fun hk => h0 hk.2]
      rfl
    · simp only [h0, and_true]
      exact replay_notify h k
  case pending | apr | receive =>
    obtain ⟨_, -, rfl, rfl⟩ := h
    rfl
  case distribute | distributeAll =>
    obtain ⟨_, _, -, rfl, rfl⟩ := h
    rfl

theorem replay_run (l : Ledger) (actions : List Action) (k : Key) :
    (l.column k).replay (l.postings actions k) = some ((l.run actions).column k) := by
  induction actions generalizing l with
  | nil => rfl
  | cons a actions ih =>
    rw [postings, run_cons]
    cases h : l.perform a with
    | ok answer =>
      obtain ⟨r, next⟩ := answer
      rw [journal_cons_of_ok h, List.flatMap_cons, Column.replay_append, replay_perform h k,
        Option.bind_some, step_of_ok h]
      exact ih next
    | error f =>
      rw [journal_cons_of_error h, step_of_error h]
      exact ih l

end Ledger

end PoolAccounting
