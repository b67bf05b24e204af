import Mathlib
import PoolAccounting.Proofs.Staking.Pending
import PoolAccounting.Proofs.Table.NameSets

/-!
Staking, withdrawing, updating and claiming all accrue some tokens, settle the user against them and
keep some of what has accrued. This is all that the entitlements at that time depend on: those of
the others stay, and of the user's own what is kept.
-/
namespace PoolAccounting.Staking

open Amount

/-- Whether a claim is for a token, provided that the token is registered. -/
def TokenChoice.covers (k : Key) : TokenChoice → Bool
  | .all => true
  | .listed tokens => tokens.any (·.key = k)
  | .single _ => false

/-- The pool `p` and the user `u` become `q` and `v`: the chosen tokens are accrued, the user is
settled against them, and `keep` says what is kept of the rewards. A principal can change if no
token is left out. -/
structure Refreshed (p q : StakingPool) (u v : UserStake) (chosen : Table Unit) (now : Operand)
    (keep : ℕ → ℕ) : Prop where
  names_eq : q.rewardPools.names = p.rewardPools.names
  chosen_get? : ∀ {k r}, chosen.contains k = true → p.rewardPools.get? k = some r → ∃ r' d,
    q.rewardPools.get? k = some r' ∧ r.accrue p.totalStaked now = .ok r' ∧
      (u.checkpoint k).settle u.staked r'.rewardPerToken = .ok d ∧
      v.checkpoint k = { d with accrued := keep d.accrued }
  other_get? : ∀ {k r}, chosen.contains k = false → p.rewardPools.get? k = some r →
    q.rewardPools.get? k = some r ∧ v.checkpoint k = u.checkpoint k
  principal : q.totalStaked = p.totalStaked ∧ v.staked = u.staked ∨
    (∀ k, p.rewardPools.contains k = true → chosen.contains k = true) ∧
      q.totalStaked ≤ maxAmount ∧ v.staked ≤ maxAmount

namespace Refreshed

variable {p q : StakingPool} {u v w : UserStake} {chosen : Table Unit} {now : Operand}
  {keep : ℕ → ℕ} {amounts : Table ℕ}

/-- A token that is left out sees the same principal; for the others any amount will do. -/
theorem totalStaked_of_not_contains (h : Refreshed p q u v chosen now keep) {k : Key}
    {r : RewardPool} (hc : chosen.contains k = false) (hr : p.rewardPools.get? k = some r) :
    q.totalStaked = p.totalStaked ∧ v.staked = u.staked := by
  rcases h.principal with hp | ⟨hall, -⟩
  · exact hp
  · rw [hall k (Table.contains_of_get? hr)] at hc
    cases hc

theorem totalStaked_le (h : Refreshed p q u v chosen now keep) (hp : p.totalStaked ≤ maxAmount) :
    q.totalStaked ≤ maxAmount := by
  rcases h.principal with ⟨hq, -⟩ | ⟨-, hq, -⟩
  · rwa [hq]
  · exact hq

theorem staked_le (h : Refreshed p q u v chosen now keep) (hu : u.staked ≤ maxAmount) :
    v.staked ≤ maxAmount := by
  rcases h.principal with ⟨-, hv⟩ | ⟨-, -, hv⟩
  · rwa [hv]
  · exact hv

/-- Others are owed what they were owed before. -/
theorem pendingRewards_other (h : Refreshed p q u v chosen now keep) (h0 : 0 < p.totalStaked)
    (hw : p.pendingRewards w now = .ok amounts) : q.pendingRewards w now = .ok amounts := by
  have hdue : ∀ k r n, p.rewardPools.get? k = some r →
      r.due (w.checkpoint k) w.staked p.totalStaked now = .ok n →
      ∃ r', q.rewardPools.get? k = some r' ∧
        r'.due (w.checkpoint k) w.staked q.totalStaked now = .ok n := by
    intro k r n hr hn
    by_cases hc : chosen.contains k = true
    · obtain ⟨r', d, hr', hacc, -, -⟩ := h.chosen_get? hc hr
      obtain ⟨-, -, -, -, -, -, hle, -⟩ := RewardPool.accrue_eq_ok.1 hacc
      exact ⟨r', hr', by rwa [RewardPool.due_of_accrue hacc h0 (h.totalStaked_le hle)]⟩
    · rw [Bool.not_eq_true] at hc
      rw [(h.totalStaked_of_not_contains hc hr).1]
      exact ⟨r, (h.other_get? hc hr).1, hn⟩
  obtain ⟨rest, hrest, hnames, hget⟩ :=
    StakingPool.pendingRewards_transfer (fun _ n => n) h.names_eq hdue hw
  have heq : rest = amounts := Table.ext_of_names_eq hnames fun k => by rw [hget, Option.map_id']
  rwa [← heq]

/-- Of what the chosen tokens owe the user there is left what is kept, and what the other tokens
owe is left in full. -/
theorem pendingRewards_own (h : Refreshed p q u v chosen now keep) (hkeep : ∀ n, keep n ≤ n)
    (h0 : 0 < p.totalStaked) (hu : p.pendingRewards u now = .ok amounts) :
    ∃ rest, q.pendingRewards v now = .ok rest ∧ rest.names = amounts.names ∧
      ∀ k, rest.get? k =
        if chosen.contains k then (amounts.get? k).map keep else amounts.get? k := by
  have hdue : ∀ k r n, p.rewardPools.get? k = some r →
      r.due (u.checkpoint k) u.staked p.totalStaked now = .ok n →
      ∃ r', q.rewardPools.get? k = some r' ∧
        r'.due (v.checkpoint k) v.staked q.totalStaked now =
          .ok (if chosen.contains k then keep n else n) := by
    intro k r n hr hn
    by_cases hc : chosen.contains k = true
    · obtain ⟨r', d, hr', hacc, hd, hv⟩ := h.chosen_get? hc hr
      obtain ⟨-, -, -, -, -, -, hle, -⟩ := RewardPool.accrue_eq_ok.1 hacc
      obtain ⟨hearned, hpaid⟩ := Checkpoint.settle_eq_ok.1 hd
      obtain rfl : d.accrued = n := by
        rw [RewardPool.due_of_ok hacc] at hn
        exact Except.ok.inj (hearned.symm.trans hn)
      obtain ⟨-, hlevel, hstaked, -, haccrued⟩ := Checkpoint.earned_eq_ok.1 hearned
      refine ⟨r', hr', ?_⟩
      rw [if_pos hc, hv, hpaid,
        RewardPool.due_of_ok (RewardPool.accrue_again hacc h0 (h.totalStaked_le hle))]
      exact Checkpoint.earned_of_settled hlevel (h.staked_le hstaked)
        ((hkeep d.accrued).trans haccrued)
    · rw [Bool.not_eq_true] at hc
      obtain ⟨hq, hv⟩ := h.totalStaked_of_not_contains hc hr
      obtain ⟨hr', hcheckpoint⟩ := h.other_get? hc hr
      refine ⟨r, hr', ?_⟩
      rw [hc, hq, hv, hcheckpoint]
      exact hn
  obtain ⟨rest, hrest, hnames, hget⟩ := StakingPool.pendingRewards_transfer
    (fun k n => if chosen.contains k then keep n else n) h.names_eq hdue hu
  refine ⟨rest, hrest, hnames, fun k => ?_⟩
  rw [hget]
  by_cases hc : chosen.contains k = true <;> simp [hc]

/-- If everything is kept, nothing that is owed is moved. -/
theorem pendingRewards_own_eq (h : Refreshed p q u v chosen now id) (h0 : 0 < p.totalStaked)
    (hu : p.pendingRewards u now = .ok amounts) : q.pendingRewards v now = .ok amounts := by
  obtain ⟨rest, hrest, hnames, hget⟩ := h.pendingRewards_own (fun _ => le_rfl) h0 hu
  have heq : rest = amounts := Table.ext_of_names_eq hnames fun k => by
    rw [hget, Option.map_id, id, ite_self]
  rwa [← heq]

end Refreshed

namespace StakingPool

variable {p p' q : StakingPool} {u v : UserStake} {chosen : Table Unit} {now : Operand}

theorem refreshed_of_settled {settled kept : Table Checkpoint} {keep : ℕ → ℕ}
    (ha : p.accrue chosen now = .ok q) (hs : q.settled chosen u = .ok settled)
    (hkept : ∀ k, kept.get? k =
      (settled.get? k).map fun d => { d with accrued := keep d.accrued })
    (hv : v.checkpoints = u.checkpoints.override kept) (hstaked : v.staked = u.staked) :
    Refreshed p q u v chosen now keep where
  names_eq := names_of_accrue ha
  chosen_get? := by
    intro k r hc hr
    obtain ⟨r', hr', hacc⟩ := get?_accrue ha hr
    rw [if_pos hc] at hacc
    obtain ⟨d, hd, hsettle⟩ := get?_settled hs hc hr'
    refine ⟨r', d, hr', hacc, hsettle, ?_⟩
    rw [UserStake.checkpoint, hv, Table.get?_override, hkept, hd]
    rfl
  other_get? := by
    intro k r hc hr
    obtain ⟨r', hr', hacc⟩ := get?_accrue ha hr
    rw [hc, if_neg Bool.false_ne_true] at hacc
    refine ⟨by rw [hr', hacc], ?_⟩
    rw [UserStake.checkpoint, hv, Table.get?_override, hkept, get?_settled_eq_none hs (.inl hc)]
    rfl
  principal := .inl ⟨totalStaked_of_accrue ha, hstaked⟩

theorem refreshed_of_update (h : p.update u now = .ok (q, v)) :
    Refreshed p q u v p.rewardPools.domain now id := by
  obtain ⟨settled, ha, hs, rfl⟩ := update_eq_ok.1 h
  rw [Table.domain_eq_of_names_eq (names_of_accrue ha)] at hs
  exact refreshed_of_settled ha hs (fun k => Option.map_id'.symm) rfl rfl

/-- An update accrues every token and settles the user's checkpoint there. -/
theorem get?_of_update (h : p.update u now = .ok (q, v)) {k : Key} {r : RewardPool}
    (hr : p.rewardPools.get? k = some r) : ∃ r', q.rewardPools.get? k = some r' ∧
      r.accrue p.totalStaked now = .ok r' ∧
      (u.checkpoint k).settle u.staked r'.rewardPerToken = .ok (v.checkpoint k) := by
  obtain ⟨r', d, hr', hacc, hsettle, hv⟩ :=
    (refreshed_of_update h).chosen_get? (Table.contains_domain_of_get? hr) hr
  refine ⟨r', hr', hacc, ?_⟩
  rw [hv]
  exact hsettle

theorem registered_of_update (h : p.update u now = .ok (q, v)) {k : Key} {r' : RewardPool}
    (hr' : q.rewardPools.get? k = some r') : ∃ r, p.rewardPools.get? k = some r ∧
      r.accrue p.totalStaked now = .ok r' ∧
      (u.checkpoint k).settle u.staked r'.rewardPerToken = .ok (v.checkpoint k) := by
  obtain ⟨r, hr⟩ := Table.exists_get?_of_names_eq (refreshed_of_update h).names_eq hr'
  obtain ⟨s, hs, hacc, hsettle⟩ := get?_of_update h hr
  obtain rfl : r' = s := Option.some.inj (hr'.symm.trans hs)
  exact ⟨r, hr, hacc, hsettle⟩

/-- The principal is changed only after an update, which leaves no token out. -/
theorem refreshed_of_update_principal {totalStaked staked stakeTime : ℕ}
    (h : p.update u now = .ok (q, v)) (hq : totalStaked ≤ maxAmount) (hv : staked ≤ maxAmount) :
    Refreshed p { q with totalStaked } u { v with staked, stakeTime } p.rewardPools.domain now
      id := by
  obtain ⟨hnames, hchosen, hother, -⟩ := refreshed_of_update h
  exact ⟨hnames, hchosen, hother, .inr ⟨fun k hk => by rwa [Table.contains_domain], hq, hv⟩⟩

theorem refreshed_of_addStake {amount : ℕ} {limits : Option StakeLimits}
    (h : p.addStake u amount now limits = .ok (q, v)) :
    Refreshed p q u v p.rewardPools.domain now id := by
  obtain ⟨p', u', t, hu, -, -, hv, hq, rfl, rfl⟩ := addStake_eq_ok.1 h
  exact refreshed_of_update_principal hu hq hv

theorem refreshed_of_unstake {amount : Operand} (h : p.unstake u amount now = .ok (q, v)) :
    Refreshed p q u v p.rewardPools.domain now id := by
  obtain ⟨n, p', u', -, -, -, -, hu, -, hv, -, hq, rfl, rfl⟩ := unstake_eq_ok.1 h
  exact refreshed_of_update_principal hu ((Nat.sub_le _ _).trans hq) ((Nat.sub_le _ _).trans hv)

theorem contains_of_resolve {choice : TokenChoice} {k : Key}
    (h : p.resolve choice = .ok chosen) (hk : p.rewardPools.contains k = true) :
    chosen.contains k = choice.covers k := by
  cases choice with
  | all =>
    obtain rfl : p.rewardPools.domain = chosen := Except.ok.inj h
    rw [Table.contains_domain, hk]
    rfl
  | listed tokens =>
    obtain ⟨-, rfl⟩ := resolve_listed_eq_ok.1 h
    exact Table.contains_ofNames tokens k
  | single given => cases h

variable {choice : TokenChoice} {c : ClaimResult} {amounts : Table ℕ}

/-- A claim keeps nothing of the tokens that it is for. -/
theorem refreshed_of_claim (h : p.claim u now choice = .ok c) : ∃ chosen,
    p.resolve choice = .ok chosen ∧ Refreshed p c.pool u c.user chosen now fun _ => 0 := by
  obtain ⟨chosen, q, settled, t, hc, ha, hs, -, rfl⟩ := claim_eq_ok.1 h
  exact ⟨chosen, hc, refreshed_of_settled ha hs (fun k => Table.get?_map _ _ k) rfl rfl⟩

/-- A claim accrues a token that it is for, pays what is earned of it and leaves a settled checkpoint
that has accrued nothing. -/
theorem get?_of_claim (h : p.claim u now choice = .ok c) {k : Key} {r : RewardPool}
    (hk : choice.covers k = true) (hr : p.rewardPools.get? k = some r) : ∃ r' n,
      r.accrue p.totalStaked now = .ok r' ∧
      (u.checkpoint k).earned u.staked r'.rewardPerToken = .ok n ∧
      c.pool.rewardPools.get? k = some r' ∧
      c.user.checkpoints.get? k = some ⟨r'.rewardPerToken, 0⟩ ∧ c.claimed.get? k = some n := by
  obtain ⟨chosen, q, settled, t, hc, ha, hs, -, rfl⟩ := claim_eq_ok.1 h
  rw [← contains_of_resolve hc (Table.contains_of_get? hr)] at hk
  obtain ⟨r', hr', hacc⟩ := get?_accrue ha hr
  rw [if_pos hk] at hacc
  obtain ⟨d, hd, hsettle⟩ := get?_settled hs hk hr'
  obtain ⟨hearned, hpaid⟩ := Checkpoint.settle_eq_ok.1 hsettle
  refine ⟨r', d.accrued, hacc, hearned, hr', ?_, ?_⟩
  · rw [Table.get?_override, Table.get?_map, hd, ← hpaid]
    rfl
  · rw [Table.get?_map, hd]
    rfl

/-- Everything that is kept of a token that a claim is not for stays as it is. -/
theorem get?_of_claim_other (h : p.claim u now choice = .ok c) {k : Key}
    (hk : choice.covers k = false ∨ p.rewardPools.get? k = none) :
    c.pool.rewardPools.get? k = p.rewardPools.get? k ∧
      c.user.checkpoints.get? k = u.checkpoints.get? k ∧ c.claimed.get? k = none := by
  obtain ⟨chosen, q, settled, t, hc, ha, hs, -, rfl⟩ := claim_eq_ok.1 h
  rw [Table.get?_override, Table.get?_map, Table.get?_map]
  cases hr : p.rewardPools.get? k with
  | none =>
    have hq := get?_eq_none_of_accrue ha hr
    rw [hq, get?_settled_eq_none hs (.inr hq)]
    exact ⟨rfl, rfl, rfl⟩
  | some r =>
    have hck : chosen.contains k = false := by
      rw [contains_of_resolve hc (Table.contains_of_get? hr)]
      exact hk.resolve_right (by simp [hr])
    obtain ⟨r', hr', hacc⟩ := get?_accrue ha hr
    rw [hck, if_neg Bool.false_ne_true] at hacc
    rw [hr', hacc, get?_settled_eq_none hs (.inl hck)]
    exact ⟨rfl, rfl, rfl⟩

/-- What a claim pays is what the tokens that it is for owe. -/
theorem get?_claimed (h : p.claim u now choice = .ok c)
    (hu : p.pendingRewards u now = .ok amounts) (k : Key) :
    c.claimed.get? k = if choice.covers k then amounts.get? k else none := by
  obtain ⟨hnames, hdue⟩ := pendingRewards_eq_ok.1 hu
  cases hr : p.rewardPools.get? k with
  | none =>
    rw [(get?_of_claim_other h (.inr hr)).2.2, Table.get?_eq_none_of_names_eq hnames hr, ite_self]
  | some r =>
    split
    · obtain ⟨r', n, hacc, hearned, -, -, hpaid⟩ := get?_of_claim h ‹_› hr
      obtain ⟨m, hm, hget⟩ := hdue k r hr
      rw [RewardPool.due_of_ok hacc, hearned] at hm
      rw [hpaid, hget, Except.ok.inj hm]
    · exact (get?_of_claim_other h (.inl (eq_false_of_ne_true ‹_›))).2.2

theorem claimed_le (h : p.claim u now choice = .ok c) (k : Key) :
    (c.claimed.get? k).getD 0 ≤ maxAmount := by
  obtain ⟨chosen, q, settled, t, -, -, hs, -, rfl⟩ := claim_eq_ok.1 h
  rw [Table.get?_map]
  cases hd : settled.get? k with
  | none => exact Nat.zero_le _
  | some d =>
    obtain ⟨r, hr⟩ := Table.exists_get?_of_names_eq (Table.names_of_traverse hs) hd
    obtain ⟨d', hsettle, hd'⟩ := Table.get?_of_traverse hs hr
    obtain rfl : d' = d := Option.some.inj (hd'.symm.trans hd)
    obtain ⟨-, -, -, -, hle⟩ := Checkpoint.earned_eq_ok.1 (Checkpoint.settle_eq_ok.1 hsettle).1
    exact hle

theorem contains_of_resolve_eq_ok {k : Key} (h : p.resolve choice = .ok chosen)
    (hk : chosen.contains k = true) : p.rewardPools.contains k = true := by
  cases choice with
  | all =>
    obtain rfl : p.rewardPools.domain = chosen := Except.ok.inj h
    rwa [Table.contains_domain] at hk
  | listed tokens =>
    obtain ⟨hall, rfl⟩ := resolve_listed_eq_ok.1 h
    exact hall k hk
  | single given => cases h

theorem names_settled {settled : Table Checkpoint} (hc : p.resolve choice = .ok chosen)
    (ha : p.accrue chosen now = .ok q) (hs : q.settled chosen u = .ok settled) :
    settled.names = chosen.names := by
  rw [Table.names_of_traverse hs]
  apply Table.names_restrict
  intro k hk
  rw [Table.contains_eq_of_names_eq (names_of_accrue ha)]
  exact contains_of_resolve_eq_ok hc hk

/-- A claim answers for just the tokens that it is for. -/
theorem names_claimed (hc : p.resolve choice = .ok chosen) (h : p.claim u now choice = .ok c) :
    c.claimed.names = chosen.names := by
  obtain ⟨chosen', q, settled, t, hc', ha, hs, -, rfl⟩ := claim_eq_ok.1 h
  obtain rfl := Except.ok.inj (hc.symm.trans hc')
  rw [Table.names_map, names_settled hc ha hs]

theorem names_claimed_all (h : p.claim u now .all = .ok c) :
    c.claimed.names = p.rewardPools.names := by
  rw [names_claimed rfl h, Table.names_domain]

/-- A claim for every token that goes through pays what is owed. -/
theorem pendingRewards_of_claim_all (h : p.claim u now .all = .ok c) :
    p.pendingRewards u now = .ok c.claimed := by
  refine pendingRewards_eq_ok.2 ⟨names_claimed_all h, fun k r hr => ?_⟩
  obtain ⟨r', n, hacc, hearned, -, -, hpaid⟩ := get?_of_claim h rfl hr
  exact ⟨n, RewardPool.due_eq_ok.2 ⟨r', hacc, hearned⟩, hpaid⟩

/-- A claim leaves nothing of the tokens that it is for, and the others as they are. -/
theorem pendingRewards_of_claim (h : p.claim u now choice = .ok c) (h0 : 0 < p.totalStaked)
    (hu : p.pendingRewards u now = .ok amounts) : ∃ rest,
      c.pool.pendingRewards c.user now = .ok rest ∧ rest.names = amounts.names ∧
        ∀ k, rest.get? k =
          if choice.covers k then (amounts.get? k).map fun _ => 0 else amounts.get? k := by
  obtain ⟨chosen, hc, hrefreshed⟩ := refreshed_of_claim h
  obtain ⟨rest, hrest, hnames, hget⟩ :=
    hrefreshed.pendingRewards_own (fun _ => Nat.zero_le _) h0 hu
  refine ⟨rest, hrest, hnames, fun k => ?_⟩
  rw [hget]
  cases hk : p.rewardPools.contains k with
  | false =>
    rw [Table.get?_eq_none_of_names_eq (pendingRewards_eq_ok.1 hu).1
      (Table.contains_eq_false_iff.1 hk)]
    simp
  | true => rw [contains_of_resolve hc hk]

/-- A claim for every token pays what is owed and leaves nothing. -/
theorem claim_all_pays (h : p.claim u now .all = .ok c) (h0 : 0 < p.totalStaked)
    (hu : p.pendingRewards u now = .ok amounts) : c.claimed = amounts ∧
      c.pool.pendingRewards c.user now = .ok (amounts.map fun _ => 0) := by
  constructor
  · apply Table.ext_of_names_eq
    · rw [names_claimed_all h, (pendingRewards_eq_ok.1 hu).1]
    · exact get?_claimed h hu
  · obtain ⟨rest, hrest, hnames, hget⟩ := pendingRewards_of_claim h h0 hu
    have heq : rest = amounts.map fun _ => 0 := by
      apply Table.ext_of_names_eq
      · rw [hnames, Table.names_map]
      · intro k
        rw [hget, Table.get?_map]
        rfl
    rw [hrest, heq]

variable {limits : Option StakeLimits} {x : CompoundResult}

/-- To compound is to claim everything and to stake some of it again at the same time. -/
theorem pendingRewards_other_of_compound {w : UserStake} (h : p.compound u now limits = .ok x)
    (h0 : 0 < p.totalStaked) (hw : p.pendingRewards w now = .ok amounts) :
    x.pool.pendingRewards w now = .ok amounts := by
  obtain ⟨c, hc, -, -, hx⟩ := compound_eq_ok.1 h
  obtain ⟨chosen, -, hrefreshed⟩ := refreshed_of_claim hc
  have hclaimed := hrefreshed.pendingRewards_other h0 hw
  split at hx
  · rw [hx.1]
    exact hclaimed
  · have h0' : 0 < c.pool.totalStaked := by rwa [totalStaked_of_claim hc]
    exact (refreshed_of_addStake hx).pendingRewards_other h0' hclaimed

theorem compound_pays (h : p.compound u now limits = .ok x) (h0 : 0 < p.totalStaked)
    (hu : p.pendingRewards u now = .ok amounts) :
    x.claimed = amounts.erase p.stakingToken ∧
      x.compounded = (amounts.get? p.stakingToken).getD 0 ∧
      x.pool.pendingRewards x.user now = .ok (amounts.map fun _ => 0) := by
  obtain ⟨c, hc, hcompounded, hclaimed, hx⟩ := compound_eq_ok.1 h
  obtain ⟨rfl, hleft⟩ := claim_all_pays hc h0 hu
  refine ⟨hclaimed, hcompounded, ?_⟩
  split at hx
  · rw [hx.1, hx.2]
    exact hleft
  · have h0' : 0 < c.pool.totalStaked := by rwa [totalStaked_of_claim hc]
    exact (refreshed_of_addStake hx).pendingRewards_own_eq h0' hleft

end StakingPool

end PoolAccounting.Staking
