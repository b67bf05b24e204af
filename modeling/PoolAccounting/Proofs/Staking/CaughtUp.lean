import Mathlib
import PoolAccounting.Proofs.Staking.Refresh

/-!
Two operations at one time. Each brings some tokens up to that time, and where there was a stake,
the one that comes second meets no new emission at the tokens of the first. So it matters neither
which comes first nor, to a user, whether another one came before.
-/
namespace PoolAccounting.Staking

/-- A second accrual at the same time changes nothing where there was a stake before the first one,
and none where the stake is still the same either. -/
theorem RewardPool.accrue_twice {r r' r'' : RewardPool} {staked later : ℕ} {now : Operand}
    (h : r.accrue staked now = .ok r') (h' : r'.accrue later now = .ok r'')
    (h0 : 0 < staked ∨ later = staked) : r'' = r' := by
  obtain ⟨t, ht, hr'', -, -, -, hle, -⟩ := accrue_eq_ok.1 h'
  rcases Nat.eq_zero_or_pos staked with rfl | hpos
  · obtain rfl : later = 0 := h0.resolve_left (lt_irrefl 0)
    obtain ⟨t', ht', rfl, -⟩ := accrue_eq_ok.1 h
    obtain rfl : t = t' := by simpa [ht] using ht'
    rw [hr'']
    simp [accrued, emission]
  · rw [accrue_again h hpos hle] at h'
    exact (Except.ok.inj h').symm

/-- The pool `q` is the pool `p` with the covered tokens accrued at `now`. The principal can be
another one if no token is left out. -/
structure CaughtUp (p q : StakingPool) (covered : Key → Bool) (now : Operand) : Prop where
  stakingToken_eq : q.stakingToken = p.stakingToken
  names_eq : q.rewardPools.names = p.rewardPools.names
  covered_get? : ∀ {k r}, covered k = true → p.rewardPools.get? k = some r →
    ∃ r', q.rewardPools.get? k = some r' ∧ r.accrue p.totalStaked now = .ok r'
  other_get? : ∀ {k r}, covered k = false → p.rewardPools.get? k = some r →
    q.rewardPools.get? k = some r ∧ q.totalStaked = p.totalStaked

namespace CaughtUp

variable {p q q' s : StakingPool} {covered covered' : Key → Bool} {now : Operand}

theorem congr (h : CaughtUp p q covered now)
    (hc : ∀ k, p.rewardPools.contains k = true → covered' k = covered k) :
    CaughtUp p q covered' now where
  stakingToken_eq := h.stakingToken_eq
  names_eq := h.names_eq
  covered_get? := by
    intro k r hk hr
    rw [hc k (Table.contains_of_get? hr)] at hk
    exact h.covered_get? hk hr
  other_get? := by
    intro k r hk hr
    rw [hc k (Table.contains_of_get? hr)] at hk
    exact h.other_get? hk hr

theorem withTotalStaked (h : CaughtUp p q (fun _ => true) now) (totalStaked : ℕ) :
    CaughtUp p { q with totalStaked } (fun _ => true) now where
  stakingToken_eq := h.stakingToken_eq
  names_eq := h.names_eq
  covered_get? := h.covered_get?
  other_get? hk _ := by cases hk

/-- At a token that both cover the second finds nothing to accrue. -/
theorem trans (h : CaughtUp p q covered now) (h' : CaughtUp q s covered' now)
    (h0 : 0 < p.totalStaked ∨ q.totalStaked = p.totalStaked) :
    CaughtUp p s (fun k => covered k || covered' k) now where
  stakingToken_eq := h'.stakingToken_eq.trans h.stakingToken_eq
  names_eq := h'.names_eq.trans h.names_eq
  covered_get? := by
    intro k r hk hr
    cases hc : covered k with
    | true =>
      obtain ⟨r', hr', hacc⟩ := h.covered_get? hc hr
      cases hc' : covered' k with
      | true =>
        obtain ⟨r'', hr'', hacc'⟩ := h'.covered_get? hc' hr'
        obtain rfl := RewardPool.accrue_twice hacc hacc' h0
        exact ⟨r'', hr'', hacc⟩
      | false => exact ⟨r', (h'.other_get? hc' hr').1, hacc⟩
    | false =>
      obtain ⟨hr', htotal⟩ := h.other_get? hc hr
      have hc' : covered' k = true := by rwa [hc, Bool.false_or] at hk
      rw [← htotal]
      exact h'.covered_get? hc' hr'
  other_get? := by
    intro k r hk hr
    obtain ⟨hc, hc'⟩ := Bool.or_eq_false_iff.1 hk
    obtain ⟨hr', htotal⟩ := h.other_get? hc hr
    obtain ⟨hr'', htotal'⟩ := h'.other_get? hc' hr'
    exact ⟨hr'', htotal'.trans htotal⟩

/-- A token that both pools have accrued is the same in both. -/
theorem get?_eq (h : CaughtUp p q covered now) (h' : CaughtUp p q' covered' now) {k : Key}
    (hc : covered k = true) (hc' : covered' k = true) :
    q'.rewardPools.get? k = q.rewardPools.get? k := by
  cases hr : p.rewardPools.get? k with
  | none =>
    rw [Table.get?_eq_none_of_names_eq h.names_eq hr, Table.get?_eq_none_of_names_eq h'.names_eq hr]
  | some r =>
    obtain ⟨r', hr', hacc⟩ := h.covered_get? hc hr
    obtain ⟨r'', hr'', hacc'⟩ := h'.covered_get? hc' hr
    rw [hr', hr'', Except.ok.inj (hacc.symm.trans hacc')]

theorem rewardPools_eq (h : CaughtUp p q covered now) (h' : CaughtUp p q' covered now) :
    q'.rewardPools = q.rewardPools := by
  apply Table.ext_of_names_eq (h'.names_eq.trans h.names_eq.symm)
  intro k
  cases hr : p.rewardPools.get? k with
  | none =>
    rw [Table.get?_eq_none_of_names_eq h.names_eq hr, Table.get?_eq_none_of_names_eq h'.names_eq hr]
  | some r =>
    cases hc : covered k with
    | true => exact h.get?_eq h' hc hc
    | false => rw [(h.other_get? hc hr).1, (h'.other_get? hc hr).1]

theorem pool_eq (h : CaughtUp p q covered now) (h' : CaughtUp p q' covered now)
    (htotal : q'.totalStaked = q.totalStaked) : q' = q := by
  have htoken := h'.stakingToken_eq.trans h.stakingToken_eq.symm
  have hpools := h.rewardPools_eq h'
  cases q
  cases q'
  subst htoken htotal hpools
  rfl

/-- Of two pools that have accrued every token each is the other one, accrued. -/
theorem of_covered (h : CaughtUp p q (fun _ => true) now) (h' : CaughtUp p q' (fun _ => true) now)
    (h0 : 0 < p.totalStaked) (htotal : q.totalStaked = p.totalStaked) :
    CaughtUp q q' (fun _ => true) now where
  stakingToken_eq := h'.stakingToken_eq.trans h.stakingToken_eq.symm
  names_eq := h'.names_eq.trans h.names_eq.symm
  covered_get? := by
    intro k r' _ hr'
    obtain ⟨r, hr⟩ := Table.exists_get?_of_names_eq h.names_eq hr'
    obtain ⟨s, hs, hacc⟩ := h.covered_get? rfl hr
    obtain rfl : s = r' := Option.some.inj (hs.symm.trans hr')
    obtain ⟨-, -, -, -, -, -, hle, -⟩ := RewardPool.accrue_eq_ok.1 hacc
    rw [h.get?_eq h' rfl rfl, htotal]
    exact ⟨s, hs, RewardPool.accrue_again hacc h0 hle⟩
  other_get? hk _ := by cases hk

end CaughtUp

namespace StakingPool

variable {p p' q q' : StakingPool} {u v v' : UserStake} {chosen : Table Unit}
  {covered : Key → Bool} {now amount : Operand} {limits : Option StakeLimits}
  {choice : TokenChoice} {c c' : ClaimResult} {x x' : CompoundResult}

theorem caughtUp_of_accrue (h : p.accrue chosen now = .ok q) :
    CaughtUp p q chosen.contains now where
  stakingToken_eq := by
    obtain ⟨pools, -, rfl⟩ := accrue_eq_ok.1 h
    rfl
  names_eq := names_of_accrue h
  covered_get? := by
    intro k r hc hr
    obtain ⟨r', hr', hacc⟩ := get?_accrue h hr
    rw [if_pos hc] at hacc
    exact ⟨r', hr', hacc⟩
  other_get? := by
    intro k r hc hr
    obtain ⟨r', hr', hacc⟩ := get?_accrue h hr
    rw [hc, if_neg Bool.false_ne_true] at hacc
    exact ⟨hacc ▸ hr', totalStaked_of_accrue h⟩

theorem caughtUp_of_update (h : p.update u now = .ok (q, v)) :
    CaughtUp p q (fun _ => true) now := by
  obtain ⟨settled, ha, -, -⟩ := update_eq_ok.1 h
  apply (caughtUp_of_accrue ha).congr
  intro k hk
  rw [Table.contains_domain, hk]

theorem caughtUp_of_addStake {n : ℕ} (h : p.addStake u n now limits = .ok (q, v)) :
    CaughtUp p q (fun _ => true) now := by
  obtain ⟨p', u', t, hu, -, -, -, -, rfl, -⟩ := addStake_eq_ok.1 h
  exact (caughtUp_of_update hu).withTotalStaked _

theorem caughtUp_of_unstake (h : p.unstake u amount now = .ok (q, v)) :
    CaughtUp p q (fun _ => true) now := by
  obtain ⟨n, p', u', -, -, -, -, hu, -, -, -, -, rfl, -⟩ := unstake_eq_ok.1 h
  exact (caughtUp_of_update hu).withTotalStaked _

theorem caughtUp_of_claim (h : p.claim u now choice = .ok c) :
    CaughtUp p c.pool choice.covers now := by
  obtain ⟨chosen, q, settled, t, hc, ha, -, -, rfl⟩ := claim_eq_ok.1 h
  exact (caughtUp_of_accrue ha).congr fun k hk => (contains_of_resolve hc hk).symm

theorem caughtUp_of_compound (h : p.compound u now limits = .ok x) :
    CaughtUp p x.pool (fun _ => true) now := by
  obtain ⟨c, hc, -, -, hx⟩ := compound_eq_ok.1 h
  have hclaim := caughtUp_of_claim hc
  split at hx
  · rw [hx.1]
    exact hclaim
  · exact hclaim.trans (caughtUp_of_addStake hx) (.inr (totalStaked_of_claim hc))

/-- Settling a user reads tokens that are accrued in either pool. -/
theorem settled_eq (h : CaughtUp p p' covered now) (h0 : 0 < p.totalStaked)
    (ha : p.accrue chosen now = .ok q) (ha' : p'.accrue chosen now = .ok q') (u : UserStake) :
    q'.settled chosen u = q.settled chosen u := by
  have hq := caughtUp_of_accrue ha
  have hq' := h.trans (caughtUp_of_accrue ha') (.inl h0)
  rw [settled, settled, Table.restrict_congr]
  intro k hk
  exact hq.get?_eq hq' hk (by rw [hk, Bool.or_true])

theorem resolve_eq_of_names_eq (h : p'.rewardPools.names = p.rewardPools.names)
    (choice : TokenChoice) : p'.resolve choice = p.resolve choice := by
  cases choice with
  | all => rw [resolve, resolve, Table.domain_eq_of_names_eq h]
  | listed tokens =>
    simp only [resolve, Table.contains_eq_of_names_eq h]
  | single given => rfl

theorem update_agrees (h : CaughtUp p p' covered now) (h0 : 0 < p.totalStaked)
    (hu : p.update u now = .ok (q, v)) (hu' : p'.update u now = .ok (q', v')) :
    v' = v ∧ q'.totalStaked + p.totalStaked = q.totalStaked + p'.totalStaked := by
  rw [totalStaked_of_update hu, totalStaked_of_update hu']
  refine ⟨?_, Nat.add_comm _ _⟩
  obtain ⟨settled, ha, hs, rfl⟩ := update_eq_ok.1 hu
  obtain ⟨settled', ha', hs', rfl⟩ := update_eq_ok.1 hu'
  rw [Table.domain_eq_of_names_eq (names_of_accrue ha)] at hs
  rw [Table.domain_eq_of_names_eq (names_of_accrue ha')] at hs'
  rw [Table.domain_eq_of_names_eq h.names_eq] at ha' hs'
  rw [settled_eq h h0 ha ha', hs] at hs'
  rw [Except.ok.inj hs']

theorem addStake_agrees {n : ℕ} (h : CaughtUp p p' covered now) (h0 : 0 < p.totalStaked)
    (hs : p.addStake u n now limits = .ok (q, v))
    (hs' : p'.addStake u n now limits = .ok (q', v')) :
    v' = v ∧ q'.totalStaked + p.totalStaked = q.totalStaked + p'.totalStaked := by
  obtain ⟨p₁, u₁, t, hu, ht, -, -, -, rfl, rfl⟩ := addStake_eq_ok.1 hs
  obtain ⟨p₂, u₂, t', hu', ht', -, -, -, rfl, rfl⟩ := addStake_eq_ok.1 hs'
  obtain ⟨huser, htotal⟩ := update_agrees h h0 hu hu'
  rw [huser, Except.ok.inj (ht.symm.trans ht')]
  refine ⟨rfl, ?_⟩
  dsimp only
  omega

theorem stake_agrees (h : CaughtUp p p' covered now) (h0 : 0 < p.totalStaked)
    (hs : p.stake u amount now limits = .ok (q, v))
    (hs' : p'.stake u amount now limits = .ok (q', v')) :
    v' = v ∧ q'.totalStaked + p.totalStaked = q.totalStaked + p'.totalStaked := by
  obtain ⟨n, rfl, -, -, -, hs⟩ := stake_eq_ok.1 hs
  obtain ⟨m, hm, -, -, -, hs'⟩ := stake_eq_ok.1 hs'
  obtain rfl : n = m := by simpa using hm
  exact addStake_agrees h h0 hs hs'

theorem unstake_agrees (h : CaughtUp p p' covered now) (h0 : 0 < p.totalStaked)
    (hs : p.unstake u amount now = .ok (q, v)) (hs' : p'.unstake u amount now = .ok (q', v')) :
    v' = v ∧ q'.totalStaked + p.totalStaked = q.totalStaked + p'.totalStaked := by
  obtain ⟨n, p₁, u₁, rfl, -, -, -, hu, -, -, hle, -, rfl, rfl⟩ := unstake_eq_ok.1 hs
  obtain ⟨m, p₂, u₂, hm, -, -, -, hu', -, -, hle', -, rfl, rfl⟩ := unstake_eq_ok.1 hs'
  obtain rfl : n = m := by simpa using hm
  obtain ⟨huser, htotal⟩ := update_agrees h h0 hu hu'
  rw [huser]
  refine ⟨rfl, ?_⟩
  dsimp only
  omega

theorem claim_agrees (h : CaughtUp p p' covered now) (h0 : 0 < p.totalStaked)
    (hc : p.claim u now choice = .ok c) (hc' : p'.claim u now choice = .ok c') :
    c'.claimed = c.claimed ∧ c'.user = c.user ∧
      c'.pool.totalStaked + p.totalStaked = c.pool.totalStaked + p'.totalStaked := by
  rw [totalStaked_of_claim hc, totalStaked_of_claim hc']
  obtain ⟨chosen, q, settled, t, hr, ha, hs, ht, rfl⟩ := claim_eq_ok.1 hc
  obtain ⟨chosen', q', settled', t', hr', ha', hs', ht', rfl⟩ := claim_eq_ok.1 hc'
  rw [resolve_eq_of_names_eq h.names_eq, hr] at hr'
  obtain rfl := Except.ok.inj hr'
  rw [settled_eq h h0 ha ha', hs] at hs'
  obtain rfl := Except.ok.inj hs'
  obtain rfl := Except.ok.inj (ht.symm.trans ht')
  exact ⟨rfl, rfl, Nat.add_comm _ _⟩

theorem compound_agrees (h : CaughtUp p p' covered now) (h0 : 0 < p.totalStaked)
    (hx : p.compound u now limits = .ok x) (hx' : p'.compound u now limits = .ok x') :
    (x'.claimed = x.claimed ∧ x'.compounded = x.compounded) ∧ x'.user = x.user ∧
      x'.pool.totalStaked + p.totalStaked = x.pool.totalStaked + p'.totalStaked := by
  obtain ⟨c, hc, hcompounded, hclaimed, hadd⟩ := compound_eq_ok.1 hx
  obtain ⟨c', hc', hcompounded', hclaimed', hadd'⟩ := compound_eq_ok.1 hx'
  obtain ⟨hpaid, huser, htotal⟩ := claim_agrees h h0 hc hc'
  rw [h.stakingToken_eq, hpaid, ← hcompounded] at hcompounded'
  rw [h.stakingToken_eq, hpaid, ← hclaimed] at hclaimed'
  refine ⟨⟨hclaimed', hcompounded'⟩, ?_⟩
  rw [hcompounded', huser] at hadd'
  split at hadd
  · rw [if_pos ‹_›] at hadd'
    rw [hadd.1, hadd.2, hadd'.1, hadd'.2]
    exact ⟨rfl, htotal⟩
  · rw [if_neg ‹_›] at hadd'
    -- by then both pools have accrued every token
    have hall : CaughtUp c.pool c'.pool (fun _ => true) now := by
      have hp' := h.trans (caughtUp_of_claim hc') (.inl h0)
      refine (caughtUp_of_claim hc).of_covered (hp'.congr fun k _ => ?_) h0
        (totalStaked_of_claim hc)
      exact (Bool.or_true _).symm
    have h0' : 0 < c.pool.totalStaked := by rwa [totalStaked_of_claim hc]
    obtain ⟨hv, hmoved⟩ := addStake_agrees hall h0' hadd hadd'
    exact ⟨hv, by omega⟩

end StakingPool

end PoolAccounting.Staking
