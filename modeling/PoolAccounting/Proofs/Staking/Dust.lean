import Mathlib
import PoolAccounting.Proofs.Ledger.FairShare
import PoolAccounting.Proofs.Regularity.Operations
import PoolAccounting.Proofs.Staking.Refresh

/-!
Settlements in between. A user who is settled on the way to some point in time is owed no more there
than one who is not, and less only by what the additional quotients round off: a settlement holds
every accumulator back by at most one unit, and it drops less than one unit of the token.
-/
namespace PoolAccounting

open Staking Amount

namespace Seat

variable {a b : Seat} {level lower e e' n : ℕ}

/-- A seat that is owed no more can be settled where the other one can. -/
theorem earned_of_owed_le (ha : a.checkpoint.earned a.staked level = .ok e)
    (hlower : lower ≤ level) (hstaked : b.staked = a.staked) (hpaid : b.checkpoint.paid ≤ lower)
    (howed : b.owed lower ≤ a.owed level) :
    ∃ e', b.checkpoint.earned b.staked lower = .ok e' := by
  obtain ⟨-, hlevel, hle, -, he⟩ := Checkpoint.earned_eq_ok.1 ha
  have hlt := Nat.lt_of_mul_lt_mul_left
    (((b.precision_mul_le_owed lower).trans howed).trans_lt (lt_earned_succ ha))
  exact ⟨_, Checkpoint.earned_eq_ok.2 ⟨hpaid, hlower.trans hlevel, hstaked.trans_le hle, rfl,
    (Nat.le_of_lt_succ hlt).trans he⟩⟩

/-- A settlement drops less than one unit of the token. A level that is behind by one is worth one
part of the precision to each staked unit. -/
theorem owed_settled {mid : ℕ}
    (h : a.checkpoint.settle a.staked lower = .ok b.checkpoint) (hstaked : b.staked = a.staked)
    (hlower : lower ≤ mid) (hmid : mid ≤ level) (hlevel : level ≤ mid + 1) :
    b.owed mid ≤ a.owed level ∧ a.owed level ≤ b.owed mid + (precision + a.staked) := by
  obtain ⟨he, hpaid⟩ := Checkpoint.settle_eq_ok.1 h
  obtain ⟨hle, -⟩ := Checkpoint.earned_eq_ok.1 he
  have hb : b.owed mid = precision * b.checkpoint.accrued + a.staked * (mid - lower) := by
    rw [owed, hpaid, hstaked]
  have ha : a.owed mid = a.owed lower + a.staked * (mid - lower) := by
    rw [← owed_add _ hle, Nat.add_sub_cancel' hlower]
  have hfloor := precision_mul_earned_le he
  have hceil := lt_earned_succ he
  have hlow := a.owed_mono hmid
  have hhigh := a.owed_mono hlevel
  rw [owed_add 1 (hle.trans hlower), Nat.mul_one] at hhigh
  rw [Nat.mul_succ] at hceil
  omega

/-- What a seat is owed in parts of the precision, in units of the token. -/
theorem earned_bounds {staked : ℕ} (ha : a.checkpoint.earned a.staked level = .ok e)
    (hb : b.checkpoint.earned b.staked lower = .ok e') (hle : b.owed lower ≤ a.owed level)
    (hge : a.owed level ≤ b.owed lower + n * (precision + staked)) :
    e' ≤ e ∧ e ≤ e' + n + 1 + n * staked / precision := by
  have ha' := precision_mul_earned_le ha
  have hb' := precision_mul_earned_le hb
  constructor
  · exact Nat.le_of_lt_succ
      (Nat.lt_of_mul_lt_mul_left ((hb'.trans hle).trans_lt (lt_earned_succ ha)))
  · have hceil := lt_earned_succ hb
    have hdust := Nat.lt_mul_div_succ (n * staked) precision_pos
    have hlt : precision * e < precision * (e' + n + 1 + n * staked / precision + 1) := by
      calc precision * e ≤ b.owed lower + n * (precision + staked) := ha'.trans hge
        _ = b.owed lower + n * staked + n * precision := by ring
        _ < precision * (e' + 1) + precision * (n * staked / precision + 1) + n * precision :=
          Nat.add_lt_add_right (Nat.add_lt_add hceil hdust) _
        _ = precision * (e' + n + 1 + n * staked / precision + 1) := by ring
    exact Nat.le_of_lt_succ (Nat.lt_of_mul_lt_mul_left hlt)

end Seat

namespace Staking

namespace RewardPool

/-- The accumulator `s` stands as `r` does, but for a level that is behind by at most `n`. -/
structure Lags (r s : RewardPool) (n : ℕ) : Prop where
  total_eq : s.total = r.total
  queued_eq : s.queued = r.queued
  lastUpdate_eq : s.lastUpdate = r.lastUpdate
  level_le : s.rewardPerToken ≤ r.rewardPerToken
  le_level : r.rewardPerToken ≤ s.rewardPerToken + n

theorem Lags.rfl {r : RewardPool} : r.Lags r 0 := ⟨.refl _, .refl _, .refl _, le_rfl, le_rfl⟩

theorem Lags.trans {r s w : RewardPool} {m n : ℕ} (h : r.Lags s m) (h' : s.Lags w n) :
    r.Lags w (m + n) where
  total_eq := h'.total_eq.trans h.total_eq
  queued_eq := h'.queued_eq.trans h.queued_eq
  lastUpdate_eq := h'.lastUpdate_eq.trans h.lastUpdate_eq
  level_le := h'.level_le.trans h.level_le
  le_level := by
    have h₁ := h.le_level
    have h₂ := h'.le_level
    omega

variable {r r' : RewardPool} {totalStaked : ℕ}

/-- Released in two parts, the same amount raises the level by at most one unit less. -/
theorem lags_accrued {s t : ℕ} (hs : r.lastUpdate ≤ s) (hst : s ≤ t) (totalStaked : ℕ) :
    (r.accrued totalStaked t).Lags ((r.accrued totalStaked s).accrued totalStaked t) 1 := by
  have hadd := emission_add hs hst totalStaked
  refine ⟨?_, ?_, ?_, ?_, ?_⟩
  · rw [total_accrued, total_accrued, total_accrued, ← hadd, Nat.add_assoc]
  · rw [queued_accrued, queued_accrued, queued_accrued, ← hadd]
    split
    · rw [Nat.add_assoc]
    · rfl
  · rw [lastUpdate_accrued, lastUpdate_accrued]
  -- without a stake neither raises the level; with one, two quotients stand against one
  all_goals
    simp only [rewardPerToken_accrued, queued_accrued, ← hadd]
    rcases Nat.eq_zero_or_pos totalStaked with rfl | h0
    · simp
    · simp only [if_neg h0.ne', Nat.add_zero, Nat.add_right_comm (r.emission s),
        Nat.add_mul (r.emission s + r.queued), Nat.add_div h0]
      split <;> omega

theorem accrue_on_way {s t : ℕ} (h : r.accrue totalStaked t = .ok r') (hs : r.lastUpdate ≤ s)
    (hst : s ≤ t) : r.accrue totalStaked s = .ok (r.accrued totalStaked s) := by
  obtain ⟨t', ht, rfl, -, hspan, hrate, hstaked, htotal, hroom⟩ := accrue_eq_ok.1 h
  obtain rfl : t = t' := by simpa using ht
  have hle := r.emission_mono hst
  have hlags := lags_accrued hs hst totalStaked
  have hlevel := (rewardPerToken_le_accrued (r.accrued totalStaked s) totalStaked t).trans
    hlags.level_le
  refine accrue_eq_ok.2 ⟨s, rfl, rfl, hs, (Nat.sub_le_sub_right hst _).trans hspan, hrate, hstaked,
    ?_, ?_⟩
  · rw [total_accrued] at htotal ⊢
    omega
  · rw [queued_accrued] at hroom ⊢
    split
    · rw [if_pos ‹_›, if_pos ‹_›] at hroom
      omega
    · rw [if_neg ‹_›] at hroom
      omega

theorem accrue_rest {s t : ℕ} (h : r.accrue totalStaked t = .ok r') (hs : r.lastUpdate ≤ s)
    (hst : s ≤ t) : (r.accrued totalStaked s).accrue totalStaked t =
      .ok ((r.accrued totalStaked s).accrued totalStaked t) := by
  obtain ⟨t', ht, rfl, -, hspan, hrate, hstaked, htotal, hroom⟩ := accrue_eq_ok.1 h
  obtain rfl : t = t' := by simpa using ht
  have hadd := emission_add hs hst totalStaked
  have hlags := lags_accrued hs hst totalStaked
  refine accrue_eq_ok.2 ⟨t, rfl, rfl, ?_, ?_, ?_, hstaked, hlags.total_eq.trans_le htotal, ?_⟩
  · rwa [lastUpdate_accrued]
  · rw [lastUpdate_accrued]
    omega
  · rwa [rate_accrued]
  · rw [hlags.queued_eq]
    split
    · rwa [if_pos ‹_›] at hroom
    · rw [if_neg ‹_›] at hroom
      rw [queued_accrued, if_neg ‹_›]
      exact ⟨by omega, hlags.level_le.trans hroom.2⟩

/-- An accumulator that can be accrued can also be accrued on the way there. -/
theorem accrue_between {s t : ℤ} (h : r.accrue totalStaked t = .ok r')
    (hs : (r.lastUpdate : ℤ) ≤ s) (hst : s ≤ t) : ∃ m m', r.accrue totalStaked s = .ok m ∧
      m.accrue totalStaked t = .ok m' ∧ r.rewardPerToken ≤ m.rewardPerToken ∧
      m.rewardPerToken ≤ m'.rewardPerToken ∧ r'.Lags m' 1 := by
  obtain ⟨t, ht, hr', -⟩ := accrue_eq_ok.1 h
  obtain rfl := Operand.int.inj ht
  obtain ⟨s, rfl⟩ := Int.eq_ofNat_of_zero_le ((Int.natCast_nonneg _).trans hs)
  have hs : r.lastUpdate ≤ s := Int.ofNat_le.1 hs
  have hst : s ≤ t := Int.ofNat_le.1 hst
  refine ⟨_, _, accrue_on_way h hs hst, accrue_rest h hs hst, rewardPerToken_le_accrued _ _ _,
    rewardPerToken_le_accrued _ _ _, ?_⟩
  rw [hr']
  exact lags_accrued hs hst totalStaked

/-- What a settlement on the way leaves of one token: the seat `a` becomes `b` there, and at the end it
is still owed what it was, but for the dust of one settlement. -/
theorem accrue_settled {s t : ℤ} {a b : Seat} {o : RewardPool} {e : ℕ}
    (h : r.accrue totalStaked t = .ok r')
    (ha : a.checkpoint.earned a.staked r'.rewardPerToken = .ok e)
    (ho : r.accrue totalStaked s = .ok o) (hst : s ≤ t)
    (hb : a.checkpoint.settle a.staked o.rewardPerToken = .ok b.checkpoint)
    (hstaked : b.staked = a.staked) : ∃ o', o.accrue totalStaked t = .ok o' ∧
      (∃ e', b.checkpoint.earned b.staked o'.rewardPerToken = .ok e') ∧ r'.Lags o' 1 ∧
      b.owed o'.rewardPerToken ≤ a.owed r'.rewardPerToken ∧
      a.owed r'.rewardPerToken ≤ b.owed o'.rewardPerToken + (precision + a.staked) := by
  obtain ⟨hs, hlast, -, hfrom, -⟩ := accrue_eq_ok.1 ho
  obtain rfl := Operand.int.inj hlast
  obtain ⟨o₁, o', ho₁, ho', -, hraised, hlags⟩ := accrue_between h (Int.ofNat_le.2 hfrom) hst
  obtain rfl : o = o₁ := Except.ok.inj (ho.symm.trans ho₁)
  obtain ⟨hle, hge⟩ := Seat.owed_settled hb hstaked hraised hlags.level_le hlags.le_level
  have hpaid := (Checkpoint.settle_eq_ok.1 hb).2
  exact ⟨o', ho', Seat.earned_of_owed_le ha hlags.level_le hstaked (hpaid.trans_le hraised) hle,
    hlags, hle, hge⟩

end RewardPool

namespace StakingPool

/-- The user is settled at one time after the other. -/
def updateEach (p : StakingPool) (u : UserStake) : List ℤ → Except Fault (StakingPool × UserStake)
  | [] => pure (p, u)
  | s :: times => do
    let (p, u) ← p.update u s
    p.updateEach u times

/-- The pools `p` and `q` have both accrued every token. At `q` the user has been settled `n` times on
the way and is `v` there, where at `p` it is still `u`. -/
structure Trails (p q : StakingPool) (u v : UserStake) (n : ℕ) : Prop where
  names_eq : q.rewardPools.names = p.rewardPools.names
  staked_eq : v.staked = u.staked
  get? : ∀ {k r}, p.rewardPools.get? k = some r → ∃ s, q.rewardPools.get? k = some s ∧
    r.Lags s n ∧ (v.seat k).owed s.rewardPerToken ≤ (u.seat k).owed r.rewardPerToken ∧
      (u.seat k).owed r.rewardPerToken ≤
        (v.seat k).owed s.rewardPerToken + n * (precision + u.staked)

variable {p p' q q' o : StakingPool} {u v w : UserStake} {amounts : Table ℕ} {s t : ℤ} {m n : ℕ}
  {times : List ℤ}

theorem Trails.rfl : Trails p p u u 0 :=
  ⟨.refl _, .refl _, fun hr => ⟨_, hr, .rfl, le_rfl, Nat.le_add_right _ _⟩⟩

theorem Trails.trans (h : Trails p q u v m) (h' : Trails q o v w n) : Trails p o u w (m + n) where
  names_eq := h'.names_eq.trans h.names_eq
  staked_eq := h'.staked_eq.trans h.staked_eq
  get? := by
    intro k r hr
    obtain ⟨r', hr', hlags, hle, hge⟩ := h.get? hr
    obtain ⟨r'', hr'', hlags', hle', hge'⟩ := h'.get? hr'
    refine ⟨r'', hr'', hlags.trans hlags', hle'.trans hle, ?_⟩
    rw [h.staked_eq] at hge'
    rw [Nat.add_mul]
    omega

theorem within_of_update {now : Operand} (h : p.update u now = .ok (q, v)) : v.Within q := by
  intro k r' hr'
  obtain ⟨r, -, -, hsettle⟩ := registered_of_update h hr'
  exact (Checkpoint.settle_eq_ok.1 hsettle).2.le

theorem lastUpdate_of_update (h : p.update u s = .ok (q, v)) {k : Key} {o : RewardPool}
    (ho : q.rewardPools.get? k = some o) : (o.lastUpdate : ℤ) = s := by
  obtain ⟨r, -, hacc, -⟩ := registered_of_update h ho
  exact (Operand.int.inj (RewardPool.lastUpdate_of_accrue hacc)).symm

/-- A settlement on the way goes through: no level is higher there than at the end. -/
theorem update_on_way (hu : u.Within p) (h : p.pendingRewards u t = .ok amounts)
    (hfrom : ∀ k r, p.rewardPools.get? k = some r → (r.lastUpdate : ℤ) ≤ s) (hst : s ≤ t) :
    ∃ q v, p.update u s = .ok (q, v) := by
  apply update_succeeds
  intro k r hr
  obtain ⟨n, hn, -⟩ := (pendingRewards_eq_ok.1 h).2 k r hr
  obtain ⟨r', hacc, hearned⟩ := RewardPool.due_eq_ok.1 hn
  obtain ⟨o, o', ho, -, hraised, hraised', hlags⟩ :=
    RewardPool.accrue_between hacc (hfrom k r hr) hst
  have hlevel := hraised'.trans hlags.level_le
  rw [RewardPool.due_of_ok ho]
  exact Seat.earned_of_owed_le (a := u.seat k) (b := u.seat k) hearned hlevel rfl
    ((hu k r hr).trans hraised) ((u.seat k).owed_mono hlevel)

/-- After it every token can still say at the end what it owes. -/
theorem pendingRewards_after_update (h : p.pendingRewards u t = .ok amounts)
    (hupdate : p.update u s = .ok (q, v)) (hst : s ≤ t) :
    ∃ rest, q.pendingRewards v t = .ok rest := by
  apply pendingRewards_succeeds
  intro k o ho
  obtain ⟨r, hr, hacc, hsettle⟩ := registered_of_update hupdate ho
  obtain ⟨n, hn, -⟩ := (pendingRewards_eq_ok.1 h).2 k r hr
  obtain ⟨r', hacc', hearned⟩ := RewardPool.due_eq_ok.1 hn
  obtain ⟨o', ho', hn', -⟩ := RewardPool.accrue_settled (a := u.seat k) (b := v.seat k) hacc'
    hearned hacc hst hsettle (staked_of_update hupdate)
  rw [totalStaked_of_update hupdate, RewardPool.due_of_ok ho']
  exact hn'

theorem trails_of_update (h : p.pendingRewards u t = .ok amounts)
    (hupdate : p.update u s = .ok (q, v)) (hst : s ≤ t)
    (ha : p.accrue p.rewardPools.domain t = .ok p')
    (ha' : q.accrue q.rewardPools.domain t = .ok q') : Trails p' q' u v 1 where
  names_eq := by
    rw [names_of_accrue ha', names_of_accrue ha, (refreshed_of_update hupdate).names_eq]
  staked_eq := staked_of_update hupdate
  get? := by
    intro k r' hr'
    obtain ⟨n, hearned, -⟩ := earned_of_pendingRewards h ha hr'
    obtain ⟨r, hr⟩ := Table.exists_get?_of_names_eq (names_of_accrue ha) hr'
    obtain ⟨r₁, hr₁, hacc⟩ := get?_accrue ha hr
    obtain rfl : r' = r₁ := Option.some.inj (hr'.symm.trans hr₁)
    rw [if_pos (Table.contains_domain_of_get? hr)] at hacc
    obtain ⟨o, ho, hacc', hsettle⟩ := get?_of_update hupdate hr
    obtain ⟨o₁, ho₁, hacc₁⟩ := get?_accrue ha' ho
    rw [if_pos (Table.contains_domain_of_get? ho), totalStaked_of_update hupdate] at hacc₁
    obtain ⟨o', ho', -, hlags, hle, hge⟩ := RewardPool.accrue_settled (a := u.seat k)
      (b := v.seat k) hacc hearned hacc' hst hsettle (staked_of_update hupdate)
    obtain rfl : o₁ = o' := Except.ok.inj (hacc₁.symm.trans ho')
    exact ⟨o₁, ho₁, hlags, hle, by rwa [Nat.one_mul]⟩

/-- Settlements on the way all go through, and each of them leaves the user trailing by one more. -/
theorem updateEach_on_way (hu : u.Within p) (h : p.pendingRewards u t = .ok amounts)
    (ha : p.accrue p.rewardPools.domain t = .ok p') (htimes : (times ++ [t]).Pairwise (· ≤ ·))
    (hfrom : ∀ first ∈ times.head?, ∀ k r, p.rewardPools.get? k = some r →
      (r.lastUpdate : ℤ) ≤ first) :
    ∃ q v rest q', p.updateEach u times = .ok (q, v) ∧ q.pendingRewards v t = .ok rest ∧
      q.accrue q.rewardPools.domain t = .ok q' ∧ Trails p' q' u v times.length := by
  induction times generalizing p p' u amounts with
  | nil => exact ⟨p, u, amounts, p', rfl, h, ha, .rfl⟩
  | cons s times ih =>
    obtain ⟨hlater, htimes⟩ := List.pairwise_cons.1 htimes
    have hst : s ≤ t := hlater t (by simp)
    obtain ⟨o, w, hupdate⟩ := update_on_way hu h (hfrom s rfl) hst
    obtain ⟨amounts', h'⟩ := pendingRewards_after_update h hupdate hst
    obtain ⟨o', ho', -⟩ := bind_eq_ok.1 h'
    obtain ⟨q, v, rest, q', hrun, hrest, hq', htrails⟩ := ih (within_of_update hupdate) h' ho' htimes
      fun first hfirst k r hr => by
        rw [lastUpdate_of_update hupdate hr]
        exact hlater first (List.mem_append_left _ (List.mem_of_mem_head? hfirst))
    refine ⟨q, v, rest, q', ?_, hrest, hq', ?_⟩
    · rw [updateEach, hupdate, ok_bind]
      exact hrun
    · rw [List.length_cons, Nat.add_comm]
      exact (trails_of_update h hupdate hst ha ho').trans htrails

/-- Settlements in between, from the last accrual on, all go through. At the end the user is owed no more
than without them, and less by at most the dust of these settlements; an accumulator stands as it would
have without them, but for a level that is behind by at most one unit for each. -/
theorem interim_updates_lose_dust (hu : u.Within p) (h : p.pendingRewards u t = .ok amounts)
    (htimes : (times ++ [t]).Pairwise (· ≤ ·))
    (hfrom : ∀ first ∈ times.head?, ∀ k r, p.rewardPools.get? k = some r →
      (r.lastUpdate : ℤ) ≤ first) :
    ∃ q v rest, p.updateEach u times = .ok (q, v) ∧ q.pendingRewards v t = .ok rest ∧
      rest.names = amounts.names ∧
      (∀ k n, amounts.get? k = some n → ∃ n', rest.get? k = some n' ∧ n' ≤ n ∧
        n ≤ n' + times.length + 1 + times.length * u.staked / precision) ∧
      ∃ p' q', p.accrue p.rewardPools.domain t = .ok p' ∧
        q.accrue q.rewardPools.domain t = .ok q' ∧ q'.rewardPools.names = p'.rewardPools.names ∧
        ∀ k r, p'.rewardPools.get? k = some r → ∃ s, q'.rewardPools.get? k = some s ∧
          s.total = r.total ∧ s.queued = r.queued ∧ s.lastUpdate = r.lastUpdate ∧
          s.rewardPerToken ≤ r.rewardPerToken ∧
          r.rewardPerToken ≤ s.rewardPerToken + times.length := by
  obtain ⟨p', ha, hview⟩ := bind_eq_ok.1 h
  obtain ⟨q, v, rest, q', hrun, hrest, ha', htrails⟩ := updateEach_on_way hu h ha htimes hfrom
  have hnames := htrails.names_eq
  have hnames' : rest.names = amounts.names := by
    rw [(pendingRewards_eq_ok.1 hrest).1, (pendingRewards_eq_ok.1 h).1, ← names_of_accrue ha',
      ← names_of_accrue ha, hnames]
  refine ⟨q, v, rest, hrun, hrest, hnames', ?_, p', q', ha, ha', hnames, ?_⟩
  · intro k n hn
    obtain ⟨r, hr⟩ := Table.exists_get?_of_names_eq (Table.names_of_traverse hview) hn
    obtain ⟨m, hm, hget⟩ := earned_of_pendingRewards h ha hr
    obtain rfl : m = n := Option.some.inj (hget.symm.trans hn)
    obtain ⟨s, hs, -, hle, hge⟩ := htrails.get? hr
    obtain ⟨n', hn', hget'⟩ := earned_of_pendingRewards hrest ha' hs
    exact ⟨n', hget', Seat.earned_bounds (a := u.seat k) (b := v.seat k) hm hn' hle hge⟩
  · intro k r hr
    obtain ⟨s, hs, hlags, -, -⟩ := htrails.get? hr
    exact ⟨s, hs, hlags.total_eq, hlags.queued_eq, hlags.lastUpdate_eq, hlags.level_le,
      hlags.le_level⟩

theorem interim_updates_lose_dust_thrice :
    let p : StakingPool :=
      { stakingToken := "S"
        totalStaked := 7
        rewardPools := .ofList [("S", { lastUpdate := 3, rate := 5 }),
          ("R", { rewardPerToken := 2 * precision, lastUpdate := 3, rate := 8, queued := 20 })] }
    let u : UserStake := { staked := 3, checkpoints := .ofList [("R", ⟨precision, 4⟩)] }
    let times : List ℤ := [4, 4, 6]
    u.Within p ∧ p.pendingRewards u 9 = .ok (.ofList [("R", 36), ("S", 12)]) ∧
      (times ++ [9]).Pairwise (· ≤ ·) ∧
      (∀ first ∈ times.head?, ∀ k r, p.rewardPools.get? k = some r → (r.lastUpdate : ℤ) ≤ first) ∧
      ∃ q v rest, p.updateEach u times = .ok (q, v) ∧ q.pendingRewards v 9 = .ok rest ∧
        rest = .ofList [("R", 35), ("S", 12)] ∧ ∃ n, rest.get? (.text "R") = some n ∧ n ≤ 36 ∧
          36 ≤ n + 3 + 1 + 3 * 3 / precision := by
  intro p u times
  have htokens : ∀ k ∈ p.rewardPools.keys, ∀ r ∈ p.rewardPools.get? k,
      (u.checkpoint k).paid ≤ r.rewardPerToken ∧ r.lastUpdate = 3 := by decide
  have htoken : ∀ k r, p.rewardPools.get? k = some r →
      (u.checkpoint k).paid ≤ r.rewardPerToken ∧ r.lastUpdate = 3 :=
    fun k r hr => htokens k (Table.mem_keys_iff.2 ⟨r, hr⟩) r hr
  have hwithin : u.Within p := fun k r hr => (htoken k r hr).1
  have hview : p.pendingRewards u 9 = .ok (.ofList [("R", 36), ("S", 12)]) := by decide +kernel
  have htimes : (times ++ [9]).Pairwise (· ≤ ·) := by decide
  have hfrom : ∀ first ∈ times.head?, ∀ k r, p.rewardPools.get? k = some r →
      (r.lastUpdate : ℤ) ≤ first := by
    intro first hfirst k r hr
    obtain rfl : 4 = first := Option.some.inj hfirst
    rw [(htoken k r hr).2]
    decide
  have hrun : (do let (q, v) ← p.updateEach u times; q.pendingRewards v 9) =
      .ok (.ofList [("R", 35), ("S", 12)]) := by decide +kernel
  obtain ⟨q, v, rest, hqv, hrest, -, hdust, -⟩ :=
    interim_updates_lose_dust (t := 9) hwithin hview htimes hfrom
  rw [hqv, ok_bind] at hrun
  exact ⟨hwithin, hview, htimes, hfrom, q, v, rest, hqv, hrest,
    Except.ok.inj (hrest.symm.trans hrun), hdust (.text "R") 36 (by decide)⟩

end StakingPool

end Staking

end PoolAccounting
