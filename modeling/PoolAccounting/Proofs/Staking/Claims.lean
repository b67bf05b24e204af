import Mathlib
import PoolAccounting.Proofs.Staking.CaughtUp

/-!
What claims pay. A claim for every token pays what the view of the pending rewards shows, and is
refused with the same fault as the view. A claim for a list of tokens pays each of them once, however
often it is listed, and leaves the other tokens alone; so two claims at one time come to the same as
one claim for both lists.
-/
namespace PoolAccounting.Staking

open Amount

/-- A settlement accrues what is shown as earned, and is refused where that is. -/
theorem Checkpoint.accrued_settle (c : Checkpoint) (staked rewardPerToken : ℕ) :
    Checkpoint.accrued <$> c.settle staked rewardPerToken = c.earned staked rewardPerToken := by
  rw [settle]
  cases c.earned staked rewardPerToken with
  | error f => rfl
  | ok e =>
    rw [ok_bind, Operand.field_natCast]
    rfl

/-- A claim for the tokens that are named by these texts. -/
def TokenChoice.texts (names : List String) : TokenChoice := .listed (names.map .text)

namespace StakingPool

variable {p q : StakingPool} {u v w : UserStake} {chosen : Table Unit} {now : Operand}
  {choice choice' choice'' : TokenChoice} {c d e : ClaimResult} {k : Key} {r r' : RewardPool}

theorem exists_time_of_accrue_all (h : p.accrue p.rewardPools.domain now = .ok q)
    (htokens : p.rewardTokens ≠ []) : ∃ t : ℕ, now = t := by
  obtain ⟨name, hname⟩ := List.exists_mem_of_ne_nil _ htokens
  have hkey : name.key ∈ p.rewardPools.keys := List.mem_map_of_mem hname
  obtain ⟨r, hr⟩ := Table.mem_keys_iff.1 hkey
  obtain ⟨r', hacc⟩ := accrue_all_iff.1 ⟨q, h⟩ _ r hr
  obtain ⟨t, ht, -⟩ := RewardPool.accrue_eq_ok.1 hacc
  exact ⟨t, ht⟩

/-- Claiming every token and viewing what they owe are one computation. -/
theorem claimed_claim_all (htokens : p.rewardTokens ≠ []) (u : UserStake) (now : Operand) :
    ClaimResult.claimed <$> p.claim u now .all = p.pendingRewards u now := by
  have hall : p.resolve .all = .ok p.rewardPools.domain := rfl
  rw [claim, pendingRewards, hall, ok_bind]
  cases ha : p.accrue p.rewardPools.domain now with
  | error f => rfl
  | ok q =>
    obtain ⟨t, rfl⟩ := exists_time_of_accrue_all ha htokens
    have hview : Table.map Checkpoint.accrued <$> q.settled p.rewardPools.domain u =
        q.rewardPools.traverse fun k r => (u.checkpoint k).earned u.staked r.rewardPerToken := by
      rw [settled, ← Table.domain_eq_of_names_eq (names_of_accrue ha), Table.restrict_domain,
        Table.map_traverse]
      simp only [Checkpoint.accrued_settle]
    rw [ok_bind, ok_bind, ← hview]
    cases q.settled p.rewardPools.domain u with
    | error f => rfl
    | ok settled =>
      rw [ok_bind, Operand.field_natCast]
      rfl

/-- A token that a claim is for is paid what it owes. -/
theorem due_of_claim (h : p.claim u now choice = .ok c) (hk : choice.covers k = true)
    (hr : p.rewardPools.get? k = some r) : ∃ n,
      r.due (u.checkpoint k) u.staked p.totalStaked now = .ok n ∧ c.claimed.get? k = some n := by
  obtain ⟨r', n, hacc, hearned, -, -, hpaid⟩ := get?_of_claim h hk hr
  exact ⟨n, RewardPool.due_eq_ok.2 ⟨r', hacc, hearned⟩, hpaid⟩

/-- A claim goes through just if it is for registered tokens, at a point in time, and every one of
these tokens can say what it owes. -/
theorem claim_succeeds_iff : (∃ c, p.claim u now choice = .ok c) ↔
    (∃ chosen, p.resolve choice = .ok chosen) ∧ (∃ t : ℕ, now = t) ∧
      ∀ k r, choice.covers k = true → p.rewardPools.get? k = some r →
        ∃ n, r.due (u.checkpoint k) u.staked p.totalStaked now = .ok n := by
  constructor
  · rintro ⟨c, h⟩
    obtain ⟨chosen, q, settled, t, hc, -, -, ht, -⟩ := claim_eq_ok.1 h
    refine ⟨⟨chosen, hc⟩, ⟨t, Operand.field_eq_ok.1 ht⟩, fun k r hk hr => ?_⟩
    obtain ⟨n, hn, -⟩ := due_of_claim h hk hr
    exact ⟨n, hn⟩
  · rintro ⟨⟨chosen, hc⟩, ⟨t, rfl⟩, hdue⟩
    have hcovers : ∀ k r, chosen.contains k = true → p.rewardPools.get? k = some r →
        choice.covers k = true := by
      intro k r hk hr
      rwa [← contains_of_resolve hc (Table.contains_of_get? hr)]
    obtain ⟨q, ha⟩ : ∃ q, p.accrue chosen t = .ok q := by
      apply accrue_succeeds
      intro k r hk hr
      obtain ⟨n, hn⟩ := hdue k r (hcovers k r hk hr) hr
      obtain ⟨r', hacc, -⟩ := RewardPool.due_eq_ok.1 hn
      exact ⟨r', hacc⟩
    obtain ⟨settled, hs⟩ := settled_succeeds ha fun k r hk hr => hdue k r (hcovers k r hk hr) hr
    exact ⟨_, claim_eq_ok.2 ⟨chosen, q, settled, t, hc, ha, hs, Operand.field_natCast _ t, rfl⟩⟩

/-- After a claim its tokens owe nothing, and the others what they owed before. -/
theorem due_after_claim (h : p.claim u now choice = .ok c) (hr : p.rewardPools.get? k = some r)
    (hr' : c.pool.rewardPools.get? k = some r') :
    r'.due (c.user.checkpoint k) c.user.staked c.pool.totalStaked now =
      if choice.covers k then .ok 0 else r.due (u.checkpoint k) u.staked p.totalStaked now := by
  rw [staked_of_claim h, totalStaked_of_claim h, UserStake.checkpoint]
  split
  · obtain ⟨s, n, hacc, hearned, hs, hcheckpoint, -⟩ := get?_of_claim h ‹_› hr
    obtain rfl : s = r' := Option.some.inj (hs.symm.trans hr')
    obtain ⟨-, hlevel, hstaked, -⟩ := Checkpoint.earned_eq_ok.1 hearned
    rw [hcheckpoint, RewardPool.due_of_ok (RewardPool.accrue_same hacc)]
    exact Checkpoint.earned_of_settled hlevel hstaked (Nat.zero_le _)
  · obtain ⟨hpool, hcheckpoint, -⟩ := get?_of_claim_other h (.inl (eq_false_of_ne_true ‹_›))
    rw [hpool, hr] at hr'
    rw [hcheckpoint, Option.some.inj hr']
    rfl

theorem names_of_claim (h : p.claim u now choice = .ok c) :
    c.pool.rewardPools.names = p.rewardPools.names := (caughtUp_of_claim h).names_eq

/-- Two claims at one time make the pool that one claim for the tokens of both makes. -/
theorem pool_of_claims (hc : p.claim u now choice = .ok c)
    (hd : c.pool.claim v now choice' = .ok d) (he : p.claim w now choice'' = .ok e)
    (hcovers : ∀ k, choice''.covers k = (choice.covers k || choice'.covers k)) :
    d.pool = e.pool := by
  have hboth := (caughtUp_of_claim hc).trans (caughtUp_of_claim hd) (.inr (totalStaked_of_claim hc))
  apply (caughtUp_of_claim he).pool_eq (hboth.congr fun k _ => hcovers k)
  rw [totalStaked_of_claim hd, totalStaked_of_claim hc, totalStaked_of_claim he]

/-- A claim that is made again at the same time goes through and finds nothing. -/
theorem claim_again (h : p.claim u now choice = .ok c) : ∃ d,
    c.pool.claim c.user now choice = .ok d ∧ d.pool = c.pool ∧
      d.claimed = c.claimed.map fun _ => 0 := by
  obtain ⟨⟨chosen, hchosen⟩, htime, -⟩ := claim_succeeds_iff.1 ⟨c, h⟩
  have hnames := names_of_claim h
  have hchosen' : c.pool.resolve choice = .ok chosen := by
    rw [resolve_eq_of_names_eq hnames, hchosen]
  have hdue : ∀ k r', choice.covers k = true → c.pool.rewardPools.get? k = some r' →
      r'.due (c.user.checkpoint k) c.user.staked c.pool.totalStaked now = .ok 0 := by
    intro k r' hk hr'
    obtain ⟨r, hr⟩ := Table.exists_get?_of_names_eq hnames hr'
    rw [due_after_claim h hr hr', if_pos hk]
  obtain ⟨d, hd⟩ := claim_succeeds_iff.2
    ⟨⟨chosen, hchosen'⟩, htime, fun k r' hk hr' => ⟨0, hdue k r' hk hr'⟩⟩
  refine ⟨d, hd, pool_of_claims h hd h fun k => (Bool.or_self _).symm, ?_⟩
  have hnamesClaimed : d.claimed.names = c.claimed.names := by
    rw [names_claimed hchosen' hd, names_claimed hchosen h]
  apply Table.ext_of_names_eq
  · rw [hnamesClaimed, Table.names_map]
  · intro k
    rw [Table.get?_map]
    by_cases hk : choice.covers k = true ∧ p.rewardPools.contains k = true
    · obtain ⟨r, hr⟩ := Option.isSome_iff_exists.1 hk.2
      obtain ⟨r', n, -, -, hr', -, hpaid⟩ := get?_of_claim h hk.1 hr
      obtain ⟨m, hm, hpaid'⟩ := due_of_claim hd hk.1 hr'
      rw [hdue k r' hk.1 hr'] at hm
      rw [hpaid, hpaid', ← Except.ok.inj hm]
      rfl
    · have hother : choice.covers k = false ∨ p.rewardPools.get? k = none := by
        rw [← Table.contains_eq_false_iff, ← Bool.not_eq_true, ← Bool.not_eq_true]
        exact not_and_or.1 hk
      have hother' : choice.covers k = false ∨ c.pool.rewardPools.get? k = none := by
        rwa [(get?_of_claim_other h hother).1]
      rw [(get?_of_claim_other h hother).2.2, (get?_of_claim_other hd hother').2.2]
      rfl

/-- A claim for every token is refused where the view of the pending rewards is, and with the same
fault. Where it goes through it pays what the view shows, leaves nothing accrued at a reward token, and
a second one at the same time leaves the pool alone and pays nothing. -/
theorem claim_pays_view (htokens : p.rewardTokens ≠ []) (u : UserStake) (now : Operand) :
    ClaimResult.claimed <$> p.claim u now .all = p.pendingRewards u now ∧
      ∀ c, p.claim u now .all = .ok c →
        (∀ k, c.pool.rewardPools.contains k = true → (c.user.checkpoint k).accrued = 0) ∧
        ∃ d, c.pool.claim c.user now .all = .ok d ∧ d.pool = c.pool ∧
          d.claimed = c.claimed.map fun _ => 0 := by
  refine ⟨claimed_claim_all htokens u now, fun c h => ⟨fun k hk => ?_, claim_again h⟩⟩
  rw [Table.contains_eq_of_names_eq (names_of_claim h)] at hk
  obtain ⟨r, hr⟩ := Option.isSome_iff_exists.1 hk
  obtain ⟨r', n, -, -, -, hcheckpoint, -⟩ := get?_of_claim h rfl hr
  rw [UserStake.checkpoint, hcheckpoint]
  rfl

theorem claim_pays_view_unsettled :
    let p : StakingPool :=
      { stakingToken := "S"
        totalStaked := 70
        rewardPools := .ofList [("S", { lastUpdate := 3, rate := 5 }),
          ("R", { rewardPerToken := 2 * precision, lastUpdate := 3, rate := 7, queued := 20 })] }
    let u : UserStake := { staked := 30, checkpoints := .ofList [("S", ⟨0, 4⟩)] }
    p.rewardTokens ≠ [] ∧
      ClaimResult.claimed <$> p.claim u 2 .all = .error (.clockBackwards 2 3) ∧
      p.pendingRewards u 8 = .ok (.ofList [("R", 83), ("S", 14)]) ∧
      ∃ c, p.claim u 8 .all = .ok c ∧ c.claimed = .ofList [("R", 83), ("S", 14)] ∧
        (c.user.checkpoint (.text "R")).accrued = 0 ∧
        ∃ d, c.pool.claim c.user 8 .all = .ok d ∧ d.pool = c.pool ∧
          d.claimed = c.claimed.map fun _ => 0 := by
  intro p u
  have htokens : p.rewardTokens ≠ [] := by decide
  have hearly : p.pendingRewards u 2 = .error (.clockBackwards 2 3) := by decide +kernel
  have hview : p.pendingRewards u 8 = .ok (.ofList [("R", 83), ("S", 14)]) := by decide +kernel
  obtain ⟨heq, hpaid⟩ := claim_pays_view htokens u 8
  obtain ⟨c, hc, hclaimed⟩ := map_eq_ok.1 (heq.trans hview)
  obtain ⟨haccrued, hagain⟩ := hpaid c hc
  have hregistered : c.pool.rewardPools.contains (.text "R") = true := by
    rw [Table.contains_eq_of_names_eq (names_of_claim hc)]
    decide
  exact ⟨htokens, (claim_pays_view htokens u 2).1.trans hearly, hview, c, hc, hclaimed,
    haccrued _ hregistered, hagain⟩

variable {s t : List Scalar}

theorem covers_append (k : Key) : (TokenChoice.listed (s ++ t)).covers k =
    ((TokenChoice.listed s).covers k || (TokenChoice.listed t).covers k) := List.any_append

theorem resolve_listed_iff : (∃ chosen, p.resolve (.listed s) = .ok chosen) ↔
    ∀ k, (TokenChoice.listed s).covers k = true → p.rewardPools.contains k = true := by
  simp only [resolve_listed_eq_ok, Table.contains_ofNames]
  exact ⟨fun ⟨_, h, _⟩ => h, fun h => ⟨_, h, rfl⟩⟩

theorem claim_append_iff : (∃ e, p.claim u now (.listed (s ++ t)) = .ok e) ↔
    ∃ c d, p.claim u now (.listed s) = .ok c ∧ c.pool.claim c.user now (.listed t) = .ok d := by
  constructor
  · intro he
    obtain ⟨hknown, htime, hdue⟩ := claim_succeeds_iff.1 he
    rw [resolve_listed_iff] at hknown
    simp only [covers_append, Bool.or_eq_true] at hknown hdue
    obtain ⟨c, hc⟩ := claim_succeeds_iff.2 ⟨resolve_listed_iff.2 fun k hk => hknown k (.inl hk),
      htime, fun k r hk hr => hdue k r (.inl hk) hr⟩
    have hnames := names_of_claim hc
    obtain ⟨d, hd⟩ : ∃ d, c.pool.claim c.user now (.listed t) = .ok d := by
      refine claim_succeeds_iff.2 ⟨resolve_listed_iff.2 fun k hk => ?_, htime, fun k r' hk hr' => ?_⟩
      · rw [Table.contains_eq_of_names_eq hnames]
        exact hknown k (.inr hk)
      · obtain ⟨r, hr⟩ := Table.exists_get?_of_names_eq hnames hr'
        rw [due_after_claim hc hr hr']
        split
        · exact ⟨0, rfl⟩
        · exact hdue k r (.inr hk) hr
    exact ⟨c, d, hc, hd⟩
  · rintro ⟨c, d, hc, hd⟩
    obtain ⟨hknown, htime, hdue⟩ := claim_succeeds_iff.1 ⟨c, hc⟩
    obtain ⟨hknown', -, hdue'⟩ := claim_succeeds_iff.1 ⟨d, hd⟩
    have hnames := names_of_claim hc
    rw [resolve_listed_iff] at hknown hknown'
    refine claim_succeeds_iff.2 ⟨resolve_listed_iff.2 fun k hk => ?_, htime, fun k r hk hr => ?_⟩
    · rw [covers_append, Bool.or_eq_true] at hk
      rcases hk with hk | hk
      · exact hknown k hk
      · rw [← Table.contains_eq_of_names_eq hnames]
        exact hknown' k hk
    · rw [covers_append, Bool.or_eq_true] at hk
      cases hs : (TokenChoice.listed s).covers k with
      | true => exact hdue k r hs hr
      | false =>
        have hr' : c.pool.rewardPools.get? k = some r := by
          rw [(get?_of_claim_other hc (.inl hs)).1, hr]
        have hn := hdue' k r (hk.resolve_left (by simp [hs])) hr'
        rwa [due_after_claim hc hr hr', hs, if_neg Bool.false_ne_true] at hn

/-- What two claims at one time pay adds up to what one claim for both lists pays. -/
theorem claimed_append (hc : p.claim u now (.listed s) = .ok c)
    (hd : c.pool.claim c.user now (.listed t) = .ok d)
    (he : p.claim u now (.listed (s ++ t)) = .ok e) (k : Key) :
    (e.claimed.get? k).getD 0 = (c.claimed.get? k).getD 0 + (d.claimed.get? k).getD 0 := by
  have hcovers := covers_append (s := s) (t := t) k
  cases hr : p.rewardPools.get? k with
  | none =>
    obtain ⟨hr', -, hnone⟩ := get?_of_claim_other hc (.inr hr)
    rw [(get?_of_claim_other he (.inr hr)).2.2, hnone,
      (get?_of_claim_other hd (.inr (hr'.trans hr))).2.2]
    rfl
  | some r =>
    obtain ⟨r', hr'⟩ := Table.exists_get?_of_names_eq (names_of_claim hc).symm hr
    have hleft := due_after_claim hc hr hr'
    cases hs : (TokenChoice.listed s).covers k with
    | true =>
      rw [hs, Bool.true_or] at hcovers
      rw [hs, if_pos rfl] at hleft
      obtain ⟨n, hn, hpaid⟩ := due_of_claim hc hs hr
      obtain ⟨m, hm, hpaid'⟩ := due_of_claim he hcovers hr
      obtain rfl : n = m := Except.ok.inj (hn.symm.trans hm)
      rw [hpaid, hpaid']
      -- the second claim finds nothing left, whether it is for the token or not
      cases ht : (TokenChoice.listed t).covers k with
      | true =>
        obtain ⟨l, hl, hpaid''⟩ := due_of_claim hd ht hr'
        rw [hpaid'', ← Except.ok.inj (hleft.symm.trans hl)]
        rfl
      | false =>
        rw [(get?_of_claim_other hd (.inl ht)).2.2]
        rfl
    | false =>
      rw [hs, Bool.false_or] at hcovers
      rw [hs, if_neg Bool.false_ne_true] at hleft
      rw [(get?_of_claim_other hc (.inl hs)).2.2, Option.getD_none, Nat.zero_add]
      cases ht : (TokenChoice.listed t).covers k with
      | true =>
        obtain ⟨n, hn, hpaid⟩ := due_of_claim hd ht hr'
        obtain ⟨m, hm, hpaid'⟩ := due_of_claim he (hcovers.trans ht) hr
        rw [hpaid, hpaid', Except.ok.inj (hm.symm.trans (hleft.symm.trans hn))]
      | false =>
        rw [(get?_of_claim_other hd (.inl ht)).2.2,
          (get?_of_claim_other he (.inl (hcovers.trans ht))).2.2]

/-- At a token that a claim is for, the checkpoint is at the level of the pool. -/
theorem get?_checkpoints_of_claim (h : p.claim u now choice = .ok c) (k : Key) :
    c.user.checkpoints.get? k =
      if choice.covers k && p.rewardPools.contains k then
        (c.pool.rewardPools.get? k).map fun r => ⟨r.rewardPerToken, 0⟩
      else u.checkpoints.get? k := by
  split
  · rename_i hk
    obtain ⟨hk, hregistered⟩ := Bool.and_eq_true_iff.1 hk
    obtain ⟨r, hr⟩ := Option.isSome_iff_exists.1 hregistered
    obtain ⟨r', n, -, -, hr', hcheckpoint, -⟩ := get?_of_claim h hk hr
    rw [hcheckpoint, hr']
    rfl
  · rename_i hk
    rw [Bool.and_eq_true, not_and_or, Bool.not_eq_true, Bool.not_eq_true,
      Table.contains_eq_false_iff] at hk
    exact (get?_of_claim_other h hk).2.1

theorem name?_checkpoints_of_claim (hchosen : p.resolve choice = .ok chosen)
    (h : p.claim u now choice = .ok c) (k : Key) :
    c.user.checkpoints.name? k = (u.checkpoints.name? k).or (chosen.name? k) := by
  obtain ⟨chosen', q, settled, t, hc, ha, hs, -, rfl⟩ := claim_eq_ok.1 h
  obtain rfl := Except.ok.inj (hchosen.symm.trans hc)
  rw [Table.name?_override, Table.name?_map,
    Table.name?_eq_of_names_eq (names_settled hchosen ha hs)]

theorem user_of_claim (h : p.claim u now choice = .ok c) : ∃ t : ℕ, now = t ∧
    c.user = { u with checkpoints := c.user.checkpoints, lastClaimTime := t } := by
  obtain ⟨chosen, q, settled, t, -, -, -, ht, rfl⟩ := claim_eq_ok.1 h
  exact ⟨t, Operand.field_eq_ok.1 ht, rfl⟩

theorem resolve_of_claim_listed (h : p.claim u now (.listed s) = .ok c) :
    p.resolve (.listed s) = .ok (Table.ofNames s) := by
  obtain ⟨chosen, q, settled, t, hc, -, -, -, -⟩ := claim_eq_ok.1 h
  obtain ⟨-, rfl⟩ := resolve_listed_eq_ok.1 hc
  exact hc

/-- Two claims at one time leave the user as one claim for both lists does. -/
theorem user_append (hc : p.claim u now (.listed s) = .ok c)
    (hd : c.pool.claim c.user now (.listed t) = .ok d)
    (he : p.claim u now (.listed (s ++ t)) = .ok e) : d.user = e.user := by
  have hpool : d.pool = e.pool := pool_of_claims hc hd he covers_append
  have hget : ∀ k, d.user.checkpoints.get? k = e.user.checkpoints.get? k := by
    intro k
    rw [get?_checkpoints_of_claim hd, get?_checkpoints_of_claim hc, get?_checkpoints_of_claim he,
      covers_append, ← hpool, Table.contains_eq_of_names_eq (names_of_claim hc)]
    cases ht : (TokenChoice.listed t).covers k with
    | true => cases (TokenChoice.listed s).covers k <;> cases p.rewardPools.contains k <;> rfl
    | false =>
      rw [(get?_of_claim_other hd (.inl ht)).1]
      cases (TokenChoice.listed s).covers k <;> cases p.rewardPools.contains k <;> rfl
  have hname : ∀ k, d.user.checkpoints.name? k = e.user.checkpoints.name? k := by
    intro k
    rw [name?_checkpoints_of_claim (resolve_of_claim_listed hd) hd,
      name?_checkpoints_of_claim (resolve_of_claim_listed hc) hc,
      name?_checkpoints_of_claim (resolve_of_claim_listed he) he, Table.name?_ofNames_append,
      Option.or_assoc]
  obtain ⟨a, rfl, hcuser⟩ := user_of_claim hc
  obtain ⟨b, hb, hduser⟩ := user_of_claim hd
  obtain ⟨b', hb', heuser⟩ := user_of_claim he
  obtain rfl : a = b := by simpa using hb
  obtain rfl : a = b' := by simpa using hb'
  rw [hduser, heuser, Table.ext_get? hget hname, hcuser]

theorem covers_texts {names : List String} {k : Key} :
    (TokenChoice.texts names).covers k = true ↔ ∃ x ∈ names, k = .text x := by
  rw [TokenChoice.texts, TokenChoice.covers, List.any_eq_true]
  constructor
  · rintro ⟨name, hname, hk⟩
    obtain ⟨x, hx, rfl⟩ := List.mem_map.1 hname
    exact ⟨x, hx, (of_decide_eq_true hk).symm⟩
  · rintro ⟨x, hx, rfl⟩
    exact ⟨.text x, List.mem_map_of_mem hx, decide_eq_true rfl⟩

theorem claim_texts_congr {names names' : List String} (h : ∀ x, x ∈ names' ↔ x ∈ names)
    (p : StakingPool) (u : UserStake) (now : Operand) :
    p.claim u now (.texts names') = p.claim u now (.texts names) := by
  simp only [claim, resolve, TokenChoice.texts, Table.ofNames_texts_congr h]

/-- Of a list of tokens only the set of them counts. Each is paid once what it owes, and a token that
is not in the list is left as it is. Two claims at one time go through just if one claim for both lists
does; they end in the same pool and user, and what they pay adds up to what the one claim pays. -/
theorem claims_decompose (p : StakingPool) (u : UserStake) (now : Operand) (s t : List String) :
    (∀ s', (∀ x, x ∈ s' ↔ x ∈ s) → p.claim u now (.texts s') = p.claim u now (.texts s)) ∧
    (∀ c, p.claim u now (.texts s) = .ok c →
      (∀ x ∈ s, ∃ r n, p.rewardPools.get? (.text x) = some r ∧
        r.due (u.checkpoint (.text x)) u.staked p.totalStaked now = .ok n ∧
        c.claimed.get? (.text x) = some n) ∧
      ∀ k, (¬∃ x ∈ s, k = .text x) → c.pool.rewardPools.get? k = p.rewardPools.get? k ∧
        c.user.checkpoints.get? k = u.checkpoints.get? k ∧ c.claimed.get? k = none) ∧
    ((∃ e, p.claim u now (.texts (s ++ t)) = .ok e) ↔
      ∃ c d, p.claim u now (.texts s) = .ok c ∧ c.pool.claim c.user now (.texts t) = .ok d) ∧
    ∀ c d e, p.claim u now (.texts s) = .ok c → c.pool.claim c.user now (.texts t) = .ok d →
      p.claim u now (.texts (s ++ t)) = .ok e → d.pool = e.pool ∧ d.user = e.user ∧
        ∀ k, (e.claimed.get? k).getD 0 =
          (c.claimed.get? k).getD 0 + (d.claimed.get? k).getD 0 := by
  have happend : TokenChoice.texts (s ++ t) = .listed (s.map .text ++ t.map .text) := by
    rw [TokenChoice.texts, List.map_append]
  refine ⟨fun s' hs => claim_texts_congr hs p u now, fun c hc => ⟨?_, ?_⟩, ?_, ?_⟩
  · intro x hx
    have hcovers : (TokenChoice.texts s).covers (.text x) = true := covers_texts.2 ⟨x, hx, rfl⟩
    have hknown := resolve_listed_iff.1 ⟨_, resolve_of_claim_listed hc⟩ _ hcovers
    obtain ⟨r, hr⟩ := Option.isSome_iff_exists.1 hknown
    obtain ⟨n, hn, hpaid⟩ := due_of_claim hc hcovers hr
    exact ⟨r, n, hr, hn, hpaid⟩
  · intro k hk
    exact get?_of_claim_other hc (.inl (eq_false_of_ne_true fun h => hk (covers_texts.1 h)))
  · rw [happend]
    exact claim_append_iff
  · intro c d e hc hd he
    rw [happend] at he
    exact ⟨pool_of_claims hc hd he covers_append, user_append hc hd he, claimed_append hc hd he⟩

theorem claims_decompose_overlap :
    let p : StakingPool :=
      { stakingToken := "S"
        totalStaked := 70
        rewardPools := .ofList [("S", { lastUpdate := 3, rate := 5 }),
          ("R", { rewardPerToken := 2 * precision, lastUpdate := 3, rate := 7, queued := 20 })] }
    let u : UserStake := { staked := 30, checkpoints := .ofList [("S", ⟨0, 4⟩)] }
    ∃ c d e, p.claim u 8 (.texts ["S", "S"]) = .ok c ∧
      c.pool.claim c.user 8 (.texts ["R", "S"]) = .ok d ∧
      p.claim u 8 (.texts ["S", "S", "R", "S"]) = .ok e ∧
      e.claimed = .ofList [("R", 83), ("S", 14)] ∧ d.pool = e.pool ∧ d.user = e.user ∧
      (e.claimed.get? (.text "S")).getD 0 =
        (c.claimed.get? (.text "S")).getD 0 + (d.claimed.get? (.text "S")).getD 0 := by
  intro p u
  have hboth : ClaimResult.claimed <$> p.claim u 8 (.texts ["S", "S", "R", "S"]) =
      .ok (.ofList [("R", 83), ("S", 14)]) := by decide +kernel
  obtain ⟨e, he, hclaimed⟩ := map_eq_ok.1 hboth
  obtain ⟨-, -, hiff, hsum⟩ := claims_decompose p u 8 ["S", "S"] ["R", "S"]
  obtain ⟨c, d, hc, hd⟩ := hiff.1 ⟨e, he⟩
  obtain ⟨hpool, huser, hpaid⟩ := hsum c d e hc hd he
  exact ⟨c, d, e, hc, hd, he, hclaimed, hpool, huser, hpaid _⟩

end StakingPool

end PoolAccounting.Staking
