import Mathlib
import PoolAccounting.Proofs.Ledger.Entitlement
import PoolAccounting.Proofs.Ledger.Solvency

/-!
What a user has been paid and could still claim of a token is the exact share in what was released,
less what the quotients round off. The accumulator loses less than one unit at a release, which
costs a user one part of the precision per staked unit; a settlement loses less than one unit of
the token.
-/
namespace PoolAccounting

open Staking Fees Amount

theorem Seat.lt_earned_succ {s : Seat} {level e : Nat}
    (h : s.checkpoint.earned s.staked level = .ok e) : s.owed level < precision * (e + 1) := by
  obtain ⟨-, -, -, rfl, -⟩ := Checkpoint.earned_eq_ok.1 h
  have hlt := Nat.lt_mul_div_succ (s.staked * (level - s.checkpoint.paid)) precision_pos
  rw [Seat.owed, Nat.add_assoc, Nat.mul_add]
  exact Nat.add_lt_add_left hlt _

namespace Column

variable {c d : Column} {user name : String} {m : Move} {s t : Seat} {p : Posting}
  {ps : List Posting} {paid : Nat} {entitled lost : ℚ}

/-- A move takes off what a seat is owed no more than what it pays and one unit at a
settlement. -/
theorem owed_le_moved (h : c.moved s m = some t) (user : String) :
    s.owed c.reward.rewardPerToken ≤ t.owed c.reward.rewardPerToken +
      precision * ((Posting.move user m).paid + c.settlements user (.move user m)) := by
  cases m with
  | enter =>
    obtain rfl : s = t := Option.some.inj h
    exact Nat.le_add_right _ _
  | settle =>
    obtain ⟨-, rfl⟩ | ⟨r, d, hr, hd, rfl⟩ := moved_settle.1 h
    · exact Nat.le_add_right _ _
    · obtain ⟨he, hp⟩ := Checkpoint.settle_eq_ok.1 hd
      have hlt := Seat.lt_earned_succ he
      have hone : c.settlements user (.move user .settle) = 1 := by
        simp [settlements, Posting.settles, hr]
      have ht : Seat.owed r.rewardPerToken { s with stored := some d } =
          precision * d.accrued := by
        simp [Seat.owed, Seat.checkpoint, hp]
      rw [hone, reward_of_registered hr, ht]
      exact hlt.le
  | pay amount =>
    obtain ⟨-, rfl, rfl⟩ | ⟨-, rfl, rfl⟩ := moved_pay.1 h
    · exact Nat.le_add_right _ _
    · simp only [Seat.owed, paid_pay, accrued_pay, Posting.paid, Nat.mul_add]
      omega
  | deposit amount =>
    obtain ⟨hs, -, rfl⟩ := moved_deposit.1 h
    rw [owed_of_isSettled hs (s.staked + amount)]
    exact Nat.le_add_right _ _
  | withdraw amount =>
    obtain ⟨hs, -, rfl⟩ := moved_withdraw.1 h
    rw [owed_of_isSettled hs (s.staked - amount)]
    exact Nat.le_add_right _ _

/-- The exact share of a user in what a posting releases. -/
def share (user : String) : Column × Posting → ℚ := weigh (fun s t n => s * n / t) user

/-- What the accumulator may round off of that share. -/
def dust (user : String) : Column × Posting → ℚ :=
  weigh (fun s _ n => if n = 0 then 0 else s / precision) user

/-- What a user is owed and was paid is within `lost` of what the user is entitled to. -/
structure Fair (c : Column) (user : String) (paid : Nat) (entitled lost : ℚ) : Prop where
  dominated : c.Dominated
  le_entitled : ((precision * paid + (c.seat user).owed c.reward.rewardPerToken : ℕ) : ℚ) ≤
    precision * entitled
  entitled_le : precision * entitled ≤
    (precision * paid + (c.seat user).owed c.reward.rewardPerToken : ℕ) + precision * lost

theorem Fair.mono {more : ℚ} (hc : c.Fair user paid entitled lost) (h : lost ≤ more) :
    c.Fair user paid entitled more := by
  refine ⟨hc.dominated, hc.le_entitled, hc.entitled_le.trans ?_⟩
  gcongr

/-- A posting keeps the bounds where what it adds to what is owed and paid is within `less` of what
it adds to the entitlement. -/
theorem Fair.add {amount : Nat} {gain less : ℚ} (hc : c.Fair user paid entitled lost)
    (hd : d.Dominated)
    (hle : ((precision * amount + (d.seat user).owed d.reward.rewardPerToken : ℕ) : ℚ) ≤
      (c.seat user).owed c.reward.rewardPerToken + precision * gain)
    (hge : (c.seat user).owed c.reward.rewardPerToken + precision * gain ≤
      ((precision * amount + (d.seat user).owed d.reward.rewardPerToken : ℕ) : ℚ) +
        precision * less) :
    d.Fair user (paid + amount) (entitled + gain) (lost + less) := by
  have hle' := hc.le_entitled
  have hge' := hc.entitled_le
  push_cast at hle hge hle' hge'
  refine ⟨hd, ?_, ?_⟩
  · push_cast
    linarith
  · push_cast
    linarith

/-- The growth of an accumulator, scaled by a stake, is within the stake of the exact share. -/
theorem growth_bounds (s R T : Nat) (h : T = 0 → R = 0) :
    ((s * (R * precision / T) : ℕ) : ℚ) ≤ precision * (s * R / T) ∧
      precision * (s * R / T : ℚ) ≤
        (s * (R * precision / T) : ℕ) + precision * if R = 0 then 0 else (s / precision : ℚ) := by
  by_cases hR : R = 0
  · simp [hR]
  have h0 : T ≠ 0 := fun hT => hR (h hT)
  have hT : (0 : ℚ) < T := by exact_mod_cast Nat.pos_of_ne_zero h0
  have hP : (precision : ℚ) ≠ 0 := by exact_mod_cast precision_pos.ne'
  have hle : ((R * precision / T : ℕ) : ℚ) ≤ R * precision / T := by
    have hdiv : ((R * precision / T : ℕ) : ℚ) ≤ (R * precision : ℕ) / T := Nat.cast_div_le
    push_cast at hdiv
    exact hdiv
  have hlt : (R * precision / T : ℚ) ≤ (R * precision / T : ℕ) + 1 := by
    have hmul := (Nat.lt_mul_div_succ (R * precision) (Nat.pos_of_ne_zero h0)).le
    rw [Nat.mul_comm T] at hmul
    rw [div_le_iff₀ hT]
    exact_mod_cast hmul
  have hexact : precision * (s * R / T : ℚ) = s * (R * precision / T) := by ring
  rw [hexact, if_neg hR, mul_div_cancel₀ _ hP]
  push_cast
  constructor
  · gcongr
  · calc (s : ℚ) * (R * precision / T)
      _ ≤ s * ((R * precision / T : ℕ) + 1) := by gcongr
      _ = s * (R * precision / T : ℕ) + s := by ring

/-- What rounding may keep from a user at a posting. -/
def loss (user : String) (v : Column × Posting) : ℚ := dust user v + v.1.settlements user v.2

theorem Fair.book {accumulator : Option RewardPool} {b : Booking}
    (hc : c.Fair user paid entitled lost) (h : c.book b = some accumulator) :
    Fair { c with accumulator } user (paid + (Posting.book b).paidTo user)
      (entitled + share user (c, .book b)) (lost + loss user (c, .book b)) := by
  obtain ⟨credit, hcr⟩ := credited_of_book h
  have hpost : c.post (.book b) = some { c with accumulator } := post_book.2 ⟨accumulator, h, rfl⟩
  have howed : Seat.owed (reward { c with accumulator }).rewardPerToken
      (Column.seat { c with accumulator } user) = (c.seat user).owed c.reward.rewardPerToken +
        (c.seat user).staked * (c.release (.book b) * precision / c.totalStaked) := by
    change Seat.owed (accumulator.getD {}).rewardPerToken (c.seat user) = _
    rw [hcr.rewardPerToken_eq]
    exact Seat.owed_add _ (hc.dominated.seat_paid user)
  have hloss : loss user (c, .book b) = dust user (c, .book b) := by
    simp [loss, settlements, Posting.settles]
  obtain ⟨hle, hge⟩ := growth_bounds (c.seat user).staked (c.release (.book b)) c.totalStaked
    hcr.release_eq_zero
  have hpaid : (Posting.book b).paidTo user = 0 := rfl
  rw [hloss]
  apply hc.add (hc.dominated.post hpost)
  · rw [hpaid, howed, Nat.mul_zero, Nat.zero_add, Nat.cast_add]
    exact add_le_add_right hle _
  · rw [hpaid, howed, Nat.mul_zero, Nat.zero_add, Nat.cast_add, add_assoc]
    exact add_le_add_right hge _

theorem Fair.move (hc : c.Fair user paid entitled lost) (h : c.moved (c.seat name) m = some s) :
    (c.sit name s).Fair user (paid + (Posting.move name m).paidTo user)
      (entitled + share user (c, .move name m)) (lost + loss user (c, .move name m)) := by
  have hpost : c.post (.move name m) = some (c.sit name s) := post_move.2 ⟨s, h, rfl⟩
  have hreward : (c.sit name s).reward = c.reward := rfl
  have hshare : share user (c, .move name m) = 0 := by simp [share, weigh, release]
  have hloss : loss user (c, .move name m) = c.settlements user (.move name m) := by
    simp [loss, dust, weigh, release]
  have hbounds : precision * (Posting.move name m).paidTo user +
        ((c.sit name s).seat user).owed c.reward.rewardPerToken ≤
          (c.seat user).owed c.reward.rewardPerToken ∧
      (c.seat user).owed c.reward.rewardPerToken ≤
        precision * (Posting.move name m).paidTo user +
          ((c.sit name s).seat user).owed c.reward.rewardPerToken +
            precision * c.settlements user (.move name m) := by
    rw [seat_sit]
    by_cases hname : name = user
    · have hpaid : (Posting.move name m).paidTo user = (Posting.move name m).paid := by
        cases m <;> simp [Posting.paidTo, Posting.paid, hname]
      have hle := owed_moved_le h name
      have hge := owed_le_moved h name
      rw [Nat.mul_add] at hge
      rw [if_pos hname, hpaid, ← hname]
      omega
    · -- the seat of another user stays as it is
      have hpaid : (Posting.move name m).paidTo user = 0 := by
        cases m <;> simp [Posting.paidTo, hname]
      rw [if_neg hname, hpaid]
      omega
  obtain ⟨hle, hge⟩ := hbounds
  apply hc.add (hc.dominated.post hpost)
  · rw [hshare, hreward, mul_zero, add_zero]
    exact_mod_cast hle
  · rw [hshare, hloss, hreward, mul_zero, add_zero]
    exact_mod_cast hge

theorem Fair.post (hc : c.Fair user paid entitled lost) (h : c.post p = some d) :
    d.Fair user (paid + p.paidTo user) (entitled + share user (c, p))
      (lost + loss user (c, p)) := by
  cases p with
  | book b =>
    obtain ⟨accumulator, hb, rfl⟩ := post_book.1 h
    exact hc.book hb
  | move name m =>
    obtain ⟨s, hm, rfl⟩ := post_move.1 h
    exact hc.move hm

theorem Fair.replay (hc : c.Fair user paid entitled lost) (h : c.replay ps = some d) :
    d.Fair user (paid + (ps.map (Posting.paidTo user)).sum)
      (entitled + ((c.visits ps).map (share user)).sum)
      (lost + ((c.visits ps).map (loss user)).sum) := by
  have hv := visits_invariant (fun e vs => e.Fair user
    (paid + (vs.map fun v => v.2.paidTo user).sum) (entitled + (vs.map (share user)).sum)
    (lost + (vs.map (loss user)).sum)) ?_ h [] (by simpa using hc)
  · have hpaid : (c.visits ps).map (fun v => v.2.paidTo user) =
        ps.map (Posting.paidTo user) := by
      conv_rhs => rw [← map_snd_visits h]
      rw [List.map_map]
      rfl
    rwa [List.nil_append, hpaid] at hv
  · intro e e' q vs he hp
    simp only [List.map_append, List.sum_append, List.map_singleton, List.sum_singleton,
      ← add_assoc]
    exact he.post hp

/-- What was paid together with what could be claimed at once. -/
theorem Fair.bounds {e : Nat} (hc : c.Fair user paid entitled lost)
    (he : (c.seat user).checkpoint.earned (c.seat user).staked c.reward.rewardPerToken = .ok e) :
    ((paid + e : ℕ) : ℚ) ≤ entitled ∧ entitled - (paid + e : ℕ) < lost + 1 := by
  have hlow : ((precision * e : ℕ) : ℚ) ≤ _ := Nat.cast_le.2 (Seat.precision_mul_earned_le he)
  have hhigh : _ < ((precision * (e + 1) : ℕ) : ℚ) := Nat.cast_lt.2 (Seat.lt_earned_succ he)
  have hle := hc.le_entitled
  have hge := hc.entitled_le
  have hP : (0 : ℚ) < precision := by exact_mod_cast precision_pos
  push_cast at hlow hhigh hle hge ⊢
  constructor
  · apply le_of_mul_le_mul_left _ hP
    linarith
  · apply lt_of_mul_lt_mul_left _ hP.le
    linarith

end Column

namespace Ledger

open Column

variable {l next : Ledger} {a : Action} {r : Receipt} {k : Key} {user : String} {paid : Nat}
  {entitled lost : ℚ}

theorem Entry.sum_share (h : l.perform a = .ok (r, next)) (k : Key) (user : String) :
    (((l.column k).visits (Entry.postings k ⟨l, a, r⟩)).map (share user)).sum =
      Entry.entitlement user k ⟨l, a, r⟩ := by
  rw [share, Entry.sum_weigh (fun s t => by simp) h]
  rfl

theorem Entry.sum_dust (h : l.perform a = .ok (r, next)) (k : Key) (user : String) :
    (((l.column k).visits (Entry.postings k ⟨l, a, r⟩)).map (Column.dust user)).sum =
      Entry.dust user k ⟨l, a, r⟩ := by
  rw [Column.dust, Entry.sum_weigh (fun s t => if_pos rfl) h, Entry.dust]
  congr 1
  apply List.map_congr_left
  intro n hn
  -- only amounts that are not zero are released
  have h0 : n ≠ 0 := by
    rw [Entry.releases] at hn
    split at hn
    · cases hn
    · exact Nat.pos_iff_ne_zero.1 (by simpa using (List.mem_filter.1 hn).2)
  exact if_neg h0

theorem Entry.sum_loss_le (h : l.perform a = .ok (r, next)) (k : Key) (user : String) :
    (((l.column k).visits (Entry.postings k ⟨l, a, r⟩)).map (loss user)).sum ≤
      Entry.dust user k ⟨l, a, r⟩ + Entry.settlements user k ⟨l, a, r⟩ := by
  have hsum : (((l.column k).visits (Entry.postings k ⟨l, a, r⟩)).map (loss user)).sum =
      (((l.column k).visits (Entry.postings k ⟨l, a, r⟩)).map (Column.dust user)).sum +
        ((((l.column k).visits (Entry.postings k ⟨l, a, r⟩)).map
          fun v => v.1.settlements user v.2).sum : ℕ) := by
    rw [Nat.cast_list_sum, List.map_map, ← List.sum_map_add]
    rfl
  have hle : (((l.column k).visits (Entry.postings k ⟨l, a, r⟩)).map
      fun v => v.1.settlements user v.2).sum ≤ Entry.settlements user k ⟨l, a, r⟩ :=
    Entry.sum_settlements_le ⟨l, a, r⟩ user k
  rw [hsum, Entry.sum_dust h]
  gcongr

theorem fair_perform (hl : (l.column k).Fair user paid entitled lost)
    (h : l.perform a = .ok (r, next)) :
    (next.column k).Fair user (paid + Entry.paidTo user k ⟨l, a, r⟩)
      (entitled + Entry.entitlement user k ⟨l, a, r⟩)
      (lost + (Entry.dust user k ⟨l, a, r⟩ + Entry.settlements user k ⟨l, a, r⟩)) := by
  have hr := hl.replay (replay_perform h k)
  rw [Entry.sum_paidTo, Entry.sum_share h] at hr
  apply hr.mono
  gcongr
  exact Entry.sum_loss_le h k user

theorem fair_run (actions : List Action) (hl : (l.column k).Fair user paid entitled lost) :
    ((l.run actions).column k).Fair user
      (paid + ((l.journal actions).map (·.paidTo user k)).sum)
      (entitled + ((l.journal actions).map (·.entitlement user k)).sum)
      (lost + (((l.journal actions).map (·.dust user k)).sum +
        ((l.journal actions).map (·.settlements user k)).sum)) := by
  induction actions generalizing l paid entitled lost with
  | nil => simpa [journal] using hl
  | cons a actions ih =>
    rw [run_cons]
    cases h : l.perform a with
    | ok answer =>
      obtain ⟨r, next⟩ := answer
      have hnext := ih (fair_perform hl h)
      rw [journal_cons_of_ok h, step_of_ok h]
      simp only [List.map_cons, List.sum_cons, Nat.cast_add]
      rw [add_assoc paid, add_assoc entitled] at hnext
      apply hnext.mono
      linarith
    | error f =>
      rw [journal_cons_of_error h, step_of_error h]
      exact ih hl

/-- What a user was ever paid of a reward token and could claim at once is at most the exact share
of the user in everything that was released, and less than it only by what was rounded off. -/
theorem fair_share (stakingToken : String) (fees : Book) (actions : List Action) (k : Key)
    (r : RewardPool)
    (hr : ((opened stakingToken fees).run actions).pool.rewardPools.get? k = some r)
    (user : String) :
    let l := (opened stakingToken fees).run actions
    let journal := (opened stakingToken fees).journal actions
    let entitlement := (journal.map (·.entitlement user k)).sum
    let dust := (journal.map (·.dust user k)).sum
    let settlements := (journal.map (·.settlements user k)).sum
    ∃ e, ((l.user user).checkpoint k).earned (l.user user).staked r.rewardPerToken = .ok e ∧
      let credited := (journal.map (·.paidTo user k)).sum + e
      credited ≤ entitlement ∧ entitlement - credited < dust + settlements + 1 := by
  intro l journal entitlement dust settlements
  have hopened : ((opened stakingToken fees).column k).Fair user 0 0 0 :=
    ⟨dominated_empty, by simp [column_opened, Column.seat, Seat.owed, Seat.checkpoint], by simp⟩
  have hfair : (l.column k).Fair user (journal.map (·.paidTo user k)).sum entitlement
      (dust + settlements) := by
    simpa only [zero_add] using fair_run actions hopened
  have hsolvent : (l.column k).Solvent _ := solvent_run stakingToken fees actions k
  obtain ⟨e, he⟩ := hsolvent.earned (mem_values_or _ user)
  have hreward : (l.column k).reward = r := Column.reward_of_registered hr
  have hbounds := hfair.bounds he
  rw [seat_column, UserStake.seat_checkpoint, UserStake.seat_staked, hreward] at he
  exact ⟨e, he, hbounds⟩

theorem fair_share_twoStakers :
    let l := (opened "S" {}).run twoStakers
    let journal := (opened "S" {}).journal twoStakers
    let r : RewardPool := ⟨1698522167487684728, 12, 7, 0, 95⟩
    let entitlement := (journal.map (·.entitlement "bob" (.text "R"))).sum
    let dust := (journal.map (·.dust "bob" (.text "R"))).sum
    let settlements := (journal.map (·.settlements "bob" (.text "R"))).sum
    l.pool.rewardPools.get? (.text "R") = some r ∧ ∃ e : ℕ,
      ((l.user "bob").checkpoint (.text "R")).earned (l.user "bob").staked r.rewardPerToken =
        .ok e ∧
      let credited := (journal.map (·.paidTo "bob" (.text "R"))).sum + e
      credited ≤ entitlement ∧ entitlement - credited < dust + settlements + 1 :=
  ⟨by decide, fair_share "S" {} twoStakers (.text "R") _ (by decide) "bob"⟩

end Ledger

end PoolAccounting
