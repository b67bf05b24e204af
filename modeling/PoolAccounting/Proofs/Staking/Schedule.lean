import Mathlib
import PoolAccounting.Proofs.Staking.CaughtUp

/-!
The books of a reward token over time. However often it is accrued in between, its total is what was
injected and what its rates emitted, each over the period in which it was in force; and while there
is no stake, all of it is queued.
-/
namespace PoolAccounting.Staking

/-- From `time` on a token is emitted at `rate`. -/
structure RateChange where
  time : ℕ
  rate : ℕ
  deriving DecidableEq, Repr

namespace RateChange

/-- What is emitted up to `now`: each rate over the period until the next change, the last one over
the period until `now`. -/
def emission : List RateChange → ℕ → ℕ
  | [], _ => 0
  | [c], now => (now - c.time) * c.rate
  | c :: d :: rest, now => (d.time - c.time) * c.rate + emission (d :: rest) now

theorem emission_concat (changes : List RateChange) (c d : RateChange) (now : ℕ) :
    emission (changes ++ [c] ++ [d]) now =
      emission (changes ++ [c]) d.time + (now - d.time) * d.rate := by
  induction changes with
  | nil => rfl
  | cons b changes ih =>
    cases changes with
    | nil => exact (Nat.add_assoc _ _ _).symm
    | cons b' changes => exact (congrArg _ ih).trans (Nat.add_assoc _ _ _).symm

/-- The last rate goes on being in force. -/
theorem emission_add (changes : List RateChange) (c : RateChange) {now later : ℕ}
    (h : c.time ≤ now) (h' : now ≤ later) : emission (changes ++ [c]) later =
      emission (changes ++ [c]) now + (later - now) * c.rate := by
  rcases changes.eq_nil_or_concat with rfl | ⟨earlier, b, rfl⟩
  · change (later - c.time) * c.rate = (now - c.time) * c.rate + (later - now) * c.rate
    rw [← Nat.add_mul]
    congr 1
    omega
  · rw [List.concat_eq_append, emission_concat, emission_concat, Nat.add_assoc, ← Nat.add_mul]
    congr 2
    omega

end RateChange

namespace RewardPool

/-- The accumulator has booked `injected` and the emission of these rates, and nothing else. -/
structure Records (r : RewardPool) (injected : ℕ) (changes : List RateChange) : Prop where
  rate_eq : changes.getLast?.map (·.rate) = some r.rate
  ordered : changes.Pairwise fun c d => c.time ≤ d.time
  time_le : ∀ c ∈ changes, c.time ≤ r.lastUpdate
  total_eq : r.total = injected + RateChange.emission changes r.lastUpdate

namespace Records

variable {r r' : RewardPool} {injected staked amount : ℕ} {changes : List RateChange}
  {now : Operand}

theorem exists_last (h : r.Records injected changes) :
    ∃ earlier c, changes = earlier ++ [c] ∧ c.rate = r.rate := by
  obtain ⟨c, hc, hrate⟩ := Option.map_eq_some_iff.1 h.rate_eq
  obtain ⟨earlier, rfl⟩ := List.getLast?_eq_some_iff.1 hc
  exact ⟨earlier, c, rfl, hrate⟩

theorem register (now rate : ℕ) : Records { lastUpdate := now, rate } 0 [⟨now, rate⟩] where
  rate_eq := rfl
  ordered := List.pairwise_singleton _ _
  time_le := by simp
  total_eq := by simp [RateChange.emission]

/-- The emission since the last accrual is what the integral grows by. -/
theorem accrue (h : r.Records injected changes) (ha : r.accrue staked now = .ok r') :
    r'.Records injected changes := by
  obtain ⟨t, rfl, rfl, hle, -⟩ := accrue_eq_ok.1 ha
  refine ⟨by rw [rate_accrued, h.rate_eq], h.ordered, fun c hc => ?_, ?_⟩
  · rw [lastUpdate_accrued]
    exact (h.time_le c hc).trans hle
  · obtain ⟨earlier, c, rfl, hrate⟩ := h.exists_last
    have htime : c.time ≤ r.lastUpdate := h.time_le c (by simp)
    rw [total_accrued, lastUpdate_accrued, h.total_eq, emission, ← hrate,
      RateChange.emission_add earlier c htime hle, Nat.add_assoc]

theorem inject (h : r.Records injected changes) (hi : r.inject amount staked = .ok r') :
    r'.Records (injected + amount) changes := by
  obtain ⟨rfl, -⟩ := inject_eq_ok.1 hi
  refine ⟨by rw [rate_injected, h.rate_eq], h.ordered, fun c hc => ?_, ?_⟩
  · rw [lastUpdate_injected]
    exact h.time_le c hc
  · rw [total_injected, lastUpdate_injected, h.total_eq, Nat.add_right_comm]

/-- A new rate is in force from the last accrual on. -/
theorem changeRate (h : r.Records injected changes) (rate : ℕ) :
    Records { r with rate } injected (changes ++ [⟨r.lastUpdate, rate⟩]) where
  rate_eq := by simp
  ordered := by
    refine List.pairwise_append.2 ⟨h.ordered, List.pairwise_singleton _ _, fun c hc d hd => ?_⟩
    rw [List.mem_singleton.1 hd]
    exact h.time_le c hc
  time_le := by
    simp only [List.mem_append, List.mem_singleton]
    rintro c (hc | rfl)
    · exact h.time_le c hc
    · exact le_rfl
  total_eq := by
    obtain ⟨earlier, c, rfl, -⟩ := h.exists_last
    rw [RateChange.emission_concat, Nat.sub_self, Nat.zero_mul, Nat.add_zero]
    exact h.total_eq

end Records

theorem queued_eq_total_of_credited {r r' : RewardPool} {credit release : ℕ}
    (h : r.Credited r' 0 credit release) (hq : r.queued = r.total) : r'.queued = r'.total := by
  have hrelease := h.release_eq_zero rfl
  have hqueued := h.queued_add
  have htotal := h.total_eq
  omega

end RewardPool

/-- What an operation can do to the accumulator of a token: `injected` and `changes` are the lump
sums and the rates that come with it, and `staked` is the stake that it meets. -/
inductive Booked (staked : ℕ) :
    Option RewardPool → Option RewardPool → ℕ → List RateChange → Prop
  | refl (accumulator : Option RewardPool) : Booked staked accumulator accumulator 0 []
  | register (now rate : ℕ) :
    Booked staked none (some { lastUpdate := now, rate }) 0 [⟨now, rate⟩]
  | accrue {r r' : RewardPool} {now : Operand} :
    r.accrue staked now = .ok r' → Booked staked (some r) (some r') 0 []
  | inject {r r' : RewardPool} {amount : ℕ} :
    r.inject amount staked = .ok r' → Booked staked (some r) (some r') amount []
  | changeRate (r : RewardPool) (rate : ℕ) :
    Booked staked (some r) (some { r with rate }) 0 [⟨r.lastUpdate, rate⟩]
  | trans {a b c : Option RewardPool} {injected more : ℕ} {changes later : List RateChange} :
    Booked staked a b injected changes → Booked staked b c more later →
      Booked staked a c (injected + more) (changes ++ later)

/-- The records of a token; one that is not registered has none. -/
def Recorded : Option RewardPool → ℕ → List RateChange → Prop
  | none, injected, changes => injected = 0 ∧ changes = []
  | some r, injected, changes => r.Records injected changes

namespace Booked

variable {staked injected more : ℕ} {changes later : List RateChange} {a b : Option RewardPool}

theorem recorded (h : Booked staked a b more later) (ha : Recorded a injected changes) :
    Recorded b (injected + more) (changes ++ later) := by
  induction h generalizing injected changes with
  | refl accumulator => simpa using ha
  | register now rate =>
    obtain ⟨rfl, rfl⟩ := ha
    exact .register now rate
  | accrue h =>
    rw [List.append_nil]
    exact RewardPool.Records.accrue ha h
  | inject h =>
    rw [List.append_nil]
    exact RewardPool.Records.inject ha h
  | changeRate r rate => exact RewardPool.Records.changeRate ha rate
  | trans _ _ ih ih' =>
    rw [← Nat.add_assoc, ← List.append_assoc]
    exact ih' (ih ha)

/-- A token that is registered stays registered, and its clock does not run backwards. -/
theorem lastUpdate_mono {r : RewardPool} (h : Booked staked a b more later) (ha : a = some r) :
    ∃ r', b = some r' ∧ r.lastUpdate ≤ r'.lastUpdate := by
  induction h generalizing r with
  | refl accumulator => exact ⟨r, ha, le_rfl⟩
  | register now rate => cases ha
  | accrue h =>
    cases ha
    obtain ⟨t, -, rfl, hle, -⟩ := RewardPool.accrue_eq_ok.1 h
    exact ⟨_, rfl, by rwa [RewardPool.lastUpdate_accrued]⟩
  | inject h =>
    cases ha
    obtain ⟨rfl, -⟩ := RewardPool.inject_eq_ok.1 h
    exact ⟨_, rfl, (RewardPool.lastUpdate_injected _ _ _).ge⟩
  | changeRate r rate =>
    cases ha
    exact ⟨_, rfl, le_rfl⟩
  | trans _ _ ih ih' =>
    obtain ⟨r', hr', hle⟩ := ih ha
    obtain ⟨r'', hr'', hle'⟩ := ih' hr'
    exact ⟨r'', hr'', hle.trans hle'⟩

/-- Without a stake nothing leaves the queue. -/
theorem queued_eq (h : Booked 0 a b more later) (ha : ∀ r ∈ a, r.queued = r.total) :
    ∀ r ∈ b, r.queued = r.total := by
  induction h with
  | refl accumulator => exact ha
  | register now rate => simp
  | accrue h =>
    obtain ⟨t, -, hcredit⟩ := RewardPool.credited_of_accrue h
    simpa using RewardPool.queued_eq_total_of_credited hcredit (ha _ rfl)
  | inject h =>
    have hcredit := RewardPool.credited_of_inject h
    simpa using RewardPool.queued_eq_total_of_credited hcredit (ha _ rfl)
  | changeRate r rate => simpa using ha
  | trans _ _ ih ih' => exact ih' (ih ha)

end Booked

theorem CaughtUp.booked {p q : StakingPool} {covered : Key → Bool} {now : Operand}
    (h : CaughtUp p q covered now) (k : Key) :
    Booked p.totalStaked (p.rewardPools.get? k) (q.rewardPools.get? k) 0 [] := by
  cases hr : p.rewardPools.get? k with
  | none =>
    rw [Table.get?_eq_none_of_names_eq h.names_eq hr]
    exact .refl none
  | some r =>
    cases hc : covered k with
    | true =>
      obtain ⟨r', hr', hacc⟩ := h.covered_get? hc hr
      rw [hr']
      exact .accrue hacc
    | false =>
      rw [(h.other_get? hc hr).1]
      exact .refl (some r)

end PoolAccounting.Staking
