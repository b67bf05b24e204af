import Mathlib
import PoolAccounting.Proofs.Fees.Distribution
import PoolAccounting.Proofs.Ledger.Journal

/-!
Fees are neither lost nor made. Along every run, what was received of a token is pending or
distributed, and what was distributed is the sum of the parts of all its distributions; the staking
part of a distribution is credited to the stakers in full.
-/
namespace PoolAccounting

open Amount Staking Fees

/-- What a distribution shares out of a token. -/
def Fees.Distribution.sharedOut (k : Key) (d : Distribution) : ℤ :=
  if d.token.key = k then d.split.total else 0

namespace Ledger.Entry

/-- What the action received of a token as fees. -/
def received (k : Key) (e : Entry) : ℕ :=
  match e.action with
  | .receive token amount => if token.key = k then amount.toNat else 0
  | _ => 0

/-- The distributions that the action answers with. -/
def distributions (e : Entry) : List Distribution :=
  match e.receipt with
  | .distributed d => [d]
  | .allDistributed ds => ds
  | _ => []

end Ledger.Entry

namespace Fees.Book

/-- How a book goes over into the book `b'` at a token, when `received` comes in and the
distributions `ds` are made. -/
structure Accounts (b b' : Book) (k : Key) (received : ℕ) (ds : List Distribution) : Prop where
  received_add : b'.pendingFor k + b'.distributedFor k =
    b.pendingFor k + b.distributedFor k + received
  distributed_eq : (b'.distributedFor k : ℤ) =
    b.distributedFor k + (ds.map (Distribution.sharedOut k)).sum

variable {b m b' : Book} {k : Key} {c : Shares} {token : Scalar} {d : Distribution}

theorem Accounts.rfl : b.Accounts b k 0 [] := ⟨by simp, by simp⟩

theorem Accounts.trans {received more : ℕ} {ds es : List Distribution}
    (h : b.Accounts m k received ds) (h' : m.Accounts b' k more es) :
    b.Accounts b' k (received + more) (ds ++ es) := by
  constructor
  · rw [h'.received_add, h.received_add, Nat.add_assoc]
  · rw [h'.distributed_eq, h.distributed_eq, List.map_append, List.sum_append, add_assoc]

theorem accounts_of_receive {amount : Operand} (h : b.receive token amount = .ok b') (k : Key) :
    b.Accounts b' k (if token.key = k then amount.toNat else 0) [] := by
  obtain ⟨n, rfl, -, -, rfl⟩ := receive_eq_ok.1 h
  refine ⟨?_, by simp [distributedFor]⟩
  by_cases hk : token.key = k
  · subst hk
    simp only [pendingFor, distributedFor, Table.get?_insert, if_true, Option.getD_some,
      Operand.toNat_natCast]
    omega
  · simp [pendingFor, distributedFor, hk]

theorem accounts_of_distribute (h : b.distribute token c = .ok (b', d)) (k : Key) :
    b.Accounts b' k 0 [d] := by
  obtain ⟨-, -, rfl, rfl⟩ := distribute_eq_ok.1 h
  by_cases hk : token.key = k
  · subst hk
    constructor
    · simp only [distributing, pendingFor, distributedFor, Table.get?_insert, if_true,
        Option.getD_some]
      omega
    · simp [distributing, pendingFor, distributedFor, Distribution.sharedOut]
  · constructor <;> simp [distributing, pendingFor, distributedFor, Distribution.sharedOut, hk]

theorem accounts_of_distributeEach {tokens : List Scalar} {ds : List Distribution}
    (h : distributeEach c tokens b = .ok (b', ds)) (k : Key) : b.Accounts b' k 0 ds := by
  induction tokens generalizing b ds with
  | nil =>
    obtain ⟨rfl, rfl⟩ : b = b' ∧ [] = ds := by simpa [distributeEach, pure, Except.pure] using h
    exact .rfl
  | cons token rest ih =>
    rw [distributeEach_cons_eq_ok] at h
    split at h
    · obtain ⟨m, d, es, hd, hes, rfl⟩ := h
      exact (accounts_of_distribute hd k).trans (ih hes)
    · exact ih h

/-- The staking part of a distribution is credited in full, beside the emission up to that time. -/
theorem credited_of_distributeToStaking {p q : StakingPool} {now : Operand}
    (h : b.distributeToStaking p token c now = .ok (b', q, d)) :
    d.split.staking = 0 ∧ q = p ∨ ∃ t : ℕ, now = t ∧ 0 < d.split.staking ∧
      (p.accumulator token).lastUpdate ≤ t ∧ ((q.accumulator token).total : ℤ) =
        (p.accumulator token).total + (p.accumulator token).emission t + d.split.staking := by
  obtain ⟨hd, hp⟩ := distributeToStaking_eq_ok.1 h
  obtain ⟨-, -, -, rfl⟩ := distribute_eq_ok.1 hd
  split at hp
  · rename_i h0
    obtain ⟨n, t, hn, rfl, hlast, htotal⟩ := StakingPool.total_of_notifyRewardAmount hp
    have hstaking : (c.parts (b.pendingFor token)).staking = n := Operand.int.inj hn
    refine .inr ⟨t, rfl, h0, hlast, ?_⟩
    rw [hstaking, htotal, Nat.cast_add, Nat.cast_add]
  · rename_i h0
    have hnonneg : 0 ≤ (c.parts (b.pendingFor token)).staking := Int.natCast_nonneg _
    exact .inl ⟨le_antisymm (not_lt.1 h0) hnonneg, hp⟩

end Fees.Book

namespace Ledger

open Fees.Book

variable {l next : Ledger} {a : Action} {r : Receipt}

theorem accounts_perform (h : l.perform a = .ok (r, next)) (k : Key) :
    l.fees.Accounts next.fees k (Entry.received k ⟨l, a, r⟩) (Entry.distributions ⟨l, a, r⟩) := by
  cases a <;> simp only [perform, bind_eq_ok, Prod.exists, pure, Except.pure, Except.ok.injEq,
    Prod.mk.injEq] at h
  case receive token amount =>
    obtain ⟨fees, h, rfl, rfl⟩ := h
    exact accounts_of_receive h k
  case distribute token shares =>
    obtain ⟨fees, d, h, rfl, rfl⟩ := h
    exact accounts_of_distribute h k
  case distributeAll shares =>
    obtain ⟨fees, ds, h, rfl, rfl⟩ := h
    exact accounts_of_distributeEach h k
  case toStaking token shares now =>
    obtain ⟨fees, p, d, h, rfl, rfl⟩ := h
    exact accounts_of_distribute (distributeToStaking_eq_ok.1 h).1 k
  case stake | unstake | update =>
    obtain ⟨p, u, -, rfl, rfl⟩ := h
    exact .rfl
  case claim | compound | pending | apr | addToken | setRate | notify =>
    obtain ⟨_, -, rfl, rfl⟩ := h
    exact .rfl

theorem accounts_run (l : Ledger) (actions : List Action) (k : Key) :
    l.fees.Accounts (l.run actions).fees k ((l.journal actions).map (·.received k)).sum
      ((l.journal actions).flatMap (·.distributions)) := by
  induction actions generalizing l with
  | nil => exact .rfl
  | cons a actions ih =>
    rw [run_cons]
    cases h : l.perform a with
    | ok answer =>
      obtain ⟨r, next⟩ := answer
      rw [journal_cons_of_ok h, step_of_ok h]
      exact (accounts_perform h k).trans (ih next)
    | error f =>
      rw [journal_cons_of_error h, step_of_error h]
      exact ih l

theorem sum_sharedOut (ds : List Distribution) (k : Key) :
    (ds.map (Distribution.sharedOut k)).sum =
      ((ds.filter (·.token.key = k)).map (·.split.total)).sum := by
  induction ds with
  | nil => rfl
  | cons d ds ih =>
    rw [List.map_cons, List.sum_cons, ih, Distribution.sharedOut]
    by_cases hk : d.token.key = k <;> simp [hk]

/-- From an empty book on, every fee of a token that was received is pending or distributed, and
every one that was distributed is in one of the parts of a split. The staking part of a distribution
is credited to the pool beside the emission; where there is none the pool stays as it is. -/
theorem fees_conserved (pool : StakingPool) (users : Table UserStake) (actions : List Action)
    (k : Key) :
    let l : Ledger := { pool, users }
    let journal := l.journal actions
    let fees := (l.run actions).fees
    let results := (journal.flatMap (·.distributions)).filter (·.token.key = k)
    (journal.map (·.received k)).sum = fees.pendingFor k + fees.distributedFor k ∧
      (fees.distributedFor k : ℤ) =
        (results.map fun d => d.split.treasury + d.split.staking + d.split.burn).sum ∧
      ∀ (b b' : Book) (p q : StakingPool) (token : Scalar) (shares : Shares) (now : Operand)
        (d : Distribution), b.distributeToStaking p token shares now = .ok (b', q, d) →
        d.split.staking = 0 ∧ q = p ∨ ∃ t : ℕ, now = t ∧ 0 < d.split.staking ∧
          (p.accumulator token).lastUpdate ≤ t ∧ ((q.accumulator token).total : ℤ) =
            (p.accumulator token).total + (p.accumulator token).emission t + d.split.staking := by
  intro l journal fees results
  obtain ⟨hreceived, hdistributed⟩ := accounts_run l actions k
  have hempty : l.fees.pendingFor k = 0 ∧ l.fees.distributedFor k = 0 := ⟨rfl, rfl⟩
  rw [hempty.1, hempty.2, Nat.zero_add] at hreceived
  rw [hempty.2, sum_sharedOut, Nat.cast_zero, zero_add] at hdistributed
  exact ⟨hreceived.symm, hdistributed, fun _ _ _ _ _ _ _ _ => credited_of_distributeToStaking⟩

theorem fees_conserved_twice :
    let shares : Shares := { minimum := 0 }
    let l : Ledger := { pool := { stakingToken := "S" } }
    let actions := [.receive "R" 107, .toStaking "R" shares 4, .receive "R" 33, .receive "S" 50,
      .distributeAll shares, .receive "R" 5]
    let fees := (l.run actions).fees
    let results := ((l.journal actions).flatMap (·.distributions)).filter
      (·.token.key = Key.text "R")
    let result : Fees.Distribution := ⟨"R", 107, 54, 32, 21⟩
    let pool := l.pool.withRewardPool "R" { lastUpdate := 4, queued := 32, total := 32 }
    fees.pendingFor (.text "R") = 5 ∧
      ((l.journal actions).map (·.received (.text "R"))).sum =
        fees.pendingFor (.text "R") + fees.distributedFor (.text "R") ∧
      results.length = 2 ∧ (fees.distributedFor (.text "R") : ℤ) =
        (results.map fun d => d.split.treasury + d.split.staking + d.split.burn).sum ∧
      Book.distributeToStaking ⟨.ofList [("R", 107)], ∅⟩ l.pool "R" shares 4 =
        .ok (⟨.ofList [("R", 0)], .ofList [("R", 107)]⟩, pool, result) ∧
      (result.split.staking = 0 ∧ pool = l.pool ∨ ∃ t : ℕ, (4 : Operand) = t ∧
        0 < result.split.staking ∧ (l.pool.accumulator (.text "R")).lastUpdate ≤ t ∧
        ((pool.accumulator (.text "R")).total : ℤ) = (l.pool.accumulator (.text "R")).total +
          (l.pool.accumulator (.text "R")).emission t + result.split.staking) := by
  intro shares l actions fees results result pool
  obtain ⟨hreceived, hdistributed, hstaking⟩ := fees_conserved { stakingToken := "S" } ∅ actions (.text "R")
  have hok : Book.distributeToStaking ⟨.ofList [("R", 107)], ∅⟩ l.pool "R" shares 4 =
      .ok (⟨.ofList [("R", 0)], .ofList [("R", 107)]⟩, pool, result) := by decide +kernel
  exact ⟨by decide +kernel, hreceived, by decide +kernel, hdistributed, hok,
    hstaking _ _ _ _ _ _ _ _ hok⟩

end Ledger

end PoolAccounting
