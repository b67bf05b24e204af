import Mathlib
import PoolAccounting.Proofs.Fees.Batch
import PoolAccounting.Proofs.Ledger.FeeConservation

/-!
The tokens that a fee book lists. They are the names of its two tables, and a distribution writes to
both. With a minimum it writes to entries of a token that has fees pending, so nothing new is listed.
Without one it goes through for every token, also for one of which nothing ever came in. Main
statement: from an empty book on, the tokens listed are those that received fees and those that were
distributed without a minimum.
-/
namespace PoolAccounting

open Staking Fees

namespace Fees.Book

variable {b b' : Book} {c : Shares} {d : Distribution} {token : Scalar} {k : Key}

theorem tokens_sorted (b : Book) : (b.tokens.map Scalar.key).Pairwise Key.Before :=
  Table.keys_sorted _

theorem mem_tokens_of_pending (h : 0 < b.pendingFor k) : k ∈ b.tokens.map Scalar.key := by
  rw [mem_tokens_iff, Table.mem_keys_iff]
  cases hk : b.pending.get? k with
  | none => simp [pendingFor, hk] at h
  | some n => exact .inl ⟨n, rfl⟩

theorem mem_tokens_of_receive {amount : Operand} (h : b.receive token amount = .ok b') :
    k ∈ b'.tokens.map Scalar.key ↔ k ∈ b.tokens.map Scalar.key ∨ token.key = k := by
  obtain ⟨n, -, -, -, rfl⟩ := receive_eq_ok.1 h
  simp only [mem_tokens_iff, Table.mem_keys_insert]
  tauto

theorem mem_tokens_of_distribute (h : b.distribute token c = .ok (b', d)) :
    k ∈ b'.tokens.map Scalar.key ↔
      k ∈ b.tokens.map Scalar.key ∨ token.key = k ∧ c.minimum = 0 := by
  obtain ⟨hmin, -, rfl, -⟩ := distribute_eq_ok.1 h
  have hlisted : token.key = k → c.minimum ≠ 0 → k ∈ b.tokens.map Scalar.key := by
    rintro rfl h0
    exact mem_tokens_of_pending (Nat.lt_of_lt_of_le (Nat.pos_of_ne_zero h0) hmin)
  simp only [mem_tokens_iff, distributing, Table.mem_keys_insert] at hlisted ⊢
  tauto

/-- What is due has fees pending, so it is listed already. -/
theorem mem_tokens_of_distributeEach {tokens : List Scalar} {ds : List Distribution}
    (h : distributeEach c tokens b = .ok (b', ds)) :
    k ∈ b'.tokens.map Scalar.key ↔ k ∈ b.tokens.map Scalar.key := by
  induction tokens generalizing b ds with
  | nil =>
    obtain ⟨rfl, -⟩ : b = b' ∧ [] = ds := by simpa [distributeEach, pure, Except.pure] using h
    rfl
  | cons token rest ih =>
    rw [distributeEach_cons_eq_ok] at h
    split at h
    · next hdue =>
      obtain ⟨m, d, es, hd, hes, -⟩ := h
      have hlisted : token.key = k → k ∈ b.tokens.map Scalar.key := by
        rintro rfl
        exact mem_tokens_of_pending (isDue_iff.1 hdue).1
      rw [ih hes, mem_tokens_of_distribute hd]
      tauto
    · exact ih h

end Fees.Book

namespace Ledger

open Fees.Book

namespace Entry

/-- Whether the action received fees of a token. -/
def receives (k : Key) (e : Entry) : Bool :=
  match e.action with
  | .receive token _ => token.key = k
  | _ => false

/-- Whether the action distributed a token without a minimum. -/
def distributesFreely (k : Key) (e : Entry) : Bool :=
  match e.action with
  | .distribute token shares | .toStaking token shares _ => token.key = k ∧ shares.minimum = 0
  | _ => false

theorem received_eq_zero {k : Key} {e : Entry} (h : e.receives k = false) : e.received k = 0 := by
  obtain ⟨before, action, receipt⟩ := e
  cases action <;> simp_all [receives, received]

end Entry

variable {l next : Ledger} {a : Action} {r : Receipt} {k : Key}

theorem mem_tokens_of_perform (h : l.perform a = .ok (r, next)) :
    k ∈ next.fees.tokens.map Scalar.key ↔ k ∈ l.fees.tokens.map Scalar.key ∨
      Entry.receives k ⟨l, a, r⟩ = true ∨ Entry.distributesFreely k ⟨l, a, r⟩ = true := by
  cases a <;> simp only [perform, bind_eq_ok, Prod.exists, pure, Except.pure, Except.ok.injEq,
    Prod.mk.injEq] at h <;> simp only [Entry.receives, Entry.distributesFreely, decide_eq_true_eq,
    Bool.false_eq_true, or_false, false_or]
  case receive token amount =>
    obtain ⟨fees, h, -, rfl⟩ := h
    exact mem_tokens_of_receive h
  case distribute token shares =>
    obtain ⟨fees, d, h, -, rfl⟩ := h
    exact mem_tokens_of_distribute h
  case distributeAll shares =>
    obtain ⟨fees, ds, h, -, rfl⟩ := h
    exact mem_tokens_of_distributeEach h
  case toStaking token shares now =>
    obtain ⟨fees, p, d, h, -, rfl⟩ := h
    exact mem_tokens_of_distribute (distributeToStaking_eq_ok.1 h).1
  case stake | unstake | update =>
    obtain ⟨p, u, -, -, rfl⟩ := h
    rfl
  case claim | compound | pending | apr | addToken | setRate | notify =>
    obtain ⟨_, -, -, rfl⟩ := h
    rfl

theorem mem_tokens_run (l : Ledger) (actions : List Action) :
    k ∈ (l.run actions).fees.tokens.map Scalar.key ↔ k ∈ l.fees.tokens.map Scalar.key ∨
      ∃ e ∈ l.journal actions, e.receives k = true ∨ e.distributesFreely k = true := by
  induction actions generalizing l with
  | nil => simp [journal]
  | cons a actions ih =>
    rw [run_cons, ih]
    cases h : l.perform a with
    | ok answer =>
      obtain ⟨r, next⟩ := answer
      rw [journal_cons_of_ok h, step_of_ok h, mem_tokens_of_perform h, List.exists_mem_cons_iff,
        or_assoc]
    | error f => rw [journal_cons_of_error h, step_of_error h]

/-- From an empty book on, the tokens listed are in order, each once; they are those that received fees
and those that were distributed without a minimum. Of the latter, if they received none, nothing is
pending and nothing was distributed. -/
theorem tokens_listed_iff (pool : StakingPool) (users : Table UserStake) (actions : List Action) :
    let l : Ledger := { pool, users }
    let journal := l.journal actions
    let fees := (l.run actions).fees
    (fees.tokens.map Scalar.key).Pairwise Key.Before ∧
      (∀ k, k ∈ fees.tokens.map Scalar.key ↔
        (∃ e ∈ journal, e.receives k = true) ∨ ∃ e ∈ journal, e.distributesFreely k = true) ∧
      ∀ k, (∃ e ∈ journal, e.receives k = true) ∨
        fees.pendingFor k = 0 ∧ fees.distributedFor k = 0 := by
  intro l journal fees
  refine ⟨tokens_sorted fees, fun k => ?_, fun k => or_iff_not_imp_left.2 fun hnone => ?_⟩
  · have hempty : k ∉ l.fees.tokens.map Scalar.key := List.not_mem_nil
    rw [mem_tokens_run, or_iff_right hempty, ← exists_or]
    simp only [and_or_left]
    rfl
  · have hreceived := (accounts_run l actions k).received_add
    have hzero : ((l.journal actions).map (·.received k)).sum = 0 := by
      rw [List.sum_eq_zero_iff, List.forall_mem_map]
      exact fun e he => Entry.received_eq_zero (eq_false_of_ne_true fun h => hnone ⟨e, he, h⟩)
    have hempty : l.fees.pendingFor k = 0 ∧ l.fees.distributedFor k = 0 := ⟨rfl, rfl⟩
    rw [hempty.1, hempty.2, hzero] at hreceived
    exact Nat.add_eq_zero_iff.1 hreceived

/-- A token that was distributed without a minimum is listed, though no fees of it came in. -/
theorem unreceived_listed :
    let l : Ledger := { pool := { stakingToken := "S" } }
    let actions : List Action := [.distribute "USDC" { minimum := 0 }]
    (l.run actions).fees.tokens = ["USDC"] ∧
      ¬∃ e ∈ l.journal actions, e.receives (.text "USDC") = true := by
  decide +kernel

end Ledger

end PoolAccounting
