import Mathlib
import PoolAccounting.Proofs.Ledger.Postings

/-!
What the postings of an entry transfer: principal that is deposited and withdrawn, and rewards that
are paid out. The sums over the postings of a run are the sums over its journal.
-/
namespace PoolAccounting

open Staking Ledger

namespace Posting

def deposited : Posting → Nat
  | .move _ (.deposit amount) => amount
  | _ => 0

def withdrawn : Posting → Nat
  | .move _ (.withdraw amount) => amount
  | _ => 0

def paid : Posting → Nat
  | .move _ (.pay amount) => amount
  | _ => 0

def paidTo (user : String) : Posting → Nat
  | .move name (.pay amount) => if name = user then amount else 0
  | _ => 0

/-- A quantity that only transfers contribute to, each by its amount. -/
structure IsFlow (f : Posting → Nat) : Prop where
  book : ∀ b, f (.book b) = 0
  enter : ∀ user, f (.move user .enter) = 0
  settle : ∀ user, f (.move user .settle) = 0
  pay_zero : ∀ user, f (.move user (.pay 0)) = 0
  deposit_zero : ∀ user, f (.move user (.deposit 0)) = 0

end Posting

namespace Ledger

open Posting

/-- The postings of an entry that transfer something. -/
def Entry.transfers (k : Key) (e : Entry) : List Posting :=
  match e.action, e.receipt with
  | .stake name amount _ _, _ => [.move name (.deposit amount.toNat)]
  | .unstake name amount _, _ => [.move name (.withdraw amount.toNat)]
  | .claim name _ _, .claimed _ => [.move name (.pay (e.paid k))]
  | .compound name _ _, .compounded _ amount =>
    [.move name (.pay (e.paid k)), .move name (.deposit amount)]
  | _, _ => []

variable {f : Posting → Nat} {name : String} {now : Operand} {amount : Nat}

theorem sum_refresh (hf : IsFlow f) : ((refresh name now).map f).sum = 0 := by
  simp [refresh, hf.book, hf.settle]

theorem sum_restake (hf : IsFlow f) :
    ((restake name now amount).map f).sum = f (.move name (.deposit amount)) := by
  simp [restake, sum_refresh hf]

theorem sum_collect (hf : IsFlow f) (paid : Option Nat) :
    ((collect name now paid).map f).sum = f (.move name (.pay (paid.getD 0))) := by
  cases paid with
  | none => simp [collect, hf.enter, hf.pay_zero]
  | some amount => simp [collect, sum_refresh hf]

theorem sum_credit (hf : IsFlow f) : ((credit now amount).map f).sum = 0 := by
  simp [credit, hf.book]

theorem Entry.sum_postings (hf : IsFlow f) (e : Entry) (k : Key) :
    ((e.postings k).map f).sum = ((e.transfers k).map f).sum := by
  obtain ⟨l, a, r⟩ := e
  cases a
  case stake name amount now limits => simpa [postings, transfers] using sum_restake hf
  case unstake name amount now => simp [postings, transfers, sum_refresh hf]
  case update name now => exact sum_refresh hf
  case claim name now choice =>
    cases r
    case claimed amounts => simpa [postings, transfers, Entry.paid] using sum_collect hf _
    all_goals rfl
  case compound name now limits =>
    cases r
    case compounded claimed amount =>
      by_cases h0 : amount = 0
      · simp [postings, transfers, h0, sum_collect hf, hf.deposit_zero]
      · simp [postings, transfers, h0, sum_collect hf, sum_restake hf]
    all_goals rfl
  case addToken token now rate =>
    by_cases hk : token.key = k <;> simp [postings, transfers, hk, hf.book]
  case setRate token rate now =>
    by_cases hk : token.key = k <;> simp [postings, transfers, hk, hf.book]
  case notify token amount now =>
    by_cases hk : token.key = k <;> simp [postings, transfers, hk, sum_credit hf]
  case toStaking token shares now =>
    cases r
    case distributed d =>
      by_cases hk : token.key = k ∧ 0 < d.split.staking <;>
        simp [postings, transfers, hk, sum_credit hf]
    all_goals rfl
  all_goals rfl

theorem Entry.sum_deposited (e : Entry) (k : Key) :
    ((e.postings k).map deposited).sum = e.staked + e.compounded := by
  have hf : IsFlow deposited := ⟨fun _ => rfl, fun _ => rfl, fun _ => rfl, fun _ => rfl,
    fun _ => rfl⟩
  rw [sum_postings hf]
  obtain ⟨l, a, r⟩ := e
  cases a <;> cases r <;> simp [transfers, staked, compounded, deposited]

theorem Entry.sum_withdrawn (e : Entry) (k : Key) :
    ((e.postings k).map withdrawn).sum = e.unstaked := by
  have hf : IsFlow withdrawn := ⟨fun _ => rfl, fun _ => rfl, fun _ => rfl, fun _ => rfl,
    fun _ => rfl⟩
  rw [sum_postings hf]
  obtain ⟨l, a, r⟩ := e
  cases a <;> cases r <;> simp [transfers, unstaked, withdrawn]

theorem Entry.sum_paid (e : Entry) (k : Key) :
    ((e.postings k).map Posting.paid).sum = e.paid k := by
  have hf : IsFlow Posting.paid := ⟨fun _ => rfl, fun _ => rfl, fun _ => rfl, fun _ => rfl,
    fun _ => rfl⟩
  rw [sum_postings hf]
  obtain ⟨l, a, r⟩ := e
  cases a <;> cases r <;> simp [transfers, Entry.paid, Posting.paid]

theorem Entry.sum_paidTo (e : Entry) (k : Key) (user : String) :
    ((e.postings k).map (Posting.paidTo user)).sum = e.paidTo user k := by
  have hf : IsFlow (Posting.paidTo user) := ⟨fun _ => rfl, fun _ => rfl, fun _ => rfl,
    fun name => ite_self 0, fun _ => rfl⟩
  rw [sum_postings hf]
  obtain ⟨l, a, r⟩ := e
  cases a <;> cases r <;>
    simp [transfers, Entry.paidTo, payee, Entry.paid, Posting.paidTo]

/-- What the postings of an entry come to, summed over a run. -/
theorem sum_postings {k : Key} {g : Entry → Nat} (hg : ∀ e, ((e.postings k).map f).sum = g e)
    (l : Ledger) (actions : List Action) :
    ((l.postings actions k).map f).sum = ((l.journal actions).map g).sum := by
  rw [postings]
  induction l.journal actions with
  | nil => rfl
  | cons e es ih =>
    rw [List.flatMap_cons, List.map_append, List.sum_append, ih, List.map_cons, List.sum_cons, hg]

theorem sum_deposited (l : Ledger) (actions : List Action) (k : Key) :
    ((l.postings actions k).map deposited).sum =
      ((l.journal actions).map (·.staked)).sum + ((l.journal actions).map (·.compounded)).sum := by
  rw [sum_postings (·.sum_deposited k), List.sum_map_add]

theorem sum_withdrawn (l : Ledger) (actions : List Action) (k : Key) :
    ((l.postings actions k).map withdrawn).sum = ((l.journal actions).map (·.unstaked)).sum :=
  sum_postings (·.sum_withdrawn k) l actions

theorem sum_paid (l : Ledger) (actions : List Action) (k : Key) :
    ((l.postings actions k).map paid).sum = ((l.journal actions).map (·.paid k)).sum :=
  sum_postings (·.sum_paid k) l actions

end Ledger

end PoolAccounting
