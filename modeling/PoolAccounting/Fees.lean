import PoolAccounting.BasisPoints
import PoolAccounting.Staking.Rewards

/-!
Fees that were received are kept per token until they are split between treasury, staking and
burning. Shares round down and the treasury takes what is left, so the parts of a split add up to
the amount that was split.
-/
namespace PoolAccounting.Fees

open Amount Staking

/-- How fees are shared, and how much of a token has to be pending before it is split. -/
structure Shares where
  treasury : Nat := 5000
  staking : Nat := 3000
  burn : Nat := 2000
  minimum : Nat := oneToken
  sum_eq : treasury + staking + burn = bpsDenominator := by decide
  minimum_le : minimum ≤ maxAmount := by decide
  deriving DecidableEq, Repr

structure Split where
  treasury : Int
  staking : Int
  burn : Int
  deriving DecidableEq, Repr

structure Distribution where
  token : Scalar
  amount : Nat
  split : Split
  deriving DecidableEq, Repr

/-- What is pending of each token, and what was distributed of it so far. -/
structure Book where
  pending : Table Nat := ∅
  distributed : Table Nat := ∅
  deriving DecidableEq, Repr

namespace Split

def total (s : Split) : Int := s.treasury + s.staking + s.burn

end Split

namespace Shares

theorem sum_of_split {x y z : Operand} {ns : List Nat}
    (h : BasisPoints.split [x, y, z] = .ok ns) :
    ns.getD 0 0 + ns.getD 1 0 + ns.getD 2 0 = bpsDenominator := by
  obtain ⟨e, -, hs⟩ := BasisPoints.split_eq_ok.1 h
  match ns, e, hs with
  | [a, b, c], _, hs => simpa [BasisPoints.total, Nat.add_assoc] using hs

def ofOperands (treasury staking burn minimum : Operand) : Except Fault Shares :=
  match h : BasisPoints.split [treasury, staking, burn] with
  | .error fault => .error fault
  | .ok parts =>
    match hm : minimum.nonNegative "min_distribution" with
    | .error fault => .error fault
    | .ok least => pure ⟨parts.getD 0 0, parts.getD 1 0, parts.getD 2 0, least, sum_of_split h,
        (Operand.nonNegative_eq_ok.1 hm).2⟩

/-- The parts of `amount`. -/
def split (c : Shares) (amount : Operand) : Except Fault Split := do
  let amount ← amount.nonNegative "amount"
  let staking ← BasisPoints.apply amount c.staking
  let burn ← BasisPoints.apply amount c.burn
  let shared ← addNat staking burn
  let treasury ← sub amount shared
  pure ⟨treasury, staking, burn⟩

end Shares

namespace Book

/-- The amounts of one table as natural numbers; `table` names it. -/
def amounts (table : String) : List (Scalar × Operand) → Except Fault (List (Scalar × Nat))
  | [] => pure []
  | (token, x) :: rest => do
    let n ← x.field s!"{table}[{token.display}]"
    let ns ← amounts table rest
    pure ((token, n) :: ns)

def ofOperands (pending distributed : List (Scalar × Operand)) : Except Fault Book := do
  let pending ← amounts "pending" pending
  let distributed ← amounts "total_distributed" distributed
  pure ⟨.ofList pending, .ofList distributed⟩

def pendingFor (b : Book) (token : Key) : Nat := (b.pending.get? token).getD 0

def distributedFor (b : Book) (token : Key) : Nat := (b.distributed.get? token).getD 0

/-- The tokens that either table knows. -/
def tokens (b : Book) : List Scalar := (b.pending.override b.distributed).names

theorem mem_tokens_iff {b : Book} {k : Key} :
    k ∈ b.tokens.map Scalar.key ↔ k ∈ b.pending.keys ∨ k ∈ b.distributed.keys :=
  Table.mem_keys_override

def receive (b : Book) (token : Scalar) (amount : Operand) : Except Fault Book := do
  let amount ← amount.positive "amount"
  let pending ← addNat (b.pendingFor token) amount
  pure { b with pending := b.pending.insert token pending }

/-- Splits everything that is pending of a token. -/
def distribute (b : Book) (token : Scalar) (c : Shares) : Except Fault (Book × Distribution) := do
  let amount := b.pendingFor token
  ensure (c.minimum ≤ amount) (.feesBelowMinimum token amount c.minimum)
  let split ← c.split amount
  let distributed ← addNat (b.distributedFor token) amount
  pure (⟨b.pending.insert token 0, b.distributed.insert token distributed⟩,
    ⟨token, amount, split⟩)

/-- Whether a token has fees pending and enough of them. -/
def isDue (b : Book) (c : Shares) (token : Scalar) : Bool :=
  b.pendingFor token != 0 && c.minimum ≤ b.pendingFor token

/-- Distributes those of the tokens that are due, one after the other. -/
def distributeEach (c : Shares) : List Scalar → Book → Except Fault (Book × List Distribution)
  | [], b => pure (b, [])
  | token :: rest, b =>
    if b.isDue c token then do
      let (b, result) ← b.distribute token c
      let (b, results) ← distributeEach c rest b
      pure (b, result :: results)
    else distributeEach c rest b

def distributeAll (b : Book) (c : Shares) : Except Fault (Book × List Distribution) :=
  distributeEach c b.pending.names b

/-- Distributes a token and credits the staking part to its rewards, as one step. -/
def distributeToStaking (b : Book) (p : StakingPool) (token : Scalar) (c : Shares)
    (now : Operand) : Except Fault (Book × StakingPool × Distribution) := do
  let (b, result) ← b.distribute token c
  if 0 < result.split.staking then do
    let p ← p.notifyRewardAmount token result.split.staking now
    pure (b, p, result)
  else pure (b, p, result)

end Book

end PoolAccounting.Fees
