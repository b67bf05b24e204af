import PoolAccounting.Scalar.Basic

/-!
The ways in which an operation can be refused. A `Fault` is a cause; its `kind` says which family
it belongs to and its `message` is the wording a caller sees.
-/
namespace PoolAccounting

/-- The families of accounting errors. Their codes are stable and part of the interface. -/
inductive AccountingError
  | invalidAmount
  | invalidBps
  | invalidTimestamp
  | belowMinimum
  | insufficientBalance
  | tokenNotFound
  | overflow
  | underflow
  | divisionByZero
  deriving DecidableEq, Repr

namespace AccountingError

/-- Every family, in the order of the codes. -/
def all : List AccountingError :=
  [.invalidAmount, .invalidBps, .invalidTimestamp, .belowMinimum, .insufficientBalance,
    .tokenNotFound, .overflow, .underflow, .divisionByZero]

def code : AccountingError → Nat
  | invalidAmount => 200
  | invalidBps => 204
  | invalidTimestamp => 205
  | belowMinimum => 206
  | insufficientBalance => 400
  | tokenNotFound => 401
  | overflow => 500
  | underflow => 501
  | divisionByZero => 502

def label : AccountingError → String
  | invalidAmount => "INVALID_AMOUNT"
  | invalidBps => "INVALID_BPS"
  | invalidTimestamp => "INVALID_TIMESTAMP"
  | belowMinimum => "BELOW_MINIMUM"
  | insufficientBalance => "INSUFFICIENT_BALANCE"
  | tokenNotFound => "TOKEN_NOT_FOUND"
  | overflow => "OVERFLOW"
  | underflow => "UNDERFLOW"
  | divisionByZero => "DIVISION_BY_ZERO"

end AccountingError

/-- What is wrong in general: an operand of the wrong type, a record that cannot be built, a text
that cannot be read, a number that has no floating-point form, or an operation that the accounting
rules refuse. -/
inductive FaultKind
  | illTyped
  | illFormed
  | unreadable
  | unrepresentable
  | accounting (error : AccountingError)
  deriving DecidableEq, Repr

inductive Fault
  /-- An operand that has to be an integer is not one. -/
  | notInteger (name : String)
  /-- A single scalar is given where a list of tokens belongs. -/
  | notTokenList (given : Scalar)
  /-- Two values whose kinds have no sum. -/
  | notAddable (left right : String)
  /-- A value of another kind where only one of `kind` can be appended. -/
  | notAppendable (kind other : String)
  /-- Two values whose kinds have no order. -/
  | notComparable (left right : String)
  /-- An integer beyond the range of floating-point numbers where one has to be added to such a
  number. -/
  | integerTooLarge
  | negativeField (name : String) (value : Int)
  | nonPositiveField (name : String) (value : Int)
  | emptyText (name : String)
  | outsideDomain (name : String) (value : Int)
  | negative (name : String) (value : Int)
  | nonPositive (name : String) (value : Int)
  | aboveDomain (value : Int)
  | belowDomain (value : Int)
  | productOutside (a b : Int)
  | quotientOutside (a b : Int)
  | negativeDifference (a b : Int)
  | zeroDivisor (a : Int)
  | zeroRatio (a b : Nat)
  | bpsOutOfRange (name : String) (value : Int)
  | bpsSum (total : Int)
  | partExceedsTotal (part total : Nat)
  | wholeInputIsFee
  | drainsReserve (amountOut reserveOut : Nat)
  | zeroBaseReserve
  | depositTooSmall (used0 used1 : Nat)
  | initialDepositTooSmall (root minimum : Nat)
  | supplyWithoutReserves
  | mintsNothing (minted : Nat)
  | burnExceedsSupply (amount supply : Nat)
  | negativeTime (now : Int)
  | clockBackwards (now last : Nat)
  | unknownToken (token : Scalar)
  | stakeBelowMinimum (amount minimum : Nat)
  | stakeAboveCap (amount cap : Nat)
  | unstakeExceedsStake (amount staked : Nat)
  | feesBelowMinimum (token : Scalar) (amount minimum : Nat)
  deriving DecidableEq, Repr

/-- The wording for an integer that has no floating-point form. -/
def tooLargeMessage : String := "int too large to convert to float"

namespace Fault

def kind : Fault → FaultKind
  | notInteger _ | notTokenList _ | notAddable .. | notAppendable .. | notComparable .. => .illTyped
  | integerTooLarge => .unrepresentable
  | negativeField .. | nonPositiveField .. | emptyText _ => .illFormed
  | outsideDomain .. | negative .. | nonPositive .. | supplyWithoutReserves
  | stakeAboveCap .. => .accounting .invalidAmount
  | aboveDomain _ | productOutside .. | quotientOutside .. => .accounting .overflow
  | belowDomain _ | negativeDifference .. => .accounting .underflow
  | zeroDivisor _ | zeroRatio .. | zeroBaseReserve => .accounting .divisionByZero
  | bpsOutOfRange .. | bpsSum _ | partExceedsTotal .. | wholeInputIsFee =>
    .accounting .invalidBps
  | drainsReserve .. | burnExceedsSupply .. | unstakeExceedsStake .. =>
    .accounting .insufficientBalance
  | depositTooSmall .. | initialDepositTooSmall .. | mintsNothing _ | stakeBelowMinimum ..
  | feesBelowMinimum .. => .accounting .belowMinimum
  | negativeTime _ | clockBackwards .. => .accounting .invalidTimestamp
  | unknownToken _ => .accounting .tokenNotFound

def message : Fault → String
  | notInteger name => s!"{name} must be an int"
  | notTokenList (.text text) =>
    s!"tokens must be an iterable of token ids, not a str: {Text.quoted text}"
  | notTokenList given => s!"\x27{given.kindName}\x27 object is not iterable"
  | notAddable left right =>
    s!"unsupported operand type(s) for +: \x27{left}\x27 and \x27{right}\x27"
  | notAppendable kind other => s!"can only concatenate {kind} (not \"{other}\") to {kind}"
  | notComparable left right =>
    s!"\x27>=\x27 not supported between instances of \x27{left}\x27 and \x27{right}\x27"
  | integerTooLarge => tooLargeMessage
  | negativeField name value | negative name value => s!"{name} must be non-negative: {value}"
  | nonPositiveField name value | nonPositive name value => s!"{name} must be positive: {value}"
  | emptyText name => s!"{name} must be a non-empty string"
  | outsideDomain name value => s!"{name} outside the 128-bit amount domain: {value}"
  | aboveDomain value => s!"result exceeds amount domain: {value}"
  | belowDomain value => s!"result below amount domain: {value}"
  | productOutside a b => s!"multiplication overflow: {a} * {b}"
  | quotientOutside a b => s!"division overflow: {a} / {b}"
  | negativeDifference a b => s!"subtraction underflow: {a} - {b}"
  | zeroDivisor a => s!"division by zero: {a} / 0"
  | zeroRatio a b => s!"mul_div by zero: ({a} * {b}) / 0"
  | bpsOutOfRange name value => s!"{name} must be in [0, 10000]: {value}"
  | bpsSum total => s!"bps must sum to 10000, got {total}"
  | partExceedsTotal part total => s!"part exceeds total: {part} > {total}"
  | wholeInputIsFee => "cannot compute input with a 100% fee"
  | drainsReserve amountOut reserveOut =>
    s!"cannot drain full reserve: amount_out ({amountOut}) >= reserve_out ({reserveOut})"
  | zeroBaseReserve => "reserve_base is zero"
  | depositTooSmall used0 used1 => s!"deposit too small for pool ratio: ({used0}, {used1})"
  | initialDepositTooSmall root minimum =>
    s!"insufficient initial liquidity: sqrt(amount_0*amount_1)={root} <= {minimum}"
  | supplyWithoutReserves => "cannot add liquidity to an empty pool with outstanding LP supply"
  | mintsNothing minted => s!"deposit too small, mints {minted} LP"
  | burnExceedsSupply amount supply => s!"cannot burn more LP than supply: {amount} > {supply}"
  | negativeTime now => s!"now must be non-negative: {now}"
  | clockBackwards now last => s!"clock moved backwards: {now} < {last}"
  | unknownToken token => s!"unknown reward token: {token.display}"
  | stakeBelowMinimum amount minimum => s!"stake below minimum: {amount} < {minimum}"
  | stakeAboveCap amount cap => s!"stake exceeds max_stake_per_user: {amount} > {cap}"
  | unstakeExceedsStake amount staked => s!"unstake exceeds stake: {amount} > {staked}"
  | feesBelowMinimum token amount minimum =>
    s!"pending fees for {token.display} below minimum: {amount} < {minimum}"

end Fault

instance {α : Type} [DecidableEq α] : DecidableEq (Except Fault α)
  | .ok a, .ok b => decidable_of_iff (a = b) (by simp)
  | .error f, .error g => decidable_of_iff (f = g) (by simp)
  | .ok _, .error _ => isFalse (by simp)
  | .error _, .ok _ => isFalse (by simp)

/-- Refuses with `fault` unless `p` holds. -/
def ensure (p : Prop) [Decidable p] (fault : Fault) : Except Fault Unit :=
  if p then .ok () else .error fault

@[simp] theorem ensure_eq_ok {p : Prop} [Decidable p] {f : Fault} {u : Unit} :
    ensure p f = .ok u ↔ p := by
  unfold ensure; split <;> simp_all

@[simp] theorem ensure_eq_error {p : Prop} [Decidable p] {f g : Fault} :
    ensure p f = .error g ↔ ¬p ∧ f = g := by
  unfold ensure; split <;> simp_all

theorem bind_eq_ok {ε α β : Type} {x : Except ε α} {f : α → Except ε β} {b : β} :
    x >>= f = .ok b ↔ ∃ a, x = .ok a ∧ f a = .ok b := by
  cases x <;> simp [bind, Except.bind]

theorem bind_eq_error {ε α β : Type} {x : Except ε α} {f : α → Except ε β} {e : ε} :
    x >>= f = .error e ↔ x = .error e ∨ ∃ a, x = .ok a ∧ f a = .error e := by
  cases x <;> simp [bind, Except.bind]

theorem map_eq_ok {ε α β : Type} {x : Except ε α} {f : α → β} {b : β} :
    f <$> x = .ok b ↔ ∃ a, x = .ok a ∧ f a = b := by
  cases x <;> simp [Functor.map, Except.map]

theorem map_eq_error {ε α β : Type} {x : Except ε α} {f : α → β} {e : ε} :
    f <$> x = .error e ↔ x = .error e := by
  cases x <;> simp [Functor.map, Except.map]

@[simp] theorem ok_bind {ε α β : Type} (a : α) (f : α → Except ε β) :
    (Except.ok a >>= f) = f a := rfl

@[simp] theorem error_bind {ε α β : Type} (e : ε) (f : α → Except ε β) :
    (Except.error e >>= f) = .error e := rfl

end PoolAccounting
