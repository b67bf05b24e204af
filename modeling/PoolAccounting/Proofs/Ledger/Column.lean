import Mathlib
import PoolAccounting.Proofs.Ledger.Journal
import PoolAccounting.Proofs.Staking.Accrual
import PoolAccounting.Proofs.Table.Sums

/-!
A ledger as one reward token sees it: the accumulator of the token, the principal, and for each
user a seat with the stake and the checkpoint. Every action comes down to postings on such a column;
a posting either books something on the accumulator or moves one seat.
-/
namespace PoolAccounting

open Staking Amount

/-- A user as one reward token sees it. A checkpoint that is not stored counts as all zero. -/
structure Seat where
  staked : Nat := 0
  stored : Option Checkpoint := none
  deriving DecidableEq, Repr

def Seat.checkpoint (s : Seat) : Checkpoint := s.stored.getD ⟨0, 0⟩

def Staking.UserStake.seat (k : Key) (u : UserStake) : Seat := ⟨u.staked, u.checkpoints.get? k⟩

@[simp] theorem Staking.UserStake.seat_staked (u : UserStake) (k : Key) :
    (u.seat k).staked = u.staked := rfl

@[simp] theorem Staking.UserStake.seat_checkpoint (u : UserStake) (k : Key) :
    (u.seat k).checkpoint = u.checkpoint k := rfl

structure Column where
  accumulator : Option RewardPool := none
  totalStaked : Nat := 0
  seats : Table Seat := ∅
  deriving DecidableEq, Repr

inductive Booking
  | register (now rate : Nat)
  | accrue (now : Operand)
  | inject (amount : Nat)
  | changeRate (rate : Nat)
  deriving DecidableEq, Repr

inductive Move
  | enter
  | settle
  | pay (amount : Nat)
  | deposit (amount : Nat)
  | withdraw (amount : Nat)
  deriving DecidableEq, Repr

inductive Posting
  | book (b : Booking)
  | move (user : String) (m : Move)
  deriving DecidableEq, Repr

namespace Column

/-- The accumulator; one that is not registered counts as all zero. -/
def reward (c : Column) : RewardPool := c.accumulator.getD {}

theorem reward_of_registered {c : Column} {r : RewardPool} (h : c.accumulator = some r) :
    c.reward = r := by
  rw [reward, h, Option.getD_some]

/-- The seat of a user; one that is not known counts as empty. -/
def seat (c : Column) (user : String) : Seat := (c.seats.get? user).getD {}

def sit (c : Column) (user : String) (s : Seat) : Column :=
  { c with
    totalStaked := c.totalStaked + s.staked - (c.seat user).staked
    seats := c.seats.insert user s }

/-- Only a token that is registered is accrued, injected or given another rate. -/
def book (c : Column) : Booking → Option (Option RewardPool)
  | .register now rate => some (c.accumulator.getD { lastUpdate := now, rate })
  | .accrue now => c.accumulator.mapM fun r => (r.accrue c.totalStaked now).toOption
  | .inject amount => c.accumulator.mapM fun r => (r.inject amount c.totalStaked).toOption
  | .changeRate rate => some (c.accumulator.map fun r => { r with rate })

/-- Whether the seat is settled up to the accumulator. -/
def isSettled (c : Column) (s : Seat) : Bool :=
  c.accumulator.all fun r => s.checkpoint.paid = r.rewardPerToken

/-- What a move makes of a seat. A stake may change only while the seat is settled. -/
def moved (c : Column) (s : Seat) : Move → Option Seat
  | .enter => some s
  | .settle =>
    match c.accumulator with
    | none => some s
    | some r => (s.checkpoint.settle s.staked r.rewardPerToken).toOption.map fun d =>
      { s with stored := some d }
  | .pay amount =>
    match c.accumulator with
    | none => if amount = 0 then some s else none
    | some _ =>
      if s.checkpoint.accrued = amount then
        some { s with stored := s.stored.map fun d => { d with accrued := 0 } }
      else none
  | .deposit amount =>
    if c.isSettled s ∧ c.totalStaked + amount ≤ maxAmount then
      some { s with staked := s.staked + amount }
    else none
  | .withdraw amount =>
    if c.isSettled s ∧ amount ≤ s.staked then some { s with staked := s.staked - amount }
    else none

@[simp] theorem seat_sit (c : Column) (user other : String) (s : Seat) :
    (c.sit user s).seat other = if user = other then s else c.seat other := by
  unfold seat sit
  simp only [Table.get?_insert, Scalar.key_text, Key.text.injEq]
  split <;> rfl

theorem book_accrue {c : Column} {now : Operand} {accumulator : Option RewardPool} :
    c.book (.accrue now) = some accumulator ↔ c.accumulator = none ∧ accumulator = none ∨
      ∃ r r', c.accumulator = some r ∧ r.accrue c.totalStaked now = .ok r' ∧
        accumulator = some r' := by
  rw [book]
  cases c.accumulator with
  | none => simp [eq_comm]
  | some r => cases h : r.accrue c.totalStaked now <;> simp [h, Except.toOption, eq_comm]

theorem book_inject {c : Column} {amount : Nat} {accumulator : Option RewardPool} :
    c.book (.inject amount) = some accumulator ↔ c.accumulator = none ∧ accumulator = none ∨
      ∃ r r', c.accumulator = some r ∧ r.inject amount c.totalStaked = .ok r' ∧
        accumulator = some r' := by
  rw [book]
  cases c.accumulator with
  | none => simp [eq_comm]
  | some r => cases h : r.inject amount c.totalStaked <;> simp [h, Except.toOption, eq_comm]

theorem moved_settle {c : Column} {s t : Seat} : c.moved s .settle = some t ↔
    c.accumulator = none ∧ t = s ∨ ∃ r d, c.accumulator = some r ∧
      s.checkpoint.settle s.staked r.rewardPerToken = .ok d ∧
      t = { s with stored := some d } := by
  rw [moved]
  cases c.accumulator with
  | none => simp [eq_comm]
  | some r =>
    cases h : s.checkpoint.settle s.staked r.rewardPerToken with
    | error f => simp [h, Except.toOption]
    | ok d => simp [h, Except.toOption, eq_comm]

theorem moved_pay {c : Column} {s t : Seat} {amount : Nat} :
    c.moved s (.pay amount) = some t ↔ c.accumulator = none ∧ amount = 0 ∧ t = s ∨
      c.accumulator.isSome ∧ s.checkpoint.accrued = amount ∧
      t = { s with stored := s.stored.map fun d => { d with accrued := 0 } } := by
  rw [moved]
  cases c.accumulator with
  | none => simp [eq_comm]
  | some r => simp [eq_comm]

theorem moved_deposit {c : Column} {s t : Seat} {amount : Nat} :
    c.moved s (.deposit amount) = some t ↔ c.isSettled s ∧
      c.totalStaked + amount ≤ maxAmount ∧ t = { s with staked := s.staked + amount } := by
  simp only [moved, Option.ite_none_right_eq_some, Option.some.injEq, and_assoc, eq_comm (a := t)]

theorem moved_withdraw {c : Column} {s t : Seat} {amount : Nat} :
    c.moved s (.withdraw amount) = some t ↔ c.isSettled s ∧ amount ≤ s.staked ∧
      t = { s with staked := s.staked - amount } := by
  simp only [moved, Option.ite_none_right_eq_some, Option.some.injEq, and_assoc, eq_comm (a := t)]

theorem sum_sit (c : Column) (user : String) (s : Seat) (f : Seat → Nat) (hf : f {} = 0) :
    ((c.sit user s).seats.values.map f).sum + f (c.seat user) =
      (c.seats.values.map f).sum + f s :=
  Table.sum_values_insert f hf c.seats user s

def post (c : Column) : Posting → Option Column
  | .book b => (c.book b).map fun accumulator => { c with accumulator }
  | .move user m => (c.moved (c.seat user) m).map (c.sit user)

theorem post_book {c d : Column} {b : Booking} : c.post (.book b) = some d ↔
    ∃ accumulator, c.book b = some accumulator ∧ d = { c with accumulator } := by
  simp [post, eq_comm]

theorem post_move {c d : Column} {user : String} {m : Move} : c.post (.move user m) = some d ↔
    ∃ s, c.moved (c.seat user) m = some s ∧ d = c.sit user s := by
  simp [post, eq_comm]

def replay (c : Column) : List Posting → Option Column
  | [] => some c
  | p :: ps => (c.post p).bind fun d => d.replay ps

@[simp] theorem replay_nil (c : Column) : c.replay [] = some c := rfl

theorem replay_cons (c : Column) (p : Posting) (ps : List Posting) :
    c.replay (p :: ps) = (c.post p).bind fun d => d.replay ps := rfl

theorem replay_append (c : Column) (ps qs : List Posting) :
    c.replay (ps ++ qs) = (c.replay ps).bind fun d => d.replay qs := by
  induction ps generalizing c with
  | nil => rfl
  | cons p ps ih =>
    rw [List.cons_append, replay_cons, replay_cons]
    cases c.post p with
    | none => rfl
    | some d => exact ih d

/-- The postings of a replay, each with the column it meets. -/
def visits (c : Column) : List Posting → List (Column × Posting)
  | [] => []
  | p :: ps => (c, p) :: ((c.post p).elim [] fun d => d.visits ps)

/-- What every posting keeps, given the visits made so far, a replay keeps. -/
theorem visits_invariant (Inv : Column → List (Column × Posting) → Prop)
    (step : ∀ {c d p vs}, Inv c vs → c.post p = some d → Inv d (vs ++ [(c, p)]))
    {c d : Column} {ps : List Posting} (hr : c.replay ps = some d) (vs : List (Column × Posting))
    (h : Inv c vs) : Inv d (vs ++ c.visits ps) := by
  induction ps generalizing c vs with
  | nil =>
    obtain rfl : c = d := by simpa using hr
    rw [visits, List.append_nil]
    exact h
  | cons p ps ih =>
    rw [replay_cons, Option.bind_eq_some_iff] at hr
    obtain ⟨e, hp, hr⟩ := hr
    have hv : vs ++ c.visits (p :: ps) = vs ++ [(c, p)] ++ e.visits ps := by
      simp [visits, hp]
    rw [hv]
    exact ih hr _ (step h hp)

theorem map_snd_visits {c d : Column} {ps : List Posting} (hr : c.replay ps = some d) :
    (c.visits ps).map Prod.snd = ps := by
  induction ps generalizing c with
  | nil => rfl
  | cons p ps ih =>
    rw [replay_cons, Option.bind_eq_some_iff] at hr
    obtain ⟨e, hp, hr⟩ := hr
    simp [visits, hp, ih hr]

/-- What every posting keeps, given the postings made so far, a replay keeps. -/
theorem replay_invariant (Inv : Column → List Posting → Prop)
    (step : ∀ {c d p ps}, Inv c ps → c.post p = some d → Inv d (ps ++ [p]))
    {c d : Column} {ps : List Posting} (hr : c.replay ps = some d) (h : Inv c []) : Inv d ps := by
  have hv := visits_invariant (fun c vs => Inv c (vs.map Prod.snd)) (fun hi hp => by
    rw [List.map_append]
    exact step hi hp) hr [] h
  rwa [List.nil_append, map_snd_visits hr] at hv

end Column

end PoolAccounting
