import PoolAccounting.Amount.Checked

/-!
Shares in basis points, ten thousand to the whole. What is taken as a fee rounds up; what is paid
out to a counterparty rounds down.
-/
namespace PoolAccounting.BasisPoints

open Amount

/-- The share `bps` of `amount`, rounded down. -/
def apply (amount bps : Operand) : Except Fault Nat := do
  let amount ← amount.nonNegative "amount"
  let bps ← bps.basisPoints "bps"
  mulDivDown amount bps bpsDenominator

/-- The share `bps` of `amount`, rounded up: at least one unit of any positive product. -/
def applyRoundUp (amount bps : Operand) : Except Fault Nat := do
  let amount ← amount.nonNegative "amount"
  let bps ← bps.basisPoints "bps"
  mulDivUp amount bps bpsDenominator

/-- What is left of `amount` without the share `bps`. -/
def remainder (amount bps : Operand) : Except Fault Nat := do
  let share ← apply amount bps
  sub amount share

/-- `part` as a share of `total`, rounded down. -/
def proportion (part total : Operand) : Except Fault Nat := do
  let part ← part.nonNegative "part"
  let total ← total.nonNegative "total"
  let bps ← mulDivDown part bpsDenominator total
  ensure (bps ≤ bpsDenominator) (.partExceedsTotal part total)
  pure bps

/-- The parts as basis points, named by their position from `i` on. -/
def parts (i : Nat) : List Operand → Except Fault (List Nat)
  | [] => pure []
  | x :: xs => do
    let part ← x.basisPoints s!"parts[{i}]"
    let rest ← parts (i + 1) xs
    pure (part :: rest)

def total : List Nat → Nat
  | [] => 0
  | n :: ns => n + total ns

/-- The parts of a split, which have to make up the whole. -/
def split (xs : List Operand) : Except Fault (List Nat) := do
  let shares ← parts 0 xs
  ensure (total shares = bpsDenominator) (.bpsSum (total shares))
  pure shares

theorem apply_eq_ok {amount bps q : Nat} : apply amount bps = .ok q ↔
    q = amount * bps / bpsDenominator ∧ amount ≤ maxAmount ∧ bps ≤ bpsDenominator ∧
      q ≤ maxAmount := by
  simp only [apply, bind_eq_ok, Operand.nonNegative_eq_ok, Operand.basisPoints_eq_ok,
    Operand.int.injEq, Int.natCast_inj]
  constructor
  · rintro ⟨_, ⟨rfl, ha⟩, _, ⟨rfl, hb⟩, h⟩
    obtain ⟨hq, -, -, -, -, hm⟩ := mulDivDown_eq_ok.1 h
    exact ⟨hq, ha, hb, hm⟩
  · rintro ⟨hq, ha, hb, hm⟩
    have hd : bpsDenominator ≤ maxAmount := by decide
    exact ⟨_, ⟨rfl, ha⟩, _, ⟨rfl, hb⟩,
      mulDivDown_eq_ok.2 ⟨hq, ha, by omega, hd, by decide, hm⟩⟩

theorem parts_eq_ok {i : Nat} {xs : List Operand} {ns : List Nat} :
    parts i xs = .ok ns ↔ xs = ns.map (fun n : Nat => (n : Operand)) ∧
      ∀ n ∈ ns, n ≤ bpsDenominator := by
  induction xs generalizing i ns with
  | nil => cases ns <;> simp [parts, pure, Except.pure]
  | cons x xs ih =>
    simp only [parts, bind_eq_ok, Operand.basisPoints_eq_ok, ih, pure, Except.pure,
      Except.ok.injEq]
    constructor
    · rintro ⟨n, ⟨rfl, hn⟩, ns, ⟨rfl, hs⟩, rfl⟩
      exact ⟨rfl, by simpa using ⟨hn, hs⟩⟩
    · rintro ⟨e, h⟩
      cases ns with
      | nil => cases e
      | cons n ns =>
        simp only [List.map_cons, List.cons.injEq] at e
        exact ⟨n, ⟨e.1, h n (by simp)⟩, ns, ⟨e.2, fun m hm => h m (by simp [hm])⟩, rfl⟩

theorem split_eq_ok {xs : List Operand} {ns : List Nat} :
    split xs = .ok ns ↔ xs = ns.map (fun n : Nat => (n : Operand)) ∧
      (∀ n ∈ ns, n ≤ bpsDenominator) ∧ total ns = bpsDenominator := by
  simp only [split, bind_eq_ok, parts_eq_ok, ensure_eq_ok, pure, Except.pure, Except.ok.injEq]
  constructor
  · rintro ⟨_, ⟨rfl, h⟩, _, hs, rfl⟩; exact ⟨rfl, h, hs⟩
  · rintro ⟨rfl, h, hs⟩; exact ⟨_, ⟨rfl, h⟩, (), hs, rfl⟩

end PoolAccounting.BasisPoints
