import Mathlib
import PoolAccounting.BasisPoints
import PoolAccounting.Proofs.Regularity.Failures

/-!
The faults of checks on operands and of arithmetic on amounts. Beyond what its operands are refused
for, a sum, a product or a quotient fails only with an overflow. A difference does so where the
numbers are known to be in order, a quotient where the divisor is known not to be zero. So arithmetic
is ordinary, and on amounts it fails with an overflow or not at all: with one just if the exact number
is above the domain.
-/
namespace PoolAccounting

namespace Operand

theorem ordinary_integer (name : String) (x : Operand) : Ordinary (x.integer name) := by
  cases x with
  | int n => exact .of_ok rfl
  | nonInt => exact .error rfl

theorem ordinary_amount (name : String) (x : Operand) : Ordinary (x.amount name) :=
  .guarded (ordinary_integer name x) fun _ => rfl

theorem ordinary_nonNegative (name : String) (x : Operand) : Ordinary (x.nonNegative name) :=
  .guarded (ordinary_amount name x) fun _ => rfl

theorem ordinary_positive (name : String) (x : Operand) : Ordinary (x.positive name) :=
  .guarded (ordinary_amount name x) fun _ => rfl

theorem ordinary_basisPoints (name : String) (x : Operand) : Ordinary (x.basisPoints name) :=
  .guarded (ordinary_integer name x) fun _ => rfl

theorem ordinary_time (x : Operand) : Ordinary x.time :=
  .guarded (ordinary_integer "now" x) fun _ => rfl

theorem ordinary_field (name : String) (x : Operand) : Ordinary (x.field name) :=
  .guarded (ordinary_integer name x) fun _ => rfl

end Operand

namespace Amount

open Operand

theorem minAmount_le_natCast (n : Nat) : minAmount ≤ n := by
  have h : minAmount ≤ 0 := by decide
  exact h.trans (Int.natCast_nonneg n)

section Classes

variable {P : Fault → Prop} (hP : ∀ f, f.kind = .accounting .overflow → P f)
include hP

theorem failsOnly_checked {v : Int} (h : minAmount ≤ v) : FailsOnly P (checked v) := by
  refine .bind (.ensure fun _ => hP _ rfl) ?_
  intro _ _
  exact .bind_ok ((ensure_eq_ok (u := ())).2 h) (.pure v)

theorem failsOnly_checkedNat (n : Nat) : FailsOnly P (checkedNat n) := by
  apply FailsOnly.bind (failsOnly_checked hP (minAmount_le_natCast n))
  intro v _
  exact .pure v.toNat

section Sums

variable {a b : Nat} (ha : FailsOnly P (Operand.amount "a" a))
  (hb : FailsOnly P (Operand.amount "b" b))
include ha hb

theorem failsOnly_add : FailsOnly P (add a b) := by
  apply FailsOnly.bind ha
  intro x hx
  apply FailsOnly.bind hb
  intro y hy
  -- both operands are natural numbers, so the sum is one
  cases (amount_eq_ok.1 hx).1
  cases (amount_eq_ok.1 hy).1
  exact failsOnly_checked hP (minAmount_le_natCast (a + b))

theorem failsOnly_addNat : FailsOnly P (addNat a b) := by
  apply FailsOnly.bind (failsOnly_add hP ha hb)
  intro s _
  exact .pure s.toNat

theorem failsOnly_sub (h : b ≤ a) : FailsOnly P (sub a b) := by
  apply FailsOnly.bind ha
  intro x hx
  apply FailsOnly.bind hb
  intro y hy
  cases (amount_eq_ok.1 hx).1
  cases (amount_eq_ok.1 hy).1
  have h0 : (0 : Int) ≤ a - b := by omega
  refine .bind_ok ((ensure_eq_ok (u := ())).2 h0) ?_
  have hm : minAmount ≤ (a : Int) - b := (minAmount_le_natCast 0).trans h0
  apply FailsOnly.bind (failsOnly_checked hP hm)
  intro d _
  exact .pure d.toNat

end Sums

theorem failsOnly_mul {a b : Operand} (ha : FailsOnly P (a.amount "a"))
    (hb : FailsOnly P (b.amount "b")) : FailsOnly P (mul a b) := by
  apply FailsOnly.bind ha
  intro x _
  apply FailsOnly.bind hb
  intro y _
  refine .bind (.ensure fun _ => hP _ rfl) ?_
  intro _ _
  exact .pure (x * y)

section Quotients

variable {a b : Operand} {c : Nat} (h0 : c ≠ 0) (ha : FailsOnly P (a.nonNegative "a"))
  (hb : FailsOnly P (b.nonNegative "b")) (hc : FailsOnly P (Operand.nonNegative "c" c))
include h0 ha hb hc

omit hP in
theorem failsOnly_ratio : FailsOnly P (ratio a b c) := by
  apply FailsOnly.bind ha
  intro x _
  apply FailsOnly.bind hb
  intro y _
  apply FailsOnly.bind hc
  intro z hz
  cases (nonNegative_eq_ok.1 hz).1
  exact .bind_ok ((ensure_eq_ok (u := ())).2 h0) (.pure _)

theorem failsOnly_mulDivDown : FailsOnly P (mulDivDown a b c) := by
  apply FailsOnly.bind (failsOnly_ratio h0 ha hb hc)
  intro ⟨n, d⟩ _
  exact failsOnly_checkedNat hP _

theorem failsOnly_mulDivUp : FailsOnly P (mulDivUp a b c) := by
  apply FailsOnly.bind (failsOnly_ratio h0 ha hb hc)
  intro ⟨n, d⟩ _
  exact failsOnly_checkedNat hP _

end Quotients

end Classes

section Ordinary

variable (a b : Nat) {c : Nat}

theorem ordinary_add : Ordinary (add a b) :=
  failsOnly_add Fault.isOrdinary_of_overflow (ordinary_amount _ _) (ordinary_amount _ _)

theorem ordinary_addNat : Ordinary (addNat a b) :=
  failsOnly_addNat Fault.isOrdinary_of_overflow (ordinary_amount _ _)
    (ordinary_amount _ _)

theorem ordinary_mulNat : Ordinary (mulNat a b) := by
  apply FailsOnly.bind (failsOnly_mul Fault.isOrdinary_of_overflow
    (ordinary_amount _ _) (ordinary_amount _ _))
  intro p _
  exact .pure p.toNat

variable {a b} in
theorem ordinary_sub (h : b ≤ a) : Ordinary (sub a b) :=
  failsOnly_sub Fault.isOrdinary_of_overflow (ordinary_amount _ _) (ordinary_amount _ _) h

theorem ordinary_mulDivDown (h0 : c ≠ 0) (a b : Operand) : Ordinary (mulDivDown a b c) :=
  failsOnly_mulDivDown Fault.isOrdinary_of_overflow h0 (ordinary_nonNegative _ _)
    (ordinary_nonNegative _ _) (ordinary_nonNegative _ _)

end Ordinary

section Amounts

variable {a b c : Nat}

theorem amount_natCast {n : Nat} (name : String) (h : n ≤ maxAmount) :
    Operand.amount name n = .ok (n : Int) :=
  Operand.amount_eq_ok.2 ⟨rfl, minAmount_le_natCast n, Nat.cast_le.2 h⟩

theorem overflowOnly_add (ha : a ≤ maxAmount) (hb : b ≤ maxAmount) : OverflowOnly (add a b) :=
  failsOnly_add (fun _ => id) (.of_ok (amount_natCast "a" ha)) (.of_ok (amount_natCast "b" hb))

theorem overflowOnly_addNat (ha : a ≤ maxAmount) (hb : b ≤ maxAmount) :
    OverflowOnly (addNat a b) :=
  failsOnly_addNat (fun _ => id) (.of_ok (amount_natCast "a" ha)) (.of_ok (amount_natCast "b" hb))

theorem overflowOnly_mul (ha : a ≤ maxAmount) (hb : b ≤ maxAmount) : OverflowOnly (mul a b) :=
  failsOnly_mul (fun _ => id) (.of_ok (amount_natCast "a" ha)) (.of_ok (amount_natCast "b" hb))

section Quotients

variable (ha : a ≤ maxAmount) (hb : b ≤ maxAmount) (hc : c ≤ maxAmount) (h0 : c ≠ 0)
include ha hb hc h0

theorem overflowOnly_mulDivDown : OverflowOnly (mulDivDown a b c) :=
  failsOnly_mulDivDown (fun _ => id) h0 (.of_ok (nonNegative_eq_ok.2 ⟨rfl, ha⟩))
    (.of_ok (nonNegative_eq_ok.2 ⟨rfl, hb⟩)) (.of_ok (nonNegative_eq_ok.2 ⟨rfl, hc⟩))

theorem overflowOnly_mulDivUp : OverflowOnly (mulDivUp a b c) :=
  failsOnly_mulDivUp (fun _ => id) h0 (.of_ok (nonNegative_eq_ok.2 ⟨rfl, ha⟩))
    (.of_ok (nonNegative_eq_ok.2 ⟨rfl, hb⟩)) (.of_ok (nonNegative_eq_ok.2 ⟨rfl, hc⟩))

end Quotients

theorem addNat_overflows (ha : a ≤ maxAmount) (hb : b ≤ maxAmount) (h : maxAmount < a + b) :
    addNat a b = .error (.aboveDomain (a + b : Nat)) := by
  have habove : ¬((a : Int) + b ≤ maxAmount) := by omega
  simp [addNat, add, amount_natCast, ha, hb, checked, ensure, habove]

theorem checkedNat_overflows {n : Nat} (h : maxAmount < n) :
    checkedNat n = .error (.aboveDomain n) := by
  have habove : ¬((n : Int) ≤ maxAmount) := by omega
  simp [checkedNat, checked, ensure, habove]

theorem mulDivDown_overflows (ha : a ≤ maxAmount) (hb : b ≤ maxAmount) (hc : c ≤ maxAmount)
    (h0 : c ≠ 0) (h : maxAmount < a * b / c) :
    mulDivDown a b c = .error (.aboveDomain (a * b / c : Nat)) := by
  have hratio : ratio a b c = .ok (a * b, c) :=
    ratio_eq_ok.2 ⟨a, b, rfl, rfl, rfl, rfl, ha, hb, hc, h0⟩
  rw [mulDivDown, hratio]
  exact checkedNat_overflows h

end Amounts

end Amount

theorem BasisPoints.ordinary_apply (amount bps : Operand) : Ordinary (apply amount bps) := by
  apply FailsOnly.bind (Operand.ordinary_nonNegative "amount" amount)
  intro n _
  apply FailsOnly.bind (Operand.ordinary_basisPoints "bps" bps)
  intro b _
  exact Amount.ordinary_mulDivDown (by decide) _ _

end PoolAccounting
