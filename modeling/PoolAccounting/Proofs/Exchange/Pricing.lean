import Mathlib
import PoolAccounting.Exchange.Swap

/-!
The two quotes of a swap on plain numbers. A quote for an input rounds down twice, once with the fee
and once with the output; a quote for an output rounds up twice. Each rounding down is adjoint to
the rounding up that undoes it, so the second quote is the least input for which the first one
gives the output.
-/
namespace PoolAccounting

theorem Amount.ite_mod_eq_ceilDiv (n : ℕ) {d : ℕ} (hd : 0 < d) :
    (if n % d = 0 then n / d else n / d + 1) = n ⌈/⌉ d := by
  apply eq_of_forall_ge_iff
  intro c
  rw [ceilDiv_le_iff_le_mul hd]
  have hn := Nat.div_add_mod n d
  have hr := Nat.mod_lt n hd
  split
  · rw [← Nat.mul_le_mul_left_iff hd]
    omega
  · rw [← Nat.mul_le_mul_left_iff hd, Nat.mul_add]
    constructor
    · omega
    · intro h
      -- a multiple of the divisor that is not below `n` is at least the one after the quotient
      have hlt : n / d < c := Nat.lt_of_mul_lt_mul_left (a := d) (by omega)
      have hle := Nat.mul_le_mul_left d (Nat.succ_le_of_lt hlt)
      rw [Nat.mul_succ] at hle
      omega

namespace Exchange

open Amount

/-- What an input pays as a fee. -/
def feeOn (paid bps : ℕ) : ℕ := paid * bps ⌈/⌉ bpsDenominator

/-- What is left of an input without its fee. -/
def netInput (paid bps : ℕ) : ℕ := paid * (bpsDenominator - bps) / bpsDenominator

/-- The least input that comes to a net input. -/
def grossInput (net bps : ℕ) : ℕ := net * bpsDenominator ⌈/⌉ (bpsDenominator - bps)

/-- What a net input buys. -/
def bought (rIn rOut net : ℕ) : ℕ := rOut * net / (rIn + net)

/-- The least net input that buys an output. -/
def netPrice (rIn rOut out : ℕ) : ℕ := rIn * out ⌈/⌉ (rOut - out)

variable {paid paid' bps net net' rIn rOut out : ℕ}

theorem bpsDenominator_pos : 0 < bpsDenominator := by decide

theorem le_netInput_iff_feeOn_le (hb : bps ≤ bpsDenominator) (hn : net ≤ paid) :
    net ≤ netInput paid bps ↔ feeOn paid bps ≤ paid - net := by
  have hsplit : paid * bps + paid * (bpsDenominator - bps) = bpsDenominator * paid := by
    rw [← Nat.mul_add, Nat.add_sub_cancel' hb, Nat.mul_comm]
  have hle := Nat.mul_le_mul_left bpsDenominator hn
  rw [netInput, Nat.le_div_iff_mul_le bpsDenominator_pos, feeOn,
    ceilDiv_le_iff_le_mul bpsDenominator_pos, Nat.mul_sub bpsDenominator, Nat.mul_comm net]
  omega

theorem netInput_le (paid bps : ℕ) : netInput paid bps ≤ paid := by
  apply Nat.div_le_of_le_mul
  rw [Nat.mul_comm]
  exact Nat.mul_le_mul_right paid (Nat.sub_le _ _)

/-- The fee rounds up by what the net input rounds down. -/
theorem netInput_add_feeOn (paid : ℕ) (hb : bps ≤ bpsDenominator) :
    netInput paid bps + feeOn paid bps = paid := by
  have hfee : feeOn paid bps ≤ paid :=
    (le_netInput_iff_feeOn_le hb (Nat.zero_le _)).1 (Nat.zero_le _)
  have hle := (le_netInput_iff_feeOn_le hb (netInput_le paid bps)).1 le_rfl
  have hge := (le_netInput_iff_feeOn_le hb (Nat.sub_le paid (feeOn paid bps))).2 (by omega)
  have := netInput_le paid bps
  omega

theorem netInput_mono (h : paid ≤ paid') (bps : ℕ) : netInput paid bps ≤ netInput paid' bps :=
  Nat.div_le_div_right (Nat.mul_le_mul_right _ h)

theorem grossInput_le_iff (hb : bps < bpsDenominator) :
    grossInput net bps ≤ paid ↔ net ≤ netInput paid bps := by
  rw [grossInput, ceilDiv_le_iff_le_mul (Nat.sub_pos_of_lt hb), netInput,
    Nat.le_div_iff_mul_le bpsDenominator_pos, Nat.mul_comm paid]

/-- An output is within what a net input buys just if the two leave the product of the reserves at
least where it was. -/
theorem le_bought_iff (hr : 0 < rIn) (ho : out ≤ rOut) :
    out ≤ bought rIn rOut net ↔ rIn * rOut ≤ (rIn + net) * (rOut - out) := by
  have hle := Nat.mul_le_mul_left (rIn + net) ho
  rw [bought, Nat.le_div_iff_mul_le (by omega), Nat.mul_sub, Nat.add_mul rIn net rOut,
    Nat.mul_comm out, Nat.mul_comm rOut]
  rw [Nat.add_mul rIn net rOut] at hle
  omega

theorem netPrice_le_iff (hr : 0 < rIn) (ho : out < rOut) :
    netPrice rIn rOut out ≤ net ↔ out ≤ bought rIn rOut net := by
  have hsplit : rIn * (rOut - out) + rIn * out = rIn * rOut := by
    rw [← Nat.mul_add, Nat.sub_add_cancel ho.le]
  rw [le_bought_iff hr ho.le, netPrice, ceilDiv_le_iff_le_mul (Nat.sub_pos_of_lt ho), Nat.add_mul,
    Nat.mul_comm (rOut - out)]
  omega

theorem bought_lt (hr : 0 < rIn) (ho : 0 < rOut) (net : ℕ) : bought rIn rOut net < rOut := by
  rw [bought, Nat.div_lt_iff_lt_mul (by omega)]
  exact Nat.mul_lt_mul_of_pos_left (by omega) ho

theorem bought_mono (hr : 0 < rIn) (ho : 0 < rOut) (h : net ≤ net') :
    bought rIn rOut net ≤ bought rIn rOut net' := by
  have hlt := bought_lt hr ho net
  rw [le_bought_iff hr hlt.le]
  calc rIn * rOut
    _ ≤ (rIn + net) * (rOut - bought rIn rOut net) := (le_bought_iff hr hlt.le).1 le_rfl
    _ ≤ (rIn + net') * (rOut - bought rIn rOut net) :=
      Nat.mul_le_mul_right _ (Nat.add_le_add_left h rIn)

end Exchange

end PoolAccounting
