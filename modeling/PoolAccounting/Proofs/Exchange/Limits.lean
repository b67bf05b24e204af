import Mathlib
import PoolAccounting.Proofs.Exchange.Trades
import PoolAccounting.Proofs.Regularity.Arithmetic

/-!
Which swaps the amount domain has room for. A swap checks its fee, its quotients, both reserves and
both products one after the other, but a trade never lowers the product of the reserves: where the
product after it is an amount, so is all that was computed on the way. Main statement: a swap of
admissible amounts is answered just if the product after it is an amount, and it is refused for an
overflow otherwise.
-/
namespace PoolAccounting.Exchange

open Amount Reserves

variable {r : Reserves} {paid out bps rIn rOut : ℕ} {d : Direction}

theorem Reserves.oriented_mem {s : Set ℕ} (h0 : r.reserve0 ∈ s) (h1 : r.reserve1 ∈ s)
    (d : Direction) : (r.oriented d).1 ∈ s ∧ (r.oriented d).2 ∈ s := by
  cases d
  · exact ⟨h0, h1⟩
  · exact ⟨h1, h0⟩

/-- As something is left of the output, the input reserve is no more than the product. -/
theorem Trade.of_k_le (hb : bps ≤ bpsDenominator) (hi : 0 < (r.oriented d).1)
    (hout : out < (r.oriented d).2) (ho : (r.oriented d).2 ≤ maxAmount)
    (hfair : out ≤ bought (r.oriented d).1 (r.oriented d).2 (netInput paid bps))
    (hk : (r.traded paid out d).k ≤ maxAmount) : Trade r paid out bps d := by
  have hle : (r.oriented d).1 + paid ≤ (r.traded paid out d).k := by
    rw [k_eq_oriented _ d, oriented_traded]
    exact Nat.le_mul_of_pos_right _ (Nat.sub_pos_of_lt hout)
  exact ⟨hb, hi, hle.trans hk, hout, ho, hfair⟩

theorem Trade.exchange_eq (h : Trade r paid out bps d)
    (hk : (r.traded paid out d).k ≤ maxAmount) :
    r.exchange paid out bps d = .ok (.ofTrade r paid out bps d) :=
  exchange_eq_ok.2 ⟨bps, rfl, h.bps_le, h.out_lt.le, h.reserveOut_le, h.reserveIn_le,
    h.k_le.trans hk, hk, rfl⟩

theorem Reserves.le_of_oriented {n : ℕ} (hi : (r.oriented d).1 ≤ n) (ho : (r.oriented d).2 ≤ n) :
    r.reserve0 ≤ n ∧ r.reserve1 ≤ n := by
  cases d
  · exact ⟨hi, ho⟩
  · exact ⟨ho, hi⟩

section Refusals

variable (hi : (r.oriented d).1 ≤ maxAmount) (ho : (r.oriented d).2 ≤ maxAmount)
  (hp : paid ≤ maxAmount) (hout : out ≤ (r.oriented d).2)
include hi ho hp hout

theorem overflowOnly_reservesAfterSwap :
    OverflowOnly (reservesAfterSwap r.reserve0 r.reserve1 paid out d) := by
  refine .bind_ok (Operand.nonNegative_eq_ok.2 ⟨rfl, hp⟩) ?_
  refine .bind_ok (Operand.nonNegative_eq_ok.2 ⟨rfl, hout.trans ho⟩) ?_
  cases d with
  | zeroForOne =>
    apply FailsOnly.bind (overflowOnly_add hi hp)
    intro x _
    exact .bind_ok (sub_natCast_eq_ok.2 ⟨rfl, hout, ho⟩) (.pure _)
  | oneForZero =>
    refine .bind_ok (sub_natCast_eq_ok.2 ⟨rfl, hout, ho⟩) ?_
    apply FailsOnly.bind (overflowOnly_add hi hp)
    intro y _
    exact .pure _

/-- Once a swap is quoted, its amounts can be moved but for an overflow. -/
theorem overflowOnly_exchange (hb : bps ≤ bpsDenominator) :
    OverflowOnly (r.exchange paid out bps d) := by
  apply FailsOnly.bind (overflowOnly_reservesAfterSwap hi ho hp hout)
  intro ⟨x, y⟩ hxy
  obtain ⟨rfl, rfl, -, -, hin⟩ := reservesAfterSwap_eq_ok.1 hxy
  obtain ⟨h0, h1⟩ := le_of_oriented hi ho
  have hle : (r.traded paid out d).reserve0 ≤ maxAmount ∧
      (r.traded paid out d).reserve1 ≤ maxAmount := by
    apply le_of_oriented (d := d)
    · rwa [oriented_traded]
    · rw [oriented_traded]
      exact (Nat.sub_le _ _).trans ho
  refine .bind_ok (BasisPoints.applyRoundUp_eq_ok_feeOn.2 ⟨hp, bps, rfl, hb, rfl⟩) ?_
  refine .bind_ok (ofOperands_natCast _ _) ?_
  apply FailsOnly.bind (overflowOnly_mul h0 h1)
  intro before _
  apply FailsOnly.bind (overflowOnly_mul hle.1 hle.2)
  intro after _
  exact .pure _

end Refusals

section Classes

variable {P : Fault → Prop} (hP : ∀ f, f.kind = .accounting .overflow → P f)
  {amount reserveIn reserveOut feeBps : Operand}
include hP

/-- A quote for an input fails with what its operands are refused for, or with an overflow. -/
theorem failsOnly_amountOut (hamount : FailsOnly P (amount.positive "amount_in"))
    (hin : FailsOnly P (reserveIn.positive "reserve_in"))
    (hout : FailsOnly P (reserveOut.positive "reserve_out"))
    (hfee : FailsOnly P (feeBps.basisPoints "fee_bps")) :
    FailsOnly P (amountOut amount reserveIn reserveOut feeBps) := by
  apply FailsOnly.bind hamount
  intro paid hp
  apply FailsOnly.bind hin
  intro rIn hi
  apply FailsOnly.bind hout
  intro rOut ho
  apply FailsOnly.bind hfee
  intro bps hb
  obtain ⟨-, hp0, hp⟩ := Operand.positive_eq_ok.1 hp
  obtain ⟨-, hi0, hi⟩ := Operand.positive_eq_ok.1 hi
  obtain ⟨-, ho0, ho⟩ := Operand.positive_eq_ok.1 ho
  obtain ⟨-, hb⟩ := Operand.basisPoints_eq_ok.1 hb
  -- from here on all numbers are amounts
  have hsum := netInput_add_feeOn paid hb
  refine .bind_ok (BasisPoints.applyRoundUp_eq_ok_feeOn.2 ⟨hp, bps, rfl, hb, rfl⟩) ?_
  refine .bind_ok (sub_natCast_eq_ok.2 ⟨rfl, by omega, hp⟩) ?_
  apply FailsOnly.ite
  · intro _
    exact .pure _
  · intro _
    have hnet : paid - feeOn paid bps ≤ maxAmount := (Nat.sub_le _ _).trans hp
    apply FailsOnly.bind ((overflowOnly_addNat hi hnet).mono hP)
    intro pooled hpooled
    obtain ⟨rfl, hle⟩ := addNat_eq_ok.1 hpooled
    exact (overflowOnly_mulDivDown ho hnet hle (Nat.add_pos_left hi0 _).ne').mono hP

/-- A quote for an output can fail, besides, as the fee takes everything or the output does. -/
theorem failsOnly_amountIn (hamount : FailsOnly P (amount.positive "amount_out"))
    (hin : FailsOnly P (reserveIn.positive "reserve_in"))
    (hout : FailsOnly P (reserveOut.positive "reserve_out"))
    (hfee : FailsOnly P (feeBps.basisPoints "fee_bps"))
    (hwhole : feeBps = bpsDenominator → P .wholeInputIsFee)
    (hdrain : ∀ out rOut : ℕ, amount = out → reserveOut = rOut → rOut ≤ out →
      P (.drainsReserve out rOut)) :
    FailsOnly P (amountIn amount reserveIn reserveOut feeBps) := by
  apply FailsOnly.bind hamount
  intro out ho
  apply FailsOnly.bind hin
  intro rIn hi
  apply FailsOnly.bind hout
  intro rOut hr
  apply FailsOnly.bind hfee
  intro bps hb
  obtain ⟨rfl, -, ho⟩ := Operand.positive_eq_ok.1 ho
  obtain ⟨-, -, hi⟩ := Operand.positive_eq_ok.1 hi
  obtain ⟨rfl, -, hr⟩ := Operand.positive_eq_ok.1 hr
  obtain ⟨rfl, hle⟩ := Operand.basisPoints_eq_ok.1 hb
  refine .bind (.ensure fun h => hwhole (by rw [not_not.1 h])) ?_
  intro _ hne
  refine .bind (.ensure fun h => hdrain out rOut rfl rfl (Nat.le_of_not_lt h)) ?_
  intro _ hlt
  have hlt : out < rOut := ensure_eq_ok.1 hlt
  have hbps : 0 < bpsDenominator - bps :=
    Nat.sub_pos_of_lt (lt_of_le_of_ne hle (ensure_eq_ok.1 hne))
  have hd : bpsDenominator ≤ maxAmount := by decide
  refine .bind_ok (sub_natCast_eq_ok.2 ⟨rfl, hlt.le, hr⟩) ?_
  apply FailsOnly.bind ((overflowOnly_mulDivUp hi ho ((Nat.sub_le _ _).trans hr)
    (Nat.sub_pos_of_lt hlt).ne').mono hP)
  intro net hnet
  have hnet : net ≤ maxAmount := (mulDivUp_eq_ok.1 hnet).2.2.2.2.2
  exact (overflowOnly_mulDivUp hnet hd ((Nat.sub_le _ _).trans hd) hbps.ne').mono hP

theorem failsOnly_swapExactIn (hquote : FailsOnly P
    (amountOut amount (r.oriented d).1 (r.oriented d).2 feeBps)) :
    FailsOnly P (r.swapExactIn amount feeBps d) := by
  apply FailsOnly.bind hquote
  intro out hout
  obtain ⟨paid, _, _, bps, rfl, hr, hr', rfl, hp0, hp, hi, ho, hom, hb, him, rfl⟩ :=
    amountOut_eq_ok.1 hout
  cases hr
  cases hr'
  refine .bind_ok (Operand.positive_eq_ok.2 ⟨rfl, hp0, hp⟩) ?_
  have hin : (r.oriented d).1 ≤ maxAmount := (Nat.le_add_right _ _).trans him
  exact (overflowOnly_exchange hin hom hp (bought_lt hi ho _).le hb).mono hP

theorem failsOnly_swapExactOut (hquote : FailsOnly P
    (amountIn amount (r.oriented d).1 (r.oriented d).2 feeBps)) :
    FailsOnly P (r.swapExactOut amount feeBps d) := by
  apply FailsOnly.bind hquote
  intro paid hpaid
  obtain ⟨out, _, _, bps, rfl, hr, hr', rfl, hout, hlt, hom, -, him, hb, -, hp, -⟩ :=
    amountIn_eq_ok.1 hpaid
  cases hr
  cases hr'
  refine .bind_ok (Operand.positive_eq_ok.2 ⟨rfl, hout, hlt.le.trans hom⟩) ?_
  exact (overflowOnly_exchange him hom hp hlt.le hb.le).mono hP

end Classes

section Answers

variable (h0 : r.reserve0 ∈ Set.Icc 1 maxAmount) (h1 : r.reserve1 ∈ Set.Icc 1 maxAmount)
include h0 h1

theorem swapExactIn_succeeds_iff (d : Direction) (hp : paid ∈ Set.Icc 1 maxAmount)
    (hb : bps ≤ bpsDenominator) :
    (∃ s, r.swapExactIn paid bps d = .ok s) ↔
      (r.traded paid (bought (r.oriented d).1 (r.oriented d).2 (netInput paid bps)) d).k ≤
        maxAmount := by
  obtain ⟨hi, ho⟩ := oriented_mem h0 h1 d
  constructor
  · rintro ⟨s, hs⟩
    simp only [swapExactIn, bind_eq_ok, amountOut_eq_ok, Operand.positive_eq_ok,
      Operand.int.injEq, Int.natCast_inj] at hs
    obtain ⟨_, ⟨_, _, _, _, rfl, rfl, rfl, rfl, -, -, -, -, -, -, -, rfl⟩, _, ⟨rfl, -⟩, hs⟩ := hs
    obtain ⟨-, -, -, -, -, -, -, hk, -⟩ := exchange_eq_ok.1 hs
    exact hk
  · intro hk
    have ht := Trade.of_k_le hb hi.1 (bought_lt hi.1 ho.1 _) ho.2 le_rfl hk
    have hnet := netInput_le paid bps
    have hin := ht.reserveIn_le
    have hquote : amountOut paid (r.oriented d).1 (r.oriented d).2 bps =
        .ok (bought (r.oriented d).1 (r.oriented d).2 (netInput paid bps)) :=
      amountOut_eq_ok.2 ⟨paid, _, _, bps, rfl, rfl, rfl, rfl, hp.1, hp.2, hi.1, ho.1, ho.2, hb,
        by omega, rfl⟩
    rw [swapExactIn, hquote, ok_bind, Operand.positive_eq_ok.2 ⟨rfl, hp⟩, ok_bind]
    exact ⟨_, ht.exchange_eq hk⟩

theorem swapExactOut_succeeds_iff (d : Direction) (hout : out ∈ Set.Ico 1 (r.oriented d).2)
    (hb : bps < bpsDenominator) :
    (∃ s, r.swapExactOut out bps d = .ok s) ↔
      (r.traded (grossInput (netPrice (r.oriented d).1 (r.oriented d).2 out) bps) out d).k ≤
        maxAmount := by
  obtain ⟨hi, ho⟩ := oriented_mem h0 h1 d
  constructor
  · rintro ⟨s, hs⟩
    simp only [swapExactOut, bind_eq_ok, amountIn_eq_ok, Operand.positive_eq_ok,
      Operand.int.injEq, Int.natCast_inj] at hs
    obtain ⟨_, ⟨_, _, _, _, rfl, rfl, rfl, rfl, -, -, -, -, -, -, -, -, rfl⟩, _, ⟨rfl, -⟩, hs⟩ := hs
    obtain ⟨-, -, -, -, -, -, -, hk, -⟩ := exchange_eq_ok.1 hs
    exact hk
  · intro hk
    -- the input that is charged buys the output, and comes to the net price at least
    have hnet := (grossInput_le_iff hb).1
      (le_refl (grossInput (netPrice (r.oriented d).1 (r.oriented d).2 out) bps))
    have ht := Trade.of_k_le hb.le hi.1 hout.2 ho.2 ((netPrice_le_iff hi.1 hout.2).1 hnet) hk
    have hle := netInput_le (grossInput (netPrice (r.oriented d).1 (r.oriented d).2 out) bps) bps
    have hin := ht.reserveIn_le
    have hquote : amountIn out (r.oriented d).1 (r.oriented d).2 bps =
        .ok (grossInput (netPrice (r.oriented d).1 (r.oriented d).2 out) bps) :=
      amountIn_eq_ok.2 ⟨out, _, _, bps, rfl, rfl, rfl, rfl, hout.1, hout.2, ho.2, hi.1, hi.2, hb,
        by omega, by omega, rfl⟩
    rw [swapExactOut, hquote, ok_bind,
      Operand.positive_eq_ok.2 ⟨rfl, hout.1, hout.2.le.trans ho.2⟩, ok_bind]
    exact ⟨_, ht.exchange_eq hk⟩

theorem overflowOnly_swapExactIn (d : Direction) (hp : paid ∈ Set.Icc 1 maxAmount)
    (hb : bps ≤ bpsDenominator) : OverflowOnly (r.swapExactIn paid bps d) := by
  obtain ⟨hi, ho⟩ := oriented_mem h0 h1 d
  apply failsOnly_swapExactIn fun _ => id
  apply failsOnly_amountOut fun _ => id
  · exact .of_ok (Operand.positive_eq_ok.2 ⟨rfl, hp⟩)
  · exact .of_ok (Operand.positive_eq_ok.2 ⟨rfl, hi⟩)
  · exact .of_ok (Operand.positive_eq_ok.2 ⟨rfl, ho⟩)
  · exact .of_ok (Operand.basisPoints_eq_ok.2 ⟨rfl, hb⟩)

theorem overflowOnly_swapExactOut (d : Direction) (hout : out ∈ Set.Ico 1 (r.oriented d).2)
    (hb : bps < bpsDenominator) : OverflowOnly (r.swapExactOut out bps d) := by
  obtain ⟨hi, ho⟩ := oriented_mem h0 h1 d
  apply failsOnly_swapExactOut fun _ => id
  apply failsOnly_amountIn fun _ => id
  · exact .of_ok (Operand.positive_eq_ok.2 ⟨rfl, hout.1, hout.2.le.trans ho.2⟩)
  · exact .of_ok (Operand.positive_eq_ok.2 ⟨rfl, hi⟩)
  · exact .of_ok (Operand.positive_eq_ok.2 ⟨rfl, ho⟩)
  · exact .of_ok (Operand.basisPoints_eq_ok.2 ⟨rfl, hb.le⟩)
  · rintro ⟨⟩
    exact absurd hb (lt_irrefl _)
  · rintro _ _ ⟨⟩ ⟨⟩ hle
    exact absurd hout.2 hle.not_gt

/-- Between reserves that are amounts, a swap of admissible amounts is answered just if the product
that it leaves is an amount. Nothing but an overflow refuses it. -/
theorem swap_succeeds_iff (d : Direction) :
    let rIn := (r.oriented d).1
    let rOut := (r.oriented d).2
    (∀ paid bps : ℕ, paid ∈ Set.Icc 1 maxAmount → bps ≤ bpsDenominator →
      let out := bought rIn rOut (netInput paid bps)
      ((∃ s, r.swapExactIn paid bps d = .ok s) ↔ (rIn + paid) * (rOut - out) ≤ maxAmount) ∧
      ∀ f, r.swapExactIn paid bps d = .error f → f.kind = .accounting .overflow) ∧
    ∀ out bps : ℕ, out ∈ Set.Ico 1 rOut → bps < bpsDenominator →
      let paid := grossInput (netPrice rIn rOut out) bps
      ((∃ s, r.swapExactOut out bps d = .ok s) ↔ (rIn + paid) * (rOut - out) ≤ maxAmount) ∧
      ∀ f, r.swapExactOut out bps d = .error f → f.kind = .accounting .overflow := by
  intro rIn rOut
  have hk : ∀ paid out, (r.traded paid out d).k = (rIn + paid) * (rOut - out) := by
    intro paid out
    rw [k_eq_oriented _ d, oriented_traded]
  constructor
  · intro paid bps hp hb
    refine ⟨?_, overflowOnly_swapExactIn h0 h1 d hp hb⟩
    rw [← hk]
    exact swapExactIn_succeeds_iff h0 h1 d hp hb
  · intro out bps hout hb
    refine ⟨?_, overflowOnly_swapExactOut h0 h1 d hout hb⟩
    rw [← hk]
    exact swapExactOut_succeeds_iff h0 h1 d hout hb

end Answers

/-- Where all of an input is fee, the output reserve stays and the product grows the most. -/
theorem swap_succeeds_iff_half_full :
    let r : Reserves := ⟨9223372036854775808, 9223372036854775808⟩
    let paid : ℕ := 9223372036854775808
    r.reserve0 ∈ Set.Icc 1 maxAmount ∧ r.reserve1 ∈ Set.Icc 1 maxAmount ∧
    (∃ s, r.swapExactIn paid 0 .zeroForOne = .ok s) ∧
    (¬∃ s, r.swapExactIn paid 10000 .zeroForOne = .ok s) ∧
    (∀ f, r.swapExactIn paid 10000 .zeroForOne = .error f → f.kind = .accounting .overflow) ∧
    ∃ s, r.swapExactOut 4611686018427387904 30 .oneForZero = .ok s := by
  intro r paid
  have hr : r.reserve0 ∈ Set.Icc 1 maxAmount := by decide +kernel
  have hin := (swap_succeeds_iff (r := r) hr hr .zeroForOne).1 paid
  have hout := (swap_succeeds_iff (r := r) hr hr .oneForZero).2 4611686018427387904 30
  have hfree := hin 0 (by decide +kernel) (by decide)
  have hwhole := hin 10000 (by decide +kernel) (by decide)
  refine ⟨hr, hr, hfree.1.2 (by decide +kernel), ?_, hwhole.2, ?_⟩
  · intro hs
    exact absurd (hwhole.1.1 hs) (by decide +kernel)
  · exact (hout (by decide +kernel) (by decide)).1.2 (by decide +kernel)

end PoolAccounting.Exchange
