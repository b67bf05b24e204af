import Mathlib
import PoolAccounting.Proofs.Exchange.Trades

/-!
Trades made one after the other in one direction at one fee. Two of them move what a single trade of
their totals could move: the first leaves its fee in the reserve that the second one pays into, and
the fees of the parts round up by at least as much as the fee of the whole. Main statement: orders
that are filled in turn buy no more than their total input buys at once.
-/
namespace PoolAccounting.Exchange

open Amount Reserves

/-- What a trader asks for: to sell an exact input or to buy an exact output. -/
inductive Order
  | sell (amount : Operand)
  | buy (amount : Operand)
  deriving DecidableEq, Repr

def Order.fill (r : Reserves) (feeBps : Operand) (d : Direction) :
    Order → Except Fault SwapResult
  | .sell amount => r.swapExactIn amount feeBps d
  | .buy amount => r.swapExactOut amount feeBps d

/-- Fills each order on the reserves that the one before it left. -/
def Reserves.fillAll (r : Reserves) (feeBps : Operand) (d : Direction) :
    List Order → Except Fault (List SwapResult)
  | [] => pure []
  | order :: orders => do
    let s ← order.fill r feeBps d
    let rest ← s.reserves.fillAll feeBps d orders
    pure (s :: rest)

variable {r : Reserves} {paid paid' out out' bps net rIn rIn' rOut : ℕ} {feeBps : Operand}
  {d : Direction} {s : SwapResult} {order : Order} {orders : List Order} {swaps : List SwapResult}

/-- The fee of the whole is no more than the fees of the parts. -/
theorem netInput_add_le (paid paid' bps : ℕ) :
    netInput paid bps + netInput paid' bps ≤ netInput (paid + paid') bps := by
  rw [netInput, netInput, netInput, Nat.add_mul]
  exact Nat.div_add_div_le_add_div

/-- The less is in the reserve that an input goes to, the more the input buys. -/
theorem bought_anti (hr : 0 < rIn) (h : rIn ≤ rIn') (rOut net : ℕ) :
    bought rIn' rOut net ≤ bought rIn rOut net :=
  Nat.div_le_div_left (Nat.add_le_add_right h net) (Nat.add_pos_left hr net)

/-- A trade that comes after another makes a single trade with it. -/
theorem Trade.trans (h : Trade r paid out bps d)
    (h' : Trade (r.traded paid out d) paid' out' bps d) :
    Trade r (paid + paid') (out + out') bps d := by
  have hin := h'.reserveIn_le
  have hout := h'.out_lt
  have hfair := h'.fair
  rw [oriented_traded] at hin hout hfair
  have hlt : out + out' < (r.oriented d).2 := Nat.add_lt_of_lt_sub' hout
  refine ⟨h.bps_le, h.reserveIn_pos, by omega, hlt, h.reserveOut_le, ?_⟩
  rw [le_bought_iff h.reserveIn_pos hlt.le]
  have hr := h.reserveIn_pos
  have hfirst := (le_bought_iff hr h.out_lt.le).1 h.fair
  have hnet := netInput_add_le paid paid' bps
  generalize (r.oriented d).1 = rIn at hr hfair hfirst
  generalize (r.oriented d).2 = rOut at hout hfair hfirst
  -- the second trade would do no worse if the first had not left its fee behind
  have hwithout : out' ≤ bought (rIn + netInput paid bps) (rOut - out) (netInput paid' bps) :=
    hfair.trans (bought_anti (Nat.add_pos_left hr _)
      (Nat.add_le_add_left (netInput_le paid bps) rIn) _ _)
  calc rIn * rOut
    _ ≤ (rIn + netInput paid bps) * (rOut - out) := hfirst
    _ ≤ (rIn + netInput paid bps + netInput paid' bps) * (rOut - out - out') :=
      (le_bought_iff (Nat.add_pos_left hr _) hout.le).1 hwithout
    _ = (rIn + (netInput paid bps + netInput paid' bps)) * (rOut - (out + out')) := by
      rw [Nat.add_assoc, Nat.sub_sub]
    _ ≤ (rIn + netInput (paid + paid') bps) * (rOut - (out + out')) :=
      Nat.mul_le_mul_right _ (Nat.add_le_add_left hnet rIn)

theorem trade_of_fill (h : order.fill r feeBps d = .ok s) : ∃ paid out bps : ℕ,
    feeBps = bps ∧ 0 < paid ∧ Trade r paid out bps d ∧ s = .ofTrade r paid out bps d := by
  cases order with
  | sell amount =>
    have hpos := h
    simp only [Order.fill, swapExactIn, bind_eq_ok, Operand.positive_eq_ok] at hpos
    obtain ⟨-, -, n, ⟨hn, hpos, -⟩, -⟩ := hpos
    obtain ⟨paid, out, bps, hp, hb, ht, hs⟩ := trade_of_swapExactIn h
    cases hn.symm.trans hp
    exact ⟨n, out, bps, hb, hpos, ht, hs⟩
  | buy amount =>
    have hpos := h
    simp only [Order.fill, swapExactOut, bind_eq_ok, Operand.positive_eq_ok] at hpos
    obtain ⟨-, -, n, ⟨hn, hpos, -⟩, -⟩ := hpos
    obtain ⟨paid, out, bps, ho, hb, ht, hs⟩ := trade_of_swapExactOut h
    cases hn.symm.trans ho
    refine ⟨paid, n, bps, hb, Nat.pos_of_ne_zero ?_, ht, hs⟩
    rintro rfl
    -- nothing is bought for nothing
    have hfair := ht.fair
    simp [netInput, bought] at hfair
    omega

/-- Orders that are filled in turn move what one trade of their totals could move. -/
theorem trade_of_fillAll (h : r.fillAll feeBps d orders = .ok swaps) (hne : orders ≠ []) :
    ∃ paid out bps : ℕ, feeBps = bps ∧ 0 < paid ∧ Trade r paid out bps d ∧
      (swaps.map (·.amountIn)).sum = paid ∧ (swaps.map (·.amountOut)).sum = out := by
  induction orders generalizing r swaps with
  | nil => exact (hne rfl).elim
  | cons order orders ih =>
    simp only [fillAll, bind_eq_ok, pure, Except.pure, Except.ok.injEq] at h
    obtain ⟨s, hs, rest, hrest, rfl⟩ := h
    obtain ⟨paid, out, bps, rfl, hpos, ht, rfl⟩ := trade_of_fill hs
    cases orders with
    | nil =>
      obtain rfl : [] = rest := Except.ok.inj hrest
      exact ⟨paid, out, bps, rfl, hpos, ht, by simp [SwapResult.ofTrade],
        by simp [SwapResult.ofTrade]⟩
    | cons next orders =>
      obtain ⟨paid', out', bps', hb, -, ht', hin, hout⟩ := ih hrest (List.cons_ne_nil _ _)
      cases hb
      refine ⟨paid + paid', out + out', bps, rfl, Nat.add_pos_left hpos paid', ht.trans ht', ?_, ?_⟩
      · simp [SwapResult.ofTrade, hin]
      · simp [SwapResult.ofTrade, hout]

/-- What a trade pays can be quoted, and the quote is no less than what the trade pays out. -/
theorem Trade.amountOut (h : Trade r paid out bps d) (hpos : 0 < paid) :
    ∃ whole : ℕ, amountOut paid (r.oriented d).1 (r.oriented d).2 bps = .ok whole ∧
      out ≤ whole := by
  have hin := h.reserveIn_le
  have hnet := netInput_le paid bps
  refine ⟨_, amountOut_eq_ok.2 ⟨paid, _, _, bps, rfl, rfl, rfl, rfl, hpos, by omega,
    h.reserveIn_pos, Nat.zero_lt_of_lt h.out_lt, h.reserveOut_le, h.bps_le, by omega, rfl⟩, h.fair⟩

/-- To split a trade never helps the trader: however orders in one direction at one fee are filled
one after the other, their total input is quoted on the reserves before them, and they buy no more
than the quote. -/
theorem split_le_whole (h : r.fillAll feeBps d orders = .ok swaps) (hne : orders ≠ []) :
    ∃ whole : ℕ, amountOut ((swaps.map (·.amountIn)).sum : ℤ) (r.oriented d).1 (r.oriented d).2
        feeBps = .ok whole ∧
      (swaps.map (·.amountOut)).sum ≤ whole := by
  obtain ⟨paid, out, bps, rfl, hpos, ht, hin, hout⟩ := trade_of_fillAll h hne
  rw [hin, hout]
  obtain ⟨whole, hwhole, hle⟩ := ht.amountOut hpos
  exact ⟨whole, hwhole, Nat.cast_le.2 hle⟩

theorem split_le_whole_three :
    let r : Reserves := ⟨900, 1000⟩
    let d : Direction := .oneForZero
    let orders : List Order := [.sell 333, .buy 100, .sell 33]
    let swaps : List SwapResult :=
      [⟨333, 224, 1, ⟨676, 1333⟩, 900000, 901108⟩, ⟨233, 100, 1, ⟨576, 1566⟩, 901108, 902016⟩,
        ⟨33, 11, 1, ⟨565, 1599⟩, 902016, 903435⟩]
    r.fillAll 30 d orders = .ok swaps ∧ orders ≠ [] ∧
    ∃ whole : ℕ, amountOut ((swaps.map (·.amountIn)).sum : ℤ) (r.oriented d).1 (r.oriented d).2
        30 = .ok whole ∧
      (swaps.map (·.amountOut)).sum ≤ whole := by
  intro r d orders swaps
  have h : r.fillAll 30 d orders = .ok swaps := by decide +kernel
  have hne : orders ≠ [] := List.cons_ne_nil _ _
  exact ⟨h, hne, split_le_whole h hne⟩

end PoolAccounting.Exchange
