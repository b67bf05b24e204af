import Mathlib
import PoolAccounting.Proofs.Exchange.Worth

/-!
What one share has of each asset. Deposits and withdrawals lower it for neither asset, and what goes
through them is all that goes into and out of the reserves. Main statement: along every run of
deposits and withdrawals that leaves shares no share is diluted, so shares are paid no less after it
than before, and a run that ends with the supply it began with takes out no more than it put in.
-/
namespace PoolAccounting.Exchange

open Amount

/-- What one share has of both assets; pairs are compared asset by asset. -/
def perShare (r : Reserves) (supply : ℕ) : ℚ × ℚ := (r.reserve0 / supply, r.reserve1 / supply)

def Reserves.amounts (r : Reserves) : ℕ × ℕ := (r.reserve0, r.reserve1)

/-- The reserves and the supply are amounts. -/
structure Reserves.Within (r : Reserves) (supply : ℕ) : Prop where
  reserve0_le : r.reserve0 ≤ maxAmount
  reserve1_le : r.reserve1 ≤ maxAmount
  supply_le : supply ≤ maxAmount

variable {r r' : Reserves} {supply supply' reserve reserve' : ℕ}
  {amount0 amount1 lpAmount : Operand} {m : MintResult} {b : BurnResult}

theorem perShare_le_iff (hs : 0 < supply) (hs' : 0 < supply') :
    perShare r supply ≤ perShare r' supply' ↔
      r.reserve0 * supply' ≤ r'.reserve0 * supply ∧
        r.reserve1 * supply' ≤ r'.reserve1 * supply := by
  have hq : (0 : ℚ) < supply := Nat.cast_pos.2 hs
  have hq' : (0 : ℚ) < supply' := Nat.cast_pos.2 hs'
  rw [perShare, perShare, Prod.mk_le_mk, div_le_div_iff₀ hq hq', div_le_div_iff₀ hq hq']
  norm_cast

/-- Where a share has no less of a reserve, it is paid no less of it. -/
theorem payout_mono (hs : 0 < supply) (hs' : 0 < supply')
    (h : reserve * supply' ≤ reserve' * supply) (burned : ℕ) :
    burned * reserve / supply ≤ burned * reserve' / supply' := by
  rw [Nat.le_div_iff_mul_le hs']
  apply Nat.le_of_mul_le_mul_right _ hs
  calc burned * reserve / supply * supply' * supply
    _ = burned * reserve / supply * supply * supply' := Nat.mul_right_comm _ _ _
    _ ≤ burned * reserve * supply' := Nat.mul_le_mul_right _ (Nat.div_mul_le_self _ _)
    _ = burned * (reserve * supply') := Nat.mul_assoc _ _ _
    _ ≤ burned * (reserve' * supply) := Nat.mul_le_mul_left _ h
    _ = burned * reserve' * supply := (Nat.mul_assoc _ _ _).symm

theorem perShare_le_of_minted (hs : 0 < supply)
    (h : r.addLiquidity supply amount0 amount1 = .ok m) :
    perShare r supply ≤ perShare m.reserves m.supply := by
  obtain ⟨n, hn, hm, hr, hsupply, -⟩ := deposit_of_addLiquidity h
  cases hn
  rw [if_neg hs.ne', Nat.add_zero] at hsupply
  have hs' : 0 < m.supply := hsupply ▸ Nat.add_pos_left hs _
  obtain ⟨n, hn, ⟨rfl, -⟩ | ⟨-, hr0, hr1, -, hmin⟩⟩ := lpMint_cases hm
  · cases hn
    omega
  · cases hn
    rw [perShare_le_iff hs hs', hr, hsupply]
    exact ⟨mul_supply_le_of_minted hr0 (hmin.le.trans (min_le_left _ _)),
      mul_supply_le_of_minted hr1 (hmin.le.trans (min_le_right _ _))⟩

theorem perShare_le_of_burned (h : r.removeLiquidity supply lpAmount = .ok b)
    (hs' : 0 < b.supply) : perShare r supply ≤ perShare b.reserves b.supply := by
  obtain ⟨burned, n, -, hn, -, -, -, -, -, rfl⟩ := removeLiquidity_eq_ok.1 h
  cases hn
  rw [perShare_le_iff (hs'.trans_le (Nat.sub_le _ _)) hs']
  exact ⟨mul_supply_le_of_burned _ _ _, mul_supply_le_of_burned _ _ _⟩

theorem Move.within (h : Move r supply r' supply') (hr : r.Within supply) : r'.Within supply' := by
  cases h with
  | seed _ _ hle0 hle1 hle => exact ⟨hle0, hle1, hle⟩
  | deposit _ _ _ _ _ hle0 hle1 hle => exact ⟨hle0, hle1, hle⟩
  | withdraw =>
    exact ⟨(Nat.sub_le _ _).trans hr.reserve0_le, (Nat.sub_le _ _).trans hr.reserve1_le,
      (Nat.sub_le _ _).trans hr.supply_le⟩
  | @swap paid out bps d ht =>
    have hin := ht.reserveIn_le
    cases d with
    | zeroForOne => exact ⟨hin, (Nat.sub_le _ _).trans hr.reserve1_le, hr.supply_le⟩
    | oneForZero => exact ⟨(Nat.sub_le _ _).trans hr.reserve0_le, hin, hr.supply_le⟩

namespace Pool

/-- Whether an action is a deposit or a withdrawal. -/
def Action.isLiquidity : Action → Bool
  | .add .. | .remove _ => true
  | .swapIn .. | .swapOut .. => false

/-- What a deposit put into the pool, less the refund. -/
def Receipt.deposited : Receipt → ℕ × ℕ
  | .minted m => (m.used0, m.used1)
  | _ => 0

/-- What a withdrawal took out of the pool. -/
def Receipt.withdrawn : Receipt → ℕ × ℕ
  | .burned b => (b.out0, b.out1)
  | _ => 0

/-- The receipts of the actions that were answered. -/
def receipts (p : Pool) (actions : List Action) : List Receipt :=
  (p.history actions).filterMap fun x => x.1.toOption

variable {p : Pool} {a : Action} {receipt : Receipt}

theorem receipts_cons_of_ok (h : p.perform a = .ok receipt) (actions : List Action) :
    p.receipts (a :: actions) = receipt :: (p.step a).receipts actions := by
  simp [receipts, history, h, Except.toOption]

theorem receipts_cons_of_error {f : Fault} (h : p.perform a = .error f) (actions : List Action) :
    p.receipts (a :: actions) = (p.step a).receipts actions := by
  simp [receipts, history, h, Except.toOption]

/-- A deposit or a withdrawal moves the reserves by just what it puts in or takes out. -/
theorem amounts_commit (ha : a.isLiquidity = true) (h : p.perform a = .ok receipt) :
    (p.commit receipt).reserves.amounts + receipt.withdrawn =
      p.reserves.amounts + receipt.deposited := by
  cases a with
  | add amount0 amount1 =>
    obtain ⟨m, hm, rfl⟩ := map_eq_ok.1 h
    obtain ⟨-, -, -, hr, -⟩ := deposit_of_addLiquidity hm
    rw [commit, hr]
    rfl
  | remove lpAmount =>
    obtain ⟨b, hb, rfl⟩ := map_eq_ok.1 h
    obtain ⟨burned, n, -, -, -, hle, -, -, -, rfl⟩ := removeLiquidity_eq_ok.1 hb
    exact Prod.ext (Nat.sub_add_cancel (payout_le hle _)) (Nat.sub_add_cancel (payout_le hle _))
  | swapIn | swapOut => cases ha

theorem amounts_run (p : Pool) (actions : List Action)
    (hliquidity : ∀ a ∈ actions, a.isLiquidity = true) :
    (p.run actions).reserves.amounts + ((p.receipts actions).map (·.withdrawn)).sum =
      p.reserves.amounts + ((p.receipts actions).map (·.deposited)).sum := by
  induction actions generalizing p with
  | nil => rfl
  | cons a actions ih =>
    rw [List.forall_mem_cons] at hliquidity
    have hrest := ih (p.step a) hliquidity.2
    rw [run_cons]
    cases h : p.perform a with
    | error f =>
      rw [receipts_cons_of_error h, hrest, step_of_error h]
    | ok receipt =>
      have hfirst := amounts_commit hliquidity.1 h
      rw [← step_of_ok h] at hfirst
      rw [receipts_cons_of_ok h, List.map_cons, List.map_cons, List.sum_cons, List.sum_cons,
        add_left_comm, hrest, ← add_assoc, ← add_assoc, add_comm receipt.withdrawn, hfirst]

theorem within_run (hp : p.supply = supply) (hr : p.reserves.Within supply)
    (actions : List Action) :
    ∃ supply' : ℕ, (p.run actions).supply = supply' ∧ (p.run actions).reserves.Within supply' := by
  induction actions generalizing p supply with
  | nil => exact ⟨supply, hp, hr⟩
  | cons a actions ih =>
    rcases step_eq_or_move hp a with hstep | ⟨middle, hs, hmove⟩
    · rw [run_cons, hstep]
      exact ih hp hr
    · exact ih hs (hmove.within hr)

theorem Funded.perShare_le_step (h : p.Funded supply) (ha : a.isLiquidity = true)
    (h' : (p.step a).Funded supply') :
    perShare p.reserves supply ≤ perShare (p.step a).reserves supply' := by
  have hs := h'.supply_eq
  cases hp : p.perform a with
  | error f =>
    rw [step_of_error hp, h.supply_eq] at hs
    cases hs
    rw [step_of_error hp]
  | ok receipt =>
    rw [step_of_ok hp] at hs ⊢
    cases a with
    | add amount0 amount1 =>
      obtain ⟨m, hm, rfl⟩ := map_eq_ok.1 hp
      cases hs
      rw [h.supply_eq] at hm
      exact perShare_le_of_minted h.supply_pos hm
    | remove lpAmount =>
      obtain ⟨b, hb, rfl⟩ := map_eq_ok.1 hp
      cases hs
      rw [h.supply_eq] at hb
      exact perShare_le_of_burned hb h'.supply_pos
    | swapIn | swapOut => cases ha

/-- While there are shares, no run of deposits and withdrawals dilutes them in either asset. So
burning shares pays no less of each asset after the run than before it, and a run that ends with the
supply it began with took out no more of either asset than it put in. -/
theorem shares_undiluted {p : Pool} {supply : ℕ} (hsupply : p.supply = supply)
    (hs : 1 ≤ supply) (h0 : 1 ≤ p.reserves.reserve0) (h1 : 1 ≤ p.reserves.reserve1)
    (actions : List Action) (hliquidity : ∀ a ∈ actions, a.isLiquidity = true)
    (hkept : ∀ before, before <+: actions → (p.run before).supply ≠ 0) :
    let q := p.run actions
    ∃ supply' : ℕ, q.supply = supply' ∧
      p.reserves.reserve0 * supply' ≤ q.reserves.reserve0 * supply ∧
      p.reserves.reserve1 * supply' ≤ q.reserves.reserve1 * supply ∧
      (∀ lp : ℕ, lp ≤ min supply supply' → ∀ out0 out1 : ℕ,
        lpBurn lp p.reserves.reserve0 p.reserves.reserve1 supply = .ok (out0, out1) →
        ∃ out0' out1' : ℕ,
          lpBurn lp q.reserves.reserve0 q.reserves.reserve1 supply' = .ok (out0', out1') ∧
            out0 ≤ out0' ∧ out1 ≤ out1') ∧
      (supply' = supply → ((p.receipts actions).map (·.withdrawn)).sum ≤
        ((p.receipts actions).map (·.deposited)).sum) := by
  intro q
  have hfunded : p.Funded supply := ⟨hsupply, hs, h0, h1⟩
  obtain ⟨supply', hq, hle⟩ :=
    hfunded.run_mono (fun h ha h' => h.perShare_le_step ha h') actions hliquidity hkept
  obtain ⟨hle0, hle1⟩ := (perShare_le_iff hs hq.supply_pos).1 hle
  refine ⟨supply', hq.supply_eq, hle0, hle1, ?_, ?_⟩
  · intro lp hlp out0 out1 hburn
    obtain ⟨burned, n, hb, hn, hpos, -, hn_le, hr0, hr1, rfl, rfl⟩ := lpBurn_eq_ok.1 hburn
    cases hb
    cases hn
    obtain ⟨n, hn, hwithin⟩ := within_run hsupply ⟨hr0, hr1, hn_le⟩ actions
    rw [hq.supply_eq] at hn
    cases hn
    exact ⟨_, _, lpBurn_eq_ok.2 ⟨lp, supply', rfl, rfl, hpos, hlp.trans (min_le_right _ _),
        hwithin.supply_le, hwithin.reserve0_le, hwithin.reserve1_le, rfl, rfl⟩,
      payout_mono hs hq.supply_pos hle0 lp, payout_mono hs hq.supply_pos hle1 lp⟩
  · rintro rfl
    have hreserves : p.reserves.amounts ≤ q.reserves.amounts :=
      ⟨Nat.le_of_mul_le_mul_right hle0 hs, Nat.le_of_mul_le_mul_right hle1 hs⟩
    have hflow := amounts_run p actions hliquidity
    exact le_of_add_le_add_left ((add_le_add_left hreserves _).trans hflow.le)

theorem shares_undiluted_roundTrip :
    let p : Pool := ⟨⟨1000, 4000⟩, 2000⟩
    let actions : List Action := [.add 111 500, .remove 101, .remove 5000, .remove 121]
    let q := p.run actions
    (∀ a ∈ actions, a.isLiquidity = true) ∧
    (∀ before, before <+: actions → (p.run before).supply ≠ 0) ∧ q = ⟨⟨1001, 4000⟩, 2000⟩ ∧
    lpBurn 1999 1000 4000 2000 = .ok (999, 3998) ∧
    ∃ supply' : ℕ, q.supply = supply' ∧
      p.reserves.reserve0 * supply' ≤ q.reserves.reserve0 * 2000 ∧
      p.reserves.reserve1 * supply' ≤ q.reserves.reserve1 * 2000 ∧
      (∀ lp : ℕ, lp ≤ min 2000 supply' → ∀ out0 out1 : ℕ,
        lpBurn lp p.reserves.reserve0 p.reserves.reserve1 (2000 : ℕ) = .ok (out0, out1) →
        ∃ out0' out1' : ℕ,
          lpBurn lp q.reserves.reserve0 q.reserves.reserve1 supply' = .ok (out0', out1') ∧
            out0 ≤ out0' ∧ out1 ≤ out1') ∧
      (supply' = 2000 → ((p.receipts actions).map (·.withdrawn)).sum ≤
        ((p.receipts actions).map (·.deposited)).sum) := by
  intro p actions q
  have hliquidity : ∀ a ∈ actions, a.isLiquidity = true := by decide
  have hkept : ∀ before ∈ actions.inits, (p.run before).supply ≠ 0 := by decide +kernel
  have hbefore : ∀ before, before <+: actions → (p.run before).supply ≠ 0 :=
    fun before h => hkept before ((List.mem_inits _ _).2 h)
  have hq : q = ⟨⟨1001, 4000⟩, 2000⟩ := by decide +kernel
  have hburn : lpBurn 1999 1000 4000 2000 = .ok (999, 3998) := by decide +kernel
  exact ⟨hliquidity, hbefore, hq, hburn,
    shares_undiluted rfl (by decide) (by decide) (by decide) actions hliquidity hbefore⟩

end Pool

end PoolAccounting.Exchange
