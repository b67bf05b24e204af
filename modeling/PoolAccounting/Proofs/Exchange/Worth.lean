import Mathlib
import PoolAccounting.Proofs.Exchange.Moves

/-!
What one share is worth: the product of the reserves over the square of the supply. Deposits and
withdrawals round in favour of the shares that stay and swaps keep the product, so no move lowers
it as long as there are shares. Main statement: neither does any run.
-/
namespace PoolAccounting.Exchange

def worth (r : Reserves) (supply : ℕ) : ℚ := r.k / supply ^ 2

variable {r r' : Reserves} {supply supply' : ℕ}

theorem worth_le_iff (hs : 0 < supply) (hs' : 0 < supply') :
    worth r supply ≤ worth r' supply' ↔ r.k * supply' ^ 2 ≤ r'.k * supply ^ 2 := by
  rw [worth, worth, div_le_div_iff₀ (by positivity) (by positivity)]
  norm_cast

theorem one_le_worth_iff (hs : 0 < supply) : 1 ≤ worth r supply ↔ supply ^ 2 ≤ r.k := by
  rw [worth, one_le_div₀ (by positivity)]
  norm_cast

/-- No share loses where it loses of neither reserve. -/
theorem worth_le_of_reserves (hs : 0 < supply) (hs' : 0 < supply')
    (h0 : r.reserve0 * supply' ≤ r'.reserve0 * supply)
    (h1 : r.reserve1 * supply' ≤ r'.reserve1 * supply) :
    worth r supply ≤ worth r' supply' := by
  rw [worth_le_iff hs hs']
  calc r.reserve0 * r.reserve1 * supply' ^ 2
    _ = r.reserve0 * supply' * (r.reserve1 * supply') := by ring
    _ ≤ r'.reserve0 * supply * (r'.reserve1 * supply) := Nat.mul_le_mul h0 h1
    _ = r'.reserve0 * r'.reserve1 * supply ^ 2 := by ring

namespace Move

theorem worth_le (h : Move r supply r' supply') (hs : 0 < supply) (hs' : 0 < supply') :
    worth r supply ≤ worth r' supply' := by
  cases h with
  | seed h0 => omega
  | deposit _ h0 h1 _ hm =>
    apply worth_le_of_reserves hs hs'
    · exact mul_supply_le_of_minted h0 (hm.le.trans (min_le_left _ _))
    · exact mul_supply_le_of_minted h1 (hm.le.trans (min_le_right _ _))
  | withdraw =>
    apply worth_le_of_reserves hs hs'
    · exact mul_supply_le_of_burned _ _ _
    · exact mul_supply_le_of_burned _ _ _
  | swap ht =>
    rw [worth_le_iff hs hs']
    exact Nat.mul_le_mul_right _ ht.k_le

/-- As long as some shares stay, so does some of each reserve. -/
theorem reserves_pos (h : Move r supply r' supply') (hs' : 0 < supply')
    (hr : 0 < r.reserve0 ∧ 0 < r.reserve1) : 0 < r'.reserve0 ∧ 0 < r'.reserve1 := by
  cases h with
  | seed => exact ⟨Nat.add_pos_left hr.1 _, Nat.add_pos_left hr.2 _⟩
  | deposit => exact ⟨Nat.add_pos_left hr.1 _, Nat.add_pos_left hr.2 _⟩
  | withdraw =>
    have hleft : ∀ reserve burned, 0 < reserve → 0 < supply - burned →
        0 < reserve - burned * reserve / supply := by
      intro reserve burned h0 hsub
      have hle := mul_supply_le_of_burned supply burned reserve
      exact Nat.pos_of_mul_pos_right ((Nat.mul_pos h0 hsub).trans_le hle)
    exact ⟨hleft _ _ hr.1 hs', hleft _ _ hr.2 hs'⟩
  | swap ht => exact ht.traded_pos

end Move

namespace Pool

/-- There are shares, and some of each reserve behind them. -/
structure Funded (p : Pool) (supply : ℕ) : Prop where
  supply_eq : p.supply = supply
  supply_pos : 0 < supply
  reserves_pos : 0 < p.reserves.reserve0 ∧ 0 < p.reserves.reserve1

variable {p : Pool}

theorem Funded.step (h : p.Funded supply) (a : Action) (hkept : (p.step a).supply ≠ 0) :
    ∃ supply' : ℕ, (p.step a).Funded supply' := by
  rcases step_eq_or_move h.supply_eq a with hstep | ⟨supply', hs, hmove⟩
  · rw [hstep]
    exact ⟨supply, h⟩
  · rw [hs, ne_eq, Operand.natCast_eq_zero] at hkept
    have hpos : 0 < supply' := Nat.pos_of_ne_zero hkept
    exact ⟨supply', hs, hpos, hmove.reserves_pos hpos h.reserves_pos⟩

theorem Funded.worth_le_step {a : Action} (h : p.Funded supply) (h' : (p.step a).Funded supply') :
    worth p.reserves supply ≤ worth (p.step a).reserves supply' := by
  have heq := h'.supply_eq
  rcases step_eq_or_move h.supply_eq a with hstep | ⟨n, hs, hmove⟩
  · rw [hstep, h.supply_eq] at heq
    cases heq
    rw [hstep]
  · rw [hs] at heq
    cases heq
    exact hmove.worth_le h.supply_pos h'.supply_pos

/-- What no step of some kind lowers while there are shares, no run of such steps lowers. -/
theorem Funded.run_mono {α : Type} [Preorder α] {f : Reserves → ℕ → α} {kind : Action → Prop}
    (hstep : ∀ {p : Pool} {supply supply' : ℕ} {a : Action}, p.Funded supply → kind a →
      (p.step a).Funded supply' → f p.reserves supply ≤ f (p.step a).reserves supply')
    (h : p.Funded supply) (actions : List Action) (hkind : ∀ a ∈ actions, kind a)
    (hkept : ∀ before, before <+: actions → (p.run before).supply ≠ 0) :
    ∃ supply' : ℕ, (p.run actions).Funded supply' ∧
      f p.reserves supply ≤ f (p.run actions).reserves supply' := by
  induction actions generalizing p supply with
  | nil => exact ⟨supply, h, le_rfl⟩
  | cons a actions ih =>
    rw [List.forall_mem_cons] at hkind
    have hfirst : [a] <+: a :: actions := List.cons_prefix_cons.2 ⟨rfl, List.nil_prefix⟩
    obtain ⟨middle, hm⟩ := h.step a (hkept [a] hfirst)
    have hle := hstep h hkind.1 hm
    obtain ⟨supply', hs, hle'⟩ := ih hm hkind.2 fun before hb =>
      hkept (a :: before) (List.cons_prefix_cons.2 ⟨rfl, hb⟩)
    exact ⟨supply', hs, hle.trans hle'⟩

theorem Funded.run (h : p.Funded supply) (actions : List Action)
    (hkept : ∀ before, before <+: actions → (p.run before).supply ≠ 0) :
    ∃ supply' : ℕ, (p.run actions).Funded supply' ∧
      worth p.reserves supply ≤ worth (p.run actions).reserves supply' :=
  h.run_mono (fun h _ h' => h.worth_le_step h') actions (fun _ _ => trivial) hkept

/-- While there are shares, no run of deposits, withdrawals and swaps takes value out of them: the
product of the reserves falls at most with the square of the supply, and no reserve runs out. So a
run that ends with the supply it began with does not leave less of one reserve and no more of the
other. -/
theorem shares_keep_worth {p : Pool} {supply : ℕ} (hsupply : p.supply = supply)
    (hs : 1 ≤ supply) (h0 : 1 ≤ p.reserves.reserve0) (h1 : 1 ≤ p.reserves.reserve1)
    (actions : List Action)
    (hkept : ∀ before, before <+: actions → (p.run before).supply ≠ 0) :
    let q := p.run actions
    ∃ supply' : ℕ, q.supply = supply' ∧ 1 ≤ q.reserves.reserve0 ∧ 1 ≤ q.reserves.reserve1 ∧
      p.reserves.reserve0 * p.reserves.reserve1 * supply' ^ 2 ≤
        q.reserves.reserve0 * q.reserves.reserve1 * supply ^ 2 ∧
      (supply' = supply →
        ¬(q.reserves.reserve0 ≤ p.reserves.reserve0 ∧ q.reserves.reserve1 ≤ p.reserves.reserve1 ∧
          (q.reserves.reserve0 < p.reserves.reserve0 ∨
            q.reserves.reserve1 < p.reserves.reserve1))) := by
  intro q
  have hfunded : p.Funded supply := ⟨hsupply, hs, h0, h1⟩
  obtain ⟨supply', hq, hworth⟩ := hfunded.run actions hkept
  have hk := (worth_le_iff hs hq.supply_pos).1 hworth
  refine ⟨supply', hq.supply_eq, hq.reserves_pos.1, hq.reserves_pos.2, hk, ?_⟩
  rintro rfl ⟨hle0, hle1, hlt⟩
  have hproduct : p.reserves.k ≤ q.reserves.k :=
    Nat.le_of_mul_le_mul_right hk (Nat.pow_pos hq.supply_pos)
  have hless : q.reserves.k < p.reserves.k := by
    rcases hlt with hlt | hlt
    · exact Nat.mul_lt_mul_of_lt_of_le hlt hle1 h1
    · exact Nat.mul_lt_mul_of_le_of_lt hle0 hlt h0
  exact hless.not_ge hproduct

theorem shares_keep_worth_roundTrip :
    let p : Pool := ⟨⟨1000, 4000⟩, 2000⟩
    let actions : List Action := [.add 110 500, .swapIn 100 30 .zeroForOne,
      .swapOut 50 30 .oneForZero, .remove 100, .swapIn 0 5 .zeroForOne, .remove 120]
    let q := p.run actions
    (∀ before, before <+: actions → (p.run before).supply ≠ 0) ∧ q = ⟨⟨1046, 3834⟩, 2000⟩ ∧
    ∃ supply' : ℕ, q.supply = supply' ∧ 1 ≤ q.reserves.reserve0 ∧ 1 ≤ q.reserves.reserve1 ∧
      p.reserves.reserve0 * p.reserves.reserve1 * supply' ^ 2 ≤
        q.reserves.reserve0 * q.reserves.reserve1 * 2000 ^ 2 ∧
      (supply' = 2000 →
        ¬(q.reserves.reserve0 ≤ p.reserves.reserve0 ∧ q.reserves.reserve1 ≤ p.reserves.reserve1 ∧
          (q.reserves.reserve0 < p.reserves.reserve0 ∨
            q.reserves.reserve1 < p.reserves.reserve1))) := by
  intro p actions q
  have hkept : ∀ before ∈ actions.inits, (p.run before).supply ≠ 0 := by decide +kernel
  have hbefore : ∀ before, before <+: actions → (p.run before).supply ≠ 0 :=
    fun before h => hkept before ((List.mem_inits _ _).2 h)
  have hq : q = ⟨⟨1046, 3834⟩, 2000⟩ := by decide +kernel
  exact ⟨hbefore, hq, shares_keep_worth rfl (by decide) (by decide) (by decide) actions hbefore⟩

end Pool

end PoolAccounting.Exchange
