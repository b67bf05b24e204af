import Mathlib
import PoolAccounting.Proofs.Exchange.Moves
import PoolAccounting.Proofs.Ledger.Journal

/-!
The shares that a first deposit creates and gives to nobody. Along every run on a pool that began
empty the supply is what was locked and what was minted, less what was burned. Main statement: the
locked shares stay just if at no time more was burned than was minted. A withdrawal does not see to
that: it is refused beyond the whole supply only, and the locked shares can be burned with the rest.
-/
namespace PoolAccounting.Exchange.Pool

/-- An action that was answered, with the pool it met and its receipt. -/
structure Entry where
  before : Pool
  action : Action
  receipt : Receipt

namespace Entry

def isDeposit (e : Entry) : Bool :=
  match e.receipt with
  | .minted _ => true
  | _ => false

/-- The shares that the action gave to a depositor. -/
def minted (e : Entry) : ℕ :=
  match e.receipt with
  | .minted m => m.minted
  | _ => 0

/-- The shares that the action created and gave to nobody. -/
def locked (e : Entry) : ℕ :=
  if e.isDeposit ∧ e.before.supply = 0 then minLiquidity else 0

def burned (e : Entry) : ℕ :=
  match e.action, e.receipt with
  | .remove lpAmount, .burned _ => lpAmount.toNat
  | _, _ => 0

theorem minted_eq_zero {e : Entry} (h : e.isDeposit = false) : e.minted = 0 := by
  obtain ⟨before, action, receipt⟩ := e
  cases receipt with
  | minted m => cases h
  | burned b => rfl
  | swapped s => rfl

theorem locked_eq_zero {e : Entry} (h : e.isDeposit = false) : e.locked = 0 := by simp [locked, h]

theorem locked_le (e : Entry) : e.locked ≤ minLiquidity := by
  rw [locked]
  split
  · exact le_rfl
  · exact Nat.zero_le _

end Entry

def journal (p : Pool) : List Action → List Entry
  | [] => []
  | a :: actions =>
    match p.perform a with
    | .ok r => ⟨p, a, r⟩ :: (p.step a).journal actions
    | .error _ => (p.step a).journal actions

/-- Whether a deposit was answered in the course of a run. -/
def IsSeeded (p : Pool) (actions : List Action) : Prop := ∃ e ∈ p.journal actions, e.isDeposit = true

variable {p : Pool} {a : Action} {r : Receipt} {supply : ℕ}

theorem journal_cons_of_ok (h : p.perform a = .ok r) (actions : List Action) :
    p.journal (a :: actions) = ⟨p, a, r⟩ :: (p.step a).journal actions := by
  rw [journal, h]

theorem journal_cons_of_error {f : Fault} (h : p.perform a = .error f) (actions : List Action) :
    p.journal (a :: actions) = (p.step a).journal actions := by
  rw [journal, h]

theorem journal_append (p : Pool) (before after : List Action) :
    p.journal (before ++ after) = p.journal before ++ (p.run before).journal after := by
  induction before generalizing p with
  | nil => rfl
  | cons a before ih =>
    rw [List.cons_append, run_cons]
    cases h : p.perform a with
    | ok r => rw [journal_cons_of_ok h, journal_cons_of_ok h, ih, List.cons_append]
    | error f => rw [journal_cons_of_error h, journal_cons_of_error h, ih]

theorem supply_empty : empty.supply = (0 : ℕ) := rfl

theorem supply_step (hp : p.supply = supply) (h : p.perform a = .ok r) : ∃ supply' : ℕ,
    (p.step a).supply = supply' ∧ supply' + Entry.burned ⟨p, a, r⟩ =
      supply + Entry.minted ⟨p, a, r⟩ + Entry.locked ⟨p, a, r⟩ := by
  rw [step_of_ok h]
  cases a with
  | add amount0 amount1 =>
    obtain ⟨m, hm, rfl⟩ := map_eq_ok.1 h
    obtain ⟨n, hn, -, -, hs, -⟩ := deposit_of_addLiquidity hm
    rw [hp] at hn
    cases hn
    refine ⟨m.supply, rfl, ?_⟩
    simp [Entry.burned, Entry.minted, Entry.locked, Entry.isDeposit, hp, hs,
      Operand.natCast_eq_zero]
  | remove lpAmount =>
    obtain ⟨b, hb, rfl⟩ := map_eq_ok.1 h
    obtain ⟨burned, n, rfl, hn, -, hle, -, -, -, rfl⟩ := removeLiquidity_eq_ok.1 hb
    rw [hp] at hn
    cases hn
    exact ⟨supply - burned, rfl, Nat.sub_add_cancel hle⟩
  | swapIn | swapOut =>
    obtain ⟨s, -, rfl⟩ := map_eq_ok.1 h
    exact ⟨supply, hp, rfl⟩

theorem supply_run (hp : p.supply = supply) (actions : List Action) : ∃ supply' : ℕ,
    (p.run actions).supply = supply' ∧ supply' + ((p.journal actions).map (·.burned)).sum =
      supply + ((p.journal actions).map (·.minted)).sum +
        ((p.journal actions).map (·.locked)).sum := by
  induction actions generalizing p supply with
  | nil => exact ⟨supply, hp, rfl⟩
  | cons a actions ih =>
    rw [run_cons]
    cases h : p.perform a with
    | ok r =>
      obtain ⟨middle, hm, hfirst⟩ := supply_step hp h
      obtain ⟨supply', hs, hrest⟩ := ih hm
      refine ⟨supply', hs, ?_⟩
      simp only [journal_cons_of_ok h, List.map_cons, List.sum_cons]
      omega
    | error f =>
      rw [journal_cons_of_error h, step_of_error h]
      exact ih hp

/-- Without a deposit no shares come into being. -/
theorem sum_eq_zero_of_not_isSeeded {actions : List Action} (h : ¬p.IsSeeded actions) :
    ((p.journal actions).map (·.minted)).sum = 0 ∧
      ((p.journal actions).map (·.locked)).sum = 0 := by
  have hnone : ∀ e ∈ p.journal actions, e.isDeposit = false := fun e he =>
    eq_false_of_ne_true fun hd => h ⟨e, he, hd⟩
  simp only [List.sum_eq_zero_iff, List.forall_mem_map]
  exact ⟨fun e he => Entry.minted_eq_zero (hnone e he),
    fun e he => Entry.locked_eq_zero (hnone e he)⟩

/-- The first deposit into a pool without shares locks some of those that it creates. -/
theorem minLiquidity_le_locked {actions : List Action} (hp : p.supply = (0 : ℕ))
    (h : p.IsSeeded actions) : minLiquidity ≤ ((p.journal actions).map (·.locked)).sum := by
  induction actions generalizing p with
  | nil =>
    obtain ⟨e, he, -⟩ := h
    cases he
  | cons a actions ih =>
    rw [IsSeeded] at h
    cases hr : p.perform a with
    | error f =>
      rw [journal_cons_of_error hr, step_of_error hr] at h ⊢
      exact ih hp h
    | ok r =>
      rw [journal_cons_of_ok hr, List.exists_mem_cons_iff] at h
      rw [journal_cons_of_ok hr, List.map_cons, List.sum_cons]
      cases hd : Entry.isDeposit ⟨p, a, r⟩ with
      | true =>
        have hlocked : Entry.locked ⟨p, a, r⟩ = minLiquidity := if_pos ⟨hd, hp⟩
        omega
      | false =>
        obtain ⟨supply', hs, hflow⟩ := supply_step hp hr
        rw [Entry.minted_eq_zero hd, Entry.locked_eq_zero hd] at hflow
        obtain rfl : supply' = 0 := by omega
        exact (ih hs (h.resolve_left (by simp [hd]))).trans (Nat.le_add_left _ _)

/-- While the locked shares stay, no later deposit is a first one. -/
theorem locked_le_minLiquidity (actions : List Action)
    (h : ∀ before, before <+: actions → p.IsSeeded before →
      ∃ supply : ℕ, (p.run before).supply = supply ∧ minLiquidity ≤ supply) :
    ((p.journal actions).map (·.locked)).sum ≤ minLiquidity := by
  induction actions using List.reverseRecOn with
  | nil => exact Nat.zero_le _
  | append_singleton actions a ih =>
    have hactions : actions <+: actions ++ [a] := List.prefix_append _ _
    have hle := ih fun before hb => h before (hb.trans hactions)
    rw [journal_append]
    cases hr : (p.run actions).perform a with
    | error f =>
      rw [journal_cons_of_error hr]
      simpa [journal] using hle
    | ok r =>
      rw [journal_cons_of_ok hr, List.map_append, List.sum_append]
      change _ + (Entry.locked ⟨p.run actions, a, r⟩ + 0) ≤ _
      by_cases hseeded : p.IsSeeded actions
      · obtain ⟨supply, hs, hkept⟩ := h actions hactions hseeded
        have hne : (p.run actions).supply ≠ 0 := by
          rw [hs, ne_eq, Operand.natCast_eq_zero]
          exact (Nat.lt_of_lt_of_le (by decide) hkept).ne'
        have hlocked : Entry.locked ⟨p.run actions, a, r⟩ = 0 := if_neg fun hd => hne hd.2
        omega
      · have hlocked := Entry.locked_le ⟨p.run actions, a, r⟩
        have hzero := (sum_eq_zero_of_not_isSeeded hseeded).2
        omega

/-- The locked shares stay for good just if at no time more shares were burned than depositors were
given. -/
theorem lock_kept_iff (actions : List Action) :
    (∀ before, before <+: actions → empty.IsSeeded before →
      ∃ supply : ℕ, (empty.run before).supply = supply ∧ minLiquidity ≤ supply) ↔
    ∀ before, before <+: actions →
      ((empty.journal before).map (·.burned)).sum ≤
        ((empty.journal before).map (·.minted)).sum := by
  constructor
  · intro h before hb
    obtain ⟨supply, hs, hflow⟩ := supply_run supply_empty before
    by_cases hseeded : empty.IsSeeded before
    · obtain ⟨n, hn, hkept⟩ := h before hb hseeded
      rw [hs] at hn
      cases hn
      have honce := locked_le_minLiquidity before fun earlier he => h earlier (he.trans hb)
      omega
    · have hnone := sum_eq_zero_of_not_isSeeded hseeded
      omega
  · intro h before hb hseeded
    obtain ⟨supply, hs, hflow⟩ := supply_run supply_empty before
    have hlocked := minLiquidity_le_locked supply_empty hseeded
    have hburned := h before hb
    exact ⟨supply, hs, by omega⟩

/-- The locked shares are burned with the rest. -/
theorem lock_burned :
    let deposit : List Action := [.add 1000000 1000000]
    empty.IsSeeded deposit ∧ (empty.run deposit).supply = 1000000 ∧
      (empty.run (deposit ++ [.remove 1000000])).supply = 0 := by
  intro deposit
  have hsupply : (empty.run deposit).supply = 1000000 := by decide +kernel
  have hburned : (empty.run (deposit ++ [.remove 1000000])).supply = 0 := by decide +kernel
  refine ⟨⟨⟨empty, .add 1000000 1000000, .minted ⟨999000, 1000000, 1000000,
    ⟨1000000, 1000000⟩, 1000000⟩⟩, ?_, rfl⟩, hsupply, hburned⟩
  have hadd : empty.perform (.add 1000000 1000000) = .ok (.minted ⟨999000, 1000000, 1000000,
    ⟨1000000, 1000000⟩, 1000000⟩) := by decide +kernel
  rw [journal_cons_of_ok hadd]
  exact List.mem_cons_self

end PoolAccounting.Exchange.Pool
