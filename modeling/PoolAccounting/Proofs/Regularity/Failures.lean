import Mathlib
import PoolAccounting.Fault
import PoolAccounting.Proofs.Table.Traversal

/-!
The faults that a computation can end with. Which of them are possible is read off its steps: a check
contributes its own fault, and where it fails no later step is reached. So what comes second in a
computation may rely on all that was checked before it.
-/
namespace PoolAccounting

variable {α β : Type} {P Q : Fault → Prop}

/-- The computation may be refused, but for no other reason than the faults of a class. -/
def FailsOnly (P : Fault → Prop) (x : Except Fault α) : Prop := ∀ f, x = .error f → P f

namespace FailsOnly

theorem of_ok {x : Except Fault α} {a : α} (h : x = .ok a) : FailsOnly P x := by
  intro f hf
  rw [h] at hf
  cases hf

theorem pure (a : α) : FailsOnly P (Pure.pure a : Except Fault α) := of_ok rfl

theorem error {f : Fault} (h : P f) : FailsOnly P (.error f : Except Fault α) := by
  intro g hg
  cases hg
  exact h

theorem mono {x : Except Fault α} (hx : FailsOnly P x) (h : ∀ f, P f → Q f) : FailsOnly Q x :=
  fun f hf => h f (hx f hf)

/-- What comes second may rely on what came first. -/
theorem bind {x : Except Fault α} {f : α → Except Fault β} (hx : FailsOnly P x)
    (hf : ∀ a, x = .ok a → FailsOnly P (f a)) : FailsOnly P (x >>= f) := by
  intro e he
  rcases bind_eq_error.1 he with he | ⟨a, ha, he⟩
  · exact hx e he
  · exact hf a ha e he

/-- A step that is known to succeed. -/
theorem bind_ok {x : Except Fault α} {f : α → Except Fault β} {a : α} (hx : x = .ok a)
    (hf : FailsOnly P (f a)) : FailsOnly P (x >>= f) := by
  rw [hx]
  exact hf

theorem map {x : Except Fault α} (hx : FailsOnly P x) (f : α → β) : FailsOnly P (f <$> x) := by
  intro e he
  exact hx e (map_eq_error.1 he)

theorem ite {p : Prop} [Decidable p] {x y : Except Fault α} (hx : p → FailsOnly P x)
    (hy : ¬p → FailsOnly P y) : FailsOnly P (if p then x else y) := by
  by_cases hp : p
  · rw [if_pos hp]
    exact hx hp
  · rw [if_neg hp]
    exact hy hp

theorem ensure {p : Prop} [Decidable p] {f : Fault} (h : ¬p → P f) :
    FailsOnly P (ensure p f) := ite (fun _ => of_ok rfl) fun hp => error (h hp)

/-- A check on a value, after which something is made of it. -/
theorem guarded {x : Except Fault α} {p : α → Prop} [DecidablePred p] {f : α → Fault} {g : α → β}
    (hx : FailsOnly P x) (h : ∀ a, P (f a)) :
    FailsOnly P (do let a ← x; PoolAccounting.ensure (p a) (f a); Pure.pure (g a)) := by
  apply bind hx
  intro a _
  apply bind (ensure fun _ => h a)
  intro _ _
  exact pure (g a)

theorem traverse {f : Key → α → Except Fault β} {t : Table α}
    (h : ∀ k v, t.get? k = some v → FailsOnly P (f k v)) : FailsOnly P (t.traverse f) := by
  intro e he
  obtain ⟨k, v, hv, hk⟩ := Table.exists_of_traverse_eq_error he
  exact h k v hv e hk

end FailsOnly

namespace Fault

/-- An underflow or a division by zero. -/
def isIrregular (f : Fault) : Bool :=
  f.kind = .accounting .underflow || f.kind = .accounting .divisionByZero

/-- Neither of these, nor a supply without reserves. -/
def isOrdinary : Fault → Bool
  | supplyWithoutReserves => false
  | f => !f.isIrregular

theorem isIrregular_of_isOrdinary (f : Fault) (h : f.isOrdinary = true) :
    f.isIrregular = false := by
  unfold isOrdinary at h
  split at h
  · cases h
  · simpa using h

theorem isOrdinary_of_overflow (f : Fault) (h : f.kind = .accounting .overflow) :
    f.isOrdinary = true := by
  unfold isOrdinary
  split
  · cases h
  · simp [isIrregular, h]

end Fault

abbrev Regular (x : Except Fault α) : Prop := FailsOnly (fun f => f.isIrregular = false) x

abbrev Ordinary (x : Except Fault α) : Prop := FailsOnly (fun f => f.isOrdinary = true) x

abbrev OverflowOnly (x : Except Fault α) : Prop :=
  FailsOnly (fun f => f.kind = .accounting .overflow) x

theorem Ordinary.regular {x : Except Fault α} (h : Ordinary x) : Regular x :=
  h.mono Fault.isIrregular_of_isOrdinary

end PoolAccounting
