import Mathlib
import PoolAccounting.Proofs.Table.Traversal

/-!
What is left of a table when one key is taken out. Every operation on tables does the same to what
is left as to the whole, so a key cannot be seen at the others.
-/
namespace PoolAccounting.Table

variable {α β ε : Type} {t : Table α} {k : Key}

theorem names_erase (t : Table α) (k : Key) :
    (t.erase k).names = t.names.filter fun name => name.key != k := by
  simp only [names, erase, filter, List.filter_map]
  rfl

theorem contains_erase (t : Table α) (j k : Key) :
    (t.erase k).contains j = (t.contains j && j != k) := by
  by_cases hj : j = k <;> simp [contains, hj]

theorem contains_erase_of_ne {j : Key} (hj : j ≠ k) :
    (t.erase k).contains j = t.contains j := by
  simp [contains_erase, hj]

theorem get?_erase_of_ne {j : Key} (hj : j ≠ k) : (t.erase k).get? j = t.get? j := by
  simp [hj]

/-- Tables that agree but for a key leave the same when it is taken out. -/
theorem erase_eq_of_agree {s t : Table α}
    (h : ∀ j, j ≠ k → s.get? j = t.get? j ∧ s.name? j = t.name? j) : s.erase k = t.erase k := by
  apply ext_get? <;> intro j <;> by_cases hj : j = k <;> simp [hj, h j]

theorem erase_of_contains_eq_false (h : t.contains k = false) : t.erase k = t := by
  have hnone : t.get? k = none := contains_eq_false_iff.1 h
  have hname : t.name? k = none := name?_eq_none_iff.2 hnone
  apply ext_get? <;> intro j <;> by_cases hj : j = k <;> simp [hj, hnone, hname]

theorem erase_insert_self (t : Table α) (name : Scalar) (v : α) :
    (t.insert name v).erase name.key = t.erase name.key := by
  apply erase_eq_of_agree
  intro j hj
  simp [hj.symm]

theorem erase_insert_of_ne {name : Scalar} (h : name.key ≠ k) (t : Table α) (v : α) :
    (t.insert name v).erase k = (t.erase k).insert name v := by
  apply ext_get? <;> intro j <;> by_cases hj : j = k <;> simp [hj, h]

theorem erase_erase (t : Table α) (j k : Key) : (t.erase j).erase k = (t.erase k).erase j := by
  apply ext_get? <;> intro i <;> by_cases hi : i = k <;> simp [hi]

theorem erase_map (t : Table α) (f : α → β) (k : Key) :
    (t.map f).erase k = (t.erase k).map f := by
  apply ext_get? <;> intro j <;> by_cases hj : j = k <;> simp [hj]

theorem erase_domain (t : Table α) (k : Key) : t.domain.erase k = (t.erase k).domain :=
  erase_map t _ k

theorem erase_override (s t : Table α) (k : Key) :
    (s.override t).erase k = (s.erase k).override (t.erase k) := by
  apply ext_get? <;> intro j <;> by_cases hj : j = k <;> simp [hj]

theorem erase_override_of_forall (s : Table α) {t : Table α}
    (h : ∀ j, j ≠ k → t.get? j = none) : (s.override t).erase k = s.erase k := by
  apply erase_eq_of_agree
  intro j hj
  have hname : t.name? j = none := name?_eq_none_iff.2 (h j hj)
  simp [h j hj, hname]

theorem erase_restrict (t : Table α) (s : Table β) (k : Key) :
    (t.restrict s).erase k = (t.erase k).restrict (s.erase k) := by
  have hentries : ∀ es : List (Scalar × β),
      (es.filterMap fun e => (t.get? e.1.key).map fun v => (e.1, v)).filter (·.1.key != k) =
        (es.filter (·.1.key != k)).filterMap fun e =>
          ((t.erase k).get? e.1.key).map fun v => (e.1, v) := by
    intro es
    induction es with
    | nil => rfl
    | cons e es ih =>
      by_cases hk : e.1.key = k
      · cases hv : t.get? k <;> simp [hk, hv, ih]
      · cases hv : t.get? e.1.key <;> simp [hk, hv, ih]
  have h := hentries s.entries
  simp only [erase, filter, restrict] at h ⊢
  congr

/-- What a traversal makes of a table without a key is what it makes of the table, without the key;
what the function does at the key does not matter. -/
theorem traverse_erase {f g : Key → α → Except ε β} {u : Table β}
    (h : t.traverse f = .ok u) (hg : ∀ j v, j ≠ k → f j v = g j v) :
    (t.erase k).traverse g = .ok (u.erase k) := by
  obtain ⟨hnames, hget⟩ := traverse_eq_ok_iff.1 h
  refine traverse_eq_ok_iff.2 ⟨by rw [names_erase, names_erase, hnames], fun j v hv => ?_⟩
  by_cases hj : j = k
  · simp [hj] at hv
  · rw [get?_erase_of_ne hj] at hv ⊢
    rw [← hg j v hj]
    exact hget j v hv

end PoolAccounting.Table
