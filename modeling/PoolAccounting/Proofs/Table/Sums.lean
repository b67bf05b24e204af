import Mathlib
import PoolAccounting.Table.Lemmas

/-!
Sums over the values of a table. Setting the value under one name changes a sum by the difference
of the new and the old value, where a name that is not there yet counts as a value of weight zero.
-/
namespace PoolAccounting.Table

open Scalar (lookup)

variable {α β ε : Type}

theorem insert_insert (t : Table α) (name : Scalar) (v w : α) :
    (t.insert name v).insert name w = t.insert name w := by
  apply ext_get?
  · intro k
    by_cases hk : name.key = k <;> simp [hk]
  · intro k
    by_cases hk : name.key = k <;> simp [hk]

theorem insert_comm {j k : Scalar} (h : j.key ≠ k.key) (t : Table α) (v w : α) :
    (t.insert j v).insert k w = (t.insert k w).insert j v := by
  apply ext_get?
  · intro i
    by_cases hi : j.key = i
    · simp [← hi, h.symm]
    · simp [hi]
  · intro i
    by_cases hi : j.key = i
    · simp [← hi, h.symm]
    · simp [hi]

theorem map_insert (t : Table α) (name : Scalar) (v : α) (f : α → β) :
    (t.insert name v).map f = (t.map f).insert name (f v) := by
  apply ext_get?
  · intro k
    by_cases hk : name.key = k <;> simp [hk]
  · intro k
    simp

@[simp] theorem values_map (t : Table α) (f : α → β) : (t.map f).values = t.values.map f := by
  simp [values, map]

theorem mem_values_insert {t : Table α} {name : Scalar} {v w : α}
    (h : w ∈ (t.insert name v).values) : w = v ∨ w ∈ t.values := by
  obtain ⟨k, hk⟩ := mem_values_iff.1 h
  rw [get?_insert] at hk
  split at hk
  · exact .inl (Option.some.inj hk).symm
  · exact .inr (mem_values_iff.2 ⟨k, hk⟩)

theorem forall_mem_values_insert {P : α → Prop} {t : Table α} {v : α} (ht : ∀ w ∈ t.values, P w)
    (hv : P v) (name : Scalar) : ∀ w ∈ (t.insert name v).values, P w := by
  intro w hw
  rcases mem_values_insert hw with rfl | hw
  · exact hv
  · exact ht w hw

theorem sum_insertEntry (f : α → Nat) {d : α} (hd : f d = 0) (name : Scalar) (v : α)
    {es : List (Scalar × α)} (h : Sorted es) :
    ((insertEntry name v es).map fun e => f e.2).sum + f ((lookup name.key es).getD d) =
      (es.map fun e => f e.2).sum + f v := by
  induction es with
  | nil => simp [insertEntry, lookup, hd]
  | cons e es ih =>
    rw [Sorted, List.pairwise_cons] at h
    have hs := ih h.2
    rw [insertEntry]
    split
    · rename_i hlt
      -- the name stands in front of every entry, so none of them has its key
      have hne : e.1.key ≠ name.key := fun he => Key.Before.irrefl _ (he ▸ hlt)
      have hnone : lookup name.key es = none :=
        lookup_of_forall_before fun x hx => hlt.trans (h.1 x hx)
      simp only [lookup, hne, if_false, hnone, Option.getD_none, hd, List.map_cons, List.sum_cons]
      omega
    · split
      · rename_i heq
        simp only [lookup, heq, if_true, Option.getD_some, List.map_cons, List.sum_cons]
        omega
      · rename_i hne
        simp only [lookup, Ne.symm hne, if_false, List.map_cons, List.sum_cons]
        omega

theorem sum_values_insert (f : α → Nat) {d : α} (hd : f d = 0) (t : Table α) (name : Scalar)
    (v : α) :
    ((t.insert name v).values.map f).sum + f ((t.get? name).getD d) =
      (t.values.map f).sum + f v := by
  simpa [values, insert, get?, Function.comp_def] using sum_insertEntry f hd name v t.sorted

theorem le_sum_values {t : Table α} (f : α → Nat) {v : α} (h : v ∈ t.values) :
    f v ≤ (t.values.map f).sum := List.single_le_sum (by simp) _ (List.mem_map_of_mem h)

/-- What bounds every value that a traversal makes bounds their sum. -/
theorem mul_sum_values_traverse_le {f : Key → α → Except ε Nat} {g : α → Nat} {t : Table α}
    {u : Table Nat} (n : Nat) (hf : ∀ k v w, f k v = .ok w → n * w ≤ g v)
    (h : t.traverse f = .ok u) : n * u.values.sum ≤ (t.values.map g).sum := by
  have hes := traverse_eq_ok.1 h
  rw [values, values]
  generalize t.entries = es at hes
  generalize u.entries = ws at hes
  induction es generalizing ws with
  | nil =>
    obtain rfl : [] = ws := Except.ok.inj hes
    exact Nat.zero_le _
  | cons e es ih =>
    obtain ⟨w, us, hw, hus, rfl⟩ := traverseEntries_cons_eq_ok.1 hes
    have hle := hf _ _ _ hw
    have hrest := ih us hus
    simp only [List.map_cons, List.sum_cons, Nat.mul_add]
    exact Nat.add_le_add hle hrest

end PoolAccounting.Table
