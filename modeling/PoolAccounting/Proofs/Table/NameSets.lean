import Mathlib
import PoolAccounting.Proofs.Table.Traversal

/-!
Lists of names as sets. A list stands for the keys of its names, each in its first spelling. A text
is the only spelling of its key, so of a list of texts neither the order counts nor how often a text
is there.
-/
namespace PoolAccounting.Table

open Scalar (lookup)

variable {α β : Type}

/-- Sets are equal if they spell every key alike. -/
theorem ext_name? {s t : Table Unit} (h : ∀ k, s.name? k = t.name? k) : s = t := by
  refine ext_get? (fun k => ?_) h
  have hnone : s.get? k = none ↔ t.get? k = none := by
    rw [← name?_eq_none_iff, ← name?_eq_none_iff, h]
  cases hs : s.get? k <;> cases ht : t.get? k <;> simp_all

/-- A name that comes again keeps its first spelling. -/
theorem name?_ofNames (names : List Scalar) (k : Key) :
    (ofNames names).name? k = names.find? (·.key = k) := by
  rw [ofNames, ofList, name?_foldl_insert]
  change lookup k _ = _
  induction names with
  | nil => rfl
  | cons name names ih =>
    by_cases hk : name.key = k <;> simp_all [spellings, lookup]

theorem name?_ofNames_append (names more : List Scalar) (k : Key) :
    (ofNames (names ++ more)).name? k =
      ((ofNames names).name? k).or ((ofNames more).name? k) := by
  rw [name?_ofNames, name?_ofNames, name?_ofNames, List.find?_append]

theorem name?_ofNames_texts {texts : List String} {k : Key} {name : Scalar} :
    (ofNames (texts.map .text)).name? k = some name ↔
      ∃ x ∈ texts, name = .text x ∧ k = .text x := by
  rw [name?_ofNames]
  constructor
  · intro h
    obtain ⟨x, hx, rfl⟩ := List.mem_map.1 (List.mem_of_find?_eq_some h)
    have hk := List.find?_some h
    exact ⟨x, hx, rfl, (of_decide_eq_true hk).symm⟩
  · rintro ⟨x, hx, rfl, rfl⟩
    induction texts with
    | nil => cases hx
    | cons y texts ih =>
      by_cases hy : y = x
      · simp [hy]
      · have hrest : x ∈ texts := (List.mem_cons.1 hx).resolve_left (Ne.symm hy)
        simpa [hy] using ih hrest

theorem ofNames_texts_congr {texts texts' : List String} (h : ∀ x, x ∈ texts ↔ x ∈ texts') :
    ofNames (texts.map .text) = ofNames (texts'.map .text) := by
  apply ext_name?
  intro k
  ext name
  simp only [name?_ofNames_texts, h]

/-- A restriction to names that are all there has just those names. -/
theorem names_restrict {s : Table β} {t : Table α}
    (h : ∀ k, s.contains k = true → t.contains k = true) : (t.restrict s).names = s.names := by
  have hentries : ∀ es : List (Scalar × β), (∀ e ∈ es, t.contains e.1.key = true) →
      (es.filterMap fun e => (t.get? e.1.key).map fun v => (e.1, v)).map (·.1) =
        es.map (·.1) := by
    intro es hes
    induction es with
    | nil => rfl
    | cons e es ih =>
      obtain ⟨v, hv⟩ := Option.isSome_iff_exists.1 (hes e List.mem_cons_self)
      have hrest := ih fun x hx => hes x (List.mem_cons_of_mem e hx)
      rw [List.filterMap_cons, hv, Option.map_some, List.map_cons, List.map_cons, hrest]
  apply hentries
  intro e he
  exact h _ (contains_eq_true_iff.2 (List.mem_map_of_mem (List.mem_map_of_mem he)))

end PoolAccounting.Table
