import Mathlib
import PoolAccounting.Fault
import PoolAccounting.Table.Lemmas

/-!
A traversal of a table, entry by entry. It succeeds with just the table that has the same names and
at every key what the function makes of the value there, and it is refused for a reason that one of
the entries gives. Before it, what the names of a table determine.
-/
namespace PoolAccounting.Table

variable {α β ε : Type} {f : Key → α → Except ε β} {s : Table β} {t : Table α} {u : Table β}

theorem keys_of_names_eq (h : s.names = t.names) : s.keys = t.keys := by rw [keys, keys, h]

theorem get?_eq_none_iff {k : Key} : t.get? k = none ↔ k ∉ t.keys := by
  rw [mem_keys_iff, Option.eq_none_iff_forall_ne_some, not_exists]

theorem contains_of_get? {k : Key} {v : α} (h : t.get? k = some v) : t.contains k = true := by
  rw [contains, h, Option.isSome_some]

theorem contains_eq_false_iff {k : Key} : t.contains k = false ↔ t.get? k = none := by
  simp [contains]

theorem get?_eq_none_of_names_eq (h : s.names = t.names) {k : Key} (hk : t.get? k = none) :
    s.get? k = none := by
  rw [get?_eq_none_iff] at hk ⊢
  rwa [keys_of_names_eq h]

theorem name?_eq_none_iff {k : Key} : t.name? k = none ↔ t.get? k = none := by
  rw [get?_eq_none_iff, keys, List.mem_map, Option.eq_none_iff_forall_ne_some]
  simp only [ne_eq, name?_eq_some_iff]
  grind

theorem exists_get?_of_names_eq (h : s.names = t.names) {k : Key} {w : β}
    (hk : s.get? k = some w) : ∃ v, t.get? k = some v := by
  rw [← mem_keys_iff, ← keys_of_names_eq h, mem_keys_iff]
  exact ⟨w, hk⟩

/-- Tables with the same names are equal if they hold the same values. -/
theorem ext_of_names_eq {s t : Table α} (h : s.names = t.names) (hg : ∀ k, s.get? k = t.get? k) :
    s = t := ext_get? hg (name?_eq_of_names_eq h)

theorem contains_eq_of_names_eq (h : s.names = t.names) (k : Key) :
    s.contains k = t.contains k := by
  rw [Bool.eq_iff_iff, contains_eq_true_iff, contains_eq_true_iff, keys_of_names_eq h]

theorem domain_eq_of_names_eq (h : s.names = t.names) : s.domain = t.domain := by
  apply ext_of_names_eq
  · rw [names_domain, names_domain, h]
  · intro k
    have hk := contains_eq_of_names_eq h k
    rw [get?_domain, get?_domain]
    cases hs : s.get? k <;> cases ht : t.get? k <;> simp_all [contains]

/-- A restriction reads the values at the keys that it keeps, and nothing else. -/
theorem restrict_congr {t t' : Table α} (h : ∀ k, s.contains k = true → t'.get? k = t.get? k) :
    t'.restrict s = t.restrict s := by
  have hentries : s.entries.filterMap (fun e => (t'.get? e.1.key).map fun v => (e.1, v)) =
      s.entries.filterMap fun e => (t.get? e.1.key).map fun v => (e.1, v) := by
    apply List.filterMap_congr
    intro e he
    have hkey : e.1.key ∈ s.keys := List.mem_map_of_mem (List.mem_map_of_mem he)
    rw [h _ (contains_eq_true_iff.2 hkey)]
  simp only [restrict]
  congr

theorem contains_foldl_insert (es : List (Scalar × α)) (t : Table α) (k : Key) :
    (es.foldl (fun t e => t.insert e.1 e.2) t).contains k =
      (t.contains k || es.any (·.1.key = k)) := by
  induction es generalizing t with
  | nil => simp
  | cons e es ih =>
    rw [List.foldl_cons, ih, List.any_cons]
    by_cases hk : e.1.key = k <;> simp [contains, hk]

theorem contains_ofNames (names : List Scalar) (k : Key) :
    (ofNames names).contains k = names.any (·.key = k) := by
  rw [ofNames, ofList, contains_foldl_insert, List.any_map]
  rfl

theorem traverse_eq_ok_iff : t.traverse f = .ok u ↔ u.names = t.names ∧
    ∀ k v, t.get? k = some v → ∃ w, f k v = .ok w ∧ u.get? k = some w := by
  constructor
  · intro h
    exact ⟨names_of_traverse h, fun k v hv => get?_of_traverse h hv⟩
  · rintro ⟨hn, hg⟩
    obtain ⟨s, hs⟩ := traverse_succeeds fun k v hv => (hg k v hv).imp fun w hw => hw.1
    have hnames : s.names = t.names := names_of_traverse hs
    suffices s = u by rw [hs, this]
    apply ext_of_names_eq (hnames.trans hn.symm)
    intro k
    cases hk : t.get? k with
    | none => rw [get?_eq_none_of_names_eq hnames hk, get?_eq_none_of_names_eq hn hk]
    | some v =>
      obtain ⟨w, hw, hu⟩ := hg k v hk
      obtain ⟨w', hw', hs'⟩ := get?_of_traverse hs hk
      rw [hu, hs', ← Except.ok.inj (hw.symm.trans hw')]

/-- What is made of the values after a traversal can be made of them in it. -/
theorem map_traverse {γ : Type} (g : β → γ) (f : Key → α → Except ε β) (t : Table α) :
    Table.map g <$> t.traverse f = t.traverse fun k v => g <$> f k v := by
  have hentries : ∀ es : List (Scalar × α), traverseEntries (fun k v => g <$> f k v) es =
      List.map (fun e => (e.1, g e.2)) <$> traverseEntries f es := by
    intro es
    induction es with
    | nil => rfl
    | cons e es ih =>
      simp only [traverseEntries, ih]
      cases f e.1.key e.2 <;> cases traverseEntries f es <;> rfl
  have h := hentries t.entries
  symm
  cases ht : t.traverse f with
  | ok u =>
    rw [traverse_eq_ok.1 ht] at h
    exact traverse_eq_ok.2 h
  | error e =>
    rw [traverse_eq_error.1 ht] at h
    exact traverse_eq_error.2 h

theorem exists_of_traverse_eq_error {e : ε} (h : t.traverse f = .error e) :
    ∃ k v, t.get? k = some v ∧ f k v = .error e := by
  have hentries : ∀ es : List (Scalar × α), traverseEntries f es = .error e →
      ∃ x ∈ es, f x.1.key x.2 = .error e := by
    intro es hes
    induction es with
    | nil => cases hes
    | cons x es ih =>
      rcases bind_eq_error.1 hes with hx | ⟨w, -, hes⟩
      · exact ⟨x, List.mem_cons_self, hx⟩
      · rcases bind_eq_error.1 hes with hrest | ⟨ws, -, hes⟩
        · obtain ⟨y, hy, he⟩ := ih hrest
          exact ⟨y, List.mem_cons_of_mem x hy, he⟩
        · cases hes
  obtain ⟨x, hx, he⟩ := hentries t.entries (traverse_eq_error.1 h)
  exact ⟨x.1.key, x.2, get?_eq_some_iff.2 ⟨x.1, rfl, hx⟩, he⟩

end PoolAccounting.Table
