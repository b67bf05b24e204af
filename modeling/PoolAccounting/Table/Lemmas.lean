import PoolAccounting.Table.Basic

/-!
What each operation on a table does to the values it holds and to the spelling of its names.
-/
namespace PoolAccounting.Table

open Scalar (lookup)

variable {α β ε : Type}

theorem lookup_of_forall_before {k : Key} {es : List (Scalar × α)}
    (h : ∀ e ∈ es, k.Before e.1.key) : lookup k es = none := by
  induction es with
  | nil => rfl
  | cons e es ih =>
    simp only [List.mem_cons, forall_eq_or_imp] at h
    have : e.1.key ≠ k := fun he => Key.Before.irrefl k (he ▸ h.1)
    simp [lookup, this, ih h.2]

theorem forall_before_spellings {k : Key} {es : List (Scalar × α)}
    (h : ∀ e ∈ es, k.Before e.1.key) : ∀ e ∈ spellings es, k.Before e.1.key := by
  simpa only [spellings, List.forall_mem_map] using h

theorem spellings_sorted {es : List (Scalar × α)} (h : Sorted es) : Sorted (spellings es) :=
  List.pairwise_map.2 h

theorem lookup_eq_some_iff {k : Key} {v : α} {es : List (Scalar × α)} (h : Sorted es) :
    lookup k es = some v ↔ ∃ name, name.key = k ∧ (name, v) ∈ es := by
  induction es with
  | nil => simp [lookup]
  | cons e es ih =>
    obtain ⟨n, w⟩ := e
    rw [Sorted, List.pairwise_cons] at h
    unfold lookup
    split
    · subst_vars
      constructor
      · rintro ⟨⟩; exact ⟨n, rfl, List.mem_cons_self⟩
      · rintro ⟨name, hk, hm⟩
        rcases List.mem_cons.1 hm with he | he
        · cases he; rfl
        · exact absurd (hk ▸ h.1 _ he) (Key.Before.irrefl _)
    · rename_i hne
      rw [ih h.2]
      constructor
      · rintro ⟨name, hk, hm⟩; exact ⟨name, hk, List.mem_cons_of_mem _ hm⟩
      · rintro ⟨name, hk, hm⟩
        rcases List.mem_cons.1 hm with he | he
        · cases he; exact absurd hk hne
        · exact ⟨name, hk, he⟩

theorem get?_eq_some_iff {t : Table α} {k : Key} {v : α} :
    t.get? k = some v ↔ ∃ name, name.key = k ∧ (name, v) ∈ t.entries :=
  lookup_eq_some_iff t.sorted

theorem name?_eq_some_iff {t : Table α} {k : Key} {name : Scalar} :
    t.name? k = some name ↔ name.key = k ∧ name ∈ t.names := by
  rw [name?, lookup_eq_some_iff (spellings_sorted t.sorted)]
  simp only [names, spellings, List.mem_map, Prod.mk.injEq]
  constructor
  · rintro ⟨_, hk, e, he, rfl, rfl⟩; exact ⟨hk, e, he, rfl⟩
  · rintro ⟨hk, e, he, rfl⟩; exact ⟨_, hk, e, he, rfl, rfl⟩

theorem mem_keys_iff {t : Table α} {k : Key} : k ∈ t.keys ↔ ∃ v, t.get? k = some v := by
  simp only [keys, names, List.mem_map, get?_eq_some_iff]
  constructor
  · rintro ⟨_, ⟨e, he, rfl⟩, rfl⟩; exact ⟨e.2, e.1, rfl, he⟩
  · rintro ⟨v, name, rfl, he⟩; exact ⟨name, ⟨_, he, rfl⟩, rfl⟩

theorem mem_values_iff {t : Table α} {v : α} : v ∈ t.values ↔ ∃ k, t.get? k = some v := by
  simp only [values, List.mem_map, get?_eq_some_iff]
  constructor
  · rintro ⟨e, he, rfl⟩; exact ⟨e.1.key, e.1, rfl, he⟩
  · rintro ⟨_, name, -, he⟩; exact ⟨_, he, rfl⟩

theorem contains_eq_true_iff {t : Table α} {k : Key} : t.contains k = true ↔ k ∈ t.keys := by
  simp [contains, mem_keys_iff, Option.isSome_iff_exists]

theorem keys_sorted (t : Table α) : t.keys.Pairwise Key.Before := by
  simpa [keys, names, List.pairwise_map] using t.sorted

theorem entries_eq_of_lookup_eq {es fs : List (Scalar × α)} (he : Sorted es) (hf : Sorted fs)
    (h : ∀ k, lookup k es = lookup k fs)
    (hn : ∀ k, lookup k (spellings es) = lookup k (spellings fs)) :
    es = fs := by
  induction es generalizing fs with
  | nil =>
    cases fs with
    | nil => rfl
    | cons f fs => simpa [lookup] using h f.1.key
  | cons e es ih =>
    cases fs with
    | nil => simpa [lookup] using h e.1.key
    | cons f fs =>
      obtain ⟨m, v⟩ := e
      obtain ⟨n, w⟩ := f
      rw [Sorted, List.pairwise_cons] at he hf
      have hm : lookup m.key ((n, w) :: fs) = some v := by rw [← h m.key]; simp [lookup]
      have hk : lookup n.key ((m, v) :: es) = some w := by rw [h n.key]; simp [lookup]
      have hmn : m.key = n.key := by
        unfold lookup at hm hk
        split at hm
        · simp_all
        · split at hk
          · simp_all
          · obtain ⟨a, ha, ha'⟩ := (lookup_eq_some_iff hf.2).1 hm
            obtain ⟨b, hb, hb'⟩ := (lookup_eq_some_iff he.2).1 hk
            exact absurd (hb ▸ he.1 _ hb') (ha ▸ hf.1 _ ha').asymm
      have hname : m = n := by simpa [spellings, lookup, hmn] using hn m.key
      subst hname
      have hvw : v = w := by simpa [lookup] using hm.symm
      subst hvw
      rw [ih he.2 hf.2 (fun k => ?_) fun k => ?_]
      · by_cases hk : m.key = k
        · subst hk
          rw [lookup_of_forall_before he.1, lookup_of_forall_before hf.1]
        · simpa [lookup, hk] using h k
      · by_cases hk : m.key = k
        · subst hk
          rw [lookup_of_forall_before (forall_before_spellings he.1),
            lookup_of_forall_before (forall_before_spellings hf.1)]
        · simpa [spellings, lookup, hk] using hn k

theorem ext_get? {s t : Table α} (h : ∀ k, s.get? k = t.get? k)
    (hn : ∀ k, s.name? k = t.name? k) : s = t := by
  cases s with
  | mk es he => cases t with
    | mk fs hf =>
      have := entries_eq_of_lookup_eq he hf h hn
      subst this
      rfl

@[simp] theorem get?_empty (k : Key) : (∅ : Table α).get? k = none := rfl

theorem lookup_insertEntry (name : Scalar) (k : Key) (v : α) {es : List (Scalar × α)} :
    lookup k (insertEntry name v es) = if name.key = k then some v else lookup k es := by
  induction es with
  | nil => simp [insertEntry, lookup]
  | cons e es ih =>
    unfold insertEntry
    split
    · simp [lookup]
    · split
      · rename_i heq
        simp only [lookup, heq]; split <;> rfl
      · simp only [lookup, ih]; grind

@[simp] theorem get?_insert (t : Table α) (name : Scalar) (k : Key) (v : α) :
    (t.insert name v).get? k = if name.key = k then some v else t.get? k :=
  lookup_insertEntry name k v

theorem lookup_names_insertEntry (name : Scalar) (k : Key) (v : α) {es : List (Scalar × α)}
    (h : Sorted es) :
    lookup k (spellings (insertEntry name v es)) =
      if name.key = k then some ((lookup k (spellings es)).getD name)
      else lookup k (spellings es) := by
  induction es with
  | nil => simp [insertEntry, spellings, lookup]
  | cons e es ih =>
    rw [Sorted, List.pairwise_cons] at h
    unfold insertEntry
    split
    · rename_i hlt
      by_cases hk : name.key = k
      · subst hk
        have : ∀ x ∈ e :: es, name.key.Before x.1.key := by
          intro x hx
          rcases List.mem_cons.1 hx with rfl | hx
          · exact hlt
          · exact hlt.trans (h.1 x hx)
        rw [lookup_of_forall_before (forall_before_spellings this)]
        simp [spellings, lookup]
      · simp [spellings, lookup, hk]
    · split
      · rename_i heq
        simp only [spellings, List.map_cons, lookup, heq]; split <;> rfl
      · have ih := ih h.2
        simp only [spellings, List.map_cons, lookup] at ih ⊢
        rw [ih]; grind

@[simp] theorem name?_insert (t : Table α) (name : Scalar) (k : Key) (v : α) :
    (t.insert name v).name? k =
      if name.key = k then some ((t.name? k).getD name) else t.name? k :=
  lookup_names_insertEntry name k v t.sorted

@[simp] theorem get?_filter (t : Table α) (p : Key → Bool) (k : Key) :
    (t.filter p).get? k = if p k then t.get? k else none := by
  refine Option.ext fun v => ?_
  split <;> simp [get?_eq_some_iff, filter] <;> grind

@[simp] theorem name?_filter (t : Table α) (p : Key → Bool) (k : Key) :
    (t.filter p).name? k = if p k then t.name? k else none := by
  refine Option.ext fun n => ?_
  split <;> simp [name?_eq_some_iff, names, filter] <;> grind

@[simp] theorem get?_erase (t : Table α) (j k : Key) :
    (t.erase j).get? k = if k = j then none else t.get? k := by
  by_cases h : k = j <;> simp [erase, h]

@[simp] theorem name?_erase (t : Table α) (j k : Key) :
    (t.erase j).name? k = if k = j then none else t.name? k := by
  by_cases h : k = j <;> simp [erase, h]

theorem lookup_restrict (t : Table α) (k : Key) (es : List (Scalar × β)) :
    lookup k (es.filterMap fun e => (t.get? e.1.key).map fun v => (e.1, v)) =
      if (lookup k es).isSome then t.get? k else none := by
  induction es with
  | nil => rfl
  | cons e es ih =>
    by_cases hk : e.1.key = k
    · subst hk
      cases hv : t.get? e.1.key with
      | none => simp [hv, lookup, ih]
      | some v => simp [hv, lookup]
    · cases hv : t.get? e.1.key <;> simp [hv, lookup, hk, ih]

@[simp] theorem get?_restrict (t : Table α) (s : Table β) (k : Key) :
    (t.restrict s).get? k = if s.contains k then t.get? k else none :=
  lookup_restrict t k s.entries

@[simp] theorem get?_map (t : Table α) (f : α → β) (k : Key) :
    (t.map f).get? k = (t.get? k).map f := by
  simp only [get?, map]
  induction t.entries with
  | nil => rfl
  | cons e es ih => simp only [List.map_cons, lookup, ih]; split <;> rfl

@[simp] theorem names_map (t : Table α) (f : α → β) : (t.map f).names = t.names := by
  simp [names, map]

theorem name?_eq_of_names_eq {s : Table α} {t : Table β} (h : s.names = t.names) (k : Key) :
    s.name? k = t.name? k := Option.ext fun n => by simp [name?_eq_some_iff, h]

@[simp] theorem name?_map (t : Table α) (f : α → β) (k : Key) : (t.map f).name? k = t.name? k :=
  name?_eq_of_names_eq (names_map t f) k

@[simp] theorem get?_domain (t : Table α) (k : Key) :
    t.domain.get? k = (t.get? k).map fun _ => () := get?_map t _ k

@[simp] theorem names_domain (t : Table α) : t.domain.names = t.names := names_map t _

@[simp] theorem contains_domain (t : Table α) (k : Key) : t.domain.contains k = t.contains k := by
  simp [contains]

theorem restrict_domain (t : Table α) : t.restrict t.domain = t := by
  have h : ∀ es : List (Scalar × α), (∀ e ∈ es, t.get? e.1.key = some e.2) →
      (es.map fun e => (e.1, ())).filterMap
        (fun e => (t.get? e.1.key).map fun v => (e.1, v)) = es := by
    intro es he
    induction es with
    | nil => rfl
    | cons e es ih =>
      rw [List.map_cons, List.filterMap_cons, he e List.mem_cons_self, Option.map_some,
        ih fun x hx => he x (List.mem_cons_of_mem e hx)]
  have h := h t.entries fun e he => get?_eq_some_iff.2 ⟨e.1, rfl, he⟩
  cases t
  simp only [restrict, domain, map]
  congr

theorem get?_foldl_insert {es : List (Scalar × α)} (h : Sorted es) (s : Table α) (k : Key) :
    (es.foldl (fun u e => u.insert e.1 e.2) s).get? k = (lookup k es).or (s.get? k) := by
  induction es generalizing s with
  | nil => simp [lookup]
  | cons e es ih =>
    rw [Sorted, List.pairwise_cons] at h
    rw [List.foldl_cons, ih h.2, get?_insert]
    by_cases hk : e.1.key = k
    · subst hk; simp [lookup, lookup_of_forall_before h.1]
    · simp [lookup, hk]

@[simp] theorem get?_override (s t : Table α) (k : Key) :
    (s.override t).get? k = (t.get? k).or (s.get? k) := get?_foldl_insert t.sorted s k

theorem name?_foldl_insert (es : List (Scalar × α)) (s : Table α) (k : Key) :
    (es.foldl (fun u e => u.insert e.1 e.2) s).name? k =
      (s.name? k).or (lookup k (spellings es)) := by
  induction es generalizing s with
  | nil => simp [spellings, lookup]
  | cons e es ih =>
    rw [List.foldl_cons, ih, name?_insert]
    by_cases hk : e.1.key = k
    · simp only [hk, spellings, List.map_cons, lookup, if_true]; cases s.name? k <;> simp
    · simp [spellings, lookup, hk]

@[simp] theorem name?_override (s t : Table α) (k : Key) :
    (s.override t).name? k = (s.name? k).or (t.name? k) := name?_foldl_insert t.entries s k

theorem mem_keys_insert {t : Table α} {name : Scalar} {v : α} {k : Key} :
    k ∈ (t.insert name v).keys ↔ name.key = k ∨ k ∈ t.keys := by
  simp only [mem_keys_iff, get?_insert]
  by_cases hk : name.key = k <;> simp [hk]

theorem mem_keys_override {s t : Table α} {k : Key} :
    k ∈ (s.override t).keys ↔ k ∈ s.keys ∨ k ∈ t.keys := by
  simp only [mem_keys_iff, get?_override]
  cases t.get? k <;> simp

theorem traverseEntries_cons_eq_ok {f : Key → α → Except ε β} {e : Scalar × α}
    {es : List (Scalar × α)} {ws : List (Scalar × β)} :
    traverseEntries f (e :: es) = .ok ws ↔
      ∃ w us, f e.1.key e.2 = .ok w ∧ traverseEntries f es = .ok us ∧ ws = (e.1, w) :: us := by
  simp only [traverseEntries]
  cases f e.1.key e.2 <;> cases traverseEntries f es <;>
    simp [bind, Except.bind, pure, Except.pure, eq_comm]

theorem lookup_traverseEntries {f : Key → α → Except ε β} {es : List (Scalar × α)}
    {ws : List (Scalar × β)} (h : traverseEntries f es = .ok ws) (k : Key) :
    (∀ v, lookup k es = some v → ∃ w, f k v = .ok w ∧ lookup k ws = some w) ∧
      (lookup k es = none → lookup k ws = none) := by
  induction es generalizing ws with
  | nil => cases h; simp [lookup]
  | cons e es ih =>
    obtain ⟨w, us, hw, hu, rfl⟩ := traverseEntries_cons_eq_ok.1 h
    by_cases hk : e.1.key = k
    · subst hk; simp [lookup, hw]
    · simpa [lookup, hk] using ih hu

theorem traverse_eq_ok {f : Key → α → Except ε β} {t : Table α} {u : Table β} :
    t.traverse f = .ok u ↔ traverseEntries f t.entries = .ok u.entries := by
  cases u with
  | mk ws hs =>
    unfold traverse
    split <;> simp_all

theorem traverse_eq_error {f : Key → α → Except ε β} {t : Table α} {e : ε} :
    t.traverse f = .error e ↔ traverseEntries f t.entries = .error e := by
  unfold traverse
  split <;> simp_all

theorem get?_of_traverse {f : Key → α → Except ε β} {t : Table α} {u : Table β}
    (h : t.traverse f = .ok u) {k : Key} {v : α} (hv : t.get? k = some v) :
    ∃ w, f k v = .ok w ∧ u.get? k = some w :=
  (lookup_traverseEntries (traverse_eq_ok.1 h) k).1 v hv

theorem names_of_traverse {f : Key → α → Except ε β} {t : Table α} {u : Table β}
    (h : t.traverse f = .ok u) : u.names = t.names := traverseEntries_names (traverse_eq_ok.1 h)

theorem traverse_succeeds {f : Key → α → Except ε β} {t : Table α}
    (h : ∀ k v, t.get? k = some v → ∃ w, f k v = .ok w) : ∃ u, t.traverse f = .ok u := by
  have : ∀ es : List (Scalar × α), (∀ e ∈ es, ∃ w, f e.1.key e.2 = .ok w) →
      ∃ ws, traverseEntries f es = .ok ws := by
    intro es
    induction es with
    | nil => exact fun _ => ⟨[], rfl⟩
    | cons e es ih =>
      intro he
      obtain ⟨w, hw⟩ := he e (by simp)
      obtain ⟨ws, hs⟩ := ih fun x hx => he x (by simp [hx])
      exact ⟨_, traverseEntries_cons_eq_ok.2 ⟨w, ws, hw, hs, rfl⟩⟩
  obtain ⟨ws, hs⟩ := this t.entries fun e he =>
    h e.1.key e.2 (get?_eq_some_iff.2 ⟨e.1, rfl, he⟩)
  exact ⟨⟨ws, sorted_of_names_eq t.sorted (traverseEntries_names hs)⟩, traverse_eq_ok.2 hs⟩

end PoolAccounting.Table
