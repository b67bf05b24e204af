import Mathlib
import PoolAccounting.Config
import PoolAccounting.Proofs.Table.Traversal

/-!
Reading a section of a configuration. A section is accepted just if it gives integers under names of
its fields, and each field that is left out takes its default. The order of the entries does not count.
-/
namespace PoolAccounting

open Scalar (lookup)

theorem Scalar.key_eq_text_iff {s : Scalar} {x : String} : s.key = .text x ↔ s = .text x := by
  cases s with
  | text y => simp
  | float x => cases x <;> simp [key]
  | moment m =>
    simp only [key, reduceCtorEq, iff_false]
    split <;> simp
  | _ => simp [key, Key.ofInt]

theorem Table.sortedNames_eq_nil_iff {names : List Scalar} :
    sortedNames names = [] ↔ names = [] := by
  constructor
  · intro h
    rw [List.eq_nil_iff_forall_not_mem]
    intro name hname
    have hk : (ofNames names).contains name.key = true := by
      rw [contains_ofNames, List.any_eq_true]
      exact ⟨name, hname, decide_eq_true rfl⟩
    rw [contains_eq_true_iff, keys, ← sortedNames, h] at hk
    exact List.not_mem_nil hk
  · rintro rfl
    rfl

namespace Scalar

variable {α : Type} {es : List (Scalar × α)} {k : Key} {v : α}

theorem mem_of_lookup_eq_some (h : lookup k es = some v) :
    ∃ name : Scalar, name.key = k ∧ (name, v) ∈ es := by
  induction es with
  | nil => cases h
  | cons e es ih =>
    rw [lookup] at h
    split at h
    · next hk =>
      obtain rfl := Option.some.inj h
      exact ⟨e.1, hk, List.mem_cons_self⟩
    · obtain ⟨name, hk, hmem⟩ := ih h
      exact ⟨name, hk, List.mem_cons_of_mem e hmem⟩

theorem lookup_eq_none_iff : lookup k es = none ↔ ∀ name ∈ es.map (·.1), name.key ≠ k := by
  induction es with
  | nil => simp [lookup]
  | cons e es ih =>
    rw [lookup, List.map_cons, List.forall_mem_cons, ← ih]
    split <;> simp_all

theorem lookup_map {β : Type} (f : α → β) :
    lookup k (es.map fun e => (e.1, f e.2)) = (lookup k es).map f := by
  induction es with
  | nil => rfl
  | cons e es ih =>
    rw [List.map_cons, lookup, lookup, ih]
    split <;> rfl

/-- Where no key comes twice, every entry is the one that is found. -/
theorem lookup_of_mem (hd : (es.map (·.1.key)).Nodup) {e : Scalar × α} (he : e ∈ es) :
    lookup e.1.key es = some e.2 := by
  induction es with
  | nil => cases he
  | cons x es ih =>
    rw [List.map_cons, List.nodup_cons] at hd
    rw [lookup]
    rcases List.mem_cons.1 he with rfl | he
    · rw [if_pos rfl]
    · have hne : x.1.key ≠ e.1.key := fun h =>
        hd.1 (h ▸ List.mem_map_of_mem (f := fun e : Scalar × α => e.1.key) he)
      rw [if_neg hne]
      exact ih hd.2 he

end Scalar

namespace Value

/-- A value in which no mapping has two entries under one key. -/
inductive Distinct : Value → Prop
  | scalar (s : Scalar) : Distinct (.scalar s)
  | list {items : List Value} (h : ∀ v ∈ items, Distinct v) : Distinct (.list items)
  | map {entries : List (Scalar × Value)} (h : (entries.map (·.1.key)).Nodup)
      (h' : ∀ e ∈ entries, Distinct e.2) : Distinct (.map entries)

/-- The same mapping with its keys in another order, and so for the mappings under its keys. -/
inductive Reordered : Value → Value → Prop
  | refl (v : Value) : Reordered v v
  | map {es fs : List (Scalar × Value)} (names : (es.map (·.1)).Perm (fs.map (·.1)))
      (values : ∀ k v w, lookup k es = some v → lookup k fs = some w → Reordered v w) :
      Reordered (.map es) (.map fs)

variable {es fs : List (Scalar × Value)}

theorem Reordered.eq_of_scalar {s : Scalar} {w : Value} (h : Reordered (.scalar s) w) :
    w = .scalar s := by
  cases h
  rfl

theorem Reordered.names (h : Reordered (.map es) (.map fs)) :
    (es.map (·.1)).Perm (fs.map (·.1)) := by
  cases h with
  | refl => exact .refl _
  | map names values => exact names

theorem Reordered.lookup_eq_none_iff (h : Reordered (.map es) (.map fs)) {k : Key} :
    lookup k es = none ↔ lookup k fs = none := by
  simp only [Scalar.lookup_eq_none_iff, h.names.mem_iff]

theorem Reordered.lookup_eq_some (h : Reordered (.map es) (.map fs)) {k : Key} {v : Value}
    (hv : lookup k es = some v) : ∃ w, lookup k fs = some w ∧ Reordered v w := by
  have hne : lookup k fs ≠ none := by
    rw [Ne, ← h.lookup_eq_none_iff, hv]
    exact nofun
  obtain ⟨w, hw⟩ := Option.ne_none_iff_exists'.1 hne
  refine ⟨w, hw, ?_⟩
  cases h with
  | refl =>
    rw [← Option.some.inj (hv.symm.trans hw)]
    exact .refl v
  | map names values => exact values k v w hv hw

/-- Entries of different keys may come in any order. -/
theorem Reordered.of_perm (hd : (es.map (·.1.key)).Nodup) (h : es.Perm fs) :
    Reordered (.map es) (.map fs) := by
  refine .map (h.map _) fun k v w hv hw => ?_
  obtain ⟨name, rfl, hmem⟩ := Scalar.mem_of_lookup_eq_some hv
  have hfound := Scalar.lookup_of_mem ((h.map _).nodup_iff.1 hd) (h.subset hmem)
  rw [← Option.some.inj (hfound.symm.trans hw)]
  exact .refl _

end Value

namespace Config

/-- The entries of a mapping. Where none is given, or null, there are none. -/
def entries? : Option Value → Option (List (Scalar × Value))
  | none | some .null => some []
  | some (.map entries) => some entries
  | some _ => none

/-- Integers under names of fields. -/
def IsSection (fields : List String) (entries : List (Scalar × Value)) : Prop :=
  ∀ e ∈ entries, (∃ field ∈ fields, e.1 = .text field) ∧ ∃ n : ℤ, e.2 = .int n

/-- What a section gives for a field, or the default of the field. -/
def fieldIn (entries : List (Scalar × Value)) (field : String) (default : ℤ) : ℤ :=
  match lookup (.text field) entries with
  | some (.int n) => n
  | _ => default

theorem entries?_some {v : Value} {es : List (Scalar × Value)} :
    entries? (some v) = some es ↔ v = .null ∧ es = [] ∨ v = .map es := by
  cases v with
  | scalar s => cases s <;> simp [entries?, eq_comm]
  | list items => simp [entries?]
  | map entries => simp [entries?]

theorem entries?_of_reordered {v w : Value} (h : v.Reordered w)
    {es : List (Scalar × Value)} (hes : entries? (some v) = some es) :
    ∃ fs, entries? (some w) = some fs ∧ (Value.map es).Reordered (.map fs) := by
  cases h with
  | refl => exact ⟨es, hes, .refl _⟩
  | map names values =>
    obtain rfl := Option.some.inj hes
    exact ⟨_, rfl, .map names values⟩

theorem distinct_of_entries? {v : Value} (h : v.Distinct) {es : List (Scalar × Value)}
    (hes : entries? (some v) = some es) : (Value.map es).Distinct := by
  obtain ⟨-, rfl⟩ | rfl := entries?_some.1 hes
  · exact .map .nil (List.forall_mem_nil _)
  · exact h

/-- What is found under a name in another order of a mapping has the same entries in some order. -/
theorem entries?_lookup_of_reordered {es fs ds : List (Scalar × Value)} {k : Key}
    (hd : (Value.map es).Distinct) (h : (Value.map es).Reordered (.map fs))
    (hds : entries? (lookup k es) = some ds) :
    ∃ ds', entries? (lookup k fs) = some ds' ∧ (Value.map ds).Reordered (.map ds') ∧
      (ds.map (·.1.key)).Nodup := by
  cases hv : lookup k es with
  | none =>
    rw [hv] at hds
    obtain rfl := Option.some.inj hds
    rw [h.lookup_eq_none_iff.1 hv]
    exact ⟨[], rfl, .refl _, .nil⟩
  | some v =>
    rw [hv] at hds
    obtain ⟨w, hw, hr⟩ := h.lookup_eq_some hv
    rw [hw]
    obtain ⟨ds', hds', hr'⟩ := entries?_of_reordered hr hds
    refine ⟨ds', hds', hr', ?_⟩
    obtain ⟨name, -, hmem⟩ := Scalar.mem_of_lookup_eq_some hv
    cases hd with
    | map hnodup hvalues =>
      cases distinct_of_entries? (hvalues _ hmem) hds with
      | map hnodup => exact hnodup

variable {name : String} {fields known : List String} {entries es fs : List (Scalar × Value)}
  {set : List (Scalar × ℤ)} {v w : Option Value}

theorem unknownAmong_eq_nil_iff : unknownAmong known entries = [] ↔
    ∀ e ∈ entries, ∃ name ∈ known, e.1 = .text name := by
  simp only [unknownAmong, Table.sortedNames_eq_nil_iff, List.filter_eq_nil_iff,
    List.forall_mem_map, Bool.not_eq_true', Bool.not_eq_false, List.any_eq_true,
    decide_eq_true_eq, Scalar.key_eq_text_iff]

theorem integers_eq_ok :
    integers name entries = .ok set ↔ entries = set.map fun e => (e.1, .int e.2) := by
  induction entries generalizing set with
  | nil => cases set <;> simp [integers, pure, Except.pure]
  | cons e entries ih =>
    obtain ⟨key, value⟩ := e
    unfold integers
    split
    · next h => cases h
    · next key n rest h =>
      cases h
      simp only [bind_eq_ok, ih, pure, Except.pure, Except.ok.injEq]
      constructor
      · rintro ⟨ns, rfl, rfl⟩
        rfl
      · intro h
        obtain ⟨⟨k, m⟩, ns, rfl, hhead, htail⟩ := List.map_eq_cons_iff.1 h.symm
        obtain ⟨rfl, rfl⟩ : k = key ∧ m = n := by simpa using hhead
        exact ⟨ns, htail.symm, rfl⟩
    · next key value rest hint h =>
      cases h
      simp only [reduceCtorEq, false_iff]
      intro h
      obtain ⟨e, ns, -, hhead, -⟩ := List.map_eq_cons_iff.1 h.symm
      obtain ⟨-, rfl⟩ : e.1 = key ∧ .int e.2 = value := by simpa using hhead
      exact hint e.2 rfl

theorem sectionFields_eq_ok : sectionFields name fields v = .ok set ↔
    entries? v = some (set.map fun e => (e.1, .int e.2)) ∧
      ∀ e ∈ set, ∃ field ∈ fields, e.1 = .text field := by
  have hempty : (pure [] : Except ConfigFault (List (Scalar × ℤ))) = .ok set ↔
      some ([] : List (Scalar × Value)) = some (set.map fun e => (e.1, .int e.2)) ∧
        ∀ e ∈ set, ∃ field ∈ fields, e.1 = .text field := by
    cases set <;> simp [pure, Except.pure]
  unfold sectionFields entries?
  split
  · exact hempty
  · exact hempty
  · next entries =>
    have hnames : unknownAmong fields entries = [] ↔ _ := unknownAmong_eq_nil_iff
    split
    · next h =>
      rw [integers_eq_ok, Option.some_inj]
      refine (and_iff_left_of_imp ?_).symm
      rintro rfl
      have hset := hnames.1 h
      rwa [List.forall_mem_map] at hset
    · next h =>
      refine iff_of_false nofun ?_
      rintro ⟨h', hset⟩
      refine h (hnames.2 ?_)
      rw [Option.some.inj h']
      rwa [List.forall_mem_map]
  · simp

theorem isSection_iff : IsSection fields es ↔ ∃ set : List (Scalar × ℤ),
    es = set.map (fun e => (e.1, .int e.2)) ∧ ∀ e ∈ set, ∃ field ∈ fields, e.1 = .text field := by
  constructor
  · intro h
    induction es with
    | nil => exact ⟨[], rfl, List.forall_mem_nil _⟩
    | cons e es ih =>
      rw [IsSection, List.forall_mem_cons] at h
      obtain ⟨key, value⟩ := e
      obtain ⟨⟨hname, n, rfl⟩, hrest⟩ := h
      obtain ⟨set, rfl, hset⟩ := ih hrest
      exact ⟨(key, n) :: set, rfl, List.forall_mem_cons.2 ⟨hname, hset⟩⟩
  · rintro ⟨set, rfl, hset⟩
    exact List.forall_mem_map.2 fun e he => ⟨hset e he, e.2, rfl⟩

theorem fieldOr_eq (field : String) (default : ℕ) : fieldOr set field default =
    fieldIn (set.map fun e => (e.1, .int e.2)) field default := by
  rw [fieldOr, fieldIn, Scalar.lookup_map]
  cases lookup (.text field) set <;> rfl

/-- What is made of the fields that a section sets depends on its entries only. -/
theorem exists_sectionFields {P : (String → ℕ → Operand) → Prop} :
    (∃ set, sectionFields name fields v = .ok set ∧ P (fieldOr set)) ↔
      ∃ es, entries? v = some es ∧ IsSection fields es ∧
        P fun field default => (fieldIn es field default : ℤ) := by
  constructor
  · rintro ⟨set, hset, hP⟩
    obtain ⟨hv, hnames⟩ := sectionFields_eq_ok.1 hset
    refine ⟨_, hv, isSection_iff.2 ⟨set, rfl, hnames⟩, ?_⟩
    convert hP using 3
    exact (fieldOr_eq _ _).symm
  · rintro ⟨es, hv, hes, hP⟩
    obtain ⟨set, rfl, hnames⟩ := isSection_iff.1 hes
    refine ⟨set, sectionFields_eq_ok.2 ⟨hv, hnames⟩, ?_⟩
    convert hP using 3
    exact fieldOr_eq _ _

/-- The order in which a section gives its fields does not count. -/
theorem IsSection.of_reordered (hes : IsSection fields es) (hd : (es.map (·.1.key)).Nodup)
    (h : (Value.map es).Reordered (.map fs)) :
    IsSection fields fs ∧ ∀ k, lookup k fs = lookup k es := by
  have hlookup : ∀ k, lookup k fs = lookup k es := by
    intro k
    cases hv : lookup k es with
    | none => exact h.lookup_eq_none_iff.1 hv
    | some v =>
      obtain ⟨name, -, hmem⟩ := Scalar.mem_of_lookup_eq_some hv
      obtain ⟨n, rfl⟩ : ∃ n : ℤ, v = .int n := (hes _ hmem).2
      obtain ⟨w, hw, hreordered⟩ := h.lookup_eq_some hv
      rw [hw, hreordered.eq_of_scalar]
  refine ⟨fun e he => ?_, hlookup⟩
  have hnodup : (fs.map (·.1.key)).Nodup := by
    have hkeys := h.names.map Scalar.key
    rw [List.map_map, List.map_map] at hkeys
    exact hkeys.nodup_iff.1 hd
  have hfound := Scalar.lookup_of_mem hnodup he
  rw [hlookup] at hfound
  obtain ⟨name, -, hmem⟩ := Scalar.mem_of_lookup_eq_some hfound
  obtain ⟨e', he', hname⟩ := List.mem_map.1 (h.names.symm.subset (List.mem_map_of_mem he))
  exact ⟨hname ▸ (hes e' he').1, (hes _ hmem).2⟩

end Config

end PoolAccounting
