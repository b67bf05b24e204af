import PoolAccounting.Scalar.Key

/-!
Finite maps from scalars to values, kept as a list in increasing order of the keys of the scalars.
A name that is already there keeps its first spelling. Two tables are equal exactly when they hold
the same value and spell the name alike at every key.
-/
namespace PoolAccounting

open Scalar (lookup)

variable {α β ε : Type}

/-- Entries in increasing order of their keys. -/
abbrev Table.Sorted (es : List (Scalar × α)) : Prop :=
  es.Pairwise (fun x y => x.1.key.Before y.1.key)

structure Table (α : Type) where
  entries : List (Scalar × α)
  sorted : Table.Sorted entries

namespace Table

instance [DecidableEq α] : DecidableEq (Table α) := fun s t =>
  decidable_of_iff (s.entries = t.entries) (by cases s; cases t; simp)

instance [Repr α] : Repr (Table α) := ⟨fun t => reprPrec t.entries⟩

def empty : Table α := ⟨[], .nil⟩

instance : EmptyCollection (Table α) := ⟨empty⟩

instance : Inhabited (Table α) := ⟨empty⟩

/-- The names in increasing order. -/
def names (t : Table α) : List Scalar := t.entries.map (·.1)

def keys (t : Table α) : List Key := t.names.map Scalar.key

def values (t : Table α) : List α := t.entries.map (·.2)

def get? (t : Table α) (k : Key) : Option α := lookup k t.entries

/-- The names themselves in the place of the values. -/
def spellings (es : List (Scalar × α)) : List (Scalar × Scalar) := es.map fun e => (e.1, e.1)

/-- How the table spells a key. -/
def name? (t : Table α) (k : Key) : Option Scalar := lookup k (spellings t.entries)

def contains (t : Table α) (k : Key) : Bool := (t.get? k).isSome

def insertEntry (name : Scalar) (v : α) : List (Scalar × α) → List (Scalar × α)
  | [] => [(name, v)]
  | (n, w) :: rest =>
    if name.key.Before n.key then (name, v) :: (n, w) :: rest
    else if name.key = n.key then (n, v) :: rest
    else (n, w) :: insertEntry name v rest

theorem forall_before_insertEntry {j : Key} {name : Scalar} {v : α} {es : List (Scalar × α)}
    (hk : j.Before name.key) (h : ∀ e ∈ es, j.Before e.1.key) :
    ∀ e ∈ insertEntry name v es, j.Before e.1.key := by
  induction es with
  | nil =>
    intro e he
    rw [List.mem_singleton.1 he]
    exact hk
  | cons x es ih =>
    have hx := h x List.mem_cons_self
    have hs : ∀ e ∈ es, j.Before e.1.key := fun e he => h e (List.mem_cons_of_mem x he)
    unfold insertEntry
    intro e he
    split at he
    · rcases List.mem_cons.1 he with rfl | he
      · exact hk
      · exact h e he
    · split at he
      · rcases List.mem_cons.1 he with rfl | he
        · exact hx
        · exact hs e he
      · rcases List.mem_cons.1 he with rfl | he
        · exact hx
        · exact ih hs e he

theorem insertEntry_sorted (name : Scalar) (v : α) {es : List (Scalar × α)}
    (h : Sorted es) : Sorted (insertEntry name v es) := by
  induction es with
  | nil => exact List.pairwise_singleton _ _
  | cons e es ih =>
    rw [Sorted, List.pairwise_cons] at h
    unfold insertEntry
    split
    · rename_i hlt
      refine .cons (fun x hx => ?_) (.cons h.1 h.2)
      rcases List.mem_cons.1 hx with rfl | hx
      · exact hlt
      · exact hlt.trans (h.1 x hx)
    · split
      · exact .cons h.1 h.2
      · rename_i hlt hne
        have hek : e.1.key.Before name.key := Key.before_of_not hne hlt
        exact .cons (forall_before_insertEntry hek h.1) (ih h.2)

/-- Sets the value under a name. -/
def insert (t : Table α) (name : Scalar) (v : α) : Table α :=
  ⟨insertEntry name v t.entries, insertEntry_sorted name v t.sorted⟩

/-- The table of a list of pairs; of two pairs with one key the later value counts. -/
def ofList (es : List (Scalar × α)) : Table α := es.foldl (fun t e => t.insert e.1 e.2) empty

/-- A set of names; of several spellings of a key the first counts. -/
def ofNames (names : List Scalar) : Table Unit := ofList (names.map fun n => (n, ()))

/-- The names in increasing order, each key once and in its first spelling. -/
def sortedNames (names : List Scalar) : List Scalar := (ofNames names).names

def filter (p : Key → Bool) (t : Table α) : Table α :=
  ⟨t.entries.filter (fun e => p e.1.key), t.sorted.filter _⟩

/-- Everything but the key `k`. -/
def erase (t : Table α) (k : Key) : Table α := t.filter (· != k)

/-- The entries at the keys of another table, in its spelling. -/
def restrict (t : Table α) (s : Table β) : Table α where
  entries := s.entries.filterMap fun e => (t.get? e.1.key).map fun v => (e.1, v)
  sorted := by
    refine List.Pairwise.filterMap _ (fun x y hxy a ha b hb => ?_) s.sorted
    simp only [Option.map_eq_some_iff] at ha hb
    obtain ⟨v, -, rfl⟩ := ha
    obtain ⟨w, -, rfl⟩ := hb
    exact hxy

def map (f : α → β) (t : Table α) : Table β :=
  ⟨t.entries.map (fun e => (e.1, f e.2)), List.pairwise_map.2 t.sorted⟩

/-- The set of the names of a table. -/
def domain (t : Table α) : Table Unit := t.map fun _ => ()

/-- The entries of `s`, with the values of `t` in front of them where both have one. -/
def override (s t : Table α) : Table α := t.entries.foldl (fun u e => u.insert e.1 e.2) s

/-- Replaces each value in the order of the names, up to the first refusal. -/
def traverseEntries (f : Key → α → Except ε β) :
    List (Scalar × α) → Except ε (List (Scalar × β))
  | [] => pure []
  | (name, v) :: rest => do
    let w ← f name.key v
    let ws ← traverseEntries f rest
    pure ((name, w) :: ws)

theorem traverseEntries_names {f : Key → α → Except ε β} {es : List (Scalar × α)}
    {ws : List (Scalar × β)} (h : traverseEntries f es = .ok ws) :
    ws.map (·.1) = es.map (·.1) := by
  induction es generalizing ws with
  | nil => cases h; rfl
  | cons e es ih =>
    simp only [traverseEntries] at h
    cases hv : f e.1.key e.2 with
    | error => simp [hv, bind, Except.bind] at h
    | ok w =>
      cases hs : traverseEntries f es with
      | error => simp [hv, hs, bind, Except.bind] at h
      | ok us =>
        simp only [hv, hs, bind, Except.bind, pure, Except.pure, Except.ok.injEq] at h
        subst h
        simp [ih hs]

theorem sorted_of_names_eq {es : List (Scalar × α)} {ws : List (Scalar × β)}
    (h : Sorted es) (e : ws.map (·.1) = es.map (·.1)) : Sorted ws := by
  have hs : (es.map (·.1)).Pairwise (fun m n : Scalar => m.key.Before n.key) :=
    List.pairwise_map.2 h
  rw [← e, List.pairwise_map] at hs
  exact hs

def traverse (f : Key → α → Except ε β) (t : Table α) : Except ε (Table β) :=
  match h : traverseEntries f t.entries with
  | .error e => .error e
  | .ok ws => .ok ⟨ws, sorted_of_names_eq t.sorted (traverseEntries_names h)⟩

end Table

end PoolAccounting
