import Mathlib
import PoolAccounting.Proofs.Fees.Distribution
import PoolAccounting.Proofs.Table.Sums

/-!
Distributing at once every token that is due. A distribution touches the two entries of its own token
and nothing else, so each token is distributed at what was pending of it in the beginning, whatever
was distributed before it. Main statement: the batch goes through just if each of its tokens can be
distributed by itself, and then it does what these distributions do in any order.
-/
namespace PoolAccounting

theorem Key.nodup_of_sorted {ks : List Key} (h : ks.Pairwise Before) : ks.Nodup := by
  apply h.imp
  rintro j _ hj rfl
  exact Before.irrefl j hj

namespace Fees.Book

open Amount

variable {b b' : Book} {c : Shares} {token other : Scalar} {tokens order : List Scalar} {k : Key}
  {ds : List Distribution}

theorem isDue_iff : b.isDue c token = true ↔
    0 < b.pendingFor token ∧ c.minimum ≤ b.pendingFor token := by
  simp [isDue, Nat.pos_iff_ne_zero]

/-- Whether what is pending of a token can be added to what was distributed of it. -/
def HasRoom (b : Book) (k : Key) : Prop := b.distributedFor k + b.pendingFor k ≤ maxAmount

/-- What a distribution of a token answers. -/
def result (b : Book) (c : Shares) (token : Scalar) : Distribution :=
  ⟨token, b.pendingFor token, c.parts (b.pendingFor token)⟩

section OneToken

theorem get?_pending_distributing (b : Book) (token : Scalar) (k : Key) :
    (b.distributing token).pending.get? k =
      if token.key = k then some 0 else b.pending.get? k :=
  Table.get?_insert ..

theorem get?_distributed_distributing (b : Book) (token : Scalar) (k : Key) :
    (b.distributing token).distributed.get? k =
      if token.key = k then some (b.distributedFor k + b.pendingFor k)
      else b.distributed.get? k := by
  rw [distributing, Table.get?_insert]
  split
  · next h => rw [h]
  · rfl

theorem pendingFor_distributing (b : Book) (token : Scalar) (k : Key) :
    (b.distributing token).pendingFor k = if token.key = k then 0 else b.pendingFor k := by
  rw [pendingFor, get?_pending_distributing]
  split <;> rfl

theorem distributedFor_distributing (b : Book) (token : Scalar) (k : Key) :
    (b.distributing token).distributedFor k =
      if token.key = k then b.distributedFor k + b.pendingFor k else b.distributedFor k := by
  rw [distributedFor, get?_distributed_distributing]
  split <;> rfl

variable (h : token.key ≠ other.key)
include h

theorem isDue_distributing : (b.distributing token).isDue c other = b.isDue c other := by
  rw [isDue, isDue, pendingFor_distributing, if_neg h]

theorem hasRoom_distributing : (b.distributing token).HasRoom other ↔ b.HasRoom other := by
  rw [HasRoom, HasRoom, pendingFor_distributing, distributedFor_distributing, if_neg h, if_neg h]

theorem result_distributing : (b.distributing token).result c other = b.result c other := by
  rw [result, result, pendingFor_distributing, if_neg h]

theorem distributing_comm : (b.distributing token).distributing other =
    (b.distributing other).distributing token := by
  have htoken := pendingFor_distributing b other token
  have hother := pendingFor_distributing b token other
  have htotal := distributedFor_distributing b other token
  have hototal := distributedFor_distributing b token other
  rw [if_neg h] at hother hototal
  rw [if_neg h.symm] at htoken htotal
  rw [distributing, hother, hototal, distributing, distributing, htoken, htotal, distributing,
    Table.insert_comm h, Table.insert_comm h]

end OneToken

/-- The book once each of the tokens is distributed. -/
def distributingAll (b : Book) (tokens : List Scalar) : Book := tokens.foldl distributing b

theorem distributingAll_cons (b : Book) (token : Scalar) (rest : List Scalar) :
    b.distributingAll (token :: rest) = (b.distributing token).distributingAll rest := rfl

theorem get?_pending_distributingAll (b : Book) (tokens : List Scalar) (k : Key) :
    (b.distributingAll tokens).pending.get? k =
      if k ∈ tokens.map Scalar.key then some 0 else b.pending.get? k := by
  induction tokens generalizing b with
  | nil => simp [distributingAll]
  | cons token rest ih =>
    rw [distributingAll_cons, ih, get?_pending_distributing]
    simp only [List.map_cons, List.mem_cons]
    grind

theorem get?_distributed_distributingAll (b : Book) (tokens : List Scalar) (k : Key) :
    (b.distributingAll tokens).distributed.get? k =
      if k ∈ tokens.map Scalar.key then some (b.distributedFor k + b.pendingFor k)
      else b.distributed.get? k := by
  induction tokens generalizing b with
  | nil => simp [distributingAll]
  | cons token rest ih =>
    rw [distributingAll_cons, ih, get?_distributed_distributing, distributedFor_distributing,
      pendingFor_distributing]
    simp only [List.map_cons, List.mem_cons]
    grind

/-- Different tokens can be distributed in any order. -/
theorem distributingAll_perm (h : order.Perm tokens) (hd : (tokens.map Scalar.key).Nodup) :
    b.distributingAll order = b.distributingAll tokens := by
  apply h.foldl_eq'
  intro token ht other ho m
  by_cases hk : token.key = other.key
  · rw [List.inj_on_of_nodup_map hd (h.subset ht) (h.subset ho) hk]
  · exact distributing_comm hk

theorem key_ne_of_nodup_cons (hd : ((token :: tokens).map Scalar.key).Nodup) {other : Scalar}
    (h : other ∈ tokens) : token.key ≠ other.key := by
  intro hk
  rw [List.map_cons, List.nodup_cons, hk] at hd
  exact hd.1 (List.mem_map_of_mem h)

/-- Different tokens, of each of which enough is pending, are distributed one after the other if each
of them could be distributed alone. -/
theorem distribute_inTurn (hd : (tokens.map Scalar.key).Nodup)
    (h : ∀ token ∈ tokens, c.minimum ≤ b.pendingFor token ∧ b.HasRoom token) :
    tokens.foldlM (fun m token => Prod.fst <$> m.distribute token c) b =
      .ok (b.distributingAll tokens) := by
  induction tokens generalizing b with
  | nil => rfl
  | cons token rest ih =>
    obtain ⟨⟨hmin, hroom⟩, hrest⟩ := List.forall_mem_cons.1 h
    rw [List.foldlM_cons, distribute_eq_ok.2 ⟨hmin, hroom, rfl, rfl⟩]
    refine ih (List.nodup_cons.1 hd).2 fun other ho => ?_
    have hk := key_ne_of_nodup_cons hd ho
    rw [pendingFor_distributing, if_neg hk, hasRoom_distributing hk]
    exact hrest other ho

/-- Of different tokens those that are due in the beginning are distributed, each at what was pending
of it then. -/
theorem distributeEach_eq_ok (hd : (tokens.map Scalar.key).Nodup) :
    distributeEach c tokens b = .ok (b', ds) ↔
      (∀ token ∈ tokens.filter (b.isDue c), b.HasRoom token) ∧
        b' = b.distributingAll (tokens.filter (b.isDue c)) ∧
        ds = (tokens.filter (b.isDue c)).map (b.result c) := by
  induction tokens generalizing b ds with
  | nil =>
    simp only [distributeEach, pure, Except.pure, Except.ok.injEq, Prod.mk.injEq, List.filter_nil,
      List.not_mem_nil, false_imp_iff, implies_true, true_and, List.map_nil]
    exact and_congr eq_comm eq_comm
  | cons token rest ih =>
    rw [distributeEach_cons_eq_ok]
    have hrest := (List.nodup_cons.1 hd).2
    split
    · next hdue =>
      have hkey : ∀ other ∈ rest, token.key ≠ other.key := fun _ => key_ne_of_nodup_cons hd
      have hfilter : rest.filter ((b.distributing token).isDue c) = rest.filter (b.isDue c) :=
        List.filter_congr fun other ho => isDue_distributing (hkey other ho)
      have hmem : ∀ other ∈ rest.filter (b.isDue c), token.key ≠ other.key :=
        fun other ho => hkey other (List.mem_of_mem_filter ho)
      have hresults : (rest.filter (b.isDue c)).map ((b.distributing token).result c) =
          (rest.filter (b.isDue c)).map (b.result c) :=
        List.map_congr_left fun other ho => result_distributing (hmem other ho)
      have hrooms : (∀ other ∈ rest.filter (b.isDue c), (b.distributing token).HasRoom other) ↔
          ∀ other ∈ rest.filter (b.isDue c), b.HasRoom other :=
        forall₂_congr fun other ho => hasRoom_distributing (hmem other ho)
      rw [List.filter_cons_of_pos hdue, List.forall_mem_cons, distributingAll_cons, List.map_cons,
        ← hrooms, ← hresults, ← hfilter]
      constructor
      · rintro ⟨m, d, es, hdistribute, heach, rfl⟩
        obtain ⟨-, hroom, rfl, rfl⟩ := distribute_eq_ok.1 hdistribute
        obtain ⟨hothers, rfl, rfl⟩ := (ih hrest).1 heach
        exact ⟨⟨hroom, hothers⟩, rfl, rfl⟩
      · rintro ⟨⟨hroom, hothers⟩, rfl, rfl⟩
        exact ⟨_, _, _, distribute_eq_ok.2 ⟨(isDue_iff.1 hdue).2, hroom, rfl, rfl⟩,
          (ih hrest).2 ⟨hothers, rfl, rfl⟩, rfl⟩
    · next hdue =>
      rw [List.filter_cons_of_neg hdue]
      exact ih hrest

/-- The tokens that are due, as the book spells them. -/
def due (b : Book) (c : Shares) : List Scalar := b.pending.names.filter (b.isDue c)

theorem distributeAll_eq_ok : b.distributeAll c = .ok (b', ds) ↔
    (∀ token ∈ b.due c, b.HasRoom token) ∧ b' = b.distributingAll (b.due c) ∧
      ds = (b.due c).map (b.result c) :=
  distributeEach_eq_ok (Key.nodup_of_sorted b.pending.keys_sorted)

theorem keys_due_sorted (b : Book) (c : Shares) :
    ((b.due c).map Scalar.key).Pairwise Key.Before :=
  b.pending.keys_sorted.sublist (List.filter_sublist.map Scalar.key)

theorem mem_keys_due : k ∈ (b.due c).map Scalar.key ↔
    0 < b.pendingFor k ∧ c.minimum ≤ b.pendingFor k := by
  simp only [due, List.mem_map, List.mem_filter, isDue_iff]
  constructor
  · rintro ⟨token, ⟨-, hdue⟩, rfl⟩
    exact hdue
  · intro hdue
    -- a token of which something is pending has an entry, and so a spelling
    have hk : k ∈ b.pending.keys := by
      rw [Table.mem_keys_iff, ← Option.isSome_iff_exists]
      by_contra hnone
      simp [pendingFor, Option.not_isSome_iff_eq_none.1 hnone] at hdue
    obtain ⟨token, ht, rfl⟩ := List.mem_map.1 hk
    exact ⟨token, ⟨ht, hdue⟩, rfl⟩

theorem forall_due_iff {P : Key → Prop} : (∀ token ∈ b.due c, P token) ↔
    ∀ k : Key, 0 < b.pendingFor k ∧ c.minimum ≤ b.pendingFor k → P k := by
  simp only [← mem_keys_due, List.forall_mem_map]

/-- Once the batch is distributed nothing is due. -/
theorem due_distributingAll (b : Book) (c : Shares) : (b.distributingAll (b.due c)).due c = [] := by
  rw [due, List.filter_eq_nil_iff]
  intro token _ hdue
  rw [isDue_iff, pendingFor, get?_pending_distributingAll] at hdue
  split at hdue
  · exact Nat.lt_irrefl 0 hdue.1
  · next h => exact h (mem_keys_due.2 hdue)

theorem map_key_result (b : Book) (c : Shares) (tokens : List Scalar) :
    (tokens.map (b.result c)).map (·.token.key) = tokens.map Scalar.key := by
  rw [List.map_map]
  rfl

theorem map_token_result (b : Book) (c : Shares) (tokens : List Scalar) :
    (tokens.map (b.result c)).map (·.token) = tokens := by
  rw [List.map_map]
  exact List.map_id tokens

/-- The tokens of a batch that goes through can be distributed one by one in any order and spelling,
with the same entries in the end. -/
theorem distributeAll_inTurn (h : b.distributeAll c = .ok (b', ds))
    (horder : (order.map Scalar.key).Perm ((b.due c).map Scalar.key)) :
    ∃ m, order.foldlM (fun m token => Prod.fst <$> m.distribute token c) b = .ok m ∧
      (∀ k, m.pending.get? k = b'.pending.get? k ∧
        m.distributed.get? k = b'.distributed.get? k) ∧
      (order.Perm (b.due c) → m = b') := by
  obtain ⟨hroom, rfl, -⟩ := distributeAll_eq_ok.1 h
  have hdue : ((b.due c).map Scalar.key).Nodup := Key.nodup_of_sorted (b.keys_due_sorted c)
  have hturn : ∀ token ∈ order, c.minimum ≤ b.pendingFor token ∧ b.HasRoom token := by
    intro token ht
    have hk := mem_keys_due.1 (horder.subset (List.mem_map_of_mem ht))
    exact ⟨hk.2, forall_due_iff.1 hroom token.key hk⟩
  refine ⟨_, distribute_inTurn (horder.nodup_iff.2 hdue) hturn, fun k => ?_, fun hperm => ?_⟩
  · simp [get?_pending_distributingAll, get?_distributed_distributingAll, horder.mem_iff]
  · exact distributingAll_perm hperm hdue

theorem distributeAll_again (h : b.distributeAll c = .ok (b', ds)) :
    b'.distributeAll c = .ok (b', []) := by
  obtain ⟨-, rfl, -⟩ := distributeAll_eq_ok.1 h
  refine distributeAll_eq_ok.2 ?_
  rw [due_distributingAll]
  exact ⟨List.forall_mem_nil _, rfl, rfl⟩

/-- All tokens of which fees are pending, and enough of them, are distributed together just if what was
distributed of each has room for what is pending of it. Then each has one result, in the order of the
tokens, for all that was pending of it and split as that is; its fees are moved over and the entries of
all other tokens stay. Distributing the same tokens one by one in any order leads to the same entries,
and to the same book if the tokens are spelled alike; and a second batch finds nothing to distribute. -/
theorem distributeAll_is_batch (b : Book) (c : Shares) :
    let isDue (k : Key) := 0 < b.pendingFor k ∧ c.minimum ≤ b.pendingFor k
    ((∃ b' ds, b.distributeAll c = .ok (b', ds)) ↔
      ∀ k, isDue k → b.distributedFor k + b.pendingFor k ≤ maxAmount) ∧
    ∀ b' ds, b.distributeAll c = .ok (b', ds) →
      (ds.map (·.token.key)).Pairwise Key.Before ∧
      (∀ k, k ∈ ds.map (·.token.key) ↔ isDue k) ∧
      (∀ d ∈ ds, d.amount = b.pendingFor d.token ∧ c.split d.amount = .ok d.split) ∧
      (∀ k, isDue k → b'.pending.get? k = some 0 ∧
        b'.distributed.get? k = some (b.distributedFor k + b.pendingFor k)) ∧
      (∀ k, ¬isDue k → b'.pending.get? k = b.pending.get? k ∧
        b'.distributed.get? k = b.distributed.get? k) ∧
      (∀ order : List Scalar, (order.map Scalar.key).Perm (ds.map (·.token.key)) → ∃ m,
        order.foldlM (fun m token => Prod.fst <$> m.distribute token c) b = .ok m ∧
          (∀ k, m.pending.get? k = b'.pending.get? k ∧
            m.distributed.get? k = b'.distributed.get? k) ∧
          (order.Perm (ds.map (·.token)) → m = b')) ∧
      b'.distributeAll c = .ok (b', []) := by
  intro isDue
  have hrooms : (∀ token ∈ b.due c, b.HasRoom token) ↔
      ∀ k, isDue k → b.distributedFor k + b.pendingFor k ≤ maxAmount := forall_due_iff
  constructor
  · rw [← hrooms]
    constructor
    · rintro ⟨b', ds, h⟩
      exact (distributeAll_eq_ok.1 h).1
    · intro h
      exact ⟨_, _, distributeAll_eq_ok.2 ⟨h, rfl, rfl⟩⟩
  rintro b' ds h
  obtain ⟨hroom, rfl, rfl⟩ := distributeAll_eq_ok.1 h
  rw [map_key_result, map_token_result]
  refine ⟨b.keys_due_sorted c, fun k => mem_keys_due, ?_, ?_, ?_,
    fun order => distributeAll_inTurn h, distributeAll_again h⟩
  · intro d hd
    obtain ⟨token, ht, rfl⟩ := List.mem_map.1 hd
    exact ⟨rfl, Shares.split_eq_ok.2 ⟨Nat.le_of_add_left_le (hroom token ht), rfl⟩⟩
  · intro k hk
    rw [get?_pending_distributingAll, get?_distributed_distributingAll,
      if_pos (mem_keys_due.2 hk), if_pos (mem_keys_due.2 hk)]
    exact ⟨rfl, rfl⟩
  · intro k hk
    rw [get?_pending_distributingAll, get?_distributed_distributingAll,
      if_neg (mt mem_keys_due.1 hk), if_neg (mt mem_keys_due.1 hk)]
    exact ⟨rfl, rfl⟩

theorem distributeAll_is_batch_three :
    let b : Book := ⟨.ofList [("AQUA", 10000000), ("USDC", 1), ("XLM", 20000001)],
      .ofList [("XLM", 7)]⟩
    let b' : Book := ⟨.ofList [("AQUA", 0), ("USDC", 1), ("XLM", 0)],
      .ofList [("AQUA", 10000000), ("XLM", 20000008)]⟩
    let ds : List Distribution := [⟨"AQUA", 10000000, 5000000, 3000000, 2000000⟩,
      ⟨"XLM", 20000001, 10000001, 6000000, 4000000⟩]
    let order : List Scalar := ["XLM", "AQUA"]
    b.distributeAll {} = .ok (b', ds) ∧ order.Perm (ds.map (·.token)) ∧
      order.foldlM (fun m token => Prod.fst <$> m.distribute token {}) b = .ok b' ∧
      b'.distributeAll {} = .ok (b', []) := by
  intro b b' ds order
  have hok : b.distributeAll {} = .ok (b', ds) := by decide +kernel
  have horder : order.Perm (ds.map (·.token)) := .swap ..
  obtain ⟨-, -, -, -, -, hturn, hagain⟩ := (distributeAll_is_batch b {}).2 b' ds hok
  obtain ⟨m, hm, -, hsame⟩ := hturn order (horder.map Scalar.key)
  obtain rfl := hsame horder
  exact ⟨hok, horder, hm, hagain⟩

end Fees.Book

end PoolAccounting
