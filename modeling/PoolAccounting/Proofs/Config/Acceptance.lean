import Mathlib
import PoolAccounting.Proofs.Config.Sections

/-!
Which values are configurations. A value describes settings if it is a mapping of known sections and
each section one of integers under known names, and a value is accepted just if the settings that it
describes are within their bounds. Main statement: the settings of the configuration that is returned
are the ones described, in whatever order they are given, and every configuration can be given back.
-/
namespace PoolAccounting

open Fees Staking
open Scalar (lookup key_text)

namespace Fees.Shares

variable {treasury staking burn minimum : Operand} {d : Shares}

theorem fields_of_ofOperands (h : ofOperands treasury staking burn minimum = .ok d) :
    treasury = d.treasury ∧ staking = d.staking ∧ burn = d.burn ∧ minimum = d.minimum := by
  unfold ofOperands at h
  split at h
  · cases h
  · next parts hparts =>
    split at h
    · cases h
    · next least hleast =>
      obtain rfl := Except.ok.inj h
      obtain ⟨hgiven, -, -⟩ := BasisPoints.split_eq_ok.1 hparts
      match parts, hgiven with
      | [x, y, z], hgiven =>
        simp only [List.map_cons, List.map_nil, List.cons.injEq, and_true] at hgiven
        obtain ⟨rfl, rfl, rfl⟩ := hgiven
        exact ⟨rfl, rfl, rfl, (Operand.nonNegative_eq_ok.1 hleast).1⟩

theorem ofOperands_fields (d : Shares) :
    ofOperands d.treasury d.staking d.burn d.minimum = .ok d := by
  have hsum := d.sum_eq
  have hparts : BasisPoints.split [d.treasury, d.staking, d.burn] =
      .ok [d.treasury, d.staking, d.burn] := by
    refine BasisPoints.split_eq_ok.2 ⟨rfl, ?_, ?_⟩
    · simp only [List.forall_mem_cons]
      exact ⟨by omega, by omega, by omega, List.forall_mem_nil _⟩
    · simp only [BasisPoints.total]
      omega
  have hminimum : (d.minimum : Operand).nonNegative "min_distribution" = .ok d.minimum :=
    Operand.nonNegative_eq_ok.2 ⟨rfl, d.minimum_le⟩
  unfold ofOperands
  split
  · next h =>
    rw [hparts] at h
    cases h
  · next parts h =>
    rw [hparts] at h
    obtain rfl := Except.ok.inj h
    split
    · next h =>
      rw [hminimum] at h
      cases h
    · next least h =>
      rw [hminimum] at h
      obtain rfl := Except.ok.inj h
      rfl

theorem ofOperands_eq_ok : ofOperands treasury staking burn minimum = .ok d ↔
    treasury = d.treasury ∧ staking = d.staking ∧ burn = d.burn ∧ minimum = d.minimum := by
  refine ⟨fields_of_ofOperands, ?_⟩
  rintro ⟨rfl, rfl, rfl, rfl⟩
  exact ofOperands_fields d

end Fees.Shares

theorem Staking.StakeLimits.ofOperands_eq_ok {minimum cap : Operand} {d : StakeLimits} :
    ofOperands minimum cap = .ok d ↔ minimum = d.minimum ∧ cap = d.cap := by
  simp only [ofOperands, bind_eq_ok, Operand.field_eq_ok]
  constructor
  · rintro ⟨cap, rfl, least, hleast, h⟩
    split at h
    · next hpos =>
      obtain rfl := Except.ok.inj h
      refine ⟨?_, rfl⟩
      cases minimum with
      | nonInt => cases hleast
      | int n =>
        obtain rfl : n = least := Except.ok.inj hleast
        rw [Int.toNat_of_nonneg hpos.le]
    · cases h
  · rintro ⟨rfl, rfl⟩
    have hpos : 0 < (d.minimum : ℤ) := by exact_mod_cast d.minimum_pos
    refine ⟨d.cap, rfl, d.minimum, rfl, ?_⟩
    rw [dif_pos hpos]
    rfl

namespace Config

theorem accepted_eq_ok {α : Type} {x : Except Fault α} {a : α} :
    accepted x = .ok a ↔ x = .ok a := by
  cases x <;> simp [accepted]

/-- The numbers of a configuration before they are checked, each with its default. -/
structure Settings where
  treasury : ℤ := 5000
  staking : ℤ := 3000
  burn : ℤ := 2000
  minimum : ℤ := 10000000
  least : ℤ := 1
  cap : ℤ := 0

/-- The bounds on the numbers of a configuration. -/
structure Settings.Valid (s : Settings) : Prop where
  treasury : 0 ≤ s.treasury ∧ s.treasury ≤ 10000
  staking : 0 ≤ s.staking ∧ s.staking ≤ 10000
  burn : 0 ≤ s.burn ∧ s.burn ≤ 10000
  sum : s.treasury + s.staking + s.burn = 10000
  minimum : 0 ≤ s.minimum ∧ s.minimum ≤ maxAmount
  least : 1 ≤ s.least
  cap : 0 ≤ s.cap

/-- What the entries of the two sections give, completed by the defaults. -/
def completed (shares limits : List (Scalar × Value)) : Settings :=
  let default : Settings := {}
  { treasury := fieldIn shares "treasury_bps" default.treasury
    staking := fieldIn shares "staking_bps" default.staking
    burn := fieldIn shares "burn_bps" default.burn
    minimum := fieldIn shares "min_distribution" default.minimum
    least := fieldIn limits "min_stake_amount" default.least
    cap := fieldIn limits "max_stake_per_user" default.cap }

/-- Settings as a value gives them. The value, and what it has under the name of a section, is null or
a mapping; it names no other section, and its sections are of integers under names of fields. -/
def Describes (v : Value) (s : Settings) : Prop :=
  ∃ es shares limits, entries? (some v) = some es ∧
    (∀ e ∈ es, ∃ name ∈ ["distribution", "staking"], e.1 = .text name) ∧
    entries? (lookup (.text "distribution") es) = some shares ∧ IsSection shareFields shares ∧
    entries? (lookup (.text "staking") es) = some limits ∧ IsSection limitFields limits ∧
    s = completed shares limits

def settings (c : Config) : Settings where
  treasury := c.distribution.treasury
  staking := c.distribution.staking
  burn := c.distribution.burn
  minimum := c.distribution.minimum
  least := c.staking.minimum
  cap := c.staking.cap

/-- A configuration with all its fields written out. -/
def toValue (c : Config) : Value :=
  .map [("distribution", .map [("treasury_bps", .int c.distribution.treasury),
      ("staking_bps", .int c.distribution.staking), ("burn_bps", .int c.distribution.burn),
      ("min_distribution", .int c.distribution.minimum)]),
    ("staking", .map [("min_stake_amount", .int c.staking.minimum),
      ("max_stake_per_user", .int c.staking.cap)])]

variable {v w : Value} {c : Config} {s s' : Settings} {es fs : List (Scalar × Value)}

theorem settings_valid (c : Config) : c.settings.Valid := by
  have hsum : c.distribution.treasury + c.distribution.staking + c.distribution.burn = 10000 :=
    c.distribution.sum_eq
  have hminimum := c.distribution.minimum_le
  have hleast := c.staking.minimum_pos
  constructor <;> simp only [settings] <;> omega

theorem exists_settings (h : s.Valid) : ∃ c : Config, c.settings = s := by
  obtain ⟨htreasury, hstaking, hburn, hsum, hminimum, hleast, hcap⟩ := h
  refine ⟨⟨⟨s.treasury.toNat, s.staking.toNat, s.burn.toNat, s.minimum.toNat, ?_, ?_⟩,
    ⟨s.least.toNat, s.cap.toNat, ?_⟩⟩, ?_⟩
  · simp only [bpsDenominator]
    omega
  · omega
  · omega
  · simp only [settings]
    congr <;> omega

theorem Describes.unique (h : Describes v s) (h' : Describes v s') : s = s' := by
  obtain ⟨es, shares, limits, hes, -, hshares, -, hlimits, -, rfl⟩ := h
  obtain ⟨fs, shares', limits', hfs, -, hshares', -, hlimits', -, rfl⟩ := h'
  obtain rfl := Option.some.inj (hes.symm.trans hfs)
  obtain rfl := Option.some.inj (hshares.symm.trans hshares')
  obtain rfl := Option.some.inj (hlimits.symm.trans hlimits')
  rfl

theorem sharesOf_eq_ok {given : Option Value} {d : Shares} : sharesOf given = .ok d ↔
    ∃ shares, entries? given = some shares ∧ IsSection shareFields shares ∧
      fieldIn shares "treasury_bps" 5000 = d.treasury ∧
      fieldIn shares "staking_bps" 3000 = d.staking ∧ fieldIn shares "burn_bps" 2000 = d.burn ∧
      fieldIn shares "min_distribution" 10000000 = d.minimum := by
  simp only [sharesOf, bind_eq_ok, accepted_eq_ok]
  refine (exists_sectionFields (P := fun value => Shares.ofOperands (value "treasury_bps" 5000)
    (value "staking_bps" 3000) (value "burn_bps" 2000)
    (value "min_distribution" 10000000) = .ok d)).trans ?_
  simp only [Shares.ofOperands_eq_ok, Operand.int.injEq]
  rfl

theorem limitsOf_eq_ok {given : Option Value} {d : StakeLimits} : limitsOf given = .ok d ↔
    ∃ limits, entries? given = some limits ∧ IsSection limitFields limits ∧
      fieldIn limits "min_stake_amount" 1 = d.minimum ∧
      fieldIn limits "max_stake_per_user" 0 = d.cap := by
  simp only [limitsOf, bind_eq_ok, accepted_eq_ok]
  refine (exists_sectionFields (P := fun value => StakeLimits.ofOperands
    (value "min_stake_amount" 1) (value "max_stake_per_user" 0) = .ok d)).trans ?_
  simp only [StakeLimits.ofOperands_eq_ok, Operand.int.injEq]
  rfl

theorem ofValue_map_eq_ok : ofValue (.map es) = .ok c ↔
    (∀ e ∈ es, ∃ name ∈ ["distribution", "staking"], e.1 = .text name) ∧
      sharesOf (lookup (.text "distribution") es) = .ok c.distribution ∧
      limitsOf (lookup (.text "staking") es) = .ok c.staking := by
  rw [← unknownAmong_eq_nil_iff, ofValue]
  split
  · next h =>
    simp only [h, true_and, bind_eq_ok, pure, Except.pure, Except.ok.injEq]
    constructor
    · rintro ⟨shares, hshares, limits, hlimits, rfl⟩
      exact ⟨hshares, hlimits⟩
    · rintro ⟨hshares, hlimits⟩
      exact ⟨_, hshares, _, hlimits, rfl⟩
  · next h => exact iff_of_false nofun fun h' => h h'.1

/-- Null is read as the mapping of no sections, and what is no mapping is not read. -/
theorem ofValue_eq_match : ofValue v =
    match entries? (some v) with
    | some es => ofValue (.map es)
    | none => .error .notMapping := by
  match v with
  | .scalar s => cases s <;> rfl
  | .list items => rfl
  | .map entries => rfl

/-- A configuration is returned just if its settings are described. -/
theorem ofValue_eq_ok : ofValue v = .ok c ↔ Describes v c.settings := by
  rw [ofValue_eq_match, Describes]
  cases hes : entries? (some v) with
  | none => simp
  | some es =>
    simp only [ofValue_map_eq_ok, sharesOf_eq_ok, limitsOf_eq_ok, settings, completed,
      Settings.mk.injEq, Option.some.injEq]
    constructor
    · rintro ⟨hnames, ⟨shares, hshares, hshape, h⟩, limits, hlimits, hshape', h'⟩
      exact ⟨es, shares, limits, rfl, hnames, hshares, hshape, hlimits, hshape', by simp [h, h']⟩
    · rintro ⟨fs, shares, limits, rfl, hnames, hshares, hshape, hlimits, hshape', h⟩
      obtain ⟨htreasury, hstaking, hburn, hminimum, hleast, hcap⟩ := h
      exact ⟨hnames, ⟨shares, hshares, hshape, htreasury.symm, hstaking.symm, hburn.symm,
        hminimum.symm⟩, limits, hlimits, hshape', hleast.symm, hcap.symm⟩

theorem Describes.of_reordered (h : Describes v s) (hd : v.Distinct) (hr : v.Reordered w) :
    Describes w s := by
  obtain ⟨es, shares, limits, hes, hnames, hshares, hshape, hlimits, hshape', rfl⟩ := h
  obtain ⟨fs, hfs, hr⟩ := entries?_of_reordered hr hes
  have hd := distinct_of_entries? hd hes
  obtain ⟨shares', hshares', hr₁, hd₁⟩ := entries?_lookup_of_reordered hd hr hshares
  obtain ⟨limits', hlimits', hr₂, hd₂⟩ := entries?_lookup_of_reordered hd hr hlimits
  obtain ⟨hshape₁, hlookup₁⟩ := hshape.of_reordered hd₁ hr₁
  obtain ⟨hshape₂, hlookup₂⟩ := hshape'.of_reordered hd₂ hr₂
  refine ⟨fs, shares', limits', hfs, fun e he => ?_, hshares', hshape₁, hlimits', hshape₂, ?_⟩
  · obtain ⟨e', he', hname⟩ := List.mem_map.1 (hr.names.symm.subset (List.mem_map_of_mem he))
    exact hname ▸ hnames e' he'
  · simp only [completed, fieldIn, hlookup₁, hlookup₂]

theorem toValue_distinct (c : Config) : c.toValue.Distinct := by
  have hfields : ∀ es : List (Scalar × ℤ), (es.map (·.1.key)).Nodup →
      (Value.map (es.map fun e => (e.1, .int e.2))).Distinct := by
    intro es hes
    refine .map (by rwa [List.map_map]) (List.forall_mem_map.2 fun e _ => .scalar _)
  refine .map (by simp) ?_
  rw [List.forall_mem_cons, List.forall_mem_singleton]
  exact ⟨hfields [("treasury_bps", _), ("staking_bps", _), ("burn_bps", _),
    ("min_distribution", _)] (by simp), hfields [("min_stake_amount", _),
    ("max_stake_per_user", _)] (by simp)⟩

theorem describes_toValue (c : Config) : Describes c.toValue c.settings := by
  refine ⟨_, _, _, rfl, ?_, rfl, ?_, rfl, ?_, rfl⟩
  · simp
  · simp [IsSection, shareFields]
  · simp [IsSection, limitFields]

/-- A value is accepted just if it describes settings that are within their bounds, and those are the
settings of the configuration that is returned. The order of the sections and of the fields does not
count. The full mapping of a configuration, in any order, is read as that configuration. -/
theorem accepts_valid (v : Value) :
    ((∃ c, ofValue v = .ok c) ↔ ∃ s, Describes v s ∧ s.Valid) ∧
    (∀ c, ofValue v = .ok c → Describes v c.settings ∧ ∀ s, Describes v s → s = c.settings) ∧
    (∀ c w, v.Distinct → v.Reordered w → ofValue v = .ok c → ofValue w = .ok c) ∧
    ∀ (c : Config) (w : Value), c.toValue.Reordered w → ofValue w = .ok c := by
  simp only [ofValue_eq_ok]
  refine ⟨⟨?_, ?_⟩, ?_, ?_, ?_⟩
  · rintro ⟨c, hc⟩
    exact ⟨c.settings, hc, c.settings_valid⟩
  · rintro ⟨s, hs, hvalid⟩
    obtain ⟨c, rfl⟩ := exists_settings hvalid
    exact ⟨c, hs⟩
  · exact fun c hc => ⟨hc, fun s hs => hs.unique hc⟩
  · exact fun c w hd hr hc => hc.of_reordered hd hr
  · exact fun c w hr => c.describes_toValue.of_reordered c.toValue_distinct hr

theorem accepts_valid_partial :
    let shares : List (Scalar × Value) := [("burn_bps", .int 1000), ("staking_bps", .int 4000)]
    let shares' : List (Scalar × Value) := [("staking_bps", .int 4000), ("burn_bps", .int 1000)]
    let v : Value := .map [("staking", .null), ("distribution", .map shares)]
    let w : Value := .map [("distribution", .map shares'), ("staking", .null)]
    let c : Config := { distribution := { staking := 4000, burn := 1000 } }
    v.Distinct ∧ v.Reordered w ∧ ofValue v = .ok c ∧ ofValue w = .ok c ∧
      Describes v { staking := 4000, burn := 1000 } ∧ (∃ s, Describes v s ∧ s.Valid) ∧
      ofValue c.toValue = .ok c := by
  intro shares shares' v w c
  have hshares : (shares.map (·.1.key)).Nodup := by simp [shares]
  have hd : v.Distinct := by
    refine .map (by simp) ?_
    simp only [List.forall_mem_cons, List.not_mem_nil, false_imp_iff, implies_true, and_true]
    exact ⟨.scalar _, .map hshares (by simp [shares, Value.Distinct.scalar])⟩
  have hr : v.Reordered w := by
    refine .map (.swap ..) fun k x y hx hy => ?_
    by_cases hk : k = .text "distribution"
    · obtain rfl : .map shares = x := by simpa [hk, lookup] using hx
      obtain rfl : .map shares' = y := by simpa [hk, lookup] using hy
      exact .of_perm hshares (.swap ..)
    · simp only [lookup, key_text, Ne.symm hk, if_false] at hx hy
      rw [← Option.some.inj (hx.symm.trans hy)]
      exact .refl _
  have hok : ofValue v = .ok c := by rfl
  obtain ⟨hiff, hsettings, horder, hfull⟩ := accepts_valid v
  exact ⟨hd, hr, hok, horder c w hd hr hok, (hsettings c hok).1, hiff.1 ⟨c, hok⟩,
    hfull c _ (.refl _)⟩

end Config

end PoolAccounting
