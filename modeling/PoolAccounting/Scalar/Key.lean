import PoolAccounting.Scalar.Basic

/-!
Scalars as names. A key is what a name stands for: numbers of one value are one key, and truth
values count as one and zero. Keys are in order: null, then the numbers by size, then the days and
the times from early to late, then the texts by their code points.
-/
namespace PoolAccounting

inductive Key
  | null
  /-- A finite number, in multiples of the least positive floating-point number. -/
  | number (steps : Int)
  | infinite (negative : Bool)
  | nan
  | day (number : Int)
  /-- A time on a date in no time zone, in microseconds from the beginning of the calendar. -/
  | wallTime (number : Int)
  /-- A point in time, in microseconds from the beginning of the calendar without offset. -/
  | instant (number : Int)
  | text (s : String)
  deriving DecidableEq, Repr

namespace Key

def ofInt (n : Int) : Key := number (n * (1 <<< 1074 : Nat))

def codes (s : String) : List Int := s.toList.map fun c => (c.toNat : Int)

/-- Keys as lists of numbers, which are compared from the front. -/
def code : Key → List Int
  | null => [0]
  | infinite true => [1]
  | number n => [2, n]
  | infinite false => [3]
  | nan => [4]
  | day n => [5, n]
  | wallTime n => [6, n]
  | instant n => [7, n]
  | text s => 8 :: codes s

/-- Whether a list comes before another one: the first difference decides, and a list comes before
every longer one that it begins. -/
def lexBefore : List Int → List Int → Bool
  | _, [] => false
  | [], _ :: _ => true
  | a :: as, b :: bs => if a = b then lexBefore as bs else a < b

/-- The keys that compare by size: numbers with numbers, days with days, and so on. -/
inductive Family
  | null
  | number
  | day
  | wallTime
  | instant
  | text
  deriving DecidableEq, Repr

def family : Key → Family
  | null => .null
  | number _ | infinite _ | nan => .number
  | day _ => .day
  | wallTime _ => .wallTime
  | instant _ => .instant
  | text _ => .text

/-- The order of names. Within a family it is that of the values; that the families come one after
the other is a choice of this library, since names of different families have no order among
themselves. -/
def Before (j k : Key) : Prop := lexBefore j.code k.code = true

instance (j k : Key) : Decidable (Before j k) := by unfold Before; infer_instance

theorem codes_injective {s t : String} (h : codes s = codes t) : s = t := by
  refine String.toList_inj.1 ((List.map_inj_right fun a b hab => ?_).1 h)
  exact Char.ext (UInt32.toNat_inj.1 (Int.ofNat.inj hab))

theorem code_injective {j k : Key} (h : j.code = k.code) : j = k := by
  cases j with
  | infinite b => cases b <;> cases k with
    | infinite c => cases c <;> simp_all [code]
    | _ => simp_all [code]
  | _ => cases k with
    | infinite c => cases c <;> simp_all [code]
    | _ => simp_all [code] <;> exact codes_injective h

theorem lexBefore_irrefl (as : List Int) : lexBefore as as = false := by
  induction as with
  | nil => rfl
  | cons a as ih => simpa [lexBefore] using ih

theorem lexBefore_trans {as bs cs : List Int} (h : lexBefore as bs = true)
    (h' : lexBefore bs cs = true) : lexBefore as cs = true := by
  induction as generalizing bs cs with
  | nil =>
    cases bs with
    | nil => simp [lexBefore] at h
    | cons b bs => cases cs <;> simp_all [lexBefore]
  | cons a as ih =>
    cases bs with
    | nil => simp [lexBefore] at h
    | cons b bs =>
      cases cs with
      | nil => simp [lexBefore] at h'
      | cons c cs =>
        simp only [lexBefore] at h h' ⊢
        split at h <;> split at h' <;> split <;> simp_all <;> first | omega | exact ih h h'

theorem lexBefore_total {as bs : List Int} (h : as ≠ bs) (h' : lexBefore as bs = false) :
    lexBefore bs as = true := by
  induction as generalizing bs with
  | nil => cases bs <;> simp_all [lexBefore]
  | cons a as ih =>
    cases bs with
    | nil => rfl
    | cons b bs =>
      simp only [lexBefore] at h' ⊢
      split at h'
      · subst_vars
        rw [if_pos rfl]
        exact ih (fun e => h (e ▸ rfl)) h'
      · rename_i hne
        rw [if_neg (Ne.symm hne)]
        simp at h' ⊢
        omega

theorem Before.irrefl (k : Key) : ¬Before k k := by simp [Before, lexBefore_irrefl]

theorem Before.trans {j k l : Key} : Before j k → Before k l → Before j l := lexBefore_trans

theorem Before.asymm {j k : Key} (h : Before j k) : ¬Before k j :=
  fun h' => Before.irrefl j (h.trans h')

theorem before_of_not {j k : Key} (hne : j ≠ k) (h : ¬Before j k) : Before k j :=
  lexBefore_total (fun e => hne (code_injective e)) (by simpa [Before] using h)

end Key

namespace Scalar

def key : Scalar → Key
  | null => .null
  | bool b => .ofInt (if b then 1 else 0)
  | int n => .ofInt n
  | float .nan => .nan
  | float (.infinite negative) => .infinite negative
  | float (.finite negative b) => .number (b.signedSteps negative)
  | date d => .day d.number
  | moment m => if m.offset.isSome then .instant m.number else .wallTime m.number
  | text s => .text s

instance : Coe Scalar Key := ⟨key⟩

@[simp] theorem key_text (s : String) : (text s).key = .text s := rfl

/-- The value under a key in a list of named values; of several the first. -/
def lookup {α : Type} (k : Key) : List (Scalar × α) → Option α
  | [] => none
  | (name, v) :: rest => if name.key = k then some v else lookup k rest

/-- Sets the value under a name, in its old place and spelling if its key has one. -/
def put {α : Type} (name : Scalar) (v : α) : List (Scalar × α) → List (Scalar × α)
  | [] => [(name, v)]
  | (n, w) :: rest =>
    if n.key = name.key then (n, v) :: rest else (n, w) :: put name v rest

end Scalar

end PoolAccounting
