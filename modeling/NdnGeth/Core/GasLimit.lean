/-
The gas limit that a miner proposes (`CalcGasLimit` of
`core/block_validator.go`) against the rules for it (`verifyHeader` of
`consensus/ethash/consensus.go`).

`calcGasLimit_toNat`: no operation wraps around. `calcGasLimit_valid_iff`: the
proposals that are refused are those above the cap, those that a ceiling below
the minimum pulls down with it, and those after a full block at a limit below
5120, where the contribution is a whole step too large.
-/
import Mathlib.Algebra.Ring.Nat

namespace NdnGeth.Core

def gasLimitBoundDivisor : BitVec 64 := 1024

def minGasLimit : BitVec 64 := 5000

def calcGasLimit (parentGasUsed parentGasLimit gasFloor gasCeil : BitVec 64) : BitVec 64 :=
  let contrib := (parentGasUsed + parentGasUsed / 2) / gasLimitBoundDivisor
  let decay := parentGasLimit / gasLimitBoundDivisor - 1
  let limit := parentGasLimit - decay + contrib
  let limit := if limit < minGasLimit then minGasLimit else limit
  if limit < gasFloor then
    let limit := parentGasLimit + decay
    if limit > gasFloor then gasFloor else limit
  else if limit > gasCeil then
    let limit := parentGasLimit - decay
    if limit < gasCeil then gasCeil else limit
  else limit

inductive GasLimitError
  /-- "invalid gasLimit": above 2^63 - 1. -/
  | cap
  /-- "invalid gas limit": too far from that of the parent, or below the minimum. -/
  | bounds
  deriving DecidableEq

/-- The rules of `verifyHeader` for the gas limit of a header. The difference is
an `int64`. -/
def verifyGasLimit (parentGasLimit gasLimit : BitVec 64) : Option GasLimitError :=
  let cap : BitVec 64 := 0x7fffffffffffffff
  if gasLimit > cap then some .cap
  else
    let diff := parentGasLimit - gasLimit
    let diff := if diff.slt 0 then -diff else diff
    let limit := parentGasLimit / gasLimitBoundDivisor
    if diff ≥ limit || gasLimit < minGasLimit then some .bounds else none

/-! ## In numbers -/

/-- The proposal before floor and ceiling. -/
def baseline (used limit : Nat) : Nat := max (limit - (limit / 1024 - 1) + (used + used / 2) / 1024) 5000

def proposal (used limit floor ceil : Nat) : Nat :=
  if baseline used limit < floor then min (limit + (limit / 1024 - 1)) floor
  else if baseline used limit > ceil then max (limit - (limit / 1024 - 1)) ceil
  else baseline used limit

/-- What the rules ask for. -/
def Allowed (parent limit : Nat) : Prop :=
  limit < 2 ^ 63 ∧ 5000 ≤ limit ∧ limit < parent + parent / 1024 ∧ parent < limit + parent / 1024

variable {used limit floor ceil : BitVec 64}

theorem calcGasLimit_toNat (hmin : 5000 ≤ limit.toNat) (hcap : limit.toNat < 2 ^ 63) (hused : used.toNat ≤ limit.toNat) :
    (calcGasLimit used limit floor ceil).toNat = proposal used.toNat limit.toNat floor.toNat ceil.toNat := by
  have hdiv (x : BitVec 64) : (x / gasLimitBoundDivisor).toNat = x.toNat / 1024 := BitVec.toNat_udiv
  have hcontrib : ((used + used / 2) / gasLimitBoundDivisor).toNat = (used.toNat + used.toNat / 2) / 1024 := by
    have hhalf : (used / 2).toNat = used.toNat / 2 := BitVec.toNat_udiv
    rw [hdiv, BitVec.toNat_add, hhalf, Nat.mod_eq_of_lt (by omega)]
  have hdecay : (limit / gasLimitBoundDivisor - 1).toNat = limit.toNat / 1024 - 1 := by
    rw [BitVec.toNat_sub_of_le (by rw [BitVec.le_def, hdiv]; simp; omega), hdiv]
    rfl
  have hdown : (limit - (limit / gasLimitBoundDivisor - 1)).toNat = limit.toNat - (limit.toNat / 1024 - 1) := by
    rw [BitVec.toNat_sub_of_le (by rw [BitVec.le_def, hdecay]; omega), hdecay]
  have hup : (limit + (limit / gasLimitBoundDivisor - 1)).toNat = limit.toNat + (limit.toNat / 1024 - 1) := by
    rw [BitVec.toNat_add, hdecay, Nat.mod_eq_of_lt (by omega)]
  have hbase : (limit - (limit / gasLimitBoundDivisor - 1) + (used + used / 2) / gasLimitBoundDivisor).toNat =
      limit.toNat - (limit.toNat / 1024 - 1) + (used.toNat + used.toNat / 2) / 1024 := by
    rw [BitVec.toNat_add, hdown, hcontrib, Nat.mod_eq_of_lt (by omega)]
  obtain ⟨base, hlimit, hbaseline⟩ : ∃ base, base =
      (if limit - (limit / gasLimitBoundDivisor - 1) + (used + used / 2) / gasLimitBoundDivisor < minGasLimit then minGasLimit
        else limit - (limit / gasLimitBoundDivisor - 1) + (used + used / 2) / gasLimitBoundDivisor) ∧
      base.toNat = baseline used.toNat limit.toNat := by
    have hminimum : minGasLimit.toNat = 5000 := rfl
    refine ⟨_, rfl, ?_⟩
    simp only [BitVec.lt_def, apply_ite BitVec.toNat, hbase, hminimum, baseline]
    split <;> omega
  simp only [calcGasLimit, proposal, ← hlimit]
  simp only [BitVec.lt_def, gt_iff_lt, apply_ite BitVec.toNat, hup, hdown, hbaseline]
  split
  · split <;> omega
  · split
    · split <;> omega
    · rfl

theorem distance_toNat {x y : BitVec 64} (hx : x.toNat < 2 ^ 63) (hy : y.toNat < 2 ^ 63) :
    (if (x - y).slt 0 then -(x - y) else x - y).toNat = x.toNat - y.toNat + (y.toNat - x.toNat) := by
  have hneg : (x - y).slt 0 = decide (x.toNat < y.toNat) := by
    rw [show (0 : BitVec 64) = 0#64 from rfl, BitVec.slt_zero_eq_msb, BitVec.msb_eq_decide, BitVec.toNat_sub]
    congr 1
    simp only [eq_iff_iff]
    omega
  rw [hneg]
  by_cases hlt : x.toNat < y.toNat
  · rw [if_pos (decide_eq_true hlt), BitVec.neg_sub, BitVec.toNat_add, BitVec.toNat_neg]
    omega
  · rw [if_neg (by simpa using hlt), BitVec.toNat_sub]
    omega

theorem verifyGasLimit_eq_none {parent : BitVec 64} (hcap : parent.toNat < 2 ^ 63) :
    verifyGasLimit parent limit = none ↔ Allowed parent.toNat limit.toNat := by
  have hdiv : (parent / gasLimitBoundDivisor).toNat = parent.toNat / 1024 := BitVec.toNat_udiv
  have hminimum : minGasLimit.toNat = 5000 := rfl
  have hmax : (0x7fffffffffffffff : BitVec 64).toNat = 2 ^ 63 - 1 := rfl
  unfold verifyGasLimit Allowed
  simp only [gt_iff_lt, BitVec.lt_def, hmax]
  split
  · simp only [reduceCtorEq, false_iff]
    omega
  · rename_i hle
    have hdiff := distance_toNat (y := limit) hcap (by omega)
    simp only [ge_iff_le, BitVec.le_def, hdiff, hdiv, hminimum]
    split
    · rename_i h
      simp at h
      simp only [reduceCtorEq, false_iff]
      omega
    · rename_i h
      simp at h
      simp only [true_iff]
      omega

/-! ## The proposals -/

/-- A full block at a limit below 5120 asks for four more, of which three are
allowed. -/
def Overshoots (used limit floor ceil : Nat) : Prop :=
  limit < 5120 ∧ 4779 ≤ used ∧ floor ≤ limit + 4 ∧ limit + 4 ≤ ceil

/-- A ceiling below the minimum pulls the limit below it. -/
def Undercuts (limit ceil : Nat) : Prop := limit ≤ 5002 ∧ ceil < 5000

/-- The limit is to rise above the cap. -/
def Exceeds (used limit floor ceil : Nat) : Prop :=
  2 ^ 63 ≤ ceil ∧ (2 ^ 63 ≤ baseline used limit ∨ 2 ^ 63 ≤ floor ∧ 2 ^ 63 ≤ limit + (limit / 1024 - 1))

/-- The uncorrected proposal is a step of less than the bound, unless the block was
full and small. -/
theorem baseline_spec {used limit : Nat} (hmin : 5000 ≤ limit) (hused : used ≤ limit) :
    5000 ≤ baseline used limit ∧ limit < baseline used limit + limit / 1024 ∧
      (limit < 5120 ∧ 4779 ≤ used → baseline used limit = limit + 4) ∧
      (¬ (limit < 5120 ∧ 4779 ≤ used) → baseline used limit < limit + limit / 1024) := by
  unfold baseline
  omega

theorem proposal_allowed_iff {used limit floor ceil : Nat} (hmin : 5000 ≤ limit) (hcap : limit < 2 ^ 63)
    (hused : used ≤ limit) (hfc : floor ≤ ceil) :
    Allowed limit (proposal used limit floor ceil) ↔
      ¬ Overshoots used limit floor ceil ∧ ¬ Undercuts limit ceil ∧ ¬ Exceeds used limit floor ceil := by
  obtain ⟨hlow, hdown, hsmall, hup⟩ := baseline_spec hmin hused
  have hstep : 4 ≤ limit / 1024 := by omega
  have hfive : limit < 5120 → limit / 1024 = 4 := by omega
  have hroom : ¬ limit ≤ 5002 → 5000 ≤ limit - (limit / 1024 - 1) := by omega
  have hle : limit / 1024 ≤ limit := Nat.div_le_self _ _
  unfold Allowed proposal Overshoots Undercuts Exceeds
  generalize baseline used limit = b at *
  generalize limit / 1024 = d at *
  by_cases hfull : limit < 5120 ∧ 4779 ≤ used
  · have hb := hsmall hfull
    have hd := hfive hfull.1
    subst hb hd
    split
    · omega
    · split <;> omega
  · have hb := hup hfull
    split
    · omega
    · split <;> omega

/-- A proposed gas limit is refused exactly where it overshoots after a full small
block, undercuts the minimum for a ceiling below it, or exceeds the cap. -/
theorem calcGasLimit_valid_iff (hmin : 5000 ≤ limit.toNat) (hcap : limit.toNat < 2 ^ 63) (hused : used.toNat ≤ limit.toNat)
    (hfc : floor.toNat ≤ ceil.toNat) :
    verifyGasLimit limit (calcGasLimit used limit floor ceil) = none ↔
      ¬ Overshoots used.toNat limit.toNat floor.toNat ceil.toNat ∧ ¬ Undercuts limit.toNat ceil.toNat ∧
        ¬ Exceeds used.toNat limit.toNat floor.toNat ceil.toNat := by
  rw [verifyGasLimit_eq_none hcap, calcGasLimit_toNat hmin hcap hused]
  exact proposal_allowed_iff hmin hcap hused hfc

/-- An empty block at eight million, with the floor and the ceiling of a miner. -/
theorem calcGasLimit_valid_empty :
    verifyGasLimit 8000000 (calcGasLimit 0 8000000 8000000 8000000) = none :=
  (calcGasLimit_valid_iff (by decide) (by decide) (by decide) (by decide)).2
    ⟨fun h => absurd h.1 (by decide), fun h => absurd h.1 (by decide), fun h => absurd h.1 (by decide)⟩

/-- After a full block at the minimum, 5004 is proposed, and at most 5003 allowed;
with a ceiling of zero, 4997. -/
theorem calcGasLimit_refused :
    calcGasLimit 5000 5000 0 8000000 = 5004 ∧ verifyGasLimit 5000 5004 = some .bounds ∧
      calcGasLimit 0 5000 0 0 = 4997 ∧ verifyGasLimit 5000 4997 = some .bounds := by
  decide

/-! ## Chains -/

/-- The limits along a chain whose miners have one floor and one ceiling. -/
def limits (floor ceil : BitVec 64) (used : Nat → BitVec 64) (start : BitVec 64) : Nat → BitVec 64
  | 0 => start
  | k + 1 => calcGasLimit (used k) (limits floor ceil used start k) floor ceil

/-- How far a limit is from floor and ceiling. -/
def off (floor ceil limit : Nat) : Nat := floor - limit + (limit - ceil)

theorem off_proposal {used limit floor ceil : Nat} (hmin : 5000 ≤ limit) (hused : used ≤ limit) (hfloor : 5000 ≤ floor)
    (hfc : floor ≤ ceil) :
    5000 ≤ proposal used limit floor ceil ∧ proposal used limit floor ceil ≤ max limit ceil ∧
      off floor ceil (proposal used limit floor ceil) ≤ off floor ceil limit - 3 := by
  obtain ⟨hlow, -⟩ := baseline_spec hmin hused
  have hstep : 4 ≤ limit / 1024 := by omega
  unfold proposal off
  split
  · omega
  · split <;> omega

/-- **The limit comes to lie between floor and ceiling**, nearer by three or more at
every block, and then stays there, whatever the blocks use. -/
theorem limits_settle {floor ceil start : BitVec 64} (hfloor : 5000 ≤ floor.toNat) (hfc : floor.toNat ≤ ceil.toNat)
    (hceil : ceil.toNat < 2 ^ 63) (hmin : 5000 ≤ start.toNat) (hcap : start.toNat < 2 ^ 63) {used : Nat → BitVec 64}
    (hused : ∀ k, (used k).toNat ≤ (limits floor ceil used start k).toNat) (k : Nat) :
    off floor.toNat ceil.toNat (limits floor ceil used start (k + 1)).toNat ≤
        off floor.toNat ceil.toNat (limits floor ceil used start k).toNat - 3 ∧
      off floor.toNat ceil.toNat (limits floor ceil used start k).toNat ≤ off floor.toNat ceil.toNat start.toNat - 3 * k ∧
      (off floor.toNat ceil.toNat start.toNat ≤ 3 * k →
        floor.toNat ≤ (limits floor ceil used start k).toNat ∧ (limits floor ceil used start k).toNat ≤ ceil.toNat) := by
  have hrun : ∀ k, 5000 ≤ (limits floor ceil used start k).toNat ∧ (limits floor ceil used start k).toNat < 2 ^ 63 ∧
      off floor.toNat ceil.toNat (limits floor ceil used start k).toNat ≤ off floor.toNat ceil.toNat start.toNat - 3 * k := by
    intro k
    induction k with
    | zero => exact ⟨hmin, hcap, Nat.le_refl _⟩
    | succ k ih =>
      obtain ⟨hlow, hhigh, hoff⟩ := ih
      obtain ⟨hlow', hhigh', hoff'⟩ := off_proposal hlow (hused k) hfloor hfc
      rw [limits, calcGasLimit_toNat hlow hhigh (hused k)]
      omega
  obtain ⟨hlow, hhigh, hoff⟩ := hrun k
  refine ⟨?_, hoff, fun hk => ?_⟩
  · rw [limits, calcGasLimit_toNat hlow hhigh (hused k)]
    exact (off_proposal hlow (hused k) hfloor hfc).2.2
  · unfold off at hoff hk
    omega

/-- From ten below a floor that is the ceiling too, with empty blocks. -/
theorem limits_settle_below : (limits 8000000 8000000 (fun _ => 0) 7999990 4).toNat = (8000000 : BitVec 64).toNat := by
  have hin : off _ _ _ ≤ 3 * 4 → (8000000 : BitVec 64).toNat ≤ (limits 8000000 8000000 (fun _ => 0) 7999990 4).toNat ∧
      _ ≤ (8000000 : BitVec 64).toNat :=
    (limits_settle (by decide) (by decide) (by decide) (by decide) (by decide) (fun _ => Nat.zero_le _) 4).2.2
  obtain ⟨hlow, hhigh⟩ := hin (by decide)
  exact Nat.le_antisymm hhigh hlow

end NdnGeth.Core
