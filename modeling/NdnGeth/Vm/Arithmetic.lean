/-
What the arithmetic instructions compute. The source works on unbounded
integers: it reads an operand as signed by its range (`s256`), puts signs
back by hand, and cuts every result to 256 bits (`u256`). The specification
is over words: each result is that of the exact integers, signed or not, as
one word.

An operand that the source writes its result to is popped or is the one left
on the stack, and those it returns to the pool of integers are popped; no two
places of the stack share an integer. So values stand for integers here.

`u256_eq`, `s256_toNat`: how the two readings of a word are those of `BitVec`.
`expLoop_modEq`: square-and-multiply, over the bits that are left.
`arithmetic_exact`: all of the instructions.
-/
import Mathlib.Data.Nat.ModEq
import Mathlib.Data.Nat.Size
import NdnGeth.Vm.Instructions

namespace NdnGeth.Vm

open State (Digests)

abbrev Word := BitVec 256

/-! ## The specification -/

inductive UnaryOp | iszero | not
  deriving DecidableEq, Repr

inductive BinaryOp
  | add | mul | sub | div | sdiv | mod | smod | exp | signExtend
  | lt | gt | slt | sgt | eq | and | or | xor | byte | shl | shr | sar
  deriving DecidableEq, Repr

inductive TernaryOp | addmod | mulmod
  deriving DecidableEq, Repr

/-- A comparison gives one or zero. -/
def Word.ofProp (p : Prop) [Decidable p] : Word := if p then 1 else 0

def UnaryOp.result (x : Word) : UnaryOp → Word
  | iszero => .ofProp (x.toNat = 0)
  | not => ~~~x

/-- Division rounds towards zero, and a remainder has the sign of the
dividend; a shift is a multiplication or a division by a power of two. -/
def BinaryOp.result (x y : Word) : BinaryOp → Word
  | add => .ofInt 256 (x.toNat + y.toNat)
  | mul => .ofInt 256 (x.toNat * y.toNat)
  | sub => .ofInt 256 (x.toNat - y.toNat)
  | div => if y.toNat = 0 then 0 else .ofNat 256 (x.toNat / y.toNat)
  | sdiv =>
    if y.toInt = 0 then 0
    else if x.toInt = -2 ^ 255 ∧ y.toInt = -1 then .ofInt 256 (-2 ^ 255)
    else .ofInt 256 (x.toInt.tdiv y.toInt)
  | mod => if y.toNat = 0 then 0 else .ofNat 256 (x.toNat % y.toNat)
  | smod => if y.toInt = 0 then 0 else .ofInt 256 (x.toInt.tmod y.toInt)
  | exp => .ofNat 256 (x.toNat ^ y.toNat)
  | signExtend => if x.toNat < 31 then (y.setWidth (8 * x.toNat + 8)).signExtend 256 else y
  | lt => .ofProp (x.toNat < y.toNat)
  | gt => .ofProp (x.toNat > y.toNat)
  | slt => .ofProp (x.toInt < y.toInt)
  | sgt => .ofProp (x.toInt > y.toInt)
  | eq => .ofProp (x = y)
  | and => x &&& y
  | or => x ||| y
  | xor => x ^^^ y
  | byte => if x.toNat < 32 then .ofNat 256 (y.toNat / 256 ^ (31 - x.toNat) % 256) else 0
  | shl => .ofNat 256 (y.toNat * 2 ^ x.toNat)
  | shr => .ofNat 256 (y.toNat / 2 ^ x.toNat)
  | sar => .ofInt 256 (y.toInt / 2 ^ x.toNat)

def TernaryOp.result (x y z : Word) : TernaryOp → Word
  | addmod => if z.toNat = 0 then 0 else .ofNat 256 ((x.toNat + y.toNat) % z.toNat)
  | mulmod => if z.toNat = 0 then 0 else .ofNat 256 (x.toNat * y.toNat % z.toNat)

variable {D : Digests}

def UnaryOp.exec : UnaryOp → Instruction D
  | iszero => opIszero
  | not => opNot

def BinaryOp.exec : BinaryOp → Instruction D
  | add => opAdd
  | mul => opMul
  | sub => opSub
  | div => opDiv
  | sdiv => opSdiv
  | mod => opMod
  | smod => opSmod
  | exp => opExp
  | signExtend => opSignExtend
  | lt => opLt
  | gt => opGt
  | slt => opSlt
  | sgt => opSgt
  | eq => opEq
  | and => opAnd
  | or => opOr
  | xor => opXor
  | byte => opByte
  | shl => opSHL
  | shr => opSHR
  | sar => opSAR

def TernaryOp.exec : TernaryOp → Instruction D
  | addmod => opAddmod
  | mulmod => opMulmod

/-! ## The two readings of a word -/

theorem two255_eq : two255 = 2 ^ 255 := by decide +kernel

theorem u256_eq (z : Int) : u256 z = (BitVec.ofInt 256 z).toNat := by
  rw [BitVec.toNat_ofInt, u256, two256_eq]

theorem u256_natCast (n : Nat) : u256 n = (BitVec.ofNat 256 n).toNat := by
  rw [u256_eq, BitVec.ofInt_natCast]

theorem u256_toNat (x : Word) : u256 x.toNat = x.toNat := by
  rw [u256_natCast, BitVec.ofNat_toNat, BitVec.setWidth_eq]

theorem s256_toNat (x : Word) : s256 x.toNat = x.toInt := by
  rw [s256, BitVec.toInt_eq_toNat_cond, two255_eq, two256_eq]
  by_cases h : x.toNat < 2 ^ 255
  · rw [if_pos h, if_pos (by omega)]
  · rw [if_neg h, if_neg (by omega)]

theorem ofProp_toNat (p : Prop) [Decidable p] : (Word.ofProp p).toNat = if p then 1 else 0 := by
  unfold Word.ofProp
  split <;> rfl

theorem ite_zero_toNat (p : Prop) [Decidable p] (w : Word) : (if p then 0 else w).toNat = if p then 0 else w.toNat := by
  split <;> rfl

/-! ## Signed division -/

theorem sdiv_eq (x y : Int) : sdiv x y = if y = 0 then 0 else u256 (x.tdiv y) := by
  unfold sdiv
  by_cases hy : y = 0
  · simp [hy]
  · by_cases hx : x = 0
    · simp [hx, u256]
    · rw [if_neg (by simp [hx, hy]), if_neg hy]
      -- the signs are those of the constructors, apart from zero
      have hpos : ∀ n : Nat, Int.ofNat n ≠ 0 → (n : Int).sign = 1 := by
        intro n hn
        have hn' : n ≠ 0 := by simpa using hn
        exact Int.sign_eq_one_of_pos (by omega)
      cases x with
      | ofNat m =>
        cases y with
        | ofNat n => simp [hpos m hx, hpos n hy]
        | negSucc n => simp [hpos m hx, Int.tdiv]
      | negSucc m =>
        cases y with
        | ofNat n => simp [hpos n hy, Int.tdiv]
        | negSucc n => simp [Int.tdiv]

theorem smod_eq (x y : Int) : smod x y = if y = 0 then 0 else u256 (x.tmod y) := by
  unfold smod
  by_cases hy : y = 0
  · simp [hy]
  · rw [if_neg hy, if_neg hy]
    cases x with
    | ofNat m => cases y <;> simp [Int.tmod]
    | negSucc m => cases y <;> simp [Int.tmod]

theorem ofInt_minimum_div : BitVec.ofInt 256 ((-2 ^ 255 : Int).tdiv (-1)) = BitVec.ofInt 256 (-2 ^ 255) := by decide +kernel

theorem sdiv_result (x y : Word) : sdiv x.toInt y.toInt = (BinaryOp.sdiv.result x y).toNat := by
  simp only [sdiv_eq, BinaryOp.result, ite_zero_toNat, u256_eq]
  by_cases hmin : x.toInt = -2 ^ 255 ∧ y.toInt = -1
  · rw [if_pos hmin, hmin.1, hmin.2, ofInt_minimum_div]
  · rw [if_neg hmin]

/-! ## Powers -/

theorem expLoop_modEq : ∀ {n result base word : Nat}, word < 2 ^ n → expLoop n result base word ≡ result * base ^ word [MOD two256]
  | 0, result, base, word, h => by
    obtain rfl : word = 0 := by simpa using h
    simp [expLoop, Nat.ModEq.refl]
  | n + 1, result, base, word, h => by
    have hhalf : word / 2 < 2 ^ n := by
      rw [Nat.pow_succ] at h
      omega
    have hcut : ∀ k : Nat, u256 k ≡ k [MOD two256] := by
      intro k
      rw [u256_natCast, BitVec.toNat_ofNat, ← two256_eq]
      exact Nat.mod_modEq _ _
    have hpow : base ^ word = (base * base) ^ (word / 2) * base ^ (word % 2) := by
      rw [← Nat.pow_two, ← Nat.pow_mul, ← Nat.pow_add, Nat.div_add_mod]
    have hsquare : u256 (base * base) ^ (word / 2) ≡ (base * base) ^ (word / 2) [MOD two256] := by
      exact_mod_cast (hcut (base * base)).pow _
    refine (expLoop_modEq hhalf).trans ?_
    rw [hpow]
    rcases Nat.mod_two_eq_zero_or_one word with hbit | hbit
    · rw [hbit, if_neg (by omega), Nat.pow_zero, Nat.mul_one]
      exact Nat.ModEq.mul rfl hsquare
    · rw [hbit, if_pos rfl, Nat.pow_one, Nat.mul_comm (_ ^ _) base, ← Nat.mul_assoc]
      refine Nat.ModEq.mul ?_ hsquare
      exact_mod_cast hcut (result * base)

theorem u256_lt (z : Int) : u256 z < two256 := by
  rw [u256_eq, two256_eq]
  exact BitVec.isLt _

theorem expLoop_lt : ∀ {n result base word : Nat}, result < two256 → expLoop n result base word < two256
  | 0, _, _, _, h => h
  | n + 1, result, base, word, h => by
    unfold expLoop
    refine expLoop_lt ?_
    split
    · exact u256_lt _
    · exact h

theorem bigExp_eq (base exponent : Nat) : bigExp base exponent = base ^ exponent % two256 := by
  have hbits : exponent < 2 ^ ((exponent.size + 63) / 64 * 64) :=
    exponent.lt_size_self.trans_le (Nat.pow_le_pow_right (by omega) (by omega))
  have hmod : bigExp base exponent ≡ 1 * base ^ exponent [MOD two256] := expLoop_modEq hbits
  have hlt : bigExp base exponent < two256 := expLoop_lt (by decide)
  rw [Nat.one_mul] at hmod
  exact (Nat.mod_eq_of_lt hlt).symm.trans hmod

theorem exp_result (x y : Word) :
    (if y.toNat < 1 then 1 else if x.toNat = 0 then 0 else if y.toNat = 1 then x.toNat else bigExp x.toNat y.toNat) =
      (BinaryOp.exp.result x y).toNat := by
  have hx : x.toNat < 2 ^ 256 := x.isLt
  simp only [BinaryOp.result, BitVec.toNat_ofNat, bigExp_eq, two256_eq]
  by_cases h0 : y.toNat < 1
  · obtain h : y.toNat = 0 := by omega
    simp [h]
  · rw [if_neg h0]
    by_cases hb : x.toNat = 0
    · rw [if_pos hb, hb, Nat.zero_pow (by omega), Nat.zero_mod]
    · rw [if_neg hb]
      by_cases h1 : y.toNat = 1
      · rw [if_pos h1, h1, Nat.pow_one, Nat.mod_eq_of_lt hx]
      · rw [if_neg h1]

/-! ## Bits and bytes -/

theorem signExtend_result (x y : Word) : signExtend x.toNat y.toNat = (BinaryOp.signExtend.result x y).toNat := by
  unfold signExtend BinaryOp.result
  by_cases hx : x.toNat < 31
  · have hbit : uint64 x.toNat * 8 + 7 = 8 * x.toNat + 7 := by
      have : x.toNat < two64 := hx.trans (by decide)
      rw [uint64, Nat.mod_eq_of_lt this]
      omega
    simp only [if_pos hx, hbit, u256_natCast, two256_eq]
    have hmask : (2 : Nat) ^ (8 * x.toNat + 7) - 1 < 2 ^ 256 :=
      lt_of_le_of_lt (Nat.sub_le _ _) (Nat.pow_lt_pow_right (by omega) (by omega))
    rw [Nat.shiftLeft_eq, Nat.one_mul, Nat.mod_eq_of_lt y.isLt]
    refine Nat.eq_of_testBit_eq fun i => ?_
    rw [BitVec.testBit_toNat (BitVec.signExtend ..), BitVec.getLsbD_signExtend]
    -- below the sign bit the two are the operand, from it on they are the sign
    cases hsign : y.toNat.testBit (8 * x.toNat + 7) with
    | true =>
      have hmsb : y.getLsbD (8 * x.toNat + 7) = true := hsign
      rw [if_pos rfl, BitVec.toNat_ofNat, Nat.testBit_mod_two_pow, Nat.testBit_or, Nat.sub_sub, Nat.add_comm 1,
        Nat.testBit_two_pow_sub_succ hmask, Nat.testBit_two_pow_sub_one]
      by_cases hlow : i < 8 * x.toNat + 7
      · simp [hlow, show i < 8 * x.toNat + 8 by omega, BitVec.testBit_toNat]
      · by_cases hat : i = 8 * x.toNat + 7
        · subst hat
          simp [hmsb, hsign]
        · simp [hlow, show ¬i < 8 * x.toNat + 8 by omega, BitVec.msb_setWidth, hmsb]
          omega
    | false =>
      have hmsb : y.getLsbD (8 * x.toNat + 7) = false := hsign
      rw [if_neg (by simp), BitVec.toNat_ofNat, Nat.testBit_mod_two_pow, Nat.testBit_and, Nat.testBit_two_pow_sub_one]
      by_cases hlow : i < 8 * x.toNat + 7
      · simp [hlow, show i < 8 * x.toNat + 8 by omega, BitVec.testBit_toNat]
      · by_cases hat : i = 8 * x.toNat + 7
        · subst hat
          simp [hmsb]
        · simp [hlow, show ¬i < 8 * x.toNat + 8 by omega, BitVec.msb_setWidth, hmsb]
  · simp [hx]

theorem not_result (x : Word) : u256 (-x.toNat - 1) = (~~~x).toNat := by
  have hx : x.toNat < 2 ^ 256 := x.isLt
  rw [BitVec.toNat_not, u256, two256_eq]
  omega

theorem byte_result (x y : Word) : (if x.toNat < 32 then bigByte y.toNat x.toNat else 0) = (BinaryOp.byte.result x y).toNat := by
  unfold BinaryOp.result bigByte
  by_cases hx : x.toNat < 32
  · rw [if_pos hx, if_pos hx, BitVec.toNat_ofNat, Nat.shiftRight_eq_div_pow, Nat.pow_mul]
    exact (Nat.mod_eq_of_lt ((Nat.mod_lt _ (by decide)).trans (by decide))).symm
  · rw [if_neg hx, if_neg hx]
    rfl

theorem shl_result (x y : Word) : shl x.toNat y.toNat = (BinaryOp.shl.result x y).toNat := by
  unfold shl BinaryOp.result
  by_cases hx : x.toNat ≥ 256
  · rw [if_pos hx, BitVec.toNat_ofNat]
    exact (Nat.mod_eq_zero_of_dvd ((Nat.pow_dvd_pow 2 hx).mul_left _)).symm
  · rw [if_neg hx, u256_natCast, Nat.shiftLeft_eq]

theorem shr_result (x y : Word) : shr x.toNat y.toNat = (BinaryOp.shr.result x y).toNat := by
  unfold shr BinaryOp.result
  by_cases hx : x.toNat ≥ 256
  · rw [if_pos hx, Nat.div_eq_of_lt (y.isLt.trans_le (Nat.pow_le_pow_right (by omega) hx))]
    rfl
  · rw [if_neg hx, u256_natCast, Nat.shiftRight_eq_div_pow]

theorem sar_result (x y : Word) : sar x.toNat y.toInt = (BinaryOp.sar.result x y).toNat := by
  unfold sar BinaryOp.result
  by_cases hx : x.toNat ≥ 256
  · have hpow : (2 : Int) ^ 256 ≤ 2 ^ x.toNat := by exact_mod_cast Nat.pow_le_pow_right (by omega) hx
    have hlt : y.toInt < 2 ^ 255 := y.toInt_lt
    have hle : -2 ^ 255 ≤ y.toInt := y.le_toInt
    rw [if_pos hx]
    by_cases hy : y.toInt ≥ 0
    · rw [if_pos hy, Int.ediv_eq_zero_of_lt hy (by omega)]
      rfl
    · rw [if_neg hy, u256_eq, Int.ediv_eq_neg_one_of_neg_of_le (by omega) (by omega)]
  · rw [if_neg hx, u256_eq, Int.shiftRight_eq_div_pow]
    norm_cast

theorem slt_result (x y : Word) : slt x.toNat y.toNat = if x.toInt < y.toInt then 1 else 0 := by
  have hx := x.isLt
  have hy := y.isLt
  rw [← s256_toNat, ← s256_toNat]
  unfold slt s256
  rw [two255_eq, two256_eq]
  repeat' split
  all_goals omega

theorem sgt_result (x y : Word) : sgt x.toNat y.toNat = if x.toInt > y.toInt then 1 else 0 := by
  have hx := x.isLt
  have hy := y.isLt
  rw [← s256_toNat, ← s256_toNat]
  unfold sgt s256
  rw [two255_eq, two256_eq]
  repeat' split
  all_goals omega

/-! ## The instructions -/

theorem BinaryOp.exec_eq (m : Machine D) (st : List Nat) {op : BinaryOp} {f : Nat → Nat → Nat} {x y w : Word}
    (hexec : (op.exec : Instruction D) = binary f) (h : f x.toNat y.toNat = w.toNat) :
    op.exec { m with stack := x.toNat :: y.toNat :: st } = done { m with stack := w.toNat :: st } := by
  rw [hexec, ← h]
  rfl

theorem TernaryOp.exec_eq (m : Machine D) (st : List Nat) {op : TernaryOp} {f : Nat → Nat → Nat → Nat} {x y z w : Word}
    (hexec : (op.exec : Instruction D) = ternary f) (h : f x.toNat y.toNat z.toNat = w.toNat) :
    op.exec { m with stack := x.toNat :: y.toNat :: z.toNat :: st } = done { m with stack := w.toNat :: st } := by
  rw [hexec, ← h]
  rfl

/-- **EVM arithmetic is exact.** On words, each instruction leaves the result
of its specification, a word again, in the place of its operands and changes
nothing else. -/
theorem arithmetic_exact (m : Machine D) (st : List Nat) :
    (∀ (op : UnaryOp) (x : Word),
      op.exec { m with stack := x.toNat :: st } = done { m with stack := (op.result x).toNat :: st }) ∧
    (∀ (op : BinaryOp) (x y : Word),
      op.exec { m with stack := x.toNat :: y.toNat :: st } = done { m with stack := (op.result x y).toNat :: st }) ∧
    (∀ (op : TernaryOp) (x y z : Word),
      op.exec { m with stack := x.toNat :: y.toNat :: z.toNat :: st } = done { m with stack := (op.result x y z).toNat :: st }) := by
  refine ⟨?_, ?_, ?_⟩
  · intro op x
    cases op with
    | iszero =>
      have h : (if x.toNat > 0 then 0 else 1) = (UnaryOp.iszero.result x).toNat := by
        rw [UnaryOp.result, ofProp_toNat]
        split <;> split <;> omega
      simp only [UnaryOp.exec, opIszero, unary, h]
    | not => simp only [UnaryOp.exec, opNot, unary, not_result, UnaryOp.result]
  · intro op x y
    cases op with
    | add | mul | sub => exact BinaryOp.exec_eq m st rfl (u256_eq _)
    | div =>
      refine BinaryOp.exec_eq m st rfl ?_
      rw [BinaryOp.result, ite_zero_toNat, ← u256_natCast, Int.natCast_ediv]
      simp only [ne_eq, ite_not]
    | sdiv =>
      refine BinaryOp.exec_eq m st rfl ?_
      rw [s256_toNat, s256_toNat]
      exact sdiv_result x y
    | mod =>
      refine BinaryOp.exec_eq m st rfl ?_
      rw [BinaryOp.result, ite_zero_toNat, ← u256_natCast, Int.natCast_emod]
    | smod =>
      refine BinaryOp.exec_eq m st rfl ?_
      rw [s256_toNat, s256_toNat, smod_eq, BinaryOp.result, ite_zero_toNat, u256_eq]
    | exp => exact BinaryOp.exec_eq m st rfl (exp_result x y)
    | signExtend => exact BinaryOp.exec_eq m st rfl (signExtend_result x y)
    | lt => exact BinaryOp.exec_eq m st rfl (ofProp_toNat _).symm
    | gt => exact BinaryOp.exec_eq m st rfl (ofProp_toNat _).symm
    | slt => exact BinaryOp.exec_eq m st rfl ((slt_result x y).trans (ofProp_toNat _).symm)
    | sgt => exact BinaryOp.exec_eq m st rfl ((sgt_result x y).trans (ofProp_toNat _).symm)
    | eq =>
      refine BinaryOp.exec_eq m st rfl ?_
      rw [BinaryOp.result, ofProp_toNat]
      simp only [BitVec.toNat_inj]
    | and => exact BinaryOp.exec_eq m st rfl (BitVec.toNat_and ..).symm
    | or => exact BinaryOp.exec_eq m st rfl (BitVec.toNat_or ..).symm
    | xor => exact BinaryOp.exec_eq m st rfl (BitVec.toNat_xor ..).symm
    | byte => exact BinaryOp.exec_eq m st rfl (byte_result x y)
    | shl =>
      refine BinaryOp.exec_eq m st rfl ?_
      rw [u256_toNat, u256_toNat]
      exact shl_result x y
    | shr =>
      refine BinaryOp.exec_eq m st rfl ?_
      rw [u256_toNat, u256_toNat]
      exact shr_result x y
    | sar =>
      refine BinaryOp.exec_eq m st rfl ?_
      rw [u256_toNat, s256_toNat]
      exact sar_result x y
  · intro op x y z
    cases op with
    | addmod =>
      refine TernaryOp.exec_eq m st rfl ?_
      rw [TernaryOp.result, ite_zero_toNat, ← u256_natCast]
      split <;> split <;> first | rfl | omega
    | mulmod =>
      refine TernaryOp.exec_eq m st rfl ?_
      rw [TernaryOp.result, ite_zero_toNat, ← u256_natCast]
      split <;> split <;> first | rfl | omega

end NdnGeth.Vm
