/-
What the files of the virtual machine share (`core/vm/common.go`,
`core/vm/errors.go`, `core/vm/memory.go`, `common/math`): integers of 64 and
256 bits, slices of bytes, errors, and the memory of a frame.

A big integer is a natural number, because nothing negative is put on a
stack. A `uint64` is a natural number below 2^64; where the source's operation
can wrap around, so does the one here (`add64`, `sub64`, `mul64`). Reading a
slice out of range is a fault.
-/
import NdnGeth.Lib.Result
import NdnGeth.Lib.Rlp

namespace NdnGeth.Vm

open Lib (Result)
open Lib.Rlp (Bytes)

/-- Where the source panics. -/
inductive Panic
  /-- An index or a slice out of range. -/
  | bounds
  /-- "Refund counter below zero". -/
  | refund
  /-- A revision that cannot be reverted to. -/
  | revision
  /-- "gas pool pushed above uint64". -/
  | gasPool
  deriving DecidableEq

/-- The errors of a frame. -/
inductive VmError
  | invalidSubroutineEntry
  | outOfGas
  | codeStoreOutOfGas
  | depth
  | insufficientBalance
  | contractAddressCollision
  | executionReverted
  | maxCodeSizeExceeded
  | invalidJump
  | writeProtection
  | returnDataOutOfBounds
  | gasUintOverflow
  | invalidRetsub
  | returnStackExceeded
  /-- "not enough gas for reentrancy sentry". -/
  | reentrancySentry
  | stackUnderflow (stackLen required : Nat)
  | stackOverflow (stackLen limit : Nat)
  | invalidOpCode (opcode : UInt8)
  /-- What a precompiled contract returns. -/
  | precompiled
  deriving DecidableEq

/-! ## Integers -/

/-- `math.MaxUint64` + 1. -/
def two64 : Nat := 18446744073709551616

/-- `tt256`. -/
def two256 : Nat := 115792089237316195423570985008687907853269984665640564039457584007913129639936

theorem two256_eq : two256 = 2 ^ 256 := by decide

/-- `tt255`. -/
def two255 : Nat := 57896044618658097711785492504343953926634992332820282019728792003956564819968

def add64 (x y : Nat) : Nat := (x + y) % two64

def sub64 (x y : Nat) : Nat := (x + (two64 - y)) % two64

def mul64 (x y : Nat) : Nat := x * y % two64

/-- `math.SafeAdd`: nothing where it overflows. -/
def safeAdd (x y : Nat) : Option Nat := if x + y < two64 then some (x + y) else none

def safeMul (x y : Nat) : Option Nat := if x * y < two64 then some (x * y) else none

def isUint64 (x : Nat) : Bool := decide (x < two64)

/-- `big.Int.Uint64`: the low bits. -/
def uint64 (x : Nat) : Nat := x % two64

def bigUint64 (x : Nat) : Option Nat := if isUint64 x then some (uint64 x) else none

def u256 (x : Int) : Nat := (x % two256).toNat

def s256 (x : Nat) : Int := if x < two255 then x else x - two256

def toWordSize (size : Nat) : Nat :=
  if size > two64 - 1 - 31 then (two64 - 1) / 32 + 1 else (size + 31) / 32

/-- `calcMemSize64WithUint`: nothing where it overflows. -/
def calcMemSize64WithUint (off length64 : Nat) : Option Nat :=
  if length64 = 0 then some 0
  else if !isUint64 off then none
  else
    let offset64 := uint64 off
    let val := add64 offset64 length64
    if val < offset64 then none else some val

def calcMemSize64 (off l : Nat) : Option Nat :=
  if !isUint64 l then none else calcMemSize64WithUint off (uint64 l)

theorem add64_of_lt {x y : Nat} (h : x + y < two64) : add64 x y = x + y := Nat.mod_eq_of_lt h

theorem mul64_of_lt {x y : Nat} (h : x * y < two64) : mul64 x y = x * y := Nat.mod_eq_of_lt h

theorem sub64_of_le {x y : Nat} (h : y ≤ x) (hx : x < two64) : sub64 x y = x - y := by
  have hsum : x + (two64 - y) = x - y + two64 := by omega
  rw [sub64, hsum, Nat.add_mod_right, Nat.mod_eq_of_lt (by omega)]

theorem safeAdd_eq_some {x y z : Nat} : safeAdd x y = some z ↔ x + y < two64 ∧ z = x + y := by
  unfold safeAdd
  split
  · simp_all [eq_comm]
  · simp_all

theorem safeMul_eq_some {x y z : Nat} : safeMul x y = some z ↔ x * y < two64 ∧ z = x * y := by
  unfold safeMul
  split
  · simp_all [eq_comm]
  · simp_all

theorem bigUint64_eq_some {x z : Nat} : bigUint64 x = some z ↔ x < two64 ∧ z = x := by
  unfold bigUint64 isUint64 uint64
  by_cases h : x < two64
  · simp [h, Nat.mod_eq_of_lt h, eq_comm]
  · simp [h]

theorem toWordSize_of_lt {size : Nat} (h : size < two64) : toWordSize size = (size + 31) / 32 := by
  unfold toWordSize two64 at *
  split <;> omega

theorem calcMemSize64WithUint_eq_some {off length64 size : Nat} (hl : length64 < two64) :
    calcMemSize64WithUint off length64 = some size ↔
      (length64 = 0 ∧ size = 0) ∨ (length64 ≠ 0 ∧ off + length64 < two64 ∧ size = off + length64) := by
  unfold calcMemSize64WithUint isUint64 uint64
  by_cases h0 : length64 = 0
  · simp [h0, eq_comm]
  by_cases ho : off < two64
  · simp only [h0, if_false, ho, decide_true, Bool.not_true, Bool.false_eq_true, Nat.mod_eq_of_lt ho, false_and,
      false_or, not_false_eq_true, true_and, ne_eq]
    by_cases hs : off + length64 < two64
    · rw [add64_of_lt hs, if_neg (by omega)]
      simp [hs, eq_comm]
    · have hwrap : add64 off length64 = off + length64 - two64 := by
        unfold add64
        rw [Nat.mod_eq_sub_mod (by omega), Nat.mod_eq_of_lt (by omega)]
      rw [hwrap, if_pos (by omega)]
      simp [hs]
  · have hs : ¬ off + length64 < two64 := by omega
    simp [h0, ho, hs]

theorem calcMemSize64_eq_some {off l size : Nat} :
    calcMemSize64 off l = some size ↔
      (l = 0 ∧ size = 0) ∨ (l ≠ 0 ∧ off + l < two64 ∧ size = off + l) := by
  unfold calcMemSize64 isUint64 uint64
  by_cases hl : l < two64
  · simp only [hl, decide_true, Bool.not_true, Bool.false_eq_true, if_false, Nat.mod_eq_of_lt hl]
    exact calcMemSize64WithUint_eq_some hl
  · have h0 : l ≠ 0 := by unfold two64 at hl; omega
    have hs : ¬ off + l < two64 := by omega
    simp [hl, h0, hs]

/-! ## Bytes -/

/-- `b[lo:hi]`. -/
def slice (b : Bytes) (lo hi : Nat) : Result Panic Bytes :=
  if lo ≤ hi ∧ hi ≤ b.length then .ok ((b.drop lo).take (hi - lo)) else .fault .bounds

/-- `common.RightPadBytes`. The length is an `int`: one from 2^63 on is
negative. -/
def rightPadBytes (b : Bytes) (l : Nat) : Bytes :=
  if l < two64 / 2 then b ++ List.replicate (l - b.length) 0 else b

def getDataBig (data : Bytes) (start size : Nat) : Result Panic Bytes := do
  let s := min start data.length
  let e := min (s + size) data.length
  return rightPadBytes (← slice data s e) (uint64 size)

/-- The 32 bytes of a number, as `math.ReadBits` writes them. -/
def bytes32 (x : Nat) : Bytes := Lib.Rlp.toBytesN 32 (x % two256)

theorem slice_sat {b : Bytes} {lo hi : Nat} {E : Panic → Prop} {F : Prop} (h : lo ≤ hi) (hb : hi ≤ b.length) :
    (slice b lo hi).Sat (fun c => c.length = hi - lo) E F := by
  unfold slice
  rw [if_pos ⟨h, hb⟩]
  simp only [Result.sat_ok, List.length_take, List.length_drop]
  omega

theorem getDataBig_sat (data : Bytes) (start size : Nat) {E : Panic → Prop} {F : Prop} :
    (getDataBig data start size).Sat (fun _ => True) E F := by
  unfold getDataBig
  refine (slice_sat ?_ ?_).bind fun _ _ => trivial
  · exact le_min (Nat.le_add_right _ _) (min_le_right _ _)
  · exact min_le_right _ _

/-! ## Memory -/

structure Memory where
  store : Bytes
  lastGasCost : Nat

namespace Memory

def new : Memory := ⟨[], 0⟩

def len (m : Memory) : Nat := m.store.length

/-- `copy(store[offset:], value)`, of at most `size` bytes. -/
def overwrite (m : Memory) (offset size : Nat) (value : Bytes) : Memory :=
  let value := value.take size
  { m with store := m.store.take offset ++ value ++ m.store.drop (offset + value.length) }

def set (m : Memory) (offset size : Nat) (value : Bytes) : Result Panic Memory :=
  if size > 0 then
    if add64 offset size > m.len then .fault .bounds
    else if offset ≤ add64 offset size then .ok (m.overwrite offset size value)
    else .fault .bounds
  else .ok m

def set32 (m : Memory) (offset : Nat) (val : Nat) : Result Panic Memory :=
  if add64 offset 32 > m.len then .fault .bounds
  else if offset ≤ add64 offset 32 then .ok (m.overwrite offset 32 (bytes32 val))
  else .fault .bounds

/-- `store[off] = byte(val)`. -/
def setByte (m : Memory) (off : Nat) (val : Nat) : Result Panic Memory :=
  if off < m.len then .ok (m.overwrite off 1 [UInt8.ofNat val]) else .fault .bounds

def resize (m : Memory) (size : Nat) : Memory :=
  if m.len < size then { m with store := m.store ++ List.replicate (size - m.len) 0 } else m

/-- `GetPtr`. The arguments are `int64`, and so negative from 2^63 on: a
negative offset is below the length. -/
def getPtr (m : Memory) (offset size : Nat) : Result Panic Bytes :=
  if uint64 size = 0 then .ok []
  else if uint64 offset < two64 / 2 then
    if m.len > uint64 offset then slice m.store (uint64 offset) (uint64 offset + uint64 size) else .ok []
  else .fault .bounds

/-- `GetCopy`. The bytes are the same as those of `GetPtr`. -/
def getCopy (m : Memory) (offset size : Nat) : Result Panic Bytes := m.getPtr offset size

end Memory

end NdnGeth.Vm
