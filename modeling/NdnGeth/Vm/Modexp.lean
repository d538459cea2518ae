/-
The precompiled contract for modular exponentiation (`bigModExp` of
`core/vm/contracts.go`). Its input starts with three lengths of 256 bits; the
price is computed from them as big integers, and the operands are cut out of
the rest with their low 64 bits.

Every allocation is taken to succeed; its size is counted in `Output.made`:
each operand twice, as bytes and as an integer, and the result. The length of
a slice is an `int`, so that an input is shorter than 2^63.

`requiredGas_eq`: the price is that of EIP-198, saturated. `run_eq`: below the
saturation the result is that of EIP-198 where the base and the exponent end
before 2^64; a cheaper one than 7·10^18 always does. Above that, the length of
an exponent of one base byte passes 2^64 before its price does.
-/
import Mathlib.Logic.Basic
import NdnGeth.Vm.Common

namespace NdnGeth.Vm

open Lib (Result)
open Lib.Rlp (Bytes ofBytes toBytes toBytesN)

/-! ## The specification -/

/-- So many bytes of the input followed by zeros. -/
def extended (data : Bytes) (off len : Nat) : Bytes := (List.range len).map fun i => data.getD (off + i) 0

namespace Eip198

/-- The number at an offset of the zero-extended input. -/
def field (input : Bytes) (off len : Nat) : Nat := ofBytes (extended input off len)

def baseLength (input : Bytes) : Nat := field input 0 32
def exponentLength (input : Bytes) : Nat := field input 32 32
def modulusLength (input : Bytes) : Nat := field input 64 32

def base (input : Bytes) : Nat := field input 96 (baseLength input)
def exponent (input : Bytes) : Nat := field input (96 + baseLength input) (exponentLength input)
def modulus (input : Bytes) : Nat := field input (96 + baseLength input + exponentLength input) (modulusLength input)

/-- The first 32 bytes of the exponent. -/
def exponentHead (input : Bytes) : Nat := field input (96 + baseLength input) (min (exponentLength input) 32)

def adjustedExponentLength (input : Bytes) : Nat := 8 * (exponentLength input - 32) + (exponentHead input).log2

def multComplexity (x : Nat) : Nat :=
  if x ≤ 64 then x * x
  else if x ≤ 1024 then x * x / 4 + (96 * x - 3072)
  else x * x / 16 + (480 * x - 199680)

def price (input : Bytes) : Nat :=
  multComplexity (max (modulusLength input) (baseLength input)) * max (adjustedExponentLength input) 1 / 20

/-- The power, in as many bytes as the modulus has. -/
def output (input : Bytes) : Bytes :=
  toBytesN (modulusLength input) (if modulus input = 0 then 0 else base input ^ exponent input % modulus input)

end Eip198

open Eip198 (baseLength exponentLength modulusLength price exponentHead adjustedExponentLength)

/-! ## The contract -/

def getData (data : Bytes) (start size : Nat) : Result Panic Bytes := do
  let start := min start data.length
  let stop := min (add64 start size) data.length
  return rightPadBytes (← slice data start stop) size

def leftPadBytes (b : Bytes) (l : Nat) : Bytes :=
  if l < two64 / 2 then List.replicate (l - b.length) 0 ++ b else b

def bitLen (x : Nat) : Nat := if x = 0 then 0 else x.log2 + 1

namespace BigModExp

/-- What follows the lengths. -/
def operands (input : Bytes) : Bytes := if input.length > 96 then input.drop 96 else []

/-- The head of the exponent, for the adjusted exponent length. -/
def expHead (operands : Bytes) (baseLen expLen : Nat) : Result Panic Nat :=
  if operands.length ≤ baseLen then .ok 0
  else do
    let size := if expLen > 32 then 32 else uint64 expLen
    return ofBytes (← getData operands (uint64 baseLen) size)

/-- The price, before it is cut to 64 bits. -/
def gasOf (baseLen expLen modLen expHead : Nat) : Nat :=
  let msb := if bitLen expHead > 0 then bitLen expHead - 1 else 0
  let adjExpLen := (if expLen > 32 then 8 * (expLen - 32) else 0) + msb
  let gas := max modLen baseLen
  let gas :=
    if gas ≤ 64 then gas * gas
    else if gas ≤ 1024 then gas * gas / 4 + (96 * gas - 3072)
    else gas * gas / 16 + (480 * gas - 199680)
  gas * max adjExpLen 1 / 20

def requiredGas (input : Bytes) : Result Panic Nat := do
  let baseLen := ofBytes (← getData input 0 32)
  let expLen := ofBytes (← getData input 32 32)
  let modLen := ofBytes (← getData input 64 32)
  let head ← expHead (operands input) baseLen expLen
  let gas := gasOf baseLen expLen modLen head
  return if bitLen gas > 64 then two64 - 1 else uint64 gas

structure Output where
  ret : Bytes
  /-- The bytes that were allocated. -/
  made : Nat
  deriving DecidableEq

/-- `Run` from the lengths on, which are cut to 64 bits. -/
def compute (operands : Bytes) (baseLen expLen modLen : Nat) : Result Panic Output :=
  if baseLen = 0 ∧ modLen = 0 then .ok ⟨[], 0⟩
  else do
    let base ← getData operands 0 baseLen
    let exp ← getData operands baseLen expLen
    let mod ← getData operands (add64 baseLen expLen) modLen
    let made := 2 * (base.length + exp.length + mod.length) + modLen
    return if bitLen (ofBytes mod) = 0 then ⟨leftPadBytes [] modLen, made⟩
      else ⟨leftPadBytes (toBytes (ofBytes base ^ ofBytes exp % ofBytes mod)) modLen, made⟩

def run (input : Bytes) : Result Panic Output := do
  let baseLen := uint64 (ofBytes (← getData input 0 32))
  let expLen := uint64 (ofBytes (← getData input 32 32))
  let modLen := uint64 (ofBytes (← getData input 64 32))
  compute (operands input) baseLen expLen modLen

end BigModExp

/-! ## Slices of the input -/

theorem length_extended (data : Bytes) (off len : Nat) : (extended data off len).length = len := by
  simp [extended]

theorem extended_eq (data : Bytes) (off len : Nat) :
    extended data off len = (data.drop off).take len ++ List.replicate (len - (data.length - off)) 0 := by
  refine List.ext_getElem ?_ fun i hi _ => ?_
  · simp only [length_extended, List.length_append, List.length_take, List.length_drop, List.length_replicate]
    omega
  · rw [length_extended] at hi
    simp only [extended, List.getElem_map, List.getElem_range]
    rw [List.getElem_append]
    split
    · rename_i h
      simp only [List.length_take, List.length_drop] at h
      rw [List.getElem_take, List.getElem_drop, List.getD_eq_getElem?_getD, List.getElem?_eq_getElem (by omega)]
      rfl
    · rename_i h
      simp only [List.length_take, List.length_drop] at h
      rw [List.getElem_replicate, List.getD_eq_getElem?_getD, List.getElem?_eq_none (by omega)]
      rfl

theorem extended_drop (data : Bytes) (k off len : Nat) : extended (data.drop k) off len = extended data (k + off) len := by
  unfold extended
  refine List.map_congr_left fun i _ => ?_
  simp only [List.getD_eq_getElem?_getD, List.getElem?_drop]
  rw [Nat.add_assoc]

variable {data : Bytes}

theorem extended_past {off : Nat} (h : data.length ≤ off) (len : Nat) :
    extended data off len = List.replicate len 0 := by
  rw [extended_eq, List.drop_eq_nil_of_le h]
  simp [Nat.sub_eq_zero_of_le h]

theorem ofBytes_zeros (n : Nat) : ofBytes (List.replicate n 0) = 0 := by
  have h := Lib.Rlp.ofBytes_replicate_zero n []
  rw [List.append_nil] at h
  exact h

theorem field_past {off : Nat} (h : data.length ≤ off) (len : Nat) : Eip198.field data off len = 0 := by
  rw [Eip198.field, extended_past h, ofBytes_zeros]

theorem getData_length_le {data out : Bytes} {start size : Nat} (h : getData data start size = .ok out) :
    out.length ≤ size := by
  simp only [getData, slice] at h
  split at h
  · rename_i hle
    simp only [Result.ok_bind, pure, Result.ok.injEq] at h
    have hadd : add64 (min start data.length) size ≤ min start data.length + size := Nat.mod_le _ _
    have hmin : min (add64 (min start data.length) size) data.length ≤ add64 (min start data.length) size :=
      Nat.min_le_left _ _
    subst h
    unfold rightPadBytes
    split <;> simp only [List.length_append, List.length_take, List.length_drop, List.length_replicate] <;> omega
  · cases h

/-- Where the end does not wrap around, a slice is one of the zero-extended
data; one from 2^63 bytes on is not extended. -/
theorem getData_eq {start size : Nat} (h : min start data.length + size < two64) :
    ∃ out, getData data start size = .ok out ∧ (size < two64 / 2 → out = extended data start size) := by
  have hle : min start data.length ≤ min (min start data.length + size) data.length :=
    Nat.le_min.2 ⟨Nat.le_add_right _ _, Nat.min_le_right _ _⟩
  simp only [getData, slice]
  rw [add64_of_lt h, if_pos ⟨hle, Nat.min_le_right _ _⟩]
  refine ⟨_, rfl, fun hsize => ?_⟩
  rw [extended_eq, rightPadBytes, if_pos hsize]
  rcases Nat.le_total start data.length with hs | hs
  · have htake : (data.drop start).take (min (start + size) data.length - start) = (data.drop start).take size := by
      rw [List.take_eq_take_iff, List.length_drop]
      omega
    rw [Nat.min_eq_left hs, htake]
    congr 2
    simp only [List.length_take, List.length_drop]
    omega
  · rw [Nat.min_eq_right hs, List.drop_eq_nil_of_le hs, List.drop_eq_nil_of_le (Nat.le_refl _)]
    simp [Nat.sub_eq_zero_of_le hs]

theorem getData_field {input : Bytes} {off len : Nat} (h : off + len < two64 / 2) :
    getData input off len = .ok (extended input off len) := by
  have hsum : min off input.length + len < two64 := by
    have := Nat.min_le_left off input.length
    unfold two64 at *
    omega
  obtain ⟨out, hget, hout⟩ := getData_eq hsum
  rw [hget, hout (by omega)]

theorem bitLen_pos_sub_one (x : Nat) : (if bitLen x > 0 then bitLen x - 1 else 0) = x.log2 := by
  unfold bitLen
  by_cases hx : x = 0
  · simp [hx]
  · simp [hx]

theorem bitLen_eq_zero {x : Nat} : bitLen x = 0 ↔ x = 0 := by
  unfold bitLen
  split <;> simp_all

theorem bitLen_le_64 {x : Nat} : bitLen x ≤ 64 ↔ x < two64 := by
  unfold bitLen two64
  split
  · rename_i h
    simp [h]
  · rename_i h
    rw [Nat.add_one_le_iff, Nat.log2_lt h]

namespace BigModExp

variable {input : Bytes}

theorem operands_eq (input : Bytes) : operands input = input.drop 96 := by
  unfold operands
  split
  · rfl
  · rw [List.drop_eq_nil_of_le (by omega)]

theorem extended_operands (input : Bytes) (off len : Nat) :
    extended (operands input) off len = extended input (96 + off) len := by
  rw [operands_eq, extended_drop]

/-! ## The price -/

theorem expHead_eq (hlen : input.length < two64 / 2) :
    expHead (operands input) (baseLength input) (exponentLength input) = .ok (exponentHead input) := by
  have hdrop : (operands input).length = input.length - 96 := by rw [operands_eq, List.length_drop]
  unfold expHead
  split
  · rw [exponentHead, field_past (by omega)]
  · rename_i hlong
    have hbase : uint64 (baseLength input) = baseLength input :=
      Nat.mod_eq_of_lt (by unfold two64 at *; omega)
    have hsize : (if exponentLength input > 32 then 32 else uint64 (exponentLength input)) =
        min (exponentLength input) 32 := by
      split
      · omega
      · rw [uint64, Nat.mod_eq_of_lt (by unfold two64; omega), Nat.min_eq_left (by omega)]
    have hread : getData (operands input) (baseLength input) (min (exponentLength input) 32) =
        .ok (extended (operands input) (baseLength input) (min (exponentLength input) 32)) :=
      getData_field (by unfold two64 at *; omega)
    simp only [hbase, hsize, hread, Result.ok_bind, extended_operands]
    rfl

theorem gasOf_eq (input : Bytes) :
    gasOf (baseLength input) (exponentLength input) (modulusLength input)
      (exponentHead input) = price input := by
  have hadjusted : (if exponentLength input > 32 then 8 * (exponentLength input - 32) else 0) =
      8 * (exponentLength input - 32) := by
    split <;> omega
  simp only [gasOf, bitLen_pos_sub_one, hadjusted]
  rfl

theorem saturated_eq (gas : Nat) : (if bitLen gas > 64 then two64 - 1 else uint64 gas) = min gas (two64 - 1) := by
  have h := bitLen_le_64 (x := gas)
  split
  · rw [Nat.min_eq_right (by omega)]
  · have hlt : gas < two64 := h.1 (by omega)
    rw [uint64, Nat.mod_eq_of_lt hlt, Nat.min_eq_left (by omega)]

theorem getData_length {off : Nat} (h : off ≤ 64) : getData input off 32 = .ok (extended input off 32) :=
  getData_field (by unfold two64; omega)

theorem requiredGas_eq (hlen : input.length < two64 / 2) :
    requiredGas input = .ok (min (price input) (two64 - 1)) := by
  have hhead := expHead_eq hlen
  have hgas := gasOf_eq input
  unfold baseLength exponentLength modulusLength Eip198.field at *
  unfold requiredGas
  rw [getData_length (by decide), getData_length (by decide), getData_length (by decide)]
  simp only [Result.ok_bind, hhead, hgas, saturated_eq]
  rfl

/-! ## What the price bounds -/

theorem le_multComplexity (x : Nat) : x ≤ Eip198.multComplexity x := by
  unfold Eip198.multComplexity
  split
  · exact Nat.le_mul_self x
  · split <;> omega

/-- The longer of base and modulus. -/
def width (input : Bytes) : Nat := max (modulusLength input) (baseLength input)

theorem width_mul_lt (input : Bytes) :
    width input * max (adjustedExponentLength input) 1 < 20 * (price input + 1) := by
  have h := Nat.mul_le_mul_right (max (adjustedExponentLength input) 1) (le_multComplexity (width input))
  have hprice : price input =
      Eip198.multComplexity (width input) * max (adjustedExponentLength input) 1 / 20 := rfl
  omega

theorem width_le (input : Bytes) : width input ≤ 20 * price input + 19 := by
  have h := width_mul_lt input
  have hle := Nat.le_mul_of_pos_right (width input) (Nat.lt_of_lt_of_le Nat.zero_lt_one (Nat.le_max_right (adjustedExponentLength input) 1))
  omega

theorem exponentLength_le (h : width input ≠ 0) :
    8 * exponentLength input ≤ 20 * price input + 275 := by
  have hlt := width_mul_lt input
  have hle := Nat.le_mul_of_pos_left (max (adjustedExponentLength input) 1) (Nat.pos_of_ne_zero h)
  have hmax := Nat.le_max_left (adjustedExponentLength input) 1
  have hadj : 8 * (exponentLength input - 32) ≤ adjustedExponentLength input := Nat.le_add_right _ _
  omega

theorem width_lt (h : price input < two64) : width input < 2 ^ 37 := by
  by_contra hge
  have hsq : 2 ^ 37 * 2 ^ 37 ≤ width input * width input := Nat.mul_le_mul (by omega) (by omega)
  have hcomplexity : 2 ^ 70 ≤ Eip198.multComplexity (width input) := by
    unfold Eip198.multComplexity
    rw [if_neg (by omega), if_neg (by omega)]
    omega
  have hprice : price input =
      Eip198.multComplexity (width input) * max (adjustedExponentLength input) 1 / 20 := rfl
  have hle := Nat.le_mul_of_pos_right (Eip198.multComplexity (width input)) (Nat.lt_of_lt_of_le Nat.zero_lt_one (Nat.le_max_right (adjustedExponentLength input) 1))
  unfold two64 at h
  omega

/-- The base and the exponent end before 2^64, or there is nothing to compute. -/
def Fits (input : Bytes) : Prop :=
  baseLength input = 0 ∧ modulusLength input = 0 ∨
    baseLength input + exponentLength input < two64

instance : Decidable (Fits input) := inferInstanceAs (Decidable (_ ∨ _))

theorem fits_of_price_lt (h : price input < 7 * 10 ^ 18) : Fits input := by
  have hbase : baseLength input ≤ width input := Nat.le_max_right _ _
  have hmod : modulusLength input ≤ width input := Nat.le_max_left _ _
  have hwidth : width input < 2 ^ 37 := width_lt (by unfold two64; omega)
  by_cases h0 : width input = 0
  · exact .inl ⟨by omega, by omega⟩
  · have hexp := exponentLength_le h0
    refine .inr ?_
    unfold two64
    omega

/-! ## The result -/

theorem toBytes_zero : toBytes 0 = [] := by simp [toBytes]

theorem leftPadBytes_toBytes {l : Nat} (hl : l < two64 / 2) (v : Nat) : leftPadBytes (toBytes v) l = toBytesN l v := by
  rw [leftPadBytes, if_pos hl]
  rfl

theorem run_eq_compute (input : Bytes) :
    run input = compute (operands input) (uint64 (baseLength input)) (uint64 (exponentLength input))
      (uint64 (modulusLength input)) := by
  unfold run
  rw [getData_length (by decide), getData_length (by decide), getData_length (by decide)]
  simp only [Result.ok_bind, baseLength, exponentLength, modulusLength, Eip198.field]

theorem compute_made_le {ops : Bytes} {baseLen expLen modLen : Nat} {out : Output}
    (h : compute ops baseLen expLen modLen = .ok out) :
    out.made = 0 ∧ baseLen = 0 ∧ modLen = 0 ∨ out.made ≤ 2 * (baseLen + expLen + modLen) + modLen := by
  unfold compute at h
  split at h
  · rename_i hzero
    cases h
    exact .inl ⟨rfl, hzero⟩
  · cases hb : getData ops 0 baseLen with
    | fault e => rw [hb] at h; cases h
    | unfinished => rw [hb] at h; cases h
    | ok base =>
      cases he : getData ops baseLen expLen with
      | fault e => rw [hb, he] at h; cases h
      | unfinished => rw [hb, he] at h; cases h
      | ok exp =>
        cases hm : getData ops (add64 baseLen expLen) modLen with
        | fault e => rw [hb, he, hm] at h; cases h
        | unfinished => rw [hb, he, hm] at h; cases h
        | ok mod =>
          rw [hb, he, hm] at h
          have := getData_length_le hb
          have := getData_length_le he
          have := getData_length_le hm
          simp only [Result.ok_bind, pure, Result.ok.injEq] at h
          right
          subst h
          split <;> simp only <;> omega

theorem run_made_le {out : Output} (h : run input = .ok out) : out.made ≤ 105 * price input + 165 := by
  rw [run_eq_compute] at h
  have hb : uint64 (baseLength input) ≤ baseLength input := Nat.mod_le _ _
  have he : uint64 (exponentLength input) ≤ exponentLength input := Nat.mod_le _ _
  have hm : uint64 (modulusLength input) ≤ modulusLength input := Nat.mod_le _ _
  have hbase : baseLength input ≤ width input := Nat.le_max_right _ _
  have hmod : modulusLength input ≤ width input := Nat.le_max_left _ _
  have hwidth := width_le input
  rcases compute_made_le h with ⟨hmade, -, -⟩ | hmade
  · omega
  · by_cases h0 : width input = 0
    · -- both lengths are zero, and nothing was cut out
      have hb0 : uint64 (baseLength input) = 0 := by omega
      have hm0 : uint64 (modulusLength input) = 0 := by omega
      rw [compute, if_pos ⟨hb0, hm0⟩] at h
      cases h
      exact Nat.zero_le _
    · have := exponentLength_le h0
      omega

theorem run_eq (hlen : input.length < two64 / 2) (hprice : price input < two64) (hfits : Fits input) :
    ∃ out, run input = .ok out ∧ out.ret = Eip198.output input := by
  have hbase : baseLength input ≤ width input := Nat.le_max_right _ _
  have hmod : modulusLength input ≤ width input := Nat.le_max_left _ _
  have hwidth := width_lt hprice
  have hdrop : (operands input).length = input.length - 96 := by rw [operands_eq, List.length_drop]
  have hb : uint64 (baseLength input) = baseLength input := Nat.mod_eq_of_lt (by unfold two64; omega)
  have hm : uint64 (modulusLength input) = modulusLength input := Nat.mod_eq_of_lt (by unfold two64; omega)
  have hmlt : modulusLength input < two64 / 2 := by unfold two64; omega
  rw [run_eq_compute, hb, hm]
  by_cases hzero : baseLength input = 0 ∧ modulusLength input = 0
  · rw [compute, if_pos hzero]
    refine ⟨_, rfl, ?_⟩
    have h0 : Eip198.modulus input = 0 := by
      rw [Eip198.modulus, hzero.2]
      rfl
    rw [Eip198.output, hzero.2, if_pos h0, toBytesN, toBytes_zero]
    rfl
  have hsum : baseLength input + exponentLength input < two64 := hfits.resolve_left hzero
  have he : uint64 (exponentLength input) = exponentLength input := Nat.mod_eq_of_lt (by omega)
  have hgetBase : getData (operands input) 0 (baseLength input) =
      .ok (extended input 96 (baseLength input)) := by
    rw [getData_field (by unfold two64; omega), extended_operands]
  obtain ⟨exp, hgetExp, hexp⟩ : ∃ out,
      getData (operands input) (baseLength input) (exponentLength input) = .ok out ∧ _ :=
    getData_eq (Nat.lt_of_le_of_lt (Nat.add_le_add_right (Nat.min_le_left _ _) _) hsum)
  have hgetMod : getData (operands input) (baseLength input + exponentLength input)
      (modulusLength input) =
        .ok (extended input (96 + baseLength input + exponentLength input) (modulusLength input)) := by
    have hend : min (baseLength input + exponentLength input) (operands input).length +
        modulusLength input < two64 := by
      unfold two64 at *
      omega
    obtain ⟨out, hget, hout⟩ := getData_eq hend
    rw [hget, hout hmlt, extended_operands, ← Nat.add_assoc]
  rw [he, compute, if_neg hzero, add64_of_lt hsum, hgetBase, hgetExp, hgetMod]
  refine ⟨_, rfl, ?_⟩
  simp only [Eip198.output]
  have hmodulus : ofBytes (extended input (96 + baseLength input + exponentLength input)
      (modulusLength input)) = Eip198.modulus input := rfl
  rw [hmodulus]
  by_cases h0 : Eip198.modulus input = 0
  · rw [if_pos (bitLen_eq_zero.2 h0), if_pos h0]
    rw [← leftPadBytes_toBytes hmlt, toBytes_zero]
  · rw [if_neg (mt bitLen_eq_zero.1 h0), if_neg h0]
    -- a modulus other than zero lies in the input, and so does the exponent
    have hin : 96 + baseLength input + exponentLength input < input.length := by
      by_contra hge
      refine h0 ?_
      rw [Eip198.modulus, field_past (by omega)]
    rw [← leftPadBytes_toBytes hmlt, hexp (by omega), extended_operands]
    simp only [Eip198.base, Eip198.exponent, Eip198.field]

/-- Gas and result are those of EIP-198, and the memory is linear in the gas,
where the base and the exponent end before 2^64. -/
theorem modexp_exact (input : Bytes) (hlen : input.length < two64 / 2) :
    requiredGas input = .ok (min (price input) (two64 - 1)) ∧
    (∀ out, run input = .ok out → out.made ≤ 105 * price input + 165) ∧
    (price input < two64 - 1 → Fits input →
      max (baseLength input) (modulusLength input) < two64 ∧
      ∃ out, run input = .ok out ∧ out.ret = Eip198.output input) ∧
    (price input < 7 * 10 ^ 18 → Fits input) := by
  refine ⟨requiredGas_eq hlen, fun out h => run_made_le h, fun hprice hfits => ?_, fits_of_price_lt⟩
  have hlt : price input < two64 := by omega
  have hwidth := width_lt hlt
  rw [Nat.max_comm]
  exact ⟨Nat.lt_trans hwidth (by decide), run_eq hlen hlt hfits⟩

/-- An input with the three lengths, each below 2^72. -/
def lengths (base exponent modulus : Nat) (operands : Bytes) : Bytes :=
  let word (n : Nat) := List.replicate 23 0 ++ ((List.range 9).reverse.map fun i => UInt8.ofNat (n / 256 ^ i))
  word base ++ word exponent ++ word modulus ++ operands

/-- 3 ^ 2 modulo 5, for nothing. -/
theorem modexp_exact_small :
    let input := lengths 1 1 1 [3, 2, 5]
    input.length < two64 / 2 ∧ requiredGas input = .ok 0 ∧ ∃ out, run input = .ok out ∧ out.ret = [4] := by
  have hprice : price (lengths 1 1 1 [3, 2, 5]) = 0 := by decide +kernel
  have hexact := modexp_exact (lengths 1 1 1 [3, 2, 5]) (by decide)
  obtain ⟨out, hrun, hret⟩ := (hexact.2.2.1 (by rw [hprice]; decide) (hexact.2.2.2 (by rw [hprice]; decide))).2
  refine ⟨by decide, ?_, out, hrun, ?_⟩
  · rw [hexact.1, hprice]
    rfl
  · rw [hret]
    decide +kernel

/-- A price below the saturation at which a length is truncated, and one at
which an offset wraps around and the slice is out of range. -/
theorem modexp_truncates :
    (price (lengths 1 (2 ^ 64) 1 [2, 3]) < two64 - 1 ∧ Eip198.output (lengths 1 (2 ^ 64) 1 [2, 3]) = [0] ∧
      run (lengths 1 (2 ^ 64) 1 [2, 3]) = .ok ⟨[1], 5⟩) ∧
    price (lengths 1 (2 ^ 64 - 1) 1 [2, 3]) < two64 - 1 ∧
      run (lengths 1 (2 ^ 64 - 1) 1 [2, 3]) = .fault .bounds := by
  refine ⟨⟨by decide +kernel, by decide +kernel, by decide +kernel⟩, by decide +kernel, by decide +kernel⟩

end BigModExp

end NdnGeth.Vm
