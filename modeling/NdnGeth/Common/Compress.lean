/-
Compression of sparse bytes (`common/bitutil/compress.go`).

The bytes that are not zero stand after a set of bits that says where they are,
and the bits are bytes that are compressed again. The reader checks that each
bit has its byte, that the byte is not zero and that it has a place.

Both directions meet in what the bits of the set say of the data: `gather_spec`
for the writer, `Scattered` for the reader. A list of bytes is all that is left
of a slice; that a target is too large to be allocated is not in the model.
-/
import NdnGeth.Lib.Result
import Mathlib.Data.Nat.Bitwise

namespace NdnGeth.Bitutil

open Lib (Result)

abbrev Bytes := List UInt8

/-- The errors of the reader, and the panic of an access out of range. -/
inductive Stop
  | missingData
  | unreferencedData
  | exceededTarget
  | zeroContent
  | outOfRange
  deriving DecidableEq

def load (b : Bytes) (i : Nat) : Result Stop UInt8 :=
  if i < b.length then .ok (b.getD i 0) else .fault .outOfRange

def store (b : Bytes) (i : Nat) (x : UInt8) : Result Stop Bytes :=
  if i < b.length then .ok (b.set i x) else .fault .outOfRange

/-- The bit of a place in its byte of the set, the highest first. -/
def mask (i : Nat) : UInt8 := 1 <<< UInt8.ofNat (7 - i % 8)

def mark (bitset : Bytes) (i : Nat) : Bytes := bitset.modify (i / 8) (· ||| mask i)

/-- The loop of `bitsetEncodeBytes` over the data, from a place on. -/
def gather : (i : Nat) → (data : Bytes) → Bytes × Bytes → Bytes × Bytes
  | _, [], s => s
  | i, b :: data, (nonZeroBitset, nonZeroBytes) =>
    if b ≠ 0 then gather (i + 1) data (mark nonZeroBitset i, nonZeroBytes ++ [b])
    else gather (i + 1) data (nonZeroBitset, nonZeroBytes)

def zeros (n : Nat) : Bytes := List.replicate n 0

def nonZeroBitset (data : Bytes) : Bytes := (gather 0 data (zeros ((data.length + 7) / 8), [])).1

def nonZeroBytes (data : Bytes) : Bytes := (gather 0 data (zeros ((data.length + 7) / 8), [])).2

@[simp] theorem length_gather (i : Nat) (data : Bytes) (s : Bytes × Bytes) : (gather i data s).1.length = s.1.length := by
  induction data generalizing i s with
  | nil => rfl
  | cons b data ih =>
    rw [gather]
    split
    · rw [ih, mark, List.length_modify]
    · exact ih _ _

@[simp] theorem length_nonZeroBitset (data : Bytes) : (nonZeroBitset data).length = (data.length + 7) / 8 := by
  simp [nonZeroBitset, zeros]

def bitsetEncodeBytes (data : Bytes) : Bytes :=
  if data.length = 0 then []
  else if data.length = 1 then
    if data.getD 0 0 = 0 then [] else data
  else if (nonZeroBytes data).length = 0 then []
  else bitsetEncodeBytes (nonZeroBitset data) ++ nonZeroBytes data
termination_by data.length
decreasing_by rw [length_nonZeroBitset]; omega

def compressBytes (data : Bytes) : Bytes :=
  if (bitsetEncodeBytes data).length < data.length then bitsetEncodeBytes data else data

/-- The loop of `bitsetDecodePartialBytes`, for so many more places. -/
def scatter (data nonZeroBitset : Bytes) : (rounds : Nat) → (i ptr : Nat) → (decomp : Bytes) → Result Stop (Bytes × Nat)
  | 0, _, ptr, decomp => .ok (decomp, ptr)
  | rounds + 1, i, ptr, decomp => do
    let bits ← load nonZeroBitset (i / 8)
    if bits &&& mask i ≠ 0 then
      if ptr ≥ data.length then .fault .missingData
      else if i ≥ decomp.length then .fault .exceededTarget
      else do
        let b ← load data ptr
        if b = 0 then .fault .zeroContent
        else do
          let decomp ← store decomp i b
          scatter data nonZeroBitset rounds (i + 1) (ptr + 1) decomp
    else scatter data nonZeroBitset rounds (i + 1) ptr decomp

def bitsetDecodePartialBytes (data : Bytes) (target : Nat) : Result Stop (Bytes × Nat) :=
  if target = 0 then .ok ([], 0)
  else if data.length = 0 then .ok (zeros target, 0)
  else if target = 1 then do
    let b ← load data 0
    let decomp ← store (zeros target) 0 b
    if b ≠ 0 then .ok (decomp, 1) else .ok (decomp, 0)
  else do
    let (nonZeroBitset, ptr) ← bitsetDecodePartialBytes data ((target + 7) / 8)
    scatter data nonZeroBitset (8 * nonZeroBitset.length) 0 ptr (zeros target)
termination_by target
decreasing_by omega

def bitsetDecodeBytes (data : Bytes) (target : Nat) : Result Stop Bytes := do
  let (out, size) ← bitsetDecodePartialBytes data target
  if size ≠ data.length then .fault .unreferencedData else .ok out

def decompressBytes (data : Bytes) (target : Int) : Result Stop Bytes :=
  if data.length > target then .fault .exceededTarget
  else if data.length = target then .ok data
  else bitsetDecodeBytes data target.toNat

/-! ## Bits of a set -/

def bit (bitset : Bytes) (i : Nat) : Bool := bitset.getD (i / 8) 0 &&& mask i != 0

theorem toNat_mask (i : Nat) : (mask i).toNat = 2 ^ (7 - i % 8) := by
  have hlt : 2 ^ (7 - i % 8) < 2 ^ 8 := Nat.pow_lt_pow_right (by decide) (by omega)
  rw [mask, UInt8.toNat_shiftLeft, UInt8.toNat_ofNat', UInt8.toNat_one, Nat.shiftLeft_eq, one_mul,
    Nat.mod_eq_of_lt (show 7 - i % 8 < 2 ^ 8 by omega), Nat.mod_eq_of_lt (show 7 - i % 8 < 8 by omega),
    Nat.mod_eq_of_lt hlt]

theorem and_mask_ne_zero (b : UInt8) (i : Nat) : (b &&& mask i ≠ 0) ↔ b.toNat.testBit (7 - i % 8) = true := by
  rw [ne_eq, ← UInt8.toNat_inj, UInt8.toNat_and, toNat_mask, Nat.and_two_pow]
  cases b.toNat.testBit (7 - i % 8) with
  | false => simp
  | true => simp

theorem bit_eq (bitset : Bytes) (i : Nat) : bit bitset i = (bitset.getD (i / 8) 0).toNat.testBit (7 - i % 8) := by
  rw [bit, Bool.eq_iff_iff, bne_iff_ne]
  exact and_mask_ne_zero _ i

theorem bit_mark {bitset : Bytes} {i : Nat} (hi : i / 8 < bitset.length) (j : Nat) :
    bit (mark bitset i) j = (bit bitset j || decide (j = i)) := by
  rw [bit_eq, bit_eq, mark]
  by_cases hbyte : j / 8 = i / 8
  · have hget : (bitset.modify (i / 8) (· ||| mask i)).getD (j / 8) 0 = bitset.getD (j / 8) 0 ||| mask i := by
      simp [List.getD_eq_getElem?_getD, hbyte, hi]
    rw [hget, UInt8.toNat_or, Nat.testBit_or, toNat_mask, Nat.testBit_two_pow]
    congr 1
    rw [decide_eq_decide]
    omega
  · have hget : (bitset.modify (i / 8) (· ||| mask i)).getD (j / 8) 0 = bitset.getD (j / 8) 0 := by
      simp [List.getD_eq_getElem?_getD, Ne.symm hbyte]
    have hne : j ≠ i := fun h => hbyte (by rw [h])
    rw [hget, decide_eq_false hne, Bool.or_false]

theorem getD_zeros (n i : Nat) : (zeros n).getD i 0 = 0 := by
  rw [zeros, List.getD_eq_getElem?_getD, List.getElem?_replicate]
  split <;> rfl

@[simp] theorem bit_zeros (n i : Nat) : bit (zeros n) i = false := by
  rw [bit_eq, getD_zeros, UInt8.toNat_zero, Nat.zero_testBit]

theorem bit_ext {a b : Bytes} (hlen : a.length = b.length) (h : ∀ i, bit a i = bit b i) : a = b := by
  refine List.ext_getElem hlen fun n ha hb => UInt8.toNat_inj.1 (Nat.eq_of_testBit_eq fun k => ?_)
  by_cases hk : k < 8
  · have hbit := h (8 * n + (7 - k))
    have hbyte : (8 * n + (7 - k)) / 8 = n := by omega
    have hplace : 7 - (8 * n + (7 - k)) % 8 = k := by omega
    rw [bit_eq, bit_eq, hbyte, hplace, List.getD_eq_getElem _ _ ha, List.getD_eq_getElem _ _ hb] at hbit
    exact hbit
  · have hlt : ∀ x : UInt8, x.toNat < 2 ^ k := fun x =>
      Nat.lt_of_lt_of_le x.toNat_lt (Nat.pow_le_pow_right (by decide) (Nat.le_of_not_lt hk))
    rw [Nat.testBit_lt_two_pow (hlt _), Nat.testBit_lt_two_pow (hlt _)]

/-! ## Writing -/

def present (data : Bytes) (i : Nat) : Bool := data.getD i 0 != 0

theorem gather_spec (data : Bytes) : ∀ (i : Nat) (bitset bytes : Bytes), i + data.length ≤ 8 * bitset.length →
    (gather i data (bitset, bytes)).2 = bytes ++ data.filter (· ≠ 0) ∧
      ∀ j, bit (gather i data (bitset, bytes)).1 j = (bit bitset j || (decide (i ≤ j) && present data (j - i))) := by
  induction data with
  | nil =>
    intro i bitset bytes _
    simp [gather, present]
  | cons b data ih =>
    intro i bitset bytes hlen
    rw [List.length_cons] at hlen
    have hshift : ∀ j, i ≠ j → (decide (i + 1 ≤ j) && present data (j - (i + 1))) =
        (decide (i ≤ j) && present (b :: data) (j - i)) := by
      intro j hne
      by_cases hj : i + 1 ≤ j
      · have hsucc : j - i = (j - (i + 1)) + 1 := by omega
        rw [decide_eq_true hj, decide_eq_true (show i ≤ j by omega), hsucc]
        rfl
      · rw [decide_eq_false hj, decide_eq_false (show ¬ i ≤ j by omega), Bool.false_and, Bool.false_and]
    rw [gather]
    split
    · next hb =>
      obtain ⟨hbytes, hbits⟩ := ih (i + 1) (mark bitset i) (bytes ++ [b])
        (by rw [mark, List.length_modify]; omega)
      refine ⟨by simp [hbytes, hb], fun j => ?_⟩
      rw [hbits, bit_mark (by omega)]
      by_cases hne : i = j
      · subst hne
        simp [present, hb]
      · rw [hshift j hne, decide_eq_false (Ne.symm hne), Bool.or_false]
    · next hb =>
      have hzero : b = 0 := not_not.1 hb
      obtain ⟨hbytes, hbits⟩ := ih (i + 1) bitset bytes (by omega)
      refine ⟨by simp [hbytes, hzero], fun j => ?_⟩
      rw [hbits]
      by_cases hne : i = j
      · subst hne
        rw [decide_eq_false (Nat.not_succ_le_self i), hzero]
        simp [present]
      · rw [hshift j hne]

theorem nonZeroBytes_eq (data : Bytes) : nonZeroBytes data = data.filter (· ≠ 0) :=
  (gather_spec data 0 _ [] (by simp [zeros]; omega)).1

theorem bit_nonZeroBitset (data : Bytes) (i : Nat) : bit (nonZeroBitset data) i = present data i := by
  rw [nonZeroBitset, (gather_spec data 0 _ [] (by simp [zeros]; omega)).2 i]
  simp

theorem bitsetEncodeBytes_of_filter {data : Bytes} (h : data.filter (· ≠ 0) = []) : bitsetEncodeBytes data = [] := by
  unfold bitsetEncodeBytes
  rw [nonZeroBytes_eq, h]
  split
  · rfl
  · split
    · next hone =>
      obtain ⟨b, rfl⟩ := List.length_eq_one_iff.1 hone
      have hb : b = 0 := by simpa using h
      simp [hb]
    · rfl

theorem filter_zeros (n : Nat) : (zeros n).filter (· ≠ 0) = [] := by
  simp [zeros]

/-! ## Reading -/

section
variable {data bitset : Bytes}

variable {b : Bytes} {i : Nat}

theorem load_eq (h : i < b.length) : load b i = .ok (b.getD i 0) := if_pos h

theorem store_eq (x : UInt8) (h : i < b.length) : store b i x = .ok (b.set i x) := if_pos h

theorem getD_set (x : UInt8) (h : i < b.length) (j : Nat) :
    (b.set i x).getD j 0 = if i = j then x else b.getD j 0 := by
  rw [List.getD_eq_getElem?_getD, List.getElem?_set, if_pos h, List.getD_eq_getElem?_getD]
  split <;> rfl

theorem getD_ext {a b : Bytes} (hlen : a.length = b.length) (h : ∀ i, a.getD i 0 = b.getD i 0) : a = b := by
  refine List.ext_getElem hlen fun n ha hb => ?_
  have hn := h n
  rw [List.getD_eq_getElem _ _ ha, List.getD_eq_getElem _ _ hb] at hn
  exact hn

theorem filter_drop (b : Bytes) (i : Nat) :
    (b.drop i).filter (· ≠ 0) = (if present b i then [b.getD i 0] else []) ++ (b.drop (i + 1)).filter (· ≠ 0) := by
  by_cases hi : i < b.length
  · rw [List.drop_eq_getElem_cons hi, List.filter_cons, present, List.getD_eq_getElem _ _ hi]
    by_cases hb : b[i] = 0
    · simp [hb]
    · simp [hb]
  · have hget : b.getD i 0 = 0 := List.getD_eq_default _ _ (Nat.le_of_not_lt hi)
    rw [List.drop_eq_nil_of_le (Nat.le_of_not_lt hi), List.drop_eq_nil_of_le (by omega), present, hget]
    rfl

theorem drop_filter_eq_nil (h : ∀ j, i ≤ j → b.getD j 0 = 0) : (b.drop i).filter (· ≠ 0) = [] := by
  rw [List.filter_eq_nil_iff]
  intro x hx
  obtain ⟨j, hj, rfl⟩ := List.mem_iff_getElem.1 hx
  rw [List.length_drop] at hj
  have hzero := h (i + j) (by omega)
  rw [List.getD_eq_getElem _ _ (by omega)] at hzero
  rw [List.getElem_drop, hzero]
  decide

theorem scatter_succ {k i : Nat} (hi : i < 8 * bitset.length) (ptr : Nat) (decomp : Bytes) :
    scatter data bitset (k + 1) i ptr decomp =
      if bit bitset i then
        if ptr ≥ data.length then .fault .missingData
        else if i ≥ decomp.length then .fault .exceededTarget
        else if data.getD ptr 0 = 0 then .fault .zeroContent
        else scatter data bitset k (i + 1) (ptr + 1) (decomp.set i (data.getD ptr 0))
      else scatter data bitset k (i + 1) ptr decomp := by
  rw [scatter, load_eq (by omega), Result.ok_bind]
  simp only [bit, bne_iff_ne]
  split
  · split
    · rfl
    · next hptr =>
      split
      · rfl
      · next hlen =>
        rw [load_eq (by omega), Result.ok_bind, store_eq _ (by omega), Result.ok_bind]
  · rfl

/-- What the loop does from a place on: it reads the bytes of the set's bits
one after the other. -/
structure Scattered (data bitset : Bytes) (i k ptr : Nat) (decomp : Bytes) (r : Bytes × Nat) : Prop where
  length : r.1.length = decomp.length
  ptr_le : ptr ≤ r.2
  le_length : r.2 ≤ data.length
  before : ∀ j, j < i → r.1.getD j 0 = decomp.getD j 0
  bytes : (r.1.drop i).filter (· ≠ 0) = (data.drop ptr).take (r.2 - ptr)
  bits : ∀ j, i ≤ j → j < i + k → bit bitset j = present r.1 j

theorem Scattered.put {i k ptr : Nat} {decomp : Bytes} {r : Bytes × Nat} (hset : bit bitset i = true)
    (hptr : ptr < data.length) (hi : i < decomp.length) (hb : data.getD ptr 0 ≠ 0)
    (h : Scattered data bitset (i + 1) k (ptr + 1) (decomp.set i (data.getD ptr 0)) r) :
    Scattered data bitset i (k + 1) ptr decomp r := by
  have hhere : r.1.getD i 0 = data.getD ptr 0 := by rw [h.before i (by omega), getD_set _ hi, if_pos rfl]
  have hpresent : present r.1 i = true := by rw [present, hhere]; exact bne_iff_ne.2 hb
  have hle := h.ptr_le
  refine ⟨by rw [h.length, List.length_set], by omega, h.le_length, fun j hj => ?_, ?_, fun j hij hjk => ?_⟩
  · rw [h.before j (by omega), getD_set _ hi, if_neg (by omega)]
  · have hsub : r.2 - ptr = (r.2 - (ptr + 1)) + 1 := by omega
    rw [filter_drop, hpresent, if_pos rfl, h.bytes, hhere, List.drop_eq_getElem_cons hptr, hsub, List.take_succ_cons,
      List.getD_eq_getElem _ _ hptr]
    rfl
  · by_cases hne : j = i
    · rw [hne, hset, hpresent]
    · exact h.bits j (by omega) (by omega)

theorem Scattered.skip {i k ptr : Nat} {decomp : Bytes} {r : Bytes × Nat} (hclear : bit bitset i = false)
    (hi : decomp.getD i 0 = 0) (h : Scattered data bitset (i + 1) k ptr decomp r) :
    Scattered data bitset i (k + 1) ptr decomp r := by
  have hhere : present r.1 i = false := by rw [present, h.before i (by omega), hi]; rfl
  refine ⟨h.length, h.ptr_le, h.le_length, fun j hj => h.before j (by omega), ?_, fun j hij hjk => ?_⟩
  · rw [filter_drop, hhere, h.bytes]
    rfl
  · by_cases hne : j = i
    · rw [hne, hclear, hhere]
    · exact h.bits j (by omega) (by omega)

theorem scatter_sat (k : Nat) : ∀ (i ptr : Nat) (decomp : Bytes), i + k = 8 * bitset.length → ptr ≤ data.length →
    (∀ j, i ≤ j → decomp.getD j 0 = 0) →
    (scatter data bitset k i ptr decomp).Sat (Scattered data bitset i k ptr decomp) (· ≠ .outOfRange) False := by
  induction k with
  | zero =>
    intro i ptr decomp _ hptr hzero
    refine ⟨rfl, Nat.le_refl _, hptr, fun _ _ => rfl, ?_, fun j hij hj => by omega⟩
    rw [drop_filter_eq_nil hzero, Nat.sub_self, List.take_zero]
  | succ k ih =>
    intro i ptr decomp hlen hptr hzero
    rw [scatter_succ (by omega)]
    split
    · next hset =>
      split
      · exact Stop.noConfusion
      · split
        · exact Stop.noConfusion
        · split
          · exact Stop.noConfusion
          · next hroom hplace hb =>
            refine (ih (i + 1) (ptr + 1) _ (by omega) (by omega) fun j hj => ?_).mono fun r hr =>
              hr.put hset (by omega) (by omega) hb
            rw [getD_set _ (by omega), if_neg (by omega)]
            exact hzero j (by omega)
    · next hclear =>
      exact (ih (i + 1) ptr decomp (by omega) hptr fun j hj => hzero j (by omega)).mono fun r hr =>
        hr.skip (Bool.eq_false_iff.2 hclear) (hzero i (Nat.le_refl i))

theorem scatter_eq {d : Bytes} (rest : Bytes) (hbits : ∀ i, bit bitset i = present d i) (hroom : d.length ≤ 8 * bitset.length)
    (k : Nat) : ∀ (i ptr : Nat) (decomp : Bytes), i + k = 8 * bitset.length → decomp.length = d.length →
    (∀ j, j < i → decomp.getD j 0 = d.getD j 0) → (∀ j, i ≤ j → decomp.getD j 0 = 0) →
    data.drop ptr = (d.drop i).filter (· ≠ 0) ++ rest →
    scatter data bitset k i ptr decomp = .ok (d, ptr + ((d.drop i).filter (· ≠ 0)).length) := by
  induction k with
  | zero =>
    intro i ptr decomp hi hlen hbefore hafter _
    have hd : decomp = d := by
      refine getD_ext hlen fun j => ?_
      by_cases hj : j < i
      · exact hbefore j hj
      · rw [hafter j (by omega), List.getD_eq_default _ _ (show d.length ≤ j by omega)]
    rw [scatter, hd, List.drop_eq_nil_of_le (by omega)]
    rfl
  | succ k ih =>
    intro i ptr decomp hi hlen hbefore hafter hdata
    rw [scatter_succ (by omega), hbits]
    rw [filter_drop] at hdata ⊢
    split
    · next hset =>
      rw [if_pos hset] at hdata
      have hptr : ptr < data.length := by
        have hlength := congrArg List.length hdata
        simp only [List.length_drop, List.length_append, List.length_cons] at hlength
        omega
      rw [List.drop_eq_getElem_cons hptr, List.append_assoc, List.singleton_append, List.cons.injEq] at hdata
      have hplace : i < d.length := by
        refine Nat.lt_of_not_le fun h => ?_
        rw [present, List.getD_eq_default _ _ h] at hset
        exact absurd hset (by decide)
      have hb : data.getD ptr 0 = d.getD i 0 := by rw [List.getD_eq_getElem _ _ hptr, hdata.1]
      have hne : d.getD i 0 ≠ 0 := bne_iff_ne.1 hset
      rw [if_neg (Nat.not_le.2 hptr), if_neg (by omega), hb, if_neg hne, ih (i + 1) (ptr + 1) _ (by omega) (by simp [hlen])
        (fun j hj => ?_) (fun j hj => ?_) hdata.2]
      · rw [List.length_append, List.length_singleton, Nat.add_assoc]
      · rw [getD_set _ (by omega)]
        split
        · next heq => rw [heq]
        · exact hbefore j (by omega)
      · rw [getD_set _ (by omega), if_neg (by omega)]
        exact hafter j (by omega)
    · next hclear =>
      rw [if_neg hclear] at hdata
      have hzero : d.getD i 0 = 0 := by
        have hfalse := Bool.eq_false_iff.2 hclear
        rw [present, bne_eq_false_iff_eq] at hfalse
        exact hfalse
      refine ih (i + 1) ptr decomp (by omega) hlen (fun j hj => ?_) (fun j hj => hafter j (by omega)) hdata
      by_cases hj' : j < i
      · exact hbefore j hj'
      · rw [show j = i by omega, hafter i (Nat.le_refl i), hzero]

end

/-! ## What is read is what was written -/

theorem bitsetEncodeBytes_scattered {data bitset : Bytes} {target ptr : Nat} {r : Bytes × Nat} (htarget : 2 ≤ target)
    (hlen : bitset.length = (target + 7) / 8) (henc : bitsetEncodeBytes bitset = data.take ptr)
    (h : Scattered data bitset 0 (8 * bitset.length) ptr (zeros target) r) :
    bitsetEncodeBytes r.1 = data.take r.2 := by
  have hout : r.1.length = target := by simp [h.length, zeros]
  have hbits : ∀ i, bit bitset i = present r.1 i := by
    intro i
    by_cases hi : i < 8 * bitset.length
    · exact h.bits i (Nat.zero_le _) (by omega)
    · rw [bit, present, List.getD_eq_default _ _ (show bitset.length ≤ i / 8 by omega),
        List.getD_eq_default _ _ (show r.1.length ≤ i by omega), UInt8.zero_and]
  have hset : nonZeroBitset r.1 = bitset :=
    bit_ext (by rw [length_nonZeroBitset, hout, hlen]) fun i => by rw [bit_nonZeroBitset, hbits]
  have hbytes : r.1.filter (· ≠ 0) = (data.drop ptr).take (r.2 - ptr) := by simpa using h.bytes
  have htake : data.take r.2 = data.take ptr ++ r.1.filter (· ≠ 0) := by
    rw [hbytes, ← List.take_add, Nat.add_sub_cancel' h.ptr_le]
  by_cases hnil : r.1.filter (· ≠ 0) = []
  · -- no bit is set, so the set itself was written as nothing
    have hzeros : bitset = zeros bitset.length := by
      refine bit_ext (by simp [zeros]) fun i => ?_
      rw [hbits, bit_zeros, present, bne_eq_false_iff_eq]
      refine Classical.byContradiction fun hne => ?_
      have hi : i < r.1.length := Nat.lt_of_not_le fun hle => hne (List.getD_eq_default _ _ hle)
      rw [List.getD_eq_getElem _ _ hi] at hne
      exact absurd hnil (List.ne_nil_of_mem (List.mem_filter.2 ⟨List.getElem_mem hi, by simpa using hne⟩))
    rw [hzeros, bitsetEncodeBytes_of_filter (filter_zeros _)] at henc
    rw [bitsetEncodeBytes_of_filter hnil, htake, hnil, ← henc, List.append_nil]
  · have hpos : (nonZeroBytes r.1).length ≠ 0 := by rw [nonZeroBytes_eq, ne_eq, List.length_eq_zero_iff]; exact hnil
    unfold bitsetEncodeBytes
    rw [if_neg (by omega), if_neg (by omega), if_neg hpos, hset, nonZeroBytes_eq, henc, htake]

theorem bitsetDecodePartialBytes_sat (data : Bytes) (target : Nat) :
    (bitsetDecodePartialBytes data target).Sat
      (fun r => r.1.length = target ∧ r.2 ≤ data.length ∧ bitsetEncodeBytes r.1 = data.take r.2)
      (· ≠ .outOfRange) False := by
  induction target using Nat.strong_induction_on with
  | _ target ih =>
    unfold bitsetDecodePartialBytes
    split
    · next hzero => exact ⟨hzero.symm, Nat.zero_le _, bitsetEncodeBytes_of_filter rfl⟩
    · split
      · exact ⟨by simp [zeros], Nat.zero_le _, bitsetEncodeBytes_of_filter (filter_zeros _)⟩
      · next hdata =>
        split
        · next hone =>
          obtain ⟨b, data, rfl⟩ := List.length_pos_iff_exists_cons.1 (Nat.pos_of_ne_zero hdata)
          subst hone
          change (if b ≠ 0 then Result.ok ([b], 1) else Result.ok ([b], 0) : Result Stop _).Sat _ _ _
          split
          · next hb => exact ⟨rfl, by simp, by simp [bitsetEncodeBytes, hb]⟩
          · next hb => exact ⟨rfl, by simp, bitsetEncodeBytes_of_filter (by simpa using hb)⟩
        · next htarget =>
          refine (ih ((target + 7) / 8) (by omega)).bind ?_
          intro r hr
          obtain ⟨hlen, hptr, henc⟩ := hr
          refine (scatter_sat _ 0 r.2 _ (by omega) hptr fun j _ => getD_zeros _ _).mono fun out hout => ?_
          exact ⟨by simp [hout.length, zeros], hout.le_length,
            bitsetEncodeBytes_scattered (by omega) hlen henc hout⟩

/-- What was written, with more after it, is read up to its end; with nothing
written (all bytes zero) the reader would take what follows for it. -/
theorem bitsetDecodePartialBytes_append {d : Bytes} (hd : d.filter (· ≠ 0) ≠ []) (rest : Bytes) :
    bitsetDecodePartialBytes (bitsetEncodeBytes d ++ rest) d.length = .ok (d, (bitsetEncodeBytes d).length) := by
  induction hn : d.length using Nat.strong_induction_on generalizing d rest with
  | _ n ih =>
    have hbytes : (nonZeroBytes d).length ≠ 0 := by rw [nonZeroBytes_eq, ne_eq, List.length_eq_zero_iff]; exact hd
    have hpos : d.length ≠ 0 := by
      intro hzero
      rw [List.length_eq_zero_iff.1 hzero] at hd
      exact hd rfl
    by_cases hone : d.length = 1
    · obtain ⟨b, rfl⟩ := List.length_eq_one_iff.1 hone
      have hb : b ≠ 0 := by simpa using hd
      subst hn
      have henc : bitsetEncodeBytes [b] = [b] := by simp [bitsetEncodeBytes, hb]
      rw [henc]
      simp [bitsetDecodePartialBytes, load, store, zeros, hb]
    · have henc : bitsetEncodeBytes d = bitsetEncodeBytes (nonZeroBitset d) ++ nonZeroBytes d := by
        conv_lhs => unfold bitsetEncodeBytes
        rw [if_neg hpos, if_neg hone, if_neg hbytes]
      have hset : (nonZeroBitset d).filter (· ≠ 0) ≠ [] := by
        intro hnil
        obtain ⟨x, hx⟩ := List.exists_mem_of_ne_nil _ hd
        obtain ⟨hmem, hx⟩ := List.mem_filter.1 hx
        obtain ⟨i, hi, rfl⟩ := List.mem_iff_getElem.1 hmem
        have hbit : bit (nonZeroBitset d) i = true := by
          rw [bit_nonZeroBitset, present, List.getD_eq_getElem _ _ hi]
          simpa using hx
        have hbyte : i / 8 < (nonZeroBitset d).length := by rw [length_nonZeroBitset]; omega
        have hzero : (nonZeroBitset d)[i / 8] = 0 := by
          simpa using List.filter_eq_nil_iff.1 hnil _ (List.getElem_mem hbyte)
        rw [bit, List.getD_eq_getElem _ _ hbyte, hzero, UInt8.zero_and] at hbit
        exact absurd hbit (by decide)
      have hrec := ih _ (by rw [length_nonZeroBitset]; omega) hset (nonZeroBytes d ++ rest) rfl
      rw [length_nonZeroBitset, ← List.append_assoc, ← henc, hn] at hrec
      have hdata : (bitsetEncodeBytes d ++ rest).length ≠ 0 := by
        rw [henc, List.length_append, List.length_append]
        omega
      unfold bitsetDecodePartialBytes
      rw [if_neg (hn ▸ hpos), if_neg hdata, if_neg (hn ▸ hone), hrec, Result.ok_bind]
      change scatter _ _ _ _ _ _ = _
      rw [scatter_eq rest (bit_nonZeroBitset d) (by rw [length_nonZeroBitset]; omega) _ 0 _ _ (Nat.zero_add _)
        (by simp [zeros, hn]) (fun j hj => absurd hj (Nat.not_lt_zero j)) (fun j _ => getD_zeros _ _) ?_]
      · rw [henc, List.length_append, nonZeroBytes_eq, List.drop_zero]
      · rw [henc, nonZeroBytes_eq, List.append_assoc, List.drop_left, List.drop_zero]

theorem bitsetDecodeBytes_encode (d : Bytes) : bitsetDecodeBytes (bitsetEncodeBytes d) d.length = .ok d := by
  by_cases hd : d.filter (· ≠ 0) = []
  · have hzeros : d = zeros d.length := by
      refine List.eq_replicate_iff.2 ⟨rfl, fun b hb => ?_⟩
      simpa using List.filter_eq_nil_iff.1 hd b hb
    rw [bitsetDecodeBytes, bitsetEncodeBytes_of_filter hd, bitsetDecodePartialBytes]
    split
    · next hzero => rw [List.length_eq_zero_iff.1 hzero]; rfl
    · exact congrArg Result.ok hzeros.symm
  · have h := bitsetDecodePartialBytes_append hd []
    rw [List.append_nil] at h
    rw [bitsetDecodeBytes, h, Result.ok_bind]
    exact if_neg (not_not.2 rfl)

theorem bitsetDecodeBytes_sat (c : Bytes) (target : Nat) :
    (bitsetDecodeBytes c target).Sat (fun out => out.length = target ∧ bitsetEncodeBytes out = c)
      (· ≠ .outOfRange) False := by
  refine (bitsetDecodePartialBytes_sat c target).bind ?_
  intro r hr
  change (if r.2 ≠ c.length then Result.fault .unreferencedData else Result.ok r.1 : Result Stop Bytes).Sat _ _ _
  split
  · exact Stop.noConfusion
  · next hsize =>
    have hread := hr.2.2
    rw [not_not.1 hsize, List.take_length] at hread
    exact ⟨hr.1, hread⟩

/-- What is compressed is read back. The reader makes no access out of range,
and what it accepts below the target's length is the one way to write its
output. -/
theorem decompressBytes_lossless_canonical :
    (∀ d : Bytes, decompressBytes (compressBytes d) d.length = .ok d) ∧
      (∀ (c : Bytes) (target : Int), (decompressBytes c target).Sat
        (fun out => out.length = target ∧ (c.length < target → bitsetEncodeBytes out = c)) (· ≠ .outOfRange) False) ∧
      ∀ (c₁ c₂ : Bytes) (target : Int) (out : Bytes), c₁.length < target → c₂.length < target →
        decompressBytes c₁ target = .ok out → decompressBytes c₂ target = .ok out → c₁ = c₂ := by
  have hsat : ∀ (c : Bytes) (target : Int), (decompressBytes c target).Sat
      (fun out => out.length = target ∧ (c.length < target → bitsetEncodeBytes out = c)) (· ≠ .outOfRange) False := by
    intro c target
    unfold decompressBytes
    split
    · exact Stop.noConfusion
    · split
      · next heq => exact ⟨heq, fun hlt => by omega⟩
      · refine (bitsetDecodeBytes_sat c target.toNat).mono fun out hout => ⟨?_, fun _ => hout.2⟩
        rw [hout.1]
        omega
  refine ⟨fun d => ?_, hsat, fun c₁ c₂ target out hlt₁ hlt₂ h₁ h₂ => ?_⟩
  · unfold compressBytes
    split
    · next hlt =>
      rw [decompressBytes, if_neg (by omega), if_neg (by omega)]
      exact bitsetDecodeBytes_encode d
    · rw [decompressBytes, if_neg (Int.lt_irrefl _), if_pos rfl]
  · exact (((hsat c₁ target).of_ok h₁).2 hlt₁).symm.trans (((hsat c₂ target).of_ok h₂).2 hlt₂)

end NdnGeth.Bitutil
