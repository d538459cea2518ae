/-
Bloom filters of logs (`core/types/bloom9.go`). Three bits of 2048 stand for a
byte string, taken from its hash. `CreateBloom` and `BloomLookup` hash the bytes
of an address or a topic; `Add`, `Test` and `TestBytes` take a number, and hash
its bytes without leading zeros.

The hash is a parameter; `Lib.Keccak.keccak256` is the one of the source.

`testBit_bloom9`: the bits of a value. `testBytes_createBloom_iff`: what
`TestBytes` finds in the filter of a block. `blooms_never_miss`: nothing that was
added is missed, but a value of a log that starts with a zero byte is looked for
under another hash by `TestBytes`.
-/
import Mathlib.Data.Nat.Bitwise
import NdnGeth.Lib.Keccak
import NdnGeth.State.Statedb

namespace NdnGeth.Core

open Lib.Rlp (Bytes ofBytes toBytes toBytesN)
open State (Log)

def bloomByteLength : Nat := 256

structure Bloom where
  bytes : Bytes
  size : bytes.length = bloomByteLength
  deriving DecidableEq

/-- `Receipt`; the filter reads its logs only. -/
structure Receipt where
  logs : List Log

/-- The bit that two bytes of a hash choose. -/
def bloomBit (h : Bytes) (i : Nat) : Nat := ((h.getD (i + 1) 0).toNat + (h.getD i 0).toNat <<< 8) &&& 2047

def bloom9 (hash : Bytes → Bytes) (b : Bytes) : Nat :=
  [0, 2, 4].foldl (fun r i => r ||| 1 <<< bloomBit (hash b) i) 0

namespace Bloom

/-- `SetBytes`: nothing where it panics. -/
def setBytes (b : Bloom) (d : Bytes) : Option Bloom :=
  if h : d.length ≤ bloomByteLength then
    some ⟨b.bytes.take (bloomByteLength - d.length) ++ d, by
      have := b.size
      simp only [List.length_append, List.length_take]
      omega⟩
  else none

def big (b : Bloom) : Nat := ofBytes b.bytes

def zero : Bloom := ⟨List.replicate bloomByteLength 0, by simp⟩

variable (hash : Bytes → Bytes)

def add (b : Bloom) (d : Nat) : Option Bloom := b.setBytes (toBytes (b.big ||| bloom9 hash (toBytes d)))

/-- `BloomLookup`, of the bytes of a topic. -/
def lookup (b : Bloom) (topic : Bytes) : Bool :=
  let cmp := bloom9 hash topic
  b.big &&& cmp == cmp

def test (b : Bloom) (n : Nat) : Bool := b.lookup hash (toBytes n)

def testBytes (b : Bloom) (d : Bytes) : Bool := b.test hash (ofBytes d)

end Bloom

def bytesToBloom (b : Bytes) : Option Bloom := Bloom.zero.setBytes b

def logsBloom (hash : Bytes → Bytes) (logs : List Log) : Nat :=
  logs.foldl (fun bin log =>
    log.topics.foldl (fun bin b => bin ||| bloom9 hash (toBytesN 32 b.toNat))
      (bin ||| bloom9 hash (toBytesN 20 log.address.toNat))) 0

def createBloom (hash : Bytes → Bytes) (receipts : List Receipt) : Option Bloom :=
  bytesToBloom (toBytes (receipts.foldl (fun bin r => bin ||| logsBloom hash r.logs) 0))

/-! ## Bits -/

variable {hash : Bytes → Bytes}

def bloomBits (hash : Bytes → Bytes) (b : Bytes) : List Nat := [0, 2, 4].map (bloomBit (hash b))

theorem bloomBit_lt (h : Bytes) (i : Nat) : bloomBit h i < 2048 := Nat.lt_succ_of_le Nat.and_le_right

theorem testBit_foldl_or {α : Type} (f : α → Nat) (l : List α) (z j : Nat) :
    (l.foldl (fun bin x => bin ||| f x) z).testBit j = true ↔ z.testBit j = true ∨ ∃ x ∈ l, (f x).testBit j = true := by
  induction l generalizing z with
  | nil => simp
  | cons x l ih => simp [ih, Nat.testBit_or, or_assoc]

theorem testBit_bloom9 (b : Bytes) (j : Nat) : (bloom9 hash b).testBit j = true ↔ j ∈ bloomBits hash b := by
  unfold bloom9 bloomBits
  rw [testBit_foldl_or]
  simp [Nat.one_shiftLeft, Nat.testBit_two_pow, eq_comm]

theorem pow_bloomByteLength : 256 ^ bloomByteLength = 2 ^ (8 * bloomByteLength) := by rw [Nat.pow_mul]

theorem lt_of_bits {n : Nat} (h : ∀ j, n.testBit j = true → j < 2048) : n < 256 ^ bloomByteLength := by
  rw [pow_bloomByteLength]
  refine Nat.lt_pow_two_of_testBit n fun j hj => ?_
  by_contra hne
  have := h j (by simpa using hne)
  unfold bloomByteLength at hj
  omega

theorem lt_of_mem_bloomBits {b : Bytes} {j : Nat} (h : j ∈ bloomBits hash b) : j < 2048 := by
  obtain ⟨i, -, rfl⟩ := List.mem_map.1 h
  exact bloomBit_lt _ _

namespace Bloom

theorem big_lt (b : Bloom) : b.big < 256 ^ bloomByteLength := by
  have h := Lib.Rlp.ofBytes_lt b.bytes
  rwa [b.size] at h

theorem big_zero : zero.big = 0 := by
  have h := Lib.Rlp.ofBytes_replicate_zero bloomByteLength []
  rwa [List.append_nil] at h

theorem setBytes_toBytes {b : Bloom} {n : Nat} (hle : b.big ≤ n) (hlt : n < 256 ^ bloomByteLength) :
    ∃ b', b.setBytes (toBytes n) = some b' ∧ b'.big = n := by
  have hlen := Lib.Rlp.toBytes_length_le hlt
  have hsize := b.size
  refine ⟨_, dif_pos hlen, ?_⟩
  -- the bytes that stay are zero, because the number of the filter fits into the others
  have hdrop : (b.bytes.drop (bloomByteLength - (toBytes n).length)).length = (toBytes n).length := by
    rw [List.length_drop]
    omega
  have hsplit := Lib.Rlp.ofBytes_append (b.bytes.take (bloomByteLength - (toBytes n).length))
    (b.bytes.drop (bloomByteLength - (toBytes n).length))
  rw [List.take_append_drop, hdrop] at hsplit
  have htop : ofBytes (b.bytes.take (bloomByteLength - (toBytes n).length)) = 0 := by
    by_contra hne
    have hn := Lib.Rlp.lt_pow_toBytes_length n
    have hmul := Nat.le_mul_of_pos_left (256 ^ (toBytes n).length) (Nat.pos_of_ne_zero hne)
    have hbig : b.big = ofBytes b.bytes := rfl
    omega
  show ofBytes (_ ++ toBytes n) = n
  rw [Lib.Rlp.ofBytes_append, htop, Nat.zero_mul, Nat.zero_add, Lib.Rlp.ofBytes_toBytes]

theorem lookup_iff {b : Bloom} {t : Bytes} : b.lookup hash t = true ↔ ∀ j ∈ bloomBits hash t, b.big.testBit j = true := by
  unfold lookup
  simp only [beq_iff_eq]
  constructor
  · intro h j hj
    have hbit := (testBit_bloom9 t j).2 hj
    rw [← h, Nat.testBit_and, Bool.and_eq_true] at hbit
    exact hbit.1
  · intro h
    refine Nat.eq_of_testBit_eq fun j => ?_
    rw [Nat.testBit_and]
    by_cases hj : j ∈ bloomBits hash t
    · rw [h j hj, Bool.true_and]
    · rw [Bool.eq_false_iff.2 (mt (testBit_bloom9 t j).1 hj), Bool.and_false]

theorem add_spec (hash : Bytes → Bytes) (b : Bloom) (d : Nat) :
    ∃ b', b.add hash d = some b' ∧
      ∀ j, b'.big.testBit j = true ↔ b.big.testBit j = true ∨ j ∈ bloomBits hash (toBytes d) := by
  have hbits (j : Nat) : (b.big ||| bloom9 hash (toBytes d)).testBit j = true ↔
      b.big.testBit j = true ∨ j ∈ bloomBits hash (toBytes d) := by
    rw [Nat.testBit_or, Bool.or_eq_true, testBit_bloom9]
  have hlt : b.big ||| bloom9 hash (toBytes d) < 256 ^ bloomByteLength := by
    refine lt_of_bits fun j hj => ?_
    rcases (hbits j).1 hj with hb | hd
    · by_contra hge
      have hpow : 256 ^ bloomByteLength ≤ 2 ^ j := by
        rw [pow_bloomByteLength]
        exact Nat.pow_le_pow_right (by decide) (by unfold bloomByteLength; omega)
      rw [Nat.testBit_lt_two_pow (b.big_lt.trans_le hpow)] at hb
      cases hb
    · exact lt_of_mem_bloomBits hd
  obtain ⟨b', hb', hbig⟩ := setBytes_toBytes Nat.left_le_or hlt
  exact ⟨b', hb', fun j => by rw [hbig, hbits]⟩

theorem foldlM_add_spec (hash : Bytes → Bytes) (ds : List Nat) (b : Bloom) :
    ∃ b', ds.foldlM (add hash) b = some b' ∧ ∀ j, b.big.testBit j = true → b'.big.testBit j = true := by
  induction ds generalizing b with
  | nil => exact ⟨b, rfl, fun _ h => h⟩
  | cons d ds ih =>
    obtain ⟨b₁, hadd, hbits⟩ := add_spec hash b d
    obtain ⟨b', hrest, hkeep⟩ := ih b₁
    refine ⟨b', ?_, fun j hj => hkeep j ((hbits j).2 (.inl hj))⟩
    rw [List.foldlM_cons, hadd]
    exact hrest

end Bloom

/-! ## The logs of a block -/

/-- What a filter is to find of a log: the bytes of its address and of its topics. -/
def logValues (log : Log) : List Bytes := toBytesN 20 log.address.toNat :: log.topics.map fun t => toBytesN 32 t.toNat

def receiptValues (receipts : List Receipt) : List Bytes := receipts.flatMap fun r => r.logs.flatMap logValues

theorem testBit_logsBloom (logs : List Log) (j : Nat) :
    (logsBloom hash logs).testBit j = true ↔ ∃ v ∈ logs.flatMap logValues, j ∈ bloomBits hash v := by
  suffices h : ∀ z : Nat, (logs.foldl (fun bin (log : Log) =>
      log.topics.foldl (fun bin b => bin ||| bloom9 hash (toBytesN 32 b.toNat))
        (bin ||| bloom9 hash (toBytesN 20 log.address.toNat))) z).testBit j = true ↔
      z.testBit j = true ∨ ∃ v ∈ logs.flatMap logValues, j ∈ bloomBits hash v by
    simpa [logsBloom] using h 0
  induction logs with
  | nil => simp
  | cons log logs ih =>
    intro z
    rw [List.foldl_cons, ih, testBit_foldl_or, Nat.testBit_or, Bool.or_eq_true]
    simp only [testBit_bloom9, List.flatMap_cons, logValues, List.cons_append, List.mem_cons, List.mem_append,
      List.mem_map]
    constructor
    · rintro (((hz | ha) | ⟨t, ht, hj⟩) | ⟨v, hv, hj⟩)
      · exact .inl hz
      · exact .inr ⟨_, .inl rfl, ha⟩
      · exact .inr ⟨_, .inr (.inl ⟨t, ht, rfl⟩), hj⟩
      · exact .inr ⟨v, .inr (.inr hv), hj⟩
    · rintro (hz | ⟨v, rfl | ⟨t, ht, rfl⟩ | hv, hj⟩)
      · exact .inl (.inl (.inl hz))
      · exact .inl (.inl (.inr hj))
      · exact .inl (.inr ⟨t, ht, hj⟩)
      · exact .inr ⟨v, hv, hj⟩

theorem createBloom_spec (hash : Bytes → Bytes) (receipts : List Receipt) :
    ∃ b, createBloom hash receipts = some b ∧
      ∀ j, b.big.testBit j = true ↔ ∃ v ∈ receiptValues receipts, j ∈ bloomBits hash v := by
  have hbits (j : Nat) : (receipts.foldl (fun bin r => bin ||| logsBloom hash r.logs) 0).testBit j = true ↔
      ∃ v ∈ receiptValues receipts, j ∈ bloomBits hash v := by
    rw [testBit_foldl_or]
    simp only [Nat.zero_testBit, Bool.false_eq_true, false_or, testBit_logsBloom, receiptValues, List.mem_flatMap]
    constructor
    · rintro ⟨r, hr, v, hv, hj⟩
      exact ⟨v, ⟨r, hr, hv⟩, hj⟩
    · rintro ⟨v, ⟨r, hr, hv⟩, hj⟩
      exact ⟨r, hr, v, hv, hj⟩
  obtain ⟨b, hb, hbig⟩ := Bloom.setBytes_toBytes (b := .zero)
    (n := receipts.foldl (fun bin r => bin ||| logsBloom hash r.logs) 0) (by rw [Bloom.big_zero]; exact Nat.zero_le _)
    (lt_of_bits fun j hj => by
      obtain ⟨v, -, hv⟩ := (hbits j).1 hj
      exact lt_of_mem_bloomBits hv)
  exact ⟨b, hb, fun j => by rw [hbig, hbits]⟩

/-- Nothing is missed that was added, or that is looked for by its own bytes. Of the
filter of a block, `TestBytes` finds a value exactly where the bits of the value
without its leading zeros are set, and so one without such. -/
theorem blooms_never_miss (hash : Bytes → Bytes) :
    (∀ receipts, ∃ b, createBloom hash receipts = some b ∧
      (∀ v ∈ receiptValues receipts, b.lookup hash v = true) ∧
      (∀ v, b.testBytes hash v = true ↔
        ∀ j ∈ bloomBits hash (toBytes (ofBytes v)), ∃ w ∈ receiptValues receipts, j ∈ bloomBits hash w) ∧
      ∀ v ∈ receiptValues receipts, v.head? ≠ some 0 → b.testBytes hash v = true) ∧
    ∀ d b ds, ∃ b', (ofBytes d :: ds).foldlM (Bloom.add hash) b = some b' ∧ b'.testBytes hash d = true := by
  refine ⟨fun receipts => ?_, fun d b ds => ?_⟩
  · obtain ⟨b, hb, hbits⟩ := createBloom_spec hash receipts
    have hlookup (v : Bytes) (hv : v ∈ receiptValues receipts) : b.lookup hash v = true :=
      Bloom.lookup_iff.2 fun j hj => (hbits j).2 ⟨v, hv, hj⟩
    refine ⟨b, hb, hlookup, fun v => ?_, fun v hv hne => ?_⟩
    · simp only [Bloom.testBytes, Bloom.test, Bloom.lookup_iff, hbits]
    · rw [Bloom.testBytes, Bloom.test, Lib.Rlp.toBytes_ofBytes hne]
      exact hlookup v hv
  · obtain ⟨b₁, hadd, hbits⟩ := Bloom.add_spec hash b (ofBytes d)
    obtain ⟨b', hrest, hkeep⟩ := Bloom.foldlM_add_spec hash ds b₁
    refine ⟨b', ?_, Bloom.lookup_iff.2 fun j hj => hkeep j ((hbits j).2 (.inr hj))⟩
    rw [List.foldlM_cons, hadd]
    exact hrest

def receiptOfOne : Receipt := ⟨[⟨1, [], [], 0, 0, 0, 0, 0⟩]⟩

/-- The address 0x80…00 is found both ways. -/
theorem blooms_never_miss_address :
    ∃ b, createBloom Lib.Keccak.keccak256 [⟨[⟨2 ^ 159, [], [], 0, 0, 0, 0, 0⟩]⟩] = some b ∧
      b.lookup Lib.Keccak.keccak256 (toBytesN 20 (2 ^ 159)) = true ∧
      b.testBytes Lib.Keccak.keccak256 (toBytesN 20 (2 ^ 159)) = true := by
  obtain ⟨b, hb, hlookup, -, htest⟩ :=
    (blooms_never_miss Lib.Keccak.keccak256).1 [⟨[⟨2 ^ 159, [], [], 0, 0, 0, 0, 0⟩]⟩]
  exact ⟨b, hb, hlookup _ (by decide +kernel), htest _ (by decide +kernel) (by decide +kernel)⟩

/-- The filter of a block with a log of the address 0x00…01: it is found by
`BloomLookup` and not by `TestBytes`. -/
theorem testBytes_misses :
    ∃ b, createBloom Lib.Keccak.keccak256 [receiptOfOne] = some b ∧
      toBytesN 20 1 ∈ receiptValues [receiptOfOne] ∧
      b.lookup Lib.Keccak.keccak256 (toBytesN 20 1) = true ∧
      b.testBytes Lib.Keccak.keccak256 (toBytesN 20 1) = false := by
  obtain ⟨b, hb, hbits⟩ := createBloom_spec Lib.Keccak.keccak256 [receiptOfOne]
  have hmem : toBytesN 20 1 ∈ receiptValues [receiptOfOne] := by decide +kernel
  have hmiss : ¬ ∀ j ∈ bloomBits Lib.Keccak.keccak256 (toBytes (ofBytes (toBytesN 20 1))),
      ∃ w ∈ receiptValues [receiptOfOne], j ∈ bloomBits Lib.Keccak.keccak256 w := by
    decide +kernel
  refine ⟨b, hb, hmem, Bloom.lookup_iff.2 fun j hj => (hbits j).2 ⟨_, hmem, hj⟩, Bool.eq_false_iff.2 fun h => hmiss ?_⟩
  intro j hj
  exact (hbits j).1 (Bloom.lookup_iff.1 h j hj)

end NdnGeth.Core
