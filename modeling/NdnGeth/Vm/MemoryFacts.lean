/-
The memory of a frame: what it costs and when an access is in bounds.

`Memory.Ok`: the memory has whole words, and what was charged for it is the
fee for so many words. `Covers`: an area lies in the memory, or is empty.
Every read and write of a covered area is in bounds and keeps the size.
-/
import NdnGeth.Vm.Gas

namespace NdnGeth.Vm

open Lib (Result)
open Lib.Rlp (Bytes)

/-- The fee for a memory of so many words. -/
def memoryFee (words : Nat) : Nat := 3 * words + words * words / 512

/-- The largest memory that `memoryGasCost` gives a price for. -/
def maxMemory : Nat := 0x1FFFFFFFE0

theorem memoryFee_mono {v w : Nat} (h : v ≤ w) : memoryFee v ≤ memoryFee w := by
  have hsq : v * v / 512 ≤ w * w / 512 := Nat.div_le_div_right (Nat.mul_le_mul h h)
  unfold memoryFee
  omega

theorem memoryFee_fits {w : Nat} (h : 32 * w ≤ maxMemory) : w * w < two64 ∧ w * 3 + w * w / 512 < two64 := by
  have hw : w ≤ 4294967295 := by unfold maxMemory at h; omega
  have hsq : w * w ≤ 4294967295 * 4294967295 := Nat.mul_le_mul hw hw
  unfold two64
  omega

namespace Memory

variable {mem : Memory} {E : Panic → Prop} {F : Prop}

/-- Whole words, paid for. -/
structure Ok (mem : Memory) : Prop where
  words : 32 ∣ mem.len
  fee : mem.lastGasCost = memoryFee (mem.len / 32)
  small : mem.len ≤ maxMemory

theorem Ok.new : new.Ok := ⟨by decide, rfl, by decide⟩

/-- The area lies in the memory, or is empty. -/
def Covers (mem : Memory) (offset size : Nat) : Prop := size = 0 ∨ offset + size ≤ mem.len

variable {offset size : Nat}

theorem len_overwrite (value : Bytes) (h : offset + size ≤ mem.len) :
    (mem.overwrite offset size value).len = mem.len := by
  unfold overwrite len
  unfold len at h
  simp only [List.length_append, List.length_take, List.length_drop]
  omega

theorem len_resize (mem : Memory) (size : Nat) : (mem.resize size).len = max mem.len size := by
  unfold resize
  split
  · simp only [len, List.length_append, List.length_replicate]
    unfold len at *
    omega
  · omega

theorem getPtr_sat (hs : mem.len ≤ maxMemory) (h : mem.Covers offset size) :
    (mem.getPtr offset size).Sat (fun c => c.length = size) E F := by
  unfold getPtr
  rcases Nat.eq_zero_or_pos size with rfl | hpos
  · exact rfl
  have hle : offset + size ≤ mem.len := h.resolve_left (by omega)
  have hlt : offset + size < two64 / 2 := by unfold maxMemory at hs; unfold two64; omega
  have ho : uint64 offset = offset := Nat.mod_eq_of_lt (by omega)
  have hz : uint64 size = size := Nat.mod_eq_of_lt (by omega)
  rw [ho, hz, if_neg (by omega), if_pos (by omega), if_pos (by omega)]
  refine (slice_sat (Nat.le_add_right _ _) hle).mono fun c hc => ?_
  omega

/-- A write keeps the size, and what was charged. -/
def Written (mem mem' : Memory) : Prop := mem'.len = mem.len ∧ mem'.lastGasCost = mem.lastGasCost

theorem Written.refl (mem : Memory) : mem.Written mem := ⟨rfl, rfl⟩

theorem Written.ok {mem' : Memory} (h : mem.Written mem') (hm : mem.Ok) : mem'.Ok :=
  ⟨h.1 ▸ hm.words, by rw [h.1, h.2]; exact hm.fee, h.1 ▸ hm.small⟩

theorem set_sat (value : Bytes) (hs : mem.len ≤ maxMemory) (h : mem.Covers offset size) :
    (mem.set (uint64 offset) (uint64 size) value).Sat mem.Written E F := by
  unfold set
  rcases Nat.eq_zero_or_pos size with rfl | hpos
  · exact .refl mem
  have hle : offset + size ≤ mem.len := h.resolve_left (by omega)
  have hlt : offset + size < two64 := by unfold maxMemory at hs; unfold two64; omega
  have ho : uint64 offset = offset := Nat.mod_eq_of_lt (by omega)
  have hz : uint64 size = size := Nat.mod_eq_of_lt (by omega)
  rw [ho, hz, add64_of_lt hlt, if_pos hpos, if_neg (by omega), if_pos (by omega)]
  exact ⟨len_overwrite value hle, rfl⟩

theorem set32_sat {offset : Nat} (val : Nat) (hs : mem.len ≤ maxMemory) (h : offset + 32 ≤ mem.len) :
    (mem.set32 (uint64 offset) val).Sat mem.Written E F := by
  have hlt : offset + 32 < two64 := by unfold maxMemory at hs; unfold two64; omega
  have ho : uint64 offset = offset := Nat.mod_eq_of_lt (by omega)
  unfold set32
  rw [ho, add64_of_lt hlt, if_neg (by omega), if_pos (by omega)]
  exact ⟨len_overwrite _ h, rfl⟩

theorem setByte_sat {offset : Nat} (val : Nat) (hs : mem.len ≤ maxMemory) (h : offset + 1 ≤ mem.len) :
    (mem.setByte (uint64 offset) val).Sat mem.Written E F := by
  have ho : uint64 offset = offset := Nat.mod_eq_of_lt (by unfold maxMemory at hs; unfold two64; omega)
  unfold setByte
  rw [ho, if_pos (by omega)]
  exact ⟨len_overwrite _ h, rfl⟩

/-- What was charged is the fee for the memory once it has grown to `size`. -/
structure Due (mem : Memory) (size : Nat) : Prop where
  fee : mem.lastGasCost = memoryFee (max mem.len size / 32)
  small : max mem.len size ≤ maxMemory

theorem Due.resize {size : Nat} (h : mem.Due size) (hm : 32 ∣ mem.len) (hs : 32 ∣ size) :
    (if size > 0 then mem.resize size else mem).Ok ∧ size ≤ (if size > 0 then mem.resize size else mem).len := by
  have hlen : (if size > 0 then mem.resize size else mem).len = max mem.len size := by
    split
    · exact len_resize mem size
    · omega
  have hfee : (if size > 0 then mem.resize size else mem).lastGasCost = mem.lastGasCost := by
    split
    · unfold Memory.resize
      split <;> rfl
    · rfl
  refine ⟨⟨?_, by rw [hfee, hlen]; exact h.fee, by rw [hlen]; exact h.small⟩, by rw [hlen]; exact le_max_right _ _⟩
  rw [hlen]
  rcases max_choice mem.len size with hmax | hmax <;> rw [hmax] <;> assumption

end Memory

theorem memoryGasCost_spec {mem mem' : Memory} {size fee : Nat} (hm : mem.Ok) (hs : 32 ∣ size)
    (h : memoryGasCost mem size = some (fee, mem')) :
    mem'.store = mem.store ∧ mem'.Due size ∧ fee + memoryFee (mem.len / 32) = memoryFee (max mem.len size / 32) := by
  obtain ⟨w, rfl⟩ := hs
  unfold memoryGasCost at h
  have hsame (hle : 32 * w ≤ mem.len) : mem.Due (32 * w) ∧
      0 + memoryFee (mem.len / 32) = memoryFee (max mem.len (32 * w) / 32) := by
    have hmax : max mem.len (32 * w) = mem.len := Nat.max_eq_left hle
    exact ⟨⟨by rw [hmax]; exact hm.fee, by rw [hmax]; exact hm.small⟩, by rw [hmax]; omega⟩
  split at h
  · rename_i h0
    cases h
    exact ⟨rfl, hsame (by omega)⟩
  split at h
  · cases h
  rename_i hbig
  have hfit : 32 * w ≤ maxMemory := Nat.le_of_not_lt hbig
  obtain ⟨hsq, hsum⟩ := memoryFee_fits hfit
  have hw : toWordSize (32 * w) = w := by
    rw [toWordSize_of_lt (by unfold maxMemory at hfit; unfold two64; omega)]
    omega
  have h32 : mul64 w 32 = 32 * w := by
    rw [mul64_of_lt (by unfold maxMemory at hfit; unfold two64; omega)]
    omega
  simp only [hw, h32] at h
  split at h
  · rename_i hlt
    -- the new fee, which does not wrap around
    have hnew : add64 (mul64 w Params.memoryGas) (mul64 w w / Params.quadCoeffDiv) = memoryFee w := by
      have h3 : mul64 w Params.memoryGas = w * 3 := mul64_of_lt (show w * 3 < two64 by omega)
      rw [h3, mul64_of_lt hsq]
      show add64 (w * 3) (w * w / 512) = _
      rw [add64_of_lt hsum]
      unfold memoryFee
      omega
    have hmax : max mem.len (32 * w) = 32 * w := Nat.max_eq_right (Nat.le_of_lt hlt)
    have hdiv : 32 * w / 32 = w := by omega
    have hold : memoryFee (mem.len / 32) ≤ memoryFee w := memoryFee_mono (by omega)
    rw [hnew] at h
    cases h
    refine ⟨rfl, ⟨?_, hmax.trans_le hfit⟩, ?_⟩
    · show memoryFee w = memoryFee (max mem.len (32 * w) / 32)
      rw [hmax, hdiv]
    have hsub : sub64 (memoryFee w) mem.lastGasCost = memoryFee w - memoryFee (mem.len / 32) := by
      rw [hm.fee]
      exact sub64_of_le hold (by unfold memoryFee; omega)
    rw [hmax, hdiv, hsub]
    omega
  · rename_i hle
    cases h
    exact ⟨rfl, hsame (Nat.le_of_not_lt hle)⟩

end NdnGeth.Vm
