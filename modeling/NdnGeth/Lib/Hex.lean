/-
Bytes written in base sixteen, two digits for each (`encoding/hex`).
-/
import Mathlib.Data.List.Basic

namespace Lib.Hex

/-- A digit of base sixteen, with the letters from `a`. -/
def hexDigit (a d : Nat) : UInt8 := UInt8.ofNat (if d < 10 then 48 + d else a + (d - 10))

/-- `hex.EncodeToString`. -/
def hexEncode (b : List UInt8) : List UInt8 := b.flatMap fun c => [hexDigit 97 (c.toNat / 16), hexDigit 97 (c.toNat % 16)]

def fromHexChar (c : UInt8) : Option UInt8 :=
  if 48 ≤ c ∧ c ≤ 57 then some (c - 48)
  else if 97 ≤ c ∧ c ≤ 102 then some (c - 97 + 10)
  else if 65 ≤ c ∧ c ≤ 70 then some (c - 65 + 10)
  else none

/-- `hex.DecodeString`. -/
def hexDecode : List UInt8 → Option (List UInt8)
  | [] => some []
  | [_] => none
  | a :: b :: rest =>
    match fromHexChar a, fromHexChar b, hexDecode rest with
    | some x, some y, some bs => some ((x <<< 4 ||| y) :: bs)
    | _, _, _ => none

theorem forall_byte {P : UInt8 → Prop} (h : ∀ n < 256, P (.ofNat n)) (c : UInt8) : P c := by
  have := h c.toNat c.toNat_lt
  simpa using this

theorem hexEncode_length (b : List UInt8) : (hexEncode b).length = 2 * b.length := by
  unfold hexEncode
  induction b with
  | nil => rfl
  | cons c b ih =>
    simp only [List.flatMap_cons, List.length_append, ih, List.length_cons, List.length_nil]
    omega

theorem mem_hexEncode {b : List UInt8} {c : UInt8} (h : c ∈ hexEncode b) : ∃ d < 16, c = hexDigit 97 d := by
  obtain ⟨x, _, hx⟩ := List.mem_flatMap.1 h
  have hlt : x.toNat < 256 := x.toNat_lt
  simp only [List.mem_cons, List.not_mem_nil, or_false] at hx
  rcases hx with rfl | rfl
  · exact ⟨_, by omega, rfl⟩
  · exact ⟨_, by omega, rfl⟩

theorem fromHexChar_hexDigit : ∀ d < 16, fromHexChar (hexDigit 97 d) = some (UInt8.ofNat d) := by decide

theorem hexDecode_hexEncode (b : List UInt8) : hexDecode (hexEncode b) = some b := by
  induction b with
  | nil => rfl
  | cons c b ih =>
    have hlt : c.toNat < 256 := c.toNat_lt
    have hjoin : ∀ c : UInt8, UInt8.ofNat (c.toNat / 16) <<< 4 ||| UInt8.ofNat (c.toNat % 16) = c := by
      refine forall_byte ?_
      decide +kernel
    show hexDecode (hexDigit 97 (c.toNat / 16) :: hexDigit 97 (c.toNat % 16) :: hexEncode b) = _
    rw [hexDecode, fromHexChar_hexDigit _ (by omega), fromHexChar_hexDigit _ (by omega), ih]
    simp only [hjoin]

end Lib.Hex
