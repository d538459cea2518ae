/-
Lists cut into pieces of one size, the last of which may be shorter, and the
loop that counts the pieces with a counter of sixteen bits.
-/
import Mathlib.Data.List.Basic

namespace Lib

variable {α : Type*}

/-- The piece number `k`. -/
def piece (size : Nat) (xs : List α) (k : Nat) : List α := (xs.drop (size * k)).take size

/-- The counting loop from a start on; each turn uses up one of the fuel, and
with a positive size the length of the list is enough. -/
def countPieces (size len : Nat) : (fuel start num : Nat) → Nat
  | 0, _, num => num
  | fuel + 1, start, num => if start < len then countPieces size len fuel (start + size) ((num + 1) % 65536) else num

theorem flatMap_piece (size : Nat) (xs : List α) (n : Nat) :
    (List.range n).flatMap (piece size xs) = xs.take (size * n) := by
  induction n with
  | zero => simp
  | succ n ih => rw [List.range_succ, List.flatMap_append, ih, List.flatMap_singleton, piece, Nat.mul_succ, List.take_add]

variable {size len : Nat}

/-- As long as the counter does not overflow, the loop divides and rounds up. -/
theorem countPieces_eq (hsize : 0 < size) : ∀ {fuel start num : Nat}, len ≤ start + fuel →
    num + (len - start + (size - 1)) / size < 65536 → countPieces size len fuel start num = num + (len - start + (size - 1)) / size := by
  intro fuel
  induction fuel with
  | zero =>
    intro start num hlen _
    have h0 : len - start = 0 := by omega
    rw [countPieces, h0, Nat.zero_add, Nat.div_eq_of_lt (by omega), Nat.add_zero]
  | succ fuel ih =>
    intro start num hlen hlt
    rw [countPieces]
    split
    · next hstart =>
      have hstep : (len - start + (size - 1)) / size = (len - (start + size) + (size - 1)) / size + 1 := by
        by_cases hle : size ≤ len - start
        · have heq : len - start + (size - 1) = len - (start + size) + (size - 1) + size := by omega
          rw [heq, Nat.add_div_right _ hsize]
        · have h0 : len - (start + size) = 0 := by omega
          have h1 : len - start + (size - 1) = len - start - 1 + size := by omega
          rw [h0, h1, Nat.add_div_right _ hsize, Nat.div_eq_of_lt (by omega), Nat.div_eq_of_lt (by omega)]
      rw [hstep, ← Nat.add_assoc, Nat.add_right_comm] at hlt ⊢
      have hnum : num + 1 < 65536 := Nat.lt_of_le_of_lt (Nat.le_add_right ..) hlt
      rw [Nat.mod_eq_of_lt hnum, ih (by omega) hlt]
    · have h0 : len - start = 0 := by omega
      rw [h0, Nat.zero_add, Nat.div_eq_of_lt (by omega), Nat.add_zero]

/-- What the loop counts begins inside the list, even after an overflow. -/
theorem mul_lt_of_lt_countPieces : ∀ {fuel start num : Nat}, num * size ≤ start → (∀ k < num, k * size < len) →
    ∀ {k}, k < countPieces size len fuel start num → k * size < len := by
  intro fuel
  induction fuel with
  | zero => exact fun _ h => h _
  | succ fuel ih =>
    intro start num hstart hnum k hk
    rw [countPieces] at hk
    split at hk
    · next hlt =>
      have hmod : (num + 1) % 65536 ≤ num + 1 := Nat.mod_le _ _
      refine ih (Nat.le_trans (Nat.mul_le_mul_right size hmod) (by rw [Nat.succ_mul]; omega)) (fun j hj => ?_) hk
      have hle := Nat.mul_le_mul_right size (Nat.le_of_lt_succ (Nat.lt_of_lt_of_le hj hmod))
      omega
    · exact hnum k hk

theorem countPieces_of_le (hsize : 0 < size) (hlen : len ≤ 65535 * size) :
    countPieces size len len 0 0 = (len + (size - 1)) / size := by
  have hlt : 0 + (len - 0 + (size - 1)) / size < 65536 := by
    rw [Nat.zero_add, Nat.div_lt_iff_lt_mul hsize]
    omega
  rw [countPieces_eq hsize (by omega) hlt, Nat.sub_zero, Nat.zero_add]

/-- The pieces laid end to end are the list. -/
theorem flatMap_piece_all {size : Nat} (hsize : 0 < size) (xs : List α) :
    (List.range ((xs.length + (size - 1)) / size)).flatMap (piece size xs) = xs := by
  rw [flatMap_piece]
  refine List.take_of_length_le ?_
  have := Nat.lt_div_mul_add hsize (a := xs.length + (size - 1))
  rw [Nat.mul_comm]
  omega

end Lib
