/-
Decimal text, as bytes: the `%d` of Go's `fmt` on a natural number, and
`strconv.ParseInt` in base ten for a given number of bits, which reads a sign
and refuses what does not fit.

`parseInt_format`: what is written is read, below half the range of the
unsigned numbers of that size; from there on it is refused
(`parseInt_format_eq_none`).
-/
import Mathlib.Data.Nat.Digits.Lemmas

namespace Lib.Decimal

def digit (d : Nat) : UInt8 := UInt8.ofNat (48 + d)

/-- `%d`. -/
def format (n : Nat) : List UInt8 := if n = 0 then [48] else (Nat.digits 10 n).reverse.map digit

def readDigit (c : UInt8) : Option Nat := if 48 ≤ c.toNat ∧ c.toNat ≤ 57 then .some (c.toNat - 48) else .none

/-- The digits, after those that make up `n`. -/
def readDigits (n : Nat) : List UInt8 → Option Nat
  | [] => .some n
  | c :: cs =>
    match readDigit c with
    | .some d => readDigits (10 * n + d) cs
    | .none => .none

/-- `strconv.ParseUint` without its bound. -/
def parseUint (cs : List UInt8) : Option Nat := if cs = [] then .none else readDigits 0 cs

/-- A magnitude, with its sign, in the range of the signed numbers. -/
def fit (bits : Nat) (neg : Bool) (n : Nat) : Option Int :=
  if neg then if n ≤ 2 ^ (bits - 1) then .some (-n) else .none
  else if n < 2 ^ (bits - 1) then .some n else .none

/-- `strconv.ParseInt(s, 10, bits)`; 43 is a plus sign, 45 a minus sign. -/
def parseInt (bits : Nat) (s : List UInt8) : Option Int :=
  match s with
  | [] => .none
  | c :: cs =>
    if c = 43 then (parseUint cs).bind (fit bits false)
    else if c = 45 then (parseUint cs).bind (fit bits true)
    else (parseUint (c :: cs)).bind (fit bits false)

theorem digit_toNat {d : Nat} (h : d < 10) : (digit d).toNat = 48 + d := by
  unfold digit
  rw [UInt8.toNat_ofNat']
  exact Nat.mod_eq_of_lt (by omega)

theorem readDigit_digit {d : Nat} (h : d < 10) : readDigit (digit d) = .some d := by
  unfold readDigit
  rw [digit_toNat h, if_pos (by omega)]
  congr 1
  omega

theorem readDigits_map : ∀ {ds : List Nat} (n : Nat), (∀ d ∈ ds, d < 10) →
    readDigits n (ds.map digit) = .some (ds.foldl (fun n d => 10 * n + d) n)
  | [], _, _ => rfl
  | d :: ds, n, h => by
    simp only [List.map_cons, readDigits, readDigit_digit (h d List.mem_cons_self), List.foldl_cons]
    exact readDigits_map _ fun d' hd' => h d' (List.mem_cons_of_mem _ hd')

theorem mem_format {n : Nat} {c : UInt8} (h : c ∈ format n) : 48 ≤ c.toNat ∧ c.toNat ≤ 57 := by
  unfold format at h
  split at h
  · rw [List.mem_singleton.1 h]
    decide
  · obtain ⟨d, hd, rfl⟩ := List.mem_map.1 h
    have hlt := Nat.digits_lt_base (by decide) (List.mem_reverse.1 hd)
    rw [digit_toNat hlt]
    omega

theorem format_ne_nil (n : Nat) : format n ≠ [] := by
  unfold format
  split
  · exact List.cons_ne_nil _ _
  · next h => simpa [Nat.digits_ne_nil_iff_ne_zero] using h

theorem readDigits_format (n : Nat) : readDigits 0 (format n) = .some n := by
  unfold format
  split
  · next h =>
    rw [h]
    rfl
  · rw [readDigits_map 0 fun d hd => Nat.digits_lt_base (by decide) (List.mem_reverse.1 hd)]
    congr 1
    conv_rhs => rw [← Nat.ofDigits_digits 10 n]
    rw [List.foldl_reverse, Nat.ofDigits_eq_foldr]
    congr 1
    funext d m
    exact Nat.add_comm _ _

/-- A number has no sign, and is read as the number it is, if it fits. -/
theorem parseInt_format (bits n : Nat) : parseInt bits (format n) = if n < 2 ^ (bits - 1) then .some (n : Int) else .none := by
  have hparse : parseUint (format n) = .some n := by
    unfold parseUint
    rw [if_neg (format_ne_nil n), readDigits_format]
  have hmem : ∀ c ∈ format n, 48 ≤ c.toNat := fun c hc => (mem_format hc).1
  cases hf : format n with
  | nil => exact absurd hf (format_ne_nil n)
  | cons c cs =>
    have hc : 48 ≤ c.toNat := hmem c (hf ▸ List.mem_cons_self)
    have hplus : c ≠ 43 := fun h => by
      rw [h] at hc
      exact absurd hc (by decide)
    have hminus : c ≠ 45 := fun h => by
      rw [h] at hc
      exact absurd hc (by decide)
    rw [parseInt, if_neg hplus, if_neg hminus, ← hf, hparse]
    rfl

end Lib.Decimal
