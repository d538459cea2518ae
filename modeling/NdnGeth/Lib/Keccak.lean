/-
Keccak-256, with the padding of the original submission. A lane is a natural
number below 2^64, and a state the list of its 25 lanes, row by row.
-/
import Mathlib.Data.List.Basic

namespace Lib.Keccak

def laneSize : Nat := 18446744073709551616

def rotateLeft (x n : Nat) : Nat := (x <<< n ||| x >>> (64 - n)) % laneSize

def complement (x : Nat) : Nat := laneSize - 1 - x

/-- The constants of the rounds. -/
def roundConstants : List Nat :=
  [0x0000000000000001, 0x0000000000008082, 0x800000000000808A, 0x8000000080008000, 0x000000000000808B,
   0x0000000080000001, 0x8000000080008081, 0x8000000000008009, 0x000000000000008A, 0x0000000000000088,
   0x0000000080008009, 0x000000008000000A, 0x000000008000808B, 0x800000000000008B, 0x8000000000008089,
   0x8000000000008003, 0x8000000000008002, 0x8000000000000080, 0x000000000000800A, 0x800000008000000A,
   0x8000000080008081, 0x8000000000008080, 0x0000000080000001, 0x8000000080008008]

/-- How far each lane is rotated. -/
def rotations : List Nat :=
  [0, 1, 62, 28, 27, 36, 44, 6, 55, 20, 3, 10, 43, 25, 39, 41, 45, 15, 21, 8, 18, 2, 61, 56, 14]

/-- A state from its lanes at each column and row. -/
def build (f : Nat → Nat → Nat) : List Nat := (List.range 25).map fun i => f (i % 5) (i / 5)

def lane (a : List Nat) (x y : Nat) : Nat := a.getD (x % 5 + 5 * (y % 5)) 0

def theta (a : List Nat) : List Nat :=
  let c := (List.range 5).map fun x => lane a x 0 ^^^ lane a x 1 ^^^ lane a x 2 ^^^ lane a x 3 ^^^ lane a x 4
  build fun x y => lane a x y ^^^ c.getD ((x + 4) % 5) 0 ^^^ rotateLeft (c.getD ((x + 1) % 5) 0) 1

/-- The lanes are rotated and permuted. -/
def rhoPi (a : List Nat) : List Nat :=
  build fun x y => rotateLeft (lane a (x + 3 * y) x) (lane rotations (x + 3 * y) x)

def chi (a : List Nat) : List Nat :=
  build fun x y => lane a x y ^^^ (complement (lane a (x + 1) y) &&& lane a (x + 2) y)

def iota (k : Nat) (a : List Nat) : List Nat := a.modify 0 (· ^^^ k)

def permute (a : List Nat) : List Nat := roundConstants.foldl (fun a k => iota k (chi (rhoPi (theta a)))) a

/-- The bytes of a block, least significant first, as lanes. -/
def ofLittleEndian (bs : List UInt8) : Nat := bs.foldr (fun b n => b.toNat + 256 * n) 0

def absorb (a : List Nat) (block : List UInt8) : List Nat :=
  permute (build fun x y => lane a x y ^^^ ofLittleEndian ((block.drop (8 * (x + 5 * y))).take 8))

/-- The bytes that are absorbed at once. -/
def rate : Nat := 136

def pad (m : List UInt8) : List UInt8 :=
  let q := rate - m.length % rate
  m ++ if q = 1 then [0x81] else 0x01 :: List.replicate (q - 2) 0 ++ [0x80]

def keccak256 (m : List UInt8) : List UInt8 :=
  let p := pad m
  let a := (List.range (p.length / rate)).foldl (fun a k => absorb a ((p.drop (rate * k)).take rate))
    (List.replicate 25 0)
  (List.range 32).map fun i => UInt8.ofNat (lane a (i / 8) 0 >>> (8 * (i % 8)))

def digest (m : List UInt8) : Vector UInt8 32 := ⟨(keccak256 m).toArray, by simp [keccak256]⟩

/-- The hash of the empty string. -/
example : keccak256 [] =
    [0xc5, 0xd2, 0x46, 0x01, 0x86, 0xf7, 0x23, 0x3c, 0x92, 0x7e, 0x7d, 0xb2, 0xdc, 0xc7, 0x03, 0xc0,
     0xe5, 0x00, 0xb6, 0x53, 0xca, 0x82, 0x27, 0x3b, 0x7b, 0xfa, 0xd8, 0x04, 0x5d, 0x85, 0xa4, 0x70] := by
  decide +kernel

end Lib.Keccak
