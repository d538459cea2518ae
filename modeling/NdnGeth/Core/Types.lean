/-
The chain's data types (`core/types`), as far as the modelled functions
read them.

A header carries its own hash. The source computes it (Keccak-256 of the
header's encoding); nothing here depends on how, and where a result needs
two headers of one hash to be one header, it says so.
-/
import Mathlib.Data.List.Basic
import Mathlib.Data.BitVec

namespace NdnGeth.Core

/-- `common.Hash`, 32 bytes. -/
abbrev Hash := BitVec 256

/-- `types.Header`. `Number` and `Difficulty` are big integers there. -/
structure Header where
  hash : Hash
  parentHash : Hash
  number : Nat
  difficulty : Nat
  root : Hash
  deriving DecidableEq, Repr

/-- `header.Number.Uint64()`. -/
def Header.numberU64 (h : Header) : UInt64 := .ofNat h.number

/-- `types.Transaction`, known by its hash. -/
structure Transaction where
  hash : Hash
  deriving DecidableEq, Repr

structure Body where
  transactions : List Transaction
  uncles : List Header
  deriving DecidableEq, Repr

/-- `types.Block`: a header with the body that belongs to it. -/
structure Block where
  header : Header
  body : Body
  deriving DecidableEq, Repr

/-- `types.NewBlockWithHeader(h).WithBody(txs, uncles)`. -/
def Block.newBlockWithHeader (h : Header) (b : Body) : Block := ⟨h, b⟩

end NdnGeth.Core
