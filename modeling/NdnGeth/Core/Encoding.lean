/-
The chain's data types (`core/types`) with all their fields, as they are
written to the wire: headers, transactions and blocks, each as the list of
its fields. A hash is that of the encoding (`rlpHash`); Keccak-256 is a
parameter.

Caches in these types (`hash`, `size`, `from`) and fields that are not
written (`td`, `ReceivedAt`, `ReceivedFrom`) are left out.
-/
import NdnGeth.Lib.Rlp
import NdnGeth.Core.Types

namespace NdnGeth.Types

open Lib.Rlp
open Core (Hash)

/-- `common.Address`, 20 bytes. -/
abbrev Address := BitVec 160

structure Header where
  parentHash : Hash
  uncleHash : Hash
  coinbase : Address
  root : Hash
  txHash : Hash
  receiptHash : Hash
  bloom : BitVec 2048
  difficulty : Nat
  number : Nat
  gasLimit : BitVec 64
  gasUsed : BitVec 64
  time : BitVec 64
  extra : Bytes
  mixDigest : Hash
  nonce : BitVec 64
  deriving DecidableEq, Repr, Inhabited

/-- `txdata`. A transaction without a recipient creates a contract. -/
structure Transaction where
  accountNonce : BitVec 64
  price : Nat
  gasLimit : BitVec 64
  recipient : Option Address
  amount : Nat
  payload : Bytes
  v : Nat
  r : Nat
  s : Nat
  deriving DecidableEq, Repr, Inhabited

/-- `types.Block`, written as `extblock`. -/
structure Block where
  header : Header
  transactions : List Transaction
  uncles : List Header
  deriving DecidableEq, Repr, Inhabited

/-- `header.Number.Uint64()`. -/
def Header.numberU64 (h : Header) : Nat := h.number % 2 ^ 64

def hashCodec : Codec Hash := .fixed 32

def addressCodec : Codec Address := .fixed 20

theorem addressCodec_ne_nil (a : Address) : addressCodec.toItem a ≠ .bytes [] := by
  intro h
  have hlen : (toBytesN 20 a.toNat).length = 20 := length_toBytesN (by have := a.isLt; omega)
  have hnil : toBytesN 20 a.toNat = [] := Item.bytes.inj h
  rw [hnil] at hlen
  cases hlen

def Header.codec : Codec Header :=
  .struct <|
    (Fields.cons hashCodec <| .cons hashCodec <| .cons addressCodec <| .cons hashCodec <| .cons hashCodec <| .cons hashCodec <|
      .cons (.fixed 256) <| .cons .nat <| .cons .nat <| .cons (.uint 8) <| .cons (.uint 8) <| .cons (.uint 8) <|
      .cons .bytes <| .cons hashCodec <| .last (.fixed 8)).map
      (fun (parent, uncle, coinbase, root, tx, receipt, bloom, difficulty, number, limit, used, time, extra, mix, nonce) =>
        ⟨parent, uncle, coinbase, root, tx, receipt, bloom, difficulty, number, limit, used, time, extra, mix, nonce⟩)
      (fun h => (h.parentHash, h.uncleHash, h.coinbase, h.root, h.txHash, h.receiptHash, h.bloom, h.difficulty, h.number,
        h.gasLimit, h.gasUsed, h.time, h.extra, h.mixDigest, h.nonce))
      fun _ => rfl

def Transaction.codec : Codec Transaction :=
  .struct <|
    (Fields.cons (.uint 8) <| .cons .nat <| .cons (.uint 8) <| .cons (.nilable addressCodec addressCodec_ne_nil) <|
      .cons .nat <| .cons .bytes <| .cons .nat <| .cons .nat <| .last .nat).map
      (fun (nonce, price, gas, recipient, amount, payload, v, r, s) =>
        ⟨nonce, price, gas, recipient, amount, payload, v, r, s⟩)
      (fun t => (t.accountNonce, t.price, t.gasLimit, t.recipient, t.amount, t.payload, t.v, t.r, t.s))
      fun _ => rfl

def Block.codec : Codec Block :=
  .struct <|
    (Fields.cons Header.codec <| .cons (.list Transaction.codec) <| .last (.list Header.codec)).map
      (fun (header, txs, uncles) => ⟨header, txs, uncles⟩) (fun b => (b.header, b.transactions, b.uncles)) fun _ => rfl

def Header.hash (keccak256 : Bytes → Hash) (h : Header) : Hash := keccak256 (Header.codec.encode h)

def Transaction.hash (keccak256 : Bytes → Hash) (t : Transaction) : Hash := keccak256 (Transaction.codec.encode t)

def Block.hash (keccak256 : Bytes → Hash) (b : Block) : Hash := b.header.hash keccak256

end NdnGeth.Types
