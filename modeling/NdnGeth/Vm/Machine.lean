/-
The states of the virtual machine (`core/vm/evm.go`, `core/vm/contract.go`,
`core/vm/analysis.go`).

`Env` has what an execution only reads: the rules, the block, the database
below the state, and what is computed outside of this repository's virtual
machine or in its native contracts, none of which is assumed anything of.
`Evm` has what all frames share: of `EVM` and of its interpreter. A `Machine`
is a frame on top of that.

Left out are the tracer, the pool of big integers, and the results of
`codeBitmap` that are kept for later; a contract's code is analysed again
where it is asked for. Return data is a value: it does not share memory with the
frame that it came from, or with the input that the identity contract gives back.
-/
import NdnGeth.Vm.JumpTable
import NdnGeth.State.Machine

namespace NdnGeth.Vm

open Lib (Result)
open Lib.Rlp (Bytes)
open Core (Hash)
open State (Digests Database StateDB)
open Types (Address)

/-- The precompiled contracts. -/
inductive PrecompiledContract
  | ecrecover | sha256hash | ripemd160hash | dataCopy | bigModExp
  | bn256AddByzantium | bn256ScalarMulByzantium | bn256PairingByzantium
  | bn256AddIstanbul | bn256ScalarMulIstanbul | bn256PairingIstanbul | blake2F
  | bls12381G1Add | bls12381G1Mul | bls12381G1MultiExp | bls12381G2Add | bls12381G2Mul | bls12381G2MultiExp
  | bls12381Pairing | bls12381MapG1 | bls12381MapG2
  deriving DecidableEq

/-- `Context`, without the functions for a transfer. A block's number, time
and difficulty are big integers. -/
structure Context where
  getHash : Nat → Hash
  origin : Address
  gasPrice : Nat
  coinbase : Address
  gasLimit : Nat
  blockNumber : Nat
  time : Nat
  difficulty : Nat

structure Env (D : Digests) where
  ctx : Context
  rules : Rules
  chainID : Nat
  noRecursion : Bool
  enablePreimageRecording : Bool
  /-- What the flag set by `Cancel` is found to be, each time it is read. -/
  abort : Nat → Bool
  db : Database D
  /-- `crypto.Keccak256Hash`. -/
  keccak256 : Bytes → Hash
  /-- The 32 bytes of the hash of a contract's code. -/
  codeHashBytes : D.Code → Hash
  /-- `crypto.CreateAddress`. -/
  createAddress : Address → BitVec 64 → Address
  /-- `crypto.CreateAddress2`. -/
  createAddress2 : Address → Hash → Hash → Address
  /-- `RequiredGas`. -/
  requiredGas : PrecompiledContract → Bytes → Nat
  /-- `Run` of a precompiled contract: nothing where it fails. -/
  native : PrecompiledContract → Bytes → Option Bytes

/-- What the frames share. `polls` counts how often the flag set by `Cancel`
was read. -/
structure Evm (D : Digests) where
  state : StateDB D
  depth : Nat
  callGasTemp : Nat
  readOnly : Bool
  returnData : Bytes
  polls : Nat

def Evm.new {D : Digests} (state : StateDB D) : Evm D where
  state := state
  depth := 0
  callGasTemp := 0
  readOnly := false
  returnData := []
  polls := 0

/-! ## Contracts -/

/-- `Contract`. A reference to a contract is its address. -/
structure Contract where
  callerAddress : Address
  self : Address
  code : Bytes
  codeAddr : Address
  input : Bytes
  gas : Nat
  value : Nat

namespace Contract

/-- `UseGas`: nothing where there is not enough. -/
def useGas (c : Contract) (gas : Nat) : Option Contract :=
  if c.gas < gas then none else some { c with gas := c.gas - gas }

/-- `GetByte`, and so `GetOp`. -/
def getOp (c : Contract) (n : Nat) : UInt8 := (c.code[n]?).getD 0

/-- `codeBitmap`: for each byte of the code whether it is data. `skip` counts
the bytes of the current push instruction that are still to come. -/
def codeBitmap : Nat → Bytes → List Bool
  | _, [] => []
  | skip + 1, _ :: code => true :: codeBitmap skip code
  | 0, b :: code =>
    let n := b.toNat
    false :: codeBitmap (if OpCode.push1 ≤ n ∧ n < OpCode.push1 + 32 then n - OpCode.push1 + 1 else 0) code

def isCode (c : Contract) (udest : Nat) : Bool := !(((codeBitmap 0 c.code)[udest]?).getD false)

def validJumpdest (c : Contract) (dest : Nat) : Bool :=
  -- `BitLen` of at least 63
  if two64 / 4 ≤ dest ∨ c.code.length ≤ uint64 dest then false
  else if OpCode.ofByte (c.getOp (uint64 dest)) ≠ some .jumpdest then false
  else c.isCode (uint64 dest)

def validJumpSubdest (c : Contract) (udest : Nat) : Bool :=
  if two64 / 2 ≤ udest ∨ c.code.length ≤ udest then false
  else if OpCode.ofByte (c.getOp udest) ≠ some .beginsub then false
  else c.isCode udest

end Contract

/-! ## Frames -/

/-- A frame, of `EVMInterpreter.Run`: the stacks are listed top first. -/
structure Frame where
  pc : Nat
  stack : List Nat
  rstack : List Nat
  memory : Memory
  contract : Contract
  steps : Nat

structure Machine (D : Digests) extends Frame where
  evm : Evm D

def bigToAddress (x : Nat) : Address := BitVec.ofNat 160 x

def bigToHash (x : Nat) : Hash := BitVec.ofNat 256 x

namespace Machine

variable {D : Digests}

def back (m : Machine D) (n : Nat) : Result Panic Nat := .ofOption .bounds m.stack[n]?

/-- The machine with another state below it. -/
def setState (m : Machine D) (s : StateDB D) : Machine D := { m with evm := { m.evm with state := s } }

def gas (m : Machine D) : Nat := m.contract.gas

def setGas (m : Machine D) (gas : Nat) : Machine D := { m with contract := { m.contract with gas := gas } }

end Machine

end NdnGeth.Vm
