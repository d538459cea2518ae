/-
The gas of an operation and the memory it needs (`core/vm/gas.go`,
`core/vm/gas_table.go`, `core/vm/memory_table.go`).

An error of these functions is `none`: which one it is makes no difference
to the interpreter.
-/
import NdnGeth.Vm.Machine

namespace NdnGeth.Vm

open Lib (Result)
open Core (Hash)
open State (Digests StateDB)
open Types (Address)

namespace Params

def memoryGas : Nat := 3
def quadCoeffDiv : Nat := 512
def copyGas : Nat := 3
def sha3WordGas : Nat := 6
def logGas : Nat := 375
def logTopicGas : Nat := 375
def logDataGas : Nat := 8
def expGas : Nat := 10
def expByteFrontier : Nat := 10
def expByteEIP158 : Nat := 50
def callNewAccountGas : Nat := 25000
def callValueTransferGas : Nat := 9000
def selfdestructGasEIP150 : Nat := 5000
def createBySelfdestructGas : Nat := 25000
def selfdestructRefundGas : BitVec 64 := 24000
def sstoreSetGas : Nat := 20000
def sstoreResetGas : Nat := 5000
def sstoreClearGas : Nat := 5000
def sstoreRefundGas : BitVec 64 := 15000
def sstoreSentryGasEIP2200 : Nat := 2300

end Params

variable {D : Digests}

/-! ## The size of the memory -/

namespace MemorySizeFunc

/-- The larger one of the areas that a call reads and writes. -/
def areas (m : Machine D) (retOffset retSize inOffset inSize : Nat) : Result Panic (Option Nat) := do
  let x := calcMemSize64 (← m.back retOffset) (← m.back retSize)
  let y := calcMemSize64 (← m.back inOffset) (← m.back inSize)
  return do
    let x ← x
    let y ← y
    return if x > y then x else y

/-- An area whose offset and size are on the stack. -/
def area (m : Machine D) (offset size : Nat) : Result Panic (Option Nat) := do
  return calcMemSize64 (← m.back offset) (← m.back size)

/-- An area of a fixed size. -/
def fixedArea (m : Machine D) (offset length64 : Nat) : Result Panic (Option Nat) := do
  return calcMemSize64WithUint (← m.back offset) length64

/-- The memory an operation needs: nothing where it overflows. -/
def size (m : Machine D) : MemorySizeFunc → Result Panic (Option Nat)
  | memorySha3 => area m 0 1
  | memoryCallDataCopy => area m 0 2
  | memoryReturnDataCopy => area m 0 2
  | memoryCodeCopy => area m 0 2
  | memoryExtCodeCopy => area m 1 3
  | memoryMLoad => fixedArea m 0 32
  | memoryMStore8 => fixedArea m 0 1
  | memoryMStore => fixedArea m 0 32
  | memoryCreate => area m 1 2
  | memoryCreate2 => area m 1 2
  | memoryCall => areas m 5 6 3 4
  | memoryDelegateCall => areas m 4 5 2 3
  | memoryStaticCall => areas m 4 5 2 3
  | memoryReturn => area m 0 1
  | memoryRevert => area m 0 1
  | memoryLog => area m 0 1

end MemorySizeFunc

/-! ## Gas functions -/

/-- `memoryGasCost`: the fee, and the memory that remembers it. -/
def memoryGasCost (mem : Memory) (newMemSize : Nat) : Option (Nat × Memory) :=
  if newMemSize = 0 then some (0, mem)
  else if newMemSize > 0x1FFFFFFFE0 then none
  else
    let newMemSizeWords := toWordSize newMemSize
    let newMemSize := mul64 newMemSizeWords 32
    if newMemSize > mem.len then
      let square := mul64 newMemSizeWords newMemSizeWords
      let linCoef := mul64 newMemSizeWords Params.memoryGas
      let quadCoef := square / Params.quadCoeffDiv
      let newTotalFee := add64 linCoef quadCoef
      some (sub64 newTotalFee mem.lastGasCost, { mem with lastGasCost := newTotalFee })
    else some (0, mem)

def callGas (isEip150 : Bool) (availableGas base callCost : Nat) : Option Nat :=
  let availableGas := sub64 availableGas base
  let gas := availableGas - availableGas / 64
  if isEip150 ∧ (!isUint64 callCost ∨ gas < uint64 callCost) then some gas
  else if !isUint64 callCost then none
  else some (uint64 callCost)

/-- What the metering of storage by its net changes costs and refunds. -/
structure NetSstore where
  noopGas : Nat
  initGas : Nat
  cleanGas : Nat
  dirtyGas : Nat
  clearRefund : BitVec 64
  /-- For a slot back at its original value, and where that is zero. -/
  resetRefund : BitVec 64
  resetClearRefund : BitVec 64

/-- `NetSstore...` (EIP-1283). -/
def NetSstore.eip1283 : NetSstore where
  noopGas := 200
  initGas := 20000
  cleanGas := 5000
  dirtyGas := 200
  clearRefund := 15000
  resetRefund := 4800
  resetClearRefund := 19800

def NetSstore.eip2200 : NetSstore where
  noopGas := 800
  initGas := 20000
  cleanGas := 5000
  dirtyGas := 800
  clearRefund := 15000
  resetRefund := 4200
  resetClearRefund := 19200

/-- The refund for a slot that is cleared, or not any more. -/
def NetSstore.clear (p : NetSstore) (s : StateDB D) (original current value : Hash) : Option (StateDB D) :=
  if original ≠ 0 then
    if current = 0 then s.subRefund p.clearRefund
    else if value = 0 then some (s.addRefund p.clearRefund)
    else some s
  else some s

/-- The refund for a slot that gets its original value back. -/
def NetSstore.reset (p : NetSstore) (s : StateDB D) (original value : Hash) : StateDB D :=
  if original = value then
    if original = 0 then s.addRefund p.resetClearRefund else s.addRefund p.resetRefund
  else s

/-- The cost of a write to a slot that does not hold `value`, and the state with the
refunds. `original` is what the slot held before the transaction. -/
def NetSstore.gas (p : NetSstore) (s : StateDB D) (original current value : Hash) : Option (Nat × StateDB D) :=
  if original = current then
    if original = 0 then some (p.initGas, s)
    else some (p.cleanGas, if value = 0 then s.addRefund p.clearRefund else s)
  else (p.clear s original current value).map fun s => (p.dirtyGas, p.reset s original value)

namespace GasFunc

/-- The end of the gas functions of the calls: the gas the callee gets. `base` is
what the call itself costs. -/
def withCallGas (env : Env D) (m : Machine D) (base : Nat) : Result Panic (Machine D × Option Nat) := do
  match callGas env.rules.isEIP150 m.gas base (← m.back 0) with
  | none => return (m, none)
  | some gas => return ({ m with evm := { m.evm with callGasTemp := gas } }, safeAdd base gas)

/-- The fee for the memory, and what comes on top of it. -/
def withMemory (m : Machine D) (memorySize : Nat) (f : Machine D → Nat → Result Panic (Machine D × Option Nat)) :
    Result Panic (Machine D × Option Nat) :=
  match memoryGasCost m.memory memorySize with
  | none => .ok (m, none)
  | some (gas, mem) => f { m with memory := mem } gas

/-- The price of a number of bytes on the stack, by words. -/
def wordGas (m : Machine D) (stackpos price : Nat) : Result Panic (Option Nat) := do
  let size ← m.back stackpos
  return (bigUint64 size).bind fun words => safeMul (toWordSize words) price

/-- The fee for the memory and a price by words. -/
def memoryAndWords (m : Machine D) (memorySize stackpos price : Nat) : Result Panic (Machine D × Option Nat) :=
  withMemory m memorySize fun m gas => do
    return (m, (← wordGas m stackpos price).bind fun words => safeAdd gas words)

/-- `gasExpFrontier` and `gasExpEIP158`. -/
def expGas (m : Machine D) (expByte : Nat) : Result Panic (Machine D × Option Nat) := do
  let expByteLen := ((← m.back 1).size + 7) / 8
  return (m, safeAdd (mul64 expByteLen expByte) Params.expGas)

def logGas (m : Machine D) (memorySize n : Nat) : Result Panic (Machine D × Option Nat) := do
  match bigUint64 (← m.back 1) with
  | none => return (m, none)
  | some requestedSize =>
    withMemory m memorySize fun m gas => return (m, do
      let gas ← safeAdd gas Params.logGas
      let gas ← safeAdd gas (mul64 n Params.logTopicGas)
      let memorySizeGas ← safeMul requestedSize Params.logDataGas
      safeAdd gas memorySizeGas)

/-- The metering by net changes, from the current value on. -/
def netSstore (env : Env D) (m : Machine D) (p : NetSstore) (slot current value : Hash) :
    Result Panic (Machine D × Option Nat) :=
  if current = value then .ok (m, some p.noopGas)
  else do
    let (original, s) := m.evm.state.getCommittedState env.db m.contract.self slot
    let (gas, s) ← .ofOption .refund (p.gas s original current value)
    return (m.setState s, some gas)

def sstoreGas (env : Env D) (m : Machine D) : Result Panic (Machine D × Option Nat) := do
  let y ← m.back 1
  let x ← m.back 0
  let (current, s) := m.evm.state.getState env.db m.contract.self (bigToHash x)
  let m := m.setState s
  if env.rules.isPetersburg ∨ !env.rules.isConstantinople then
    if current = 0 ∧ y ≠ 0 then return (m, some Params.sstoreSetGas)
    else if current ≠ 0 ∧ y = 0 then
      return (m.setState (s.addRefund Params.sstoreRefundGas), some Params.sstoreClearGas)
    else return (m, some Params.sstoreResetGas)
  else netSstore env m .eip1283 (bigToHash x) current (bigToHash y)

def sstoreGasEIP2200 (env : Env D) (m : Machine D) : Result Panic (Machine D × Option Nat) := do
  if m.gas ≤ Params.sstoreSentryGasEIP2200 then return (m, none)
  else
    let y ← m.back 1
    let x ← m.back 0
    let (current, s) := m.evm.state.getState env.db m.contract.self (bigToHash x)
    netSstore env (m.setState s) .eip2200 (bigToHash x) current (bigToHash y)

/-- What `gasCall` charges for a new account: before EIP-158 for every one, since
then for one that is sent something. -/
def newAccountGas (env : Env D) (m : Machine D) (transfersValue : Bool) (address : Address) : Nat × Machine D :=
  if env.rules.isEIP158 then
    if transfersValue then
      let (empty, s) := m.evm.state.isEmpty address
      (if empty then Params.callNewAccountGas else 0, m.setState s)
    else (0, m)
  else
    let (exist, s) := m.evm.state.exist address
    (if exist then 0 else Params.callNewAccountGas, m.setState s)

def callCost (env : Env D) (m : Machine D) (memorySize : Nat) : Result Panic (Machine D × Option Nat) := do
  let transfersValue := (← m.back 2) != 0
  let (gas, m) := newAccountGas env m transfersValue (bigToAddress (← m.back 1))
  let gas := if transfersValue then gas + Params.callValueTransferGas else gas
  withMemory m memorySize fun m memoryGas =>
    match safeAdd gas memoryGas with
    | none => .ok (m, none)
    | some gas => withCallGas env m gas

def callCodeCost (env : Env D) (m : Machine D) (memorySize : Nat) : Result Panic (Machine D × Option Nat) :=
  withMemory m memorySize fun m memoryGas => do
    let gas := if (← m.back 2) ≠ 0 then Params.callValueTransferGas else 0
    match safeAdd gas memoryGas with
    | none => return (m, none)
    | some gas => withCallGas env m gas

/-- What `gasSelfdestruct` charges. -/
def selfdestructCost (env : Env D) (s : StateDB D) (self address : Address) : Nat × StateDB D :=
  if env.rules.isEIP158 then
    let (empty, s) := s.isEmpty address
    if empty then
      let (balance, s) := s.getBalance self
      (if balance ≠ 0 then Params.selfdestructGasEIP150 + Params.createBySelfdestructGas
        else Params.selfdestructGasEIP150, s)
    else (Params.selfdestructGasEIP150, s)
  else
    let (exist, s) := s.exist address
    (if exist then Params.selfdestructGasEIP150
      else Params.selfdestructGasEIP150 + Params.createBySelfdestructGas, s)

/-- The refund for the first self-destruction of an account. -/
def selfdestructRefund (s : StateDB D) (self : Address) : StateDB D :=
  let (suicided, s) := s.hasSuicided self
  if suicided then s else s.addRefund Params.selfdestructRefundGas

def selfdestructGas (env : Env D) (m : Machine D) : Result Panic (Machine D × Option Nat) :=
  if env.rules.isEIP150 then do
    let address := bigToAddress (← m.back 0)
    let (gas, s) := selfdestructCost env m.evm.state m.contract.self address
    return (m.setState (selfdestructRefund s m.contract.self), some gas)
  else .ok (m.setState (selfdestructRefund m.evm.state m.contract.self), some 0)

/-- The dynamic gas of an operation, and the machine in which it was computed. -/
def gas (env : Env D) (m : Machine D) (memorySize : Nat) : GasFunc → Result Panic (Machine D × Option Nat)
  | memoryCopierGas stackpos => memoryAndWords m memorySize stackpos Params.copyGas
  | gasSStore => sstoreGas env m
  | gasSStoreEIP2200 => sstoreGasEIP2200 env m
  | makeGasLog n => logGas m memorySize n
  | gasSha3 => memoryAndWords m memorySize 1 Params.sha3WordGas
  | pureMemoryGascost => withMemory m memorySize fun m gas => .ok (m, some gas)
  | gasCreate2 => memoryAndWords m memorySize 2 Params.sha3WordGas
  | gasExpFrontier => expGas m Params.expByteFrontier
  | gasExpEIP158 => expGas m Params.expByteEIP158
  | gasCall => callCost env m memorySize
  | gasCallCode => callCodeCost env m memorySize
  | gasDelegateCall => withMemory m memorySize fun m gas => withCallGas env m gas
  | gasStaticCall => withMemory m memorySize fun m gas => withCallGas env m gas
  | gasSelfdestruct => selfdestructGas env m

end GasFunc

end NdnGeth.Vm
