/-
The instructions (`core/vm/instructions.go`, `core/vm/eips.go`).

An instruction changes the machine and gives the bytes and the error that its
function returns. What it asks of the machine below it, to call a contract or
to create one, goes through `Calls`.
-/
import NdnGeth.Vm.Gas

namespace NdnGeth.Vm

open Lib (Result)
open Lib.Rlp (Bytes ofBytes)
open State (Digests StateDB Log)
open Types (Address)

variable {D : Digests}

/-! ## Calls -/

/-- A call of one of the functions of `EVM` that start a frame. -/
inductive Request
  | call (caller addr : Address) (input : Bytes) (gas value : Nat)
  | callCode (caller addr : Address) (input : Bytes) (gas value : Nat)
  | delegateCall (caller : Contract) (addr : Address) (input : Bytes) (gas : Nat)
  | staticCall (caller addr : Address) (input : Bytes) (gas : Nat)
  | create (caller : Address) (code : Bytes) (gas value : Nat)
  | create2 (caller : Address) (code : Bytes) (gas endowment salt : Nat)

/-- What these return. `contractAddr` is that of `Create` and `Create2`. -/
structure Reply (D : Digests) where
  ret : Bytes
  contractAddr : Address
  gas : Nat
  err : Option VmError
  evm : Evm D

abbrev Calls (D : Digests) := Evm D → Request → Result Panic (Reply D)

def Params.callStipend : Nat := 2300

/-! ## Shapes of instructions -/

abbrev Instruction (D : Digests) := Machine D → Result Panic (Machine D × Bytes × Option VmError)

def done (m : Machine D) : Result Panic (Machine D × Bytes × Option VmError) := .ok (m, [], none)

def fail (m : Machine D) (err : VmError) : Result Panic (Machine D × Bytes × Option VmError) := .ok (m, [], some err)

def pushes (f : Machine D → Nat) : Instruction D := fun m => done { m with stack := f m :: m.stack }

def unary (f : Nat → Nat) : Instruction D := fun m =>
  match m.stack with
  | x :: st => done { m with stack := f x :: st }
  | _ => .fault .bounds

def binary (f : Nat → Nat → Nat) : Instruction D := fun m =>
  match m.stack with
  | x :: y :: st => done { m with stack := f x y :: st }
  | _ => .fault .bounds

def ternary (f : Nat → Nat → Nat → Nat) : Instruction D := fun m =>
  match m.stack with
  | x :: y :: z :: st => done { m with stack := f x y z :: st }
  | _ => .fault .bounds

/-- An operand is replaced by what the state has for it. -/
def reads (f : Machine D → Nat → Nat × StateDB D) : Instruction D := fun m =>
  match m.stack with
  | x :: st =>
    let (v, s) := f m x
    done { m.setState s with stack := v :: st }
  | _ => .fault .bounds

/-! ## Arithmetic -/

def opAdd : Instruction D := binary fun x y => u256 (x + y)

def opSub : Instruction D := binary fun x y => u256 (x - y)

def opMul : Instruction D := binary fun x y => u256 (x * y)

def opDiv : Instruction D := binary fun x y => if y ≠ 0 then u256 (x / y) else 0

def sdiv (x y : Int) : Nat :=
  if y = 0 ∨ x = 0 then 0
  else if x.sign ≠ y.sign then u256 (-(x.natAbs / y.natAbs))
  else u256 (x.natAbs / y.natAbs)

def opSdiv : Instruction D := binary fun x y => sdiv (s256 x) (s256 y)

def opMod : Instruction D := binary fun x y => if y = 0 then 0 else u256 (x % y)

def smod (x y : Int) : Nat :=
  if y = 0 then 0
  else if x < 0 then u256 (-(x.natAbs % y.natAbs))
  else u256 (x.natAbs % y.natAbs)

def opSmod : Instruction D := binary fun x y => smod (s256 x) (s256 y)

/-- The loop of `math.Exp`, with the number of bits that are left. -/
def expLoop : Nat → Nat → Nat → Nat → Nat
  | 0, result, _, _ => result
  | n + 1, result, base, word =>
    let result := if word % 2 = 1 then u256 (result * base) else result
    expLoop n result (u256 (base * base)) (word / 2)

/-- `math.Exp`. The exponent is read in words of 64 bits. -/
def bigExp (base exponent : Nat) : Nat := expLoop ((exponent.size + 63) / 64 * 64) 1 base exponent

def opExp : Instruction D := binary fun base exponent =>
  if exponent < 1 then 1
  else if base = 0 then 0
  else if exponent = 1 then base
  else bigExp base exponent

def signExtend (back num : Nat) : Nat :=
  if back < 31 then
    let bit := uint64 back * 8 + 7
    let mask := 1 <<< bit - 1
    -- `Or` with the complement sets all bits above the mask.
    if num.testBit bit then u256 (num % two256 ||| (two256 - 1 - mask) : Nat) else u256 (num &&& mask : Nat)
  else num

def opSignExtend : Instruction D := binary signExtend

def opNot : Instruction D := unary fun x => u256 (-x - 1)

def opLt : Instruction D := binary fun x y => if x < y then 1 else 0

def opGt : Instruction D := binary fun x y => if x > y then 1 else 0

def slt (x y : Nat) : Nat :=
  if x ≥ two255 ∧ y < two255 then 1
  else if x < two255 ∧ y ≥ two255 then 0
  else if x < y then 1 else 0

def opSlt : Instruction D := binary slt

def sgt (x y : Nat) : Nat :=
  if x ≥ two255 ∧ y < two255 then 0
  else if x < two255 ∧ y ≥ two255 then 1
  else if x > y then 1 else 0

def opSgt : Instruction D := binary sgt

def opEq : Instruction D := binary fun x y => if x = y then 1 else 0

def opIszero : Instruction D := unary fun x => if x > 0 then 0 else 1

def opAnd : Instruction D := binary fun x y => x &&& y

def opOr : Instruction D := binary fun x y => x ||| y

def opXor : Instruction D := binary fun x y => x ^^^ y

/-- `math.Byte`, of 32 bytes. -/
def bigByte (val th : Nat) : Nat := val >>> (8 * (31 - th)) % 256

def opByte : Instruction D := binary fun th val => if th < 32 then bigByte val th else 0

def opAddmod : Instruction D := ternary fun x y z => if z > 0 then u256 ((x + y) % z : Nat) else 0

def opMulmod : Instruction D := ternary fun x y z => if z > 0 then u256 (x * y % z : Nat) else 0

def shl (shift value : Nat) : Nat := if shift ≥ 256 then 0 else u256 (value <<< shift : Nat)

def opSHL : Instruction D := binary fun shift value => shl (u256 shift) (u256 value)

def shr (shift value : Nat) : Nat := if shift ≥ 256 then 0 else u256 (value >>> shift : Nat)

def opSHR : Instruction D := binary fun shift value => shr (u256 shift) (u256 value)

def sar (shift : Nat) (value : Int) : Nat :=
  if shift ≥ 256 then if value ≥ 0 then 0 else u256 (-1)
  else u256 (value >>> shift)

def opSAR : Instruction D := binary fun shift value => sar (u256 shift) (s256 value)

/-! ## Memory and the environment -/

def opSha3 (env : Env D) : Instruction D := fun m =>
  match m.stack with
  | offset :: size :: st => do
    let data ← m.memory.getPtr offset size
    let hash := env.keccak256 data
    let m := if env.enablePreimageRecording then m.setState (m.evm.state.addPreimage hash data) else m
    done { m with stack := hash.toNat :: st }
  | _ => .fault .bounds

def opAddress : Instruction D := pushes fun m => m.contract.self.toNat

/-- A balance is not negative. -/
def opBalance : Instruction D := reads fun m slot => (m.evm.state.getBalance (bigToAddress slot)).map Int.toNat id

def opOrigin (env : Env D) : Instruction D := pushes fun _ => env.ctx.origin.toNat

def opCaller : Instruction D := pushes fun m => m.contract.callerAddress.toNat

def opCallValue : Instruction D := pushes fun m => m.contract.value

def opCallDataLoad : Instruction D := fun m =>
  match m.stack with
  | offset :: st => do
    let data ← getDataBig m.contract.input offset 32
    done { m with stack := ofBytes data :: st }
  | _ => .fault .bounds

def opCallDataSize : Instruction D := pushes fun m => m.contract.input.length

/-- Data is copied to the memory, from an offset in `data`. -/
def copyData (m : Machine D) (data : Bytes) (memOffset dataOffset length : Nat) (st : List Nat) :
    Result Panic (Machine D × Bytes × Option VmError) := do
  let copied ← getDataBig data dataOffset length
  let mem ← m.memory.set (uint64 memOffset) (uint64 length) copied
  done { m with stack := st, memory := mem }

def opCallDataCopy : Instruction D := fun m =>
  match m.stack with
  | memOffset :: dataOffset :: length :: st => copyData m m.contract.input memOffset dataOffset length st
  | _ => .fault .bounds

def opReturnDataSize : Instruction D := pushes fun m => m.evm.returnData.length

def opReturnDataCopy : Instruction D := fun m =>
  match m.stack with
  | memOffset :: dataOffset :: length :: st => do
    let m := { m with stack := st }
    let last := dataOffset + length
    if !isUint64 last ∨ m.evm.returnData.length < uint64 last then fail m .returnDataOutOfBounds
    else
      let data ← slice m.evm.returnData (uint64 dataOffset) (uint64 last)
      let mem ← m.memory.set (uint64 memOffset) (uint64 length) data
      done { m with memory := mem }
  | _ => .fault .bounds

def opExtCodeSize (env : Env D) : Instruction D := reads fun m slot =>
  m.evm.state.getCodeSize env.db (bigToAddress slot)

def opCodeSize : Instruction D := pushes fun m => m.contract.code.length

def opCodeCopy : Instruction D := fun m =>
  match m.stack with
  | memOffset :: codeOffset :: length :: st => copyData m m.contract.code memOffset codeOffset length st
  | _ => .fault .bounds

def opExtCodeCopy (env : Env D) : Instruction D := fun m =>
  match m.stack with
  | addr :: memOffset :: codeOffset :: length :: st =>
    let (code, s) := m.evm.state.getCode env.db (bigToAddress addr)
    copyData (m.setState s) code memOffset codeOffset length st
  | _ => .fault .bounds

def opExtCodeHash (env : Env D) : Instruction D := reads fun m slot =>
  let address := bigToAddress slot
  let (empty, s) := m.evm.state.isEmpty address
  if empty then (0, s)
  else (s.getCodeHash address).map (fun hash => (hash.elim 0 env.codeHashBytes).toNat) id

def opGasprice (env : Env D) : Instruction D := pushes fun _ => env.ctx.gasPrice

def opBlockhash (env : Env D) : Instruction D := unary fun num =>
  if (num : Int) > env.ctx.blockNumber - 257 ∧ num < env.ctx.blockNumber then (env.ctx.getHash (uint64 num)).toNat
  else 0

def opCoinbase (env : Env D) : Instruction D := pushes fun _ => env.ctx.coinbase.toNat

def opTimestamp (env : Env D) : Instruction D := pushes fun _ => u256 env.ctx.time

def opNumber (env : Env D) : Instruction D := pushes fun _ => u256 env.ctx.blockNumber

def opDifficulty (env : Env D) : Instruction D := pushes fun _ => u256 env.ctx.difficulty

def opGasLimit (env : Env D) : Instruction D := pushes fun _ => u256 env.ctx.gasLimit

def opChainID (env : Env D) : Instruction D := pushes fun _ => env.chainID

def opSelfBalance : Instruction D := fun m =>
  let (balance, s) := m.evm.state.getBalance m.contract.self
  done { m.setState s with stack := balance.toNat :: m.stack }

def opPop : Instruction D := fun m =>
  match m.stack with
  | _ :: st => done { m with stack := st }
  | _ => .fault .bounds

def opMload : Instruction D := fun m =>
  match m.stack with
  | v :: st => do
    let data ← m.memory.getPtr v 32
    done { m with stack := ofBytes data :: st }
  | _ => .fault .bounds

def opMstore : Instruction D := fun m =>
  match m.stack with
  | mStart :: val :: st => do
    let mem ← m.memory.set32 (uint64 mStart) val
    done { m with stack := st, memory := mem }
  | _ => .fault .bounds

def opMstore8 : Instruction D := fun m =>
  match m.stack with
  | off :: val :: st => do
    let mem ← m.memory.setByte (uint64 off) val
    done { m with stack := st, memory := mem }
  | _ => .fault .bounds

def opPc : Instruction D := pushes fun m => m.pc

def opMsize : Instruction D := pushes fun m => m.memory.len

def opGas : Instruction D := pushes fun m => m.gas

def opPush1 : Instruction D := fun m =>
  let pc := add64 m.pc 1
  done { m with pc := pc, stack := (m.contract.getOp pc).toNat :: m.stack }

def makePush (size pushByteSize : Nat) : Instruction D := fun m => do
  let codeLen := m.contract.code.length
  let startMin := min codeLen (m.pc + 1)
  let endMin := min codeLen (startMin + pushByteSize)
  let data ← slice m.contract.code startMin endMin
  done { m with pc := add64 m.pc size, stack := ofBytes (rightPadBytes data pushByteSize) :: m.stack }

def makeDup (size : Nat) : Instruction D := fun m => do
  let x ← m.back (size - 1)
  done { m with stack := x :: m.stack }

def makeSwap (size : Nat) : Instruction D := fun m => do
  let x ← m.back 0
  let y ← m.back size
  done { m with stack := (m.stack.set 0 y).set size x }

/-! ## Jumps -/

def opJump : Instruction D := fun m =>
  match m.stack with
  | pos :: st =>
    let m := { m with stack := st }
    if m.contract.validJumpdest pos then done { m with pc := uint64 pos } else fail m .invalidJump
  | _ => .fault .bounds

def opJumpi : Instruction D := fun m =>
  match m.stack with
  | pos :: cond :: st =>
    let m := { m with stack := st }
    if cond ≠ 0 then
      if m.contract.validJumpdest pos then done { m with pc := uint64 pos } else fail m .invalidJump
    else done { m with pc := add64 m.pc 1 }
  | _ => .fault .bounds

def opJumpdest : Instruction D := done

def opBeginSub : Instruction D := fun m => fail m .invalidSubroutineEntry

def opJumpSub : Instruction D := fun m =>
  if m.rstack.length ≥ 1023 then fail m .returnStackExceeded
  else
    match m.stack with
    | pos :: st =>
      let m := { m with stack := st }
      if isUint64 pos ∧ m.contract.validJumpSubdest (uint64 pos) then
        done { m with rstack := m.pc :: m.rstack, pc := add64 (uint64 pos) 1 }
      else fail m .invalidJump
    | _ => .fault .bounds

def opReturnSub : Instruction D := fun m =>
  match m.rstack with
  | pc :: rstack => done { m with rstack := rstack, pc := add64 pc 1 }
  | [] => fail m .invalidRetsub

/-! ## The state -/

def opSload (env : Env D) : Instruction D := reads fun m loc =>
  (m.evm.state.getState env.db m.contract.self (bigToHash loc)).map BitVec.toNat id

def opSstore (env : Env D) : Instruction D := fun m =>
  match m.stack with
  | loc :: val :: st =>
    done { m.setState (m.evm.state.setState env.db m.contract.self (bigToHash loc) (bigToHash val)) with stack := st }
  | _ => .fault .bounds

def makeLog (env : Env D) (size : Nat) : Instruction D := fun m =>
  match m.stack with
  | mStart :: mSize :: st =>
    if st.length < size then .fault .bounds
    else do
      let data ← m.memory.getCopy mStart mSize
      let log : Log := ⟨m.contract.self, (st.take size).map bigToHash, data, BitVec.ofNat 64 env.ctx.blockNumber,
        0, 0, 0, 0⟩
      done { m.setState (m.evm.state.addLog log) with stack := st.drop size }
  | _ => .fault .bounds

/-- What `opSuicide` does to the state: the account's balance goes to the
beneficiary, and the account has none any more. -/
def selfdestruct (s : StateDB D) (self beneficiary : Address) : StateDB D :=
  let (balance, s) := s.getBalance self
  ((s.addBalance beneficiary balance).suicide self).2

def opSuicide : Instruction D := fun m =>
  match m.stack with
  | x :: st => done { m.setState (selfdestruct m.evm.state m.contract.self (bigToAddress x)) with stack := st }
  | _ => .fault .bounds

/-! ## Ends of a frame -/

def opStop : Instruction D := done

def opReturn : Instruction D := fun m =>
  match m.stack with
  | offset :: size :: st => do
    let ret ← m.memory.getPtr offset size
    return ({ m with stack := st }, ret, none)
  | _ => .fault .bounds

def opRevert : Instruction D := opReturn

/-! ## Calls and creations -/

/-- The end of the calls: the result is pushed, written to the memory, and the
gas that is left is taken back. -/
def returned (m : Machine D) (st : List Nat) (retOffset retSize : Nat) (r : Reply D) :
    Result Panic (Machine D × Bytes × Option VmError) := do
  let m := { m with evm := r.evm, stack := (if r.err.isSome then 0 else 1) :: st }
  let mem ←
    if r.err = none ∨ r.err = some .executionReverted then m.memory.set (uint64 retOffset) (uint64 retSize) r.ret
    else pure m.memory
  return ({ m with memory := mem }.setGas (add64 m.gas r.gas), r.ret, none)

/-- The gas for a callee: what was set aside for it, and the stipend with a value. -/
def withStipend (gas value : Nat) : Nat := if value ≠ 0 then add64 gas Params.callStipend else gas

def opCall (calls : Calls D) : Instruction D := fun m =>
  match m.stack with
  | _ :: addr :: value :: inOffset :: inSize :: retOffset :: retSize :: st => do
    let value := u256 value
    let args ← m.memory.getPtr inOffset inSize
    let r ← calls m.evm (.call m.contract.self (bigToAddress addr) args (withStipend m.evm.callGasTemp value) value)
    returned m st retOffset retSize r
  | _ => .fault .bounds

def opCallCode (calls : Calls D) : Instruction D := fun m =>
  match m.stack with
  | _ :: addr :: value :: inOffset :: inSize :: retOffset :: retSize :: st => do
    let value := u256 value
    let args ← m.memory.getPtr inOffset inSize
    let r ← calls m.evm
      (.callCode m.contract.self (bigToAddress addr) args (withStipend m.evm.callGasTemp value) value)
    returned m st retOffset retSize r
  | _ => .fault .bounds

def opDelegateCall (calls : Calls D) : Instruction D := fun m =>
  match m.stack with
  | _ :: addr :: inOffset :: inSize :: retOffset :: retSize :: st => do
    let args ← m.memory.getPtr inOffset inSize
    let r ← calls m.evm (.delegateCall m.contract (bigToAddress addr) args m.evm.callGasTemp)
    returned m st retOffset retSize r
  | _ => .fault .bounds

def opStaticCall (calls : Calls D) : Instruction D := fun m =>
  match m.stack with
  | _ :: addr :: inOffset :: inSize :: retOffset :: retSize :: st => do
    let args ← m.memory.getPtr inOffset inSize
    let r ← calls m.evm (.staticCall m.contract.self (bigToAddress addr) args m.evm.callGasTemp)
    returned m st retOffset retSize r
  | _ => .fault .bounds

/-- The end of the creations: the address or zero is pushed, and the gas that
is left is taken back. -/
def created (m : Machine D) (st : List Nat) (failed : Bool) (r : Reply D) :
    Machine D × Bytes × Option VmError :=
  ({ m with evm := r.evm, stack := (if failed then 0 else r.contractAddr.toNat) :: st }.setGas (add64 m.gas r.gas),
    if r.err = some .executionReverted then r.ret else [], none)

def opCreate (env : Env D) (calls : Calls D) : Instruction D := fun m =>
  match m.stack with
  | value :: offset :: size :: st => do
    let input ← m.memory.getCopy offset size
    let gas := if env.rules.isEIP150 then m.gas - m.gas / 64 else m.gas
    let m := { m with contract := (m.contract.useGas gas).getD m.contract }
    let r ← calls m.evm (.create m.contract.self input gas value)
    -- Frontier takes code that could not be paid for as a success.
    let failed := env.rules.isHomestead && r.err == some .codeStoreOutOfGas ||
      r.err.isSome && r.err != some .codeStoreOutOfGas
    return created m st failed r
  | _ => .fault .bounds

def opCreate2 (calls : Calls D) : Instruction D := fun m =>
  match m.stack with
  | endowment :: offset :: size :: salt :: st => do
    let input ← m.memory.getCopy offset size
    let gas := m.gas - m.gas / 64
    let m := { m with contract := (m.contract.useGas gas).getD m.contract }
    let r ← calls m.evm (.create2 m.contract.self input gas endowment salt)
    return created m st r.err.isSome r
  | _ => .fault .bounds

/-! ## All of them -/

def Execute.run (env : Env D) (calls : Calls D) : Execute → Instruction D
  | .opStop => Vm.opStop
  | .opAdd => Vm.opAdd
  | .opMul => Vm.opMul
  | .opSub => Vm.opSub
  | .opDiv => Vm.opDiv
  | .opSdiv => Vm.opSdiv
  | .opMod => Vm.opMod
  | .opSmod => Vm.opSmod
  | .opAddmod => Vm.opAddmod
  | .opMulmod => Vm.opMulmod
  | .opExp => Vm.opExp
  | .opSignExtend => Vm.opSignExtend
  | .opLt => Vm.opLt
  | .opGt => Vm.opGt
  | .opSlt => Vm.opSlt
  | .opSgt => Vm.opSgt
  | .opEq => Vm.opEq
  | .opIszero => Vm.opIszero
  | .opAnd => Vm.opAnd
  | .opOr => Vm.opOr
  | .opXor => Vm.opXor
  | .opNot => Vm.opNot
  | .opByte => Vm.opByte
  | .opSHL => Vm.opSHL
  | .opSHR => Vm.opSHR
  | .opSAR => Vm.opSAR
  | .opSha3 => Vm.opSha3 env
  | .opAddress => Vm.opAddress
  | .opBalance => Vm.opBalance
  | .opOrigin => Vm.opOrigin env
  | .opCaller => Vm.opCaller
  | .opCallValue => Vm.opCallValue
  | .opCallDataLoad => Vm.opCallDataLoad
  | .opCallDataSize => Vm.opCallDataSize
  | .opCallDataCopy => Vm.opCallDataCopy
  | .opCodeSize => Vm.opCodeSize
  | .opCodeCopy => Vm.opCodeCopy
  | .opGasprice => Vm.opGasprice env
  | .opExtCodeSize => Vm.opExtCodeSize env
  | .opExtCodeCopy => Vm.opExtCodeCopy env
  | .opReturnDataSize => Vm.opReturnDataSize
  | .opReturnDataCopy => Vm.opReturnDataCopy
  | .opExtCodeHash => Vm.opExtCodeHash env
  | .opBlockhash => Vm.opBlockhash env
  | .opCoinbase => Vm.opCoinbase env
  | .opTimestamp => Vm.opTimestamp env
  | .opNumber => Vm.opNumber env
  | .opDifficulty => Vm.opDifficulty env
  | .opGasLimit => Vm.opGasLimit env
  | .opChainID => Vm.opChainID env
  | .opSelfBalance => Vm.opSelfBalance
  | .opPop => Vm.opPop
  | .opMload => Vm.opMload
  | .opMstore => Vm.opMstore
  | .opMstore8 => Vm.opMstore8
  | .opSload => Vm.opSload env
  | .opSstore => Vm.opSstore env
  | .opJump => Vm.opJump
  | .opJumpi => Vm.opJumpi
  | .opPc => Vm.opPc
  | .opMsize => Vm.opMsize
  | .opGas => Vm.opGas
  | .opJumpdest => Vm.opJumpdest
  | .opBeginSub => Vm.opBeginSub
  | .opReturnSub => Vm.opReturnSub
  | .opJumpSub => Vm.opJumpSub
  | .opPush1 => Vm.opPush1
  | .makePush size pushByteSize => Vm.makePush size pushByteSize
  | .makeDup size => Vm.makeDup size
  | .makeSwap size => Vm.makeSwap size
  | .makeLog size => Vm.makeLog env size
  | .opCreate => Vm.opCreate env calls
  | .opCall => Vm.opCall calls
  | .opCallCode => Vm.opCallCode calls
  | .opReturn => Vm.opReturn
  | .opDelegateCall => Vm.opDelegateCall calls
  | .opCreate2 => Vm.opCreate2 calls
  | .opStaticCall => Vm.opStaticCall calls
  | .opRevert => Vm.opRevert
  | .opSuicide => Vm.opSuicide

end NdnGeth.Vm
