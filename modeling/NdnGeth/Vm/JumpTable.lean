/-
Instructions and instruction sets (`core/vm/opcodes.go`,
`core/vm/jump_table.go`, `core/vm/eips.go`, `core/vm/stack_table.go`).

An operation refers to the functions that execute it, price it and size its
memory by their names (`Execute`, `GasFunc`, `MemorySizeFunc`). What these
do is defined in `Vm.Gas` and `Vm.Instructions`.
-/
import NdnGeth.Vm.Common

namespace NdnGeth.Vm

/-! ## Opcodes -/

/-- `OpCode`, without the bytes that are no instruction. `push n` is
`PUSH(n+1)`, and likewise `dup` and `swap`; `log n` is `LOGn`. -/
inductive OpCode
  | stop | add | mul | sub | div | sdiv | mod | smod | addmod | mulmod | exp | signextend
  | lt | gt | slt | sgt | eq | iszero | and | or | xor | not | byte | shl | shr | sar
  | sha3
  | address | balance | origin | caller | callvalue | calldataload | calldatasize | calldatacopy
  | codesize | codecopy | gasprice | extcodesize | extcodecopy | returndatasize | returndatacopy | extcodehash
  | blockhash | coinbase | timestamp | number | difficulty | gaslimit | chainid | selfbalance
  | pop | mload | mstore | mstore8 | sload | sstore | jump | jumpi | pc | msize | gas | jumpdest
  | beginsub | returnsub | jumpsub
  | push (n : Fin 32)
  | dup (n : Fin 16)
  | swap (n : Fin 16)
  | log (n : Fin 5)
  | create | call | callcode | return | delegatecall | create2 | staticcall | revert | selfdestruct
  deriving DecidableEq

namespace OpCode

/-- `PUSH1`, `DUP1`, `SWAP1` and `LOG0`. -/
def push1 : Nat := 0x60
def dup1 : Nat := 0x80
def swap1 : Nat := 0x90
def log0 : Nat := 0xa0

/-- The instruction of a byte. -/
def ofByte (b : UInt8) : Option OpCode :=
  let n := b.toNat
  if h : push1 ≤ n ∧ n < push1 + 32 then some (push ⟨n - push1, by omega⟩)
  else if h : dup1 ≤ n ∧ n < dup1 + 16 then some (dup ⟨n - dup1, by omega⟩)
  else if h : swap1 ≤ n ∧ n < swap1 + 16 then some (swap ⟨n - swap1, by omega⟩)
  else if h : log0 ≤ n ∧ n < log0 + 5 then some (log ⟨n - log0, by omega⟩)
  else
    match n with
    | 0x00 => some stop
    | 0x01 => some add
    | 0x02 => some mul
    | 0x03 => some sub
    | 0x04 => some div
    | 0x05 => some sdiv
    | 0x06 => some mod
    | 0x07 => some smod
    | 0x08 => some addmod
    | 0x09 => some mulmod
    | 0x0a => some exp
    | 0x0b => some signextend
    | 0x10 => some lt
    | 0x11 => some gt
    | 0x12 => some slt
    | 0x13 => some sgt
    | 0x14 => some eq
    | 0x15 => some iszero
    | 0x16 => some and
    | 0x17 => some or
    | 0x18 => some xor
    | 0x19 => some not
    | 0x1a => some byte
    | 0x1b => some shl
    | 0x1c => some shr
    | 0x1d => some sar
    | 0x20 => some sha3
    | 0x30 => some address
    | 0x31 => some balance
    | 0x32 => some origin
    | 0x33 => some caller
    | 0x34 => some callvalue
    | 0x35 => some calldataload
    | 0x36 => some calldatasize
    | 0x37 => some calldatacopy
    | 0x38 => some codesize
    | 0x39 => some codecopy
    | 0x3a => some gasprice
    | 0x3b => some extcodesize
    | 0x3c => some extcodecopy
    | 0x3d => some returndatasize
    | 0x3e => some returndatacopy
    | 0x3f => some extcodehash
    | 0x40 => some blockhash
    | 0x41 => some coinbase
    | 0x42 => some timestamp
    | 0x43 => some number
    | 0x44 => some difficulty
    | 0x45 => some gaslimit
    | 0x46 => some chainid
    | 0x47 => some selfbalance
    | 0x50 => some pop
    | 0x51 => some mload
    | 0x52 => some mstore
    | 0x53 => some mstore8
    | 0x54 => some sload
    | 0x55 => some sstore
    | 0x56 => some jump
    | 0x57 => some jumpi
    | 0x58 => some pc
    | 0x59 => some msize
    | 0x5a => some gas
    | 0x5b => some jumpdest
    | 0x5c => some beginsub
    | 0x5d => some returnsub
    | 0x5e => some jumpsub
    | 0xf0 => some create
    | 0xf1 => some call
    | 0xf2 => some callcode
    | 0xf3 => some OpCode.return
    | 0xf4 => some delegatecall
    | 0xf5 => some create2
    | 0xfa => some staticcall
    | 0xfd => some revert
    | 0xff => some selfdestruct
    | _ => none

end OpCode

/-! ## Operations -/

/-- The functions that execute an operation. -/
inductive Execute
  | opStop | opAdd | opMul | opSub | opDiv | opSdiv | opMod | opSmod | opAddmod | opMulmod | opExp | opSignExtend
  | opLt | opGt | opSlt | opSgt | opEq | opIszero | opAnd | opOr | opXor | opNot | opByte | opSHL | opSHR | opSAR
  | opSha3
  | opAddress | opBalance | opOrigin | opCaller | opCallValue | opCallDataLoad | opCallDataSize | opCallDataCopy
  | opCodeSize | opCodeCopy | opGasprice | opExtCodeSize | opExtCodeCopy | opReturnDataSize | opReturnDataCopy
  | opExtCodeHash
  | opBlockhash | opCoinbase | opTimestamp | opNumber | opDifficulty | opGasLimit | opChainID | opSelfBalance
  | opPop | opMload | opMstore | opMstore8 | opSload | opSstore | opJump | opJumpi | opPc | opMsize | opGas
  | opJumpdest | opBeginSub | opReturnSub | opJumpSub
  | opPush1
  | makePush (size pushByteSize : Nat)
  | makeDup (size : Nat)
  | makeSwap (size : Nat)
  | makeLog (size : Nat)
  | opCreate | opCall | opCallCode | opReturn | opDelegateCall | opCreate2 | opStaticCall | opRevert | opSuicide
  deriving DecidableEq

/-- The functions that give the dynamic gas of an operation. -/
inductive GasFunc
  | memoryCopierGas (stackpos : Nat)
  | gasSStore
  | gasSStoreEIP2200
  | makeGasLog (n : Nat)
  | gasSha3
  | pureMemoryGascost
  | gasCreate2
  | gasExpFrontier
  | gasExpEIP158
  | gasCall
  | gasCallCode
  | gasDelegateCall
  | gasStaticCall
  | gasSelfdestruct
  deriving DecidableEq

/-- The functions that give the memory an operation needs. -/
inductive MemorySizeFunc
  | memorySha3
  | memoryCallDataCopy
  | memoryReturnDataCopy
  | memoryCodeCopy
  | memoryExtCodeCopy
  | memoryMLoad
  | memoryMStore8
  | memoryMStore
  | memoryCreate
  | memoryCreate2
  | memoryCall
  | memoryDelegateCall
  | memoryStaticCall
  | memoryReturn
  | memoryRevert
  | memoryLog
  deriving DecidableEq

structure Operation where
  execute : Execute
  constantGas : Nat := 0
  dynamicGas : Option GasFunc := none
  minStack : Nat
  maxStack : Nat
  memorySize : Option MemorySizeFunc := none
  halts : Bool := false
  jumps : Bool := false
  writes : Bool := false
  valid : Bool := false
  reverts : Bool := false
  returns : Bool := false
  deriving DecidableEq

def stackLimit : Nat := 1024

def minStack (pops _push : Nat) : Nat := pops

def maxStack (pop push : Nat) : Nat := stackLimit + pop - push

/-- A valid operation that takes `pops` items and leaves `push`. -/
def Operation.of (execute : Execute) (pops push constantGas : Nat) : Operation where
  execute := execute
  constantGas := constantGas
  minStack := Vm.minStack pops push
  maxStack := Vm.maxStack pops push
  valid := true

/-- The entry of a byte that is no instruction of the set. -/
def Operation.undefined : Operation where
  execute := .opStop
  minStack := 0
  maxStack := 0

abbrev JumpTable := OpCode → Operation

/-! ## Gas prices -/

def gasQuickStep : Nat := 2
def gasFastestStep : Nat := 3
def gasFastStep : Nat := 5
def gasMidStep : Nat := 8
def gasSlowStep : Nat := 10
def gasExtStep : Nat := 20

namespace Params

def sha3Gas : Nat := 30
def jumpdestGas : Nat := 1
def createGas : Nat := 32000
def create2Gas : Nat := 32000
def callGasFrontier : Nat := 40
def callGasEIP150 : Nat := 700
def balanceGasFrontier : Nat := 20
def balanceGasEIP150 : Nat := 400
def balanceGasEIP1884 : Nat := 700
def extcodeSizeGasFrontier : Nat := 20
def extcodeSizeGasEIP150 : Nat := 700
def sloadGasFrontier : Nat := 50
def sloadGasEIP150 : Nat := 200
def sloadGasEIP1884 : Nat := 800
def sloadGasEIP2200 : Nat := 800
def extcodeHashGasConstantinople : Nat := 400
def extcodeHashGasEIP1884 : Nat := 700
def extcodeCopyBaseFrontier : Nat := 20
def extcodeCopyBaseEIP150 : Nat := 700

end Params

/-! ## Instruction sets -/

def newFrontierInstructionSet : JumpTable
  | .stop => { Operation.of .opStop 0 0 0 with halts := true }
  | .add => .of .opAdd 2 1 gasFastestStep
  | .mul => .of .opMul 2 1 gasFastStep
  | .sub => .of .opSub 2 1 gasFastestStep
  | .div => .of .opDiv 2 1 gasFastStep
  | .sdiv => .of .opSdiv 2 1 gasFastStep
  | .mod => .of .opMod 2 1 gasFastStep
  | .smod => .of .opSmod 2 1 gasFastStep
  | .addmod => .of .opAddmod 3 1 gasMidStep
  | .mulmod => .of .opMulmod 3 1 gasMidStep
  | .exp => { Operation.of .opExp 2 1 0 with dynamicGas := some .gasExpFrontier }
  | .signextend => .of .opSignExtend 2 1 gasFastStep
  | .lt => .of .opLt 2 1 gasFastestStep
  | .gt => .of .opGt 2 1 gasFastestStep
  | .slt => .of .opSlt 2 1 gasFastestStep
  | .sgt => .of .opSgt 2 1 gasFastestStep
  | .eq => .of .opEq 2 1 gasFastestStep
  | .iszero => .of .opIszero 1 1 gasFastestStep
  | .and => .of .opAnd 2 1 gasFastestStep
  | .xor => .of .opXor 2 1 gasFastestStep
  | .or => .of .opOr 2 1 gasFastestStep
  | .not => .of .opNot 1 1 gasFastestStep
  | .byte => .of .opByte 2 1 gasFastestStep
  | .sha3 => { Operation.of .opSha3 2 1 Params.sha3Gas with
      dynamicGas := some .gasSha3, memorySize := some .memorySha3 }
  | .address => .of .opAddress 0 1 gasQuickStep
  | .balance => .of .opBalance 1 1 Params.balanceGasFrontier
  | .origin => .of .opOrigin 0 1 gasQuickStep
  | .caller => .of .opCaller 0 1 gasQuickStep
  | .callvalue => .of .opCallValue 0 1 gasQuickStep
  | .calldataload => .of .opCallDataLoad 1 1 gasFastestStep
  | .calldatasize => .of .opCallDataSize 0 1 gasQuickStep
  | .calldatacopy => { Operation.of .opCallDataCopy 3 0 gasFastestStep with
      dynamicGas := some (.memoryCopierGas 2), memorySize := some .memoryCallDataCopy }
  | .codesize => .of .opCodeSize 0 1 gasQuickStep
  | .codecopy => { Operation.of .opCodeCopy 3 0 gasFastestStep with
      dynamicGas := some (.memoryCopierGas 2), memorySize := some .memoryCodeCopy }
  | .gasprice => .of .opGasprice 0 1 gasQuickStep
  | .extcodesize => .of .opExtCodeSize 1 1 Params.extcodeSizeGasFrontier
  | .extcodecopy => { Operation.of .opExtCodeCopy 4 0 Params.extcodeCopyBaseFrontier with
      dynamicGas := some (.memoryCopierGas 3), memorySize := some .memoryExtCodeCopy }
  | .blockhash => .of .opBlockhash 1 1 gasExtStep
  | .coinbase => .of .opCoinbase 0 1 gasQuickStep
  | .timestamp => .of .opTimestamp 0 1 gasQuickStep
  | .number => .of .opNumber 0 1 gasQuickStep
  | .difficulty => .of .opDifficulty 0 1 gasQuickStep
  | .gaslimit => .of .opGasLimit 0 1 gasQuickStep
  | .pop => .of .opPop 1 0 gasQuickStep
  | .mload => { Operation.of .opMload 1 1 gasFastestStep with
      dynamicGas := some .pureMemoryGascost, memorySize := some .memoryMLoad }
  | .mstore => { Operation.of .opMstore 2 0 gasFastestStep with
      dynamicGas := some .pureMemoryGascost, memorySize := some .memoryMStore }
  | .mstore8 => { Operation.of .opMstore8 2 0 gasFastestStep with
      dynamicGas := some .pureMemoryGascost, memorySize := some .memoryMStore8 }
  | .sload => .of .opSload 1 1 Params.sloadGasFrontier
  | .sstore => { Operation.of .opSstore 2 0 0 with dynamicGas := some .gasSStore, writes := true }
  | .jump => { Operation.of .opJump 1 0 gasMidStep with jumps := true }
  | .jumpi => { Operation.of .opJumpi 2 0 gasSlowStep with jumps := true }
  | .pc => .of .opPc 0 1 gasQuickStep
  | .msize => .of .opMsize 0 1 gasQuickStep
  | .gas => .of .opGas 0 1 gasQuickStep
  | .jumpdest => .of .opJumpdest 0 0 Params.jumpdestGas
  | .push n => .of (if n = 0 then .opPush1 else .makePush (n + 1) (n + 1)) 0 1 gasFastestStep
  | .dup n => .of (.makeDup (n + 1)) (n + 1) (n + 1 + 1) gasFastestStep
  | .swap n => .of (.makeSwap (n + 1)) (n + 2) (n + 2) gasFastestStep
  | .log n => { Operation.of (.makeLog n) (n + 2) 0 0 with
      dynamicGas := some (.makeGasLog n), memorySize := some .memoryLog, writes := true }
  | .create => { Operation.of .opCreate 3 1 Params.createGas with
      dynamicGas := some .pureMemoryGascost, memorySize := some .memoryCreate, writes := true, returns := true }
  | .call => { Operation.of .opCall 7 1 Params.callGasFrontier with
      dynamicGas := some .gasCall, memorySize := some .memoryCall, returns := true }
  | .callcode => { Operation.of .opCallCode 7 1 Params.callGasFrontier with
      dynamicGas := some .gasCallCode, memorySize := some .memoryCall, returns := true }
  | .return => { Operation.of .opReturn 2 0 0 with
      dynamicGas := some .pureMemoryGascost, memorySize := some .memoryReturn, halts := true }
  | .selfdestruct => { Operation.of .opSuicide 1 0 0 with
      dynamicGas := some .gasSelfdestruct, halts := true, writes := true }
  | _ => .undefined

/-- An instruction set with one operation changed. -/
def JumpTable.set (jt : JumpTable) (op : OpCode) (operation : Operation) : JumpTable :=
  fun op' => if op' = op then operation else jt op'

/-- An instruction set with the static gas of one operation changed. -/
def JumpTable.setGas (jt : JumpTable) (op : OpCode) (constantGas : Nat) : JumpTable :=
  jt.set op { jt op with constantGas := constantGas }

def newHomesteadInstructionSet : JumpTable :=
  newFrontierInstructionSet.set .delegatecall { Operation.of .opDelegateCall 6 1 Params.callGasFrontier with
    dynamicGas := some .gasDelegateCall, memorySize := some .memoryDelegateCall, returns := true }

def newTangerineWhistleInstructionSet : JumpTable :=
  newHomesteadInstructionSet
    |>.setGas .balance Params.balanceGasEIP150
    |>.setGas .extcodesize Params.extcodeSizeGasEIP150
    |>.setGas .sload Params.sloadGasEIP150
    |>.setGas .extcodecopy Params.extcodeCopyBaseEIP150
    |>.setGas .call Params.callGasEIP150
    |>.setGas .callcode Params.callGasEIP150
    |>.setGas .delegatecall Params.callGasEIP150

def newSpuriousDragonInstructionSet : JumpTable :=
  let jt := newTangerineWhistleInstructionSet
  jt.set .exp { jt .exp with dynamicGas := some .gasExpEIP158 }

def newByzantiumInstructionSet : JumpTable :=
  newSpuriousDragonInstructionSet
    |>.set .staticcall { Operation.of .opStaticCall 6 1 Params.callGasEIP150 with
      dynamicGas := some .gasStaticCall, memorySize := some .memoryStaticCall, returns := true }
    |>.set .returndatasize (.of .opReturnDataSize 0 1 gasQuickStep)
    |>.set .returndatacopy { Operation.of .opReturnDataCopy 3 0 gasFastestStep with
      dynamicGas := some (.memoryCopierGas 2), memorySize := some .memoryReturnDataCopy }
    |>.set .revert { Operation.of .opRevert 2 0 0 with
      dynamicGas := some .pureMemoryGascost, memorySize := some .memoryRevert, reverts := true, returns := true }

def newConstantinopleInstructionSet : JumpTable :=
  newByzantiumInstructionSet
    |>.set .shl (.of .opSHL 2 1 gasFastestStep)
    |>.set .shr (.of .opSHR 2 1 gasFastestStep)
    |>.set .sar (.of .opSAR 2 1 gasFastestStep)
    |>.set .extcodehash (.of .opExtCodeHash 1 1 Params.extcodeHashGasConstantinople)
    |>.set .create2 { Operation.of .opCreate2 4 1 Params.create2Gas with
      dynamicGas := some .gasCreate2, memorySize := some .memoryCreate2, writes := true, returns := true }

def enable1344 (jt : JumpTable) : JumpTable := jt.set .chainid (.of .opChainID 0 1 gasQuickStep)

def enable1884 (jt : JumpTable) : JumpTable :=
  jt.setGas .sload Params.sloadGasEIP1884
    |>.setGas .balance Params.balanceGasEIP1884
    |>.setGas .extcodehash Params.extcodeHashGasEIP1884
    |>.set .selfbalance (.of .opSelfBalance 0 1 gasFastStep)

def enable2200 (jt : JumpTable) : JumpTable :=
  let jt := jt.setGas .sload Params.sloadGasEIP2200
  jt.set .sstore { jt .sstore with dynamicGas := some .gasSStoreEIP2200 }

def enable2315 (jt : JumpTable) : JumpTable :=
  jt.set .beginsub (.of .opBeginSub 0 0 gasQuickStep)
    |>.set .jumpsub { Operation.of .opJumpSub 1 0 gasSlowStep with jumps := true }
    |>.set .returnsub { Operation.of .opReturnSub 0 0 gasFastStep with jumps := true }

def newIstanbulInstructionSet : JumpTable := enable2200 (enable1884 (enable1344 newConstantinopleInstructionSet))

def newYoloV1InstructionSet : JumpTable := enable2315 newIstanbulInstructionSet

/-! ## Rules -/

structure Rules where
  isHomestead : Bool
  isEIP150 : Bool
  isEIP158 : Bool
  isByzantium : Bool
  isConstantinople : Bool
  isPetersburg : Bool
  isIstanbul : Bool
  isYoloV1 : Bool
  deriving DecidableEq

/-- The instruction set that `NewEVMInterpreter` chooses. -/
def Rules.jumpTable (r : Rules) : JumpTable :=
  if r.isYoloV1 then newYoloV1InstructionSet
  else if r.isIstanbul then newIstanbulInstructionSet
  else if r.isConstantinople then newConstantinopleInstructionSet
  else if r.isByzantium then newByzantiumInstructionSet
  else if r.isEIP158 then newSpuriousDragonInstructionSet
  else if r.isEIP150 then newTangerineWhistleInstructionSet
  else if r.isHomestead then newHomesteadInstructionSet
  else newFrontierInstructionSet

/-- The operation of a byte of code. -/
def Rules.operation (r : Rules) (b : UInt8) : Operation := (OpCode.ofByte b).elim .undefined r.jumpTable

end NdnGeth.Vm
