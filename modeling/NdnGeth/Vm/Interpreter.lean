/-
The interpreter and the calls (`core/vm/interpreter.go`, `core/vm/evm.go`,
`core/vm/contracts.go`).

A frame calls another through `Calls`, and `EVM.Call` and its like run a frame
through a `Runner`. The knot is tied by `interpret`, which bounds the nesting
of frames and the rounds of the loop of each one: `Vm.Safety` shows which
bounds are enough.
-/
import NdnGeth.Vm.Instructions

namespace NdnGeth.Vm

open Lib (Result iterate)
open Lib.Rlp (Bytes)
open State (Digests StateDB)
open Types (Address)

variable {D : Digests}

/-! ## The loop of `Run` -/

/-- How a frame ended. -/
structure Halted (D : Digests) where
  machine : Machine D
  ret : Bytes
  err : Option VmError

/-- The charge for an operation that depends on its operands, and the machine
that can execute it; an error where there is not enough gas. -/
def Operation.chargeDynamic (env : Env D) (operation : Operation) (m : Machine D) :
    Result Panic (Machine D × Option VmError) := do
  let memSize ← operation.memorySize.elim (.ok (some 0)) fun f => f.size m
  match memSize.bind fun memSize => safeMul (toWordSize memSize) 32 with
  | none => return (m, some .gasUintOverflow)
  | some memorySize =>
    let (m, dynamicCost) ← operation.dynamicGas.elim (.ok (m, some 0)) fun f => f.gas env m memorySize
    match dynamicCost.bind m.contract.useGas with
    | none => return (m, some .outOfGas)
    | some contract =>
      return ({ m with
        contract := contract
        memory := if memorySize > 0 then m.memory.resize memorySize else m.memory }, none)

def Operation.charge (env : Env D) (operation : Operation) (m : Machine D) : Result Panic (Machine D × Option VmError) :=
  match m.contract.useGas operation.constantGas with
  | none => .ok (m, some .outOfGas)
  | some contract => operation.chargeDynamic env { m with contract := contract }

/-- The end of a round: what follows from the result of the instruction. -/
def Operation.conclude (operation : Operation) (m : Machine D) (res : Bytes) (err : Option VmError) :
    Machine D ⊕ Halted D :=
  let m := if operation.returns then { m with evm := { m.evm with returnData := res } } else m
  if err.isSome then .inr ⟨m, [], err⟩
  else if operation.reverts then .inr ⟨m, res, some .executionReverted⟩
  else if operation.halts then .inr ⟨m, res, none⟩
  else if operation.jumps then .inl m
  else .inl { m with pc := add64 m.pc 1 }

/-- Whether an operation writes to the state: the third operand of a call is
the value it transfers. -/
def Operation.forbidden (operation : Operation) (m : Machine D) (op : UInt8) : Bool :=
  operation.writes || (OpCode.ofByte op == some .call && (m.stack[2]?).getD 0 != 0)

/-- The rounds are counted, and after every thousand the flag set by `Cancel`
is read. -/
def Machine.tick (m : Machine D) : Machine D :=
  let m := { m with steps := m.steps + 1 }
  if m.steps % 1000 = 0 then { m with evm := { m.evm with polls := m.evm.polls + 1 } } else m

/-- Whether the flag was found set in this round. -/
def Machine.aborted (env : Env D) (m : Machine D) : Bool := (m.steps + 1) % 1000 == 0 && env.abort m.evm.polls

/-- An operation that passed the checks is charged for and executed. -/
def Operation.perform (env : Env D) (calls : Calls D) (operation : Operation) (m : Machine D) :
    Result Panic (Machine D ⊕ Halted D) := do
  match ← operation.charge env m with
  | (m, some err) => return .inr ⟨m, [], some err⟩
  | (m, none) =>
    let (m, res, err) ← operation.execute.run env calls m
    return operation.conclude m res err

/-- The operation at the program counter: it is checked, and performed. -/
def next (env : Env D) (calls : Calls D) (m : Machine D) : Result Panic (Machine D ⊕ Halted D) :=
  let op := m.contract.getOp m.pc
  let operation := env.rules.operation op
  let sLen := m.stack.length
  if !operation.valid then .ok (.inr ⟨m, [], some (.invalidOpCode op)⟩)
  else if sLen < operation.minStack then .ok (.inr ⟨m, [], some (.stackUnderflow sLen operation.minStack)⟩)
  else if sLen > operation.maxStack then .ok (.inr ⟨m, [], some (.stackOverflow sLen operation.maxStack)⟩)
  else if m.evm.readOnly && env.rules.isByzantium && operation.forbidden m op then
    .ok (.inr ⟨m, [], some .writeProtection⟩)
  else operation.perform env calls m

def round (env : Env D) (calls : Calls D) (m : Machine D) : Result Panic (Machine D ⊕ Halted D) :=
  if m.aborted env then .ok (.inr ⟨m.tick, [], none⟩) else next env calls m.tick

structure Ran (D : Digests) where
  evm : Evm D
  gas : Nat
  ret : Bytes
  err : Option VmError

/-- A function that runs a contract: `Run` of the interpreter, or `run`. -/
abbrev Runner (D : Digests) := Evm D → Contract → (input : Bytes) → (readOnly : Bool) → Result Panic (Ran D)

/-- The machine a frame starts with. -/
def Machine.start (evm : Evm D) (contract : Contract) (input : Bytes) : Machine D where
  pc := 0
  stack := []
  rstack := []
  memory := .new
  contract := { contract with input := input }
  steps := 0
  evm := evm

/-- What `Run` does first: the depth grows, and the read-only flag is set where
it is asked for. -/
def Evm.enter (evm : Evm D) (readOnly : Bool) : Evm D :=
  { evm with depth := evm.depth + 1, readOnly := evm.readOnly || (readOnly && !evm.readOnly), returnData := [] }

/-- What `Run` defers. The flag is taken back by the frame that set it. -/
def Evm.leave (evm : Evm D) (entered : Bool) : Evm D :=
  { evm with depth := evm.depth - 1, readOnly := if entered then false else evm.readOnly }

/-- `Run`, with a bound on the rounds of its loop. -/
def interpreterRun (env : Env D) (calls : Calls D) (rounds : Nat) : Runner D := fun evm contract input readOnly =>
  let entered := readOnly && !evm.readOnly
  if contract.code = [] then .ok ⟨(evm.enter readOnly).leave entered, contract.gas, [], none⟩
  else do
    let h ← iterate (round env calls) rounds (.start (evm.enter readOnly) contract input)
    return ⟨h.machine.evm.leave entered, h.machine.gas, h.ret, h.err⟩

/-! ## Precompiled contracts -/

def precompiledContractsHomestead (a : Address) : Option PrecompiledContract :=
  if a = 1 then some .ecrecover
  else if a = 2 then some .sha256hash
  else if a = 3 then some .ripemd160hash
  else if a = 4 then some .dataCopy
  else none

def precompiledContractsByzantium (a : Address) : Option PrecompiledContract :=
  if a = 5 then some .bigModExp
  else if a = 6 then some .bn256AddByzantium
  else if a = 7 then some .bn256ScalarMulByzantium
  else if a = 8 then some .bn256PairingByzantium
  else precompiledContractsHomestead a

def precompiledContractsIstanbul (a : Address) : Option PrecompiledContract :=
  if a = 6 then some .bn256AddIstanbul
  else if a = 7 then some .bn256ScalarMulIstanbul
  else if a = 8 then some .bn256PairingIstanbul
  else if a = 9 then some .blake2F
  else precompiledContractsByzantium a

def precompiledContractsYoloV1 (a : Address) : Option PrecompiledContract :=
  if a = 10 then some .bls12381G1Add
  else if a = 11 then some .bls12381G1Mul
  else if a = 12 then some .bls12381G1MultiExp
  else if a = 13 then some .bls12381G2Add
  else if a = 14 then some .bls12381G2Mul
  else if a = 15 then some .bls12381G2MultiExp
  else if a = 16 then some .bls12381Pairing
  else if a = 17 then some .bls12381MapG1
  else if a = 18 then some .bls12381MapG2
  else precompiledContractsIstanbul a

/-- The precompiled contracts as `Call` knows them. -/
def Rules.calledPrecompiles (r : Rules) : Address → Option PrecompiledContract :=
  if r.isIstanbul then precompiledContractsIstanbul
  else if r.isByzantium then precompiledContractsByzantium
  else precompiledContractsHomestead

/-- The precompiled contracts that `run` runs. -/
def Rules.precompiles (r : Rules) : Address → Option PrecompiledContract :=
  if r.isYoloV1 then precompiledContractsYoloV1 else r.calledPrecompiles

def runPrecompiledContract (env : Env D) (p : PrecompiledContract) (evm : Evm D) (contract : Contract) (input : Bytes) :
    Ran D :=
  match contract.useGas (env.requiredGas p input) with
  | none => ⟨evm, contract.gas, [], some .outOfGas⟩
  | some contract =>
    match env.native p input with
    | some ret => ⟨evm, contract.gas, ret, none⟩
    | none => ⟨evm, contract.gas, [], some .precompiled⟩

def run (env : Env D) (interpreter : Runner D) : Runner D := fun evm contract input readOnly =>
  match env.rules.precompiles contract.codeAddr with
  | some p => .ok (runPrecompiledContract env p evm contract input)
  | none => interpreter evm contract input readOnly

/-! ## Calls -/

namespace Params

def callCreateDepth : Nat := 1024
def createDataGas : Nat := 200
def maxCodeSize : Nat := 24576

end Params

def canTransfer (s : StateDB D) (addr : Address) (amount : Nat) : Bool × StateDB D :=
  let (balance, s) := s.getBalance addr
  (decide ((amount : Int) ≤ balance), s)

def transfer (s : StateDB D) (sender recipient : Address) (amount : Nat) : StateDB D :=
  (s.subBalance sender amount).addBalance recipient amount

/-- A reply without an address. -/
def Reply.of (evm : Evm D) (ret : Bytes) (gas : Nat) (err : Option VmError) : Reply D := ⟨ret, 0, gas, err, evm⟩

/-- What is left of a frame that failed: the state of the snapshot, and the gas
only of one that asked for it. -/
def failed (r : Ran D) (snapshot : Nat) : Result Panic (Ran D) := do
  let s ← .ofOption .revision (r.evm.state.revertToSnapshot snapshot)
  return { r with
    evm := { r.evm with state := s }
    gas := if r.err = some .executionReverted then r.gas else 0 }

/-- The end of the calls: a contract is run, and a failure undone. -/
def runCall (runner : Runner D) (evm : Evm D) (contract : Contract) (input : Bytes) (readOnly : Bool) (snapshot : Nat) :
    Result Panic (Reply D) := do
  let r ← runner evm contract input readOnly
  let r ← if r.err.isSome then failed r snapshot else pure r
  return .of r.evm r.ret r.gas r.err

/-- A contract with the code of an account (`NewContract`, `SetCallCode`). -/
def callContract (env : Env D) (s : StateDB D) (callerAddress self addr : Address) (value gas : Nat) :
    Contract × StateDB D :=
  let (_, s) := s.getCodeHash addr
  let (code, s) := s.getCode env.db addr
  (⟨callerAddress, self, code, addr, [], gas, value⟩, s)

def call (env : Env D) (runner : Runner D) (evm : Evm D) (caller addr : Address) (input : Bytes) (gas value : Nat) :
    Result Panic (Reply D) :=
  if env.noRecursion && evm.depth > 0 then .ok (.of evm [] gas none)
  else if evm.depth > Params.callCreateDepth then .ok (.of evm [] gas (some .depth))
  else
    let (can, s) := canTransfer evm.state caller value
    if !can then .ok (.of { evm with state := s } [] gas (some .insufficientBalance))
    else
      let (snapshot, s) := s.snapshot
      let (exist, s) := s.exist addr
      if !exist && (env.rules.calledPrecompiles addr).isNone && env.rules.isEIP158 && value == 0 then
        .ok (.of { evm with state := s } [] gas none)
      else
        let s := if exist then s else s.createAccount addr
        let s := transfer s caller addr value
        let (contract, s) := callContract env s caller addr addr value gas
        runCall runner { evm with state := s } contract input false snapshot

def callCode (env : Env D) (runner : Runner D) (evm : Evm D) (caller addr : Address) (input : Bytes) (gas value : Nat) :
    Result Panic (Reply D) :=
  if env.noRecursion && evm.depth > 0 then .ok (.of evm [] gas none)
  else if evm.depth > Params.callCreateDepth then .ok (.of evm [] gas (some .depth))
  else
    let (can, s) := canTransfer evm.state caller value
    if !can then .ok (.of { evm with state := s } [] gas (some .insufficientBalance))
    else
      let (snapshot, s) := s.snapshot
      let (contract, s) := callContract env s caller caller addr value gas
      runCall runner { evm with state := s } contract input false snapshot

def delegateCall (env : Env D) (runner : Runner D) (evm : Evm D) (caller : Contract) (addr : Address) (input : Bytes)
    (gas : Nat) : Result Panic (Reply D) :=
  if env.noRecursion && evm.depth > 0 then .ok (.of evm [] gas none)
  else if evm.depth > Params.callCreateDepth then .ok (.of evm [] gas (some .depth))
  else
    let (snapshot, s) := evm.state.snapshot
    let (contract, s) := callContract env s caller.callerAddress caller.self addr caller.value gas
    runCall runner { evm with state := s } contract input false snapshot

def staticCall (env : Env D) (runner : Runner D) (evm : Evm D) (caller addr : Address) (input : Bytes) (gas : Nat) :
    Result Panic (Reply D) :=
  if env.noRecursion && evm.depth > 0 then .ok (.of evm [] gas none)
  else if evm.depth > Params.callCreateDepth then .ok (.of evm [] gas (some .depth))
  else
    let (snapshot, s) := evm.state.snapshot
    let (contract, s) := callContract env s caller addr addr 0 gas
    -- a touch of the account
    let s := s.addBalance addr 0
    runCall runner { evm with state := s } contract input true snapshot

/-- The new account of a creation, with what it is sent. -/
def newAccount (env : Env D) (s : StateDB D) (caller address : Address) (value : Nat) : StateDB D :=
  let s := s.createAccount address
  let s := if env.rules.isEIP158 then s.setNonce address 1 else s
  transfer s caller address value

/-- The end of `create`: the code that was returned is paid for and set. -/
def deploy (env : Env D) (address : Address) (snapshot : Nat) (r : Ran D) : Result Panic (Reply D) := do
  let maxCodeSizeExceeded := env.rules.isEIP158 && decide (r.ret.length > Params.maxCodeSize)
  let createDataGas := mul64 r.ret.length Params.createDataGas
  let r : Ran D :=
    if r.err.isNone && !maxCodeSizeExceeded then
      if r.gas < createDataGas then { r with err := some .codeStoreOutOfGas }
      else { r with
        gas := r.gas - createDataGas
        evm := { r.evm with state := r.evm.state.setCode env.db address r.ret } }
    else r
  let undone := maxCodeSizeExceeded ||
    (r.err.isSome && (env.rules.isHomestead || r.err != some .codeStoreOutOfGas))
  let r ← if undone then failed r snapshot else pure r
  let err := if maxCodeSizeExceeded && r.err.isNone then some .maxCodeSizeExceeded else r.err
  return ⟨r.ret, address, r.gas, err, r.evm⟩

/-- `create`, from the increment of the caller's nonce on. -/
def createAt (env : Env D) (runner : Runner D) (evm : Evm D) (caller : Address) (code : Bytes) (gas value : Nat)
    (address : Address) : Result Panic (Reply D) :=
  let (contractHash, s) := evm.state.getCodeHash address
  let (nonce, s) := s.getNonce address
  if nonce ≠ 0 ∨ (contractHash ≠ none ∧ contractHash ≠ some D.emptyCodeHash) then
    .ok ⟨[], 0, 0, some .contractAddressCollision, { evm with state := s }⟩
  else
    let (snapshot, s) := s.snapshot
    let s := newAccount env s caller address value
    let evm := { evm with state := s }
    let contract : Contract := ⟨caller, address, code, address, [], gas, value⟩
    if env.noRecursion && evm.depth > 0 then .ok ⟨[], address, gas, none, evm⟩
    else do
      let r ← runner evm contract [] false
      deploy env address snapshot r

def create (env : Env D) (runner : Runner D) (evm : Evm D) (caller : Address) (code : Bytes) (gas value : Nat)
    (address : Address) : Result Panic (Reply D) :=
  if evm.depth > Params.callCreateDepth then .ok (.of evm [] gas (some .depth))
  else
    let (can, s) := canTransfer evm.state caller value
    if !can then .ok (.of { evm with state := s } [] gas (some .insufficientBalance))
    else
      let (nonce, s) := s.getNonce caller
      let s := s.setNonce caller (nonce + 1)
      createAt env runner { evm with state := s } caller code gas value address

/-- The functions of `EVM` that start a frame. -/
def perform (env : Env D) (runner : Runner D) : Calls D := fun evm request =>
  match request with
  | .call caller addr input gas value => call env runner evm caller addr input gas value
  | .callCode caller addr input gas value => callCode env runner evm caller addr input gas value
  | .delegateCall caller addr input gas => delegateCall env runner evm caller addr input gas
  | .staticCall caller addr input gas => staticCall env runner evm caller addr input gas
  | .create caller code gas value =>
    let (nonce, s) := evm.state.getNonce caller
    create env runner { evm with state := s } caller code gas value (env.createAddress caller nonce)
  | .create2 caller code gas endowment salt =>
    create env runner evm caller code gas endowment
      (env.createAddress2 caller (bigToHash salt) (env.keccak256 code))

/-! ## The knot -/

/-- `Run`, with bounds on the nesting of frames and on the rounds of each. -/
def interpret (env : Env D) (rounds : Nat) : Nat → Runner D
  | 0 => fun _ _ _ _ => .unfinished
  | levels + 1 => interpreterRun env (perform env (run env (interpret env rounds levels))) rounds

/-- A call from outside, with these bounds. -/
def execute (env : Env D) (rounds levels : Nat) : Calls D := perform env (run env (interpret env rounds levels))

end NdnGeth.Vm
