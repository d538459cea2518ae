/-
What every operation of every instruction set promises.

The functions that size the memory of an operation, price it and execute it
are chosen separately in the tables. `Operation.Sound`: they read no more
of the stack than is checked to be there, they are about the same areas of
the memory, an operation that changes the state is marked, and one that
does not end the frame costs something.
-/
import NdnGeth.Vm.GasFacts

namespace NdnGeth.Vm

/-! ## What a function that executes an operation needs -/

namespace Execute

/-- How much of the stack it takes or reads. -/
def pops : Execute → Nat
  | opAdd | opMul | opSub | opDiv | opSdiv | opMod | opSmod | opExp | opSignExtend | opLt | opGt | opSlt | opSgt
  | opEq | opAnd | opOr | opXor | opByte | opSHL | opSHR | opSAR | opSha3 | opMstore | opMstore8 | opSstore | opJumpi
  | opReturn | opRevert => 2
  | opAddmod | opMulmod | opCallDataCopy | opCodeCopy | opReturnDataCopy | opCreate => 3
  | opIszero | opNot | opBalance | opCallDataLoad | opExtCodeSize | opExtCodeHash | opBlockhash | opPop | opMload
  | opSload | opJump | opJumpSub | opSuicide => 1
  | opExtCodeCopy | opCreate2 => 4
  | makeDup size => size
  | makeSwap size => size + 1
  | makeLog size => size + 2
  | opCall | opCallCode => 7
  | opDelegateCall | opStaticCall => 6
  | _ => 0

/-- The areas of the memory it reads and writes. -/
def memory : Execute → Option MemorySizeFunc
  | opSha3 => some .memorySha3
  | opCallDataCopy => some .memoryCallDataCopy
  | opReturnDataCopy => some .memoryReturnDataCopy
  | opCodeCopy => some .memoryCodeCopy
  | opExtCodeCopy => some .memoryExtCodeCopy
  | opMload => some .memoryMLoad
  | opMstore8 => some .memoryMStore8
  | opMstore => some .memoryMStore
  | opCreate => some .memoryCreate
  | opCreate2 => some .memoryCreate2
  | opCall | opCallCode => some .memoryCall
  | opDelegateCall => some .memoryDelegateCall
  | opStaticCall => some .memoryStaticCall
  | opReturn => some .memoryReturn
  | opRevert => some .memoryRevert
  | makeLog _ => some .memoryLog
  | _ => none

/-- The gas functions that go with it. -/
def prices : Execute → List (Option GasFunc)
  | opSha3 => [some .gasSha3]
  | opCallDataCopy | opReturnDataCopy | opCodeCopy => [some (.memoryCopierGas 2)]
  | opExtCodeCopy => [some (.memoryCopierGas 3)]
  | opMload | opMstore8 | opMstore | opCreate | opReturn | opRevert => [some .pureMemoryGascost]
  | opCreate2 => [some .gasCreate2]
  | opCall => [some .gasCall]
  | opCallCode => [some .gasCallCode]
  | opDelegateCall => [some .gasDelegateCall]
  | opStaticCall => [some .gasStaticCall]
  | makeLog size => [some (.makeGasLog size)]
  | opExp => [some .gasExpFrontier, some .gasExpEIP158]
  | opSstore => [some .gasSStore, some .gasSStoreEIP2200]
  | opSuicide => [some .gasSelfdestruct]
  | _ => [none]

/-- Whether it changes the state, by itself. -/
def writes : Execute → Bool
  | opSstore | makeLog _ | opCreate | opCreate2 | opSuicide => true
  | _ => false

/-- Whether it is given gas that was set aside. -/
def calls : Execute → Bool
  | opCall | opCallCode | opDelegateCall | opStaticCall => true
  | _ => false

/-- Dups and swaps have a size, and push instructions push something. -/
def Shaped : Execute → Prop
  | makeDup size => 0 < size
  | _ => True

instance : DecidablePred Shaped := fun e => by
  cases e <;> unfold Shaped <;> infer_instance

theorem memory_height {e : Execute} {f : MemorySizeFunc} (h : e.memory = some f) : f.height ≤ e.pops := by
  cases e <;> cases h <;> first | decide | exact Nat.le_add_left _ _

theorem prices_fit (e : Execute) : ∀ g ∈ e.prices, ∀ f ∈ g, f.height ≤ e.pops ∧ (f.writes = true → e.writes = true) := by
  cases e with
  | makeLog size =>
    intro g hg f hf
    cases List.mem_singleton.1 hg
    cases hf
    exact ⟨Nat.le_add_left _ _, nofun⟩
  | makePush size n | makeDup size | makeSwap size => exact fun g hg f hf => by cases List.mem_singleton.1 hg; cases hf
  | _ => decide

theorem prices_meters {e : Execute} {g : Option GasFunc} {mf : MemorySizeFunc} (hg : g ∈ e.prices)
    (h : e.memory = some mf) : ∃ f, g = some f ∧ f.metersMemory = true := by
  cases e <;> cases h <;> exact ⟨_, List.mem_singleton.1 hg, rfl⟩

end Execute

/-! ## Sound operations -/

/-- What the operation of an opcode promises. -/
structure Operation.Sound (op : OpCode) (o : Operation) : Prop where
  pops : o.execute.pops ≤ o.minStack
  memory : o.memorySize = o.execute.memory
  price : o.dynamicGas ∈ o.execute.prices
  few : ∀ f ∈ o.dynamicGas, f.Few
  shaped : o.execute.Shaped
  writes : o.execute.writes = true → o.writes = true
  call : o.execute = .opCall → op = .call
  paid : (o.halts = true ∨ o.reverts = true) ∨ 0 < o.constantGas ∨ ∃ f ∈ o.dynamicGas, 0 < f.floor

instance (op : OpCode) (o : Operation) : Decidable (o.Sound op) :=
  decidable_of_iff
    (o.execute.pops ≤ o.minStack ∧ o.memorySize = o.execute.memory ∧ o.dynamicGas ∈ o.execute.prices ∧
      (∀ f ∈ o.dynamicGas, f.Few) ∧ o.execute.Shaped ∧ (o.execute.writes = true → o.writes = true) ∧
      (o.execute = .opCall → op = .call) ∧
      ((o.halts = true ∨ o.reverts = true) ∨ 0 < o.constantGas ∨ ∃ f ∈ o.dynamicGas, 0 < f.floor))
    ⟨fun ⟨h1, h2, h3, h4, h5, h6, h7, h8⟩ => ⟨h1, h2, h3, h4, h5, h6, h7, h8⟩,
      fun ⟨h1, h2, h3, h4, h5, h6, h7, h8⟩ => ⟨h1, h2, h3, h4, h5, h6, h7, h8⟩⟩

/-- Every valid operation of an instruction set is sound. -/
def JumpTable.Sound (jt : JumpTable) : Prop := ∀ op, (jt op).valid = true → (jt op).Sound op

namespace JumpTable

variable {jt : JumpTable}

theorem Sound.set (h : jt.Sound) (op : OpCode) {o : Operation} (ho : o.valid = true → o.Sound op) :
    (jt.set op o).Sound := by
  intro op' hv
  unfold JumpTable.set at hv ⊢
  split
  · rename_i heq
    rw [if_pos heq] at hv
    rw [heq]
    exact ho hv
  · rename_i hne
    rw [if_neg hne] at hv
    exact h op' hv

theorem Sound.setGas (h : jt.Sound) (op : OpCode) {gas : Nat} (hg : 0 < gas) : (jt.setGas op gas).Sound :=
  h.set op fun hv =>
    have ho := h op hv
    { pops := ho.pops, memory := ho.memory, price := ho.price, few := ho.few, shaped := ho.shaped, writes := ho.writes
      call := ho.call
      paid := .inr (.inl hg) }

theorem frontier_sound : newFrontierInstructionSet.Sound := by
  intro op hv
  cases op with
  | push n =>
    by_cases h : n = 0
    · subst h; decide
    · have hop : newFrontierInstructionSet (.push n) = .of (.makePush (n + 1) (n + 1)) 0 1 gasFastestStep := by
        show Operation.of (if n = 0 then .opPush1 else .makePush (n + 1) (n + 1)) 0 1 gasFastestStep = _
        rw [if_neg h]
      rw [hop]
      exact ⟨Nat.zero_le _, rfl, List.mem_singleton.2 rfl, nofun, trivial, nofun, nofun, .inr (.inl (show 0 < gasFastestStep by decide))⟩
  | dup n =>
    exact ⟨le_refl _, rfl, List.mem_singleton.2 rfl, nofun, Nat.succ_pos _, nofun, nofun, .inr (.inl (show 0 < gasFastestStep by decide))⟩
  | swap n =>
    exact ⟨le_refl _, rfl, List.mem_singleton.2 rfl, nofun, trivial, nofun, nofun, .inr (.inl (show 0 < gasFastestStep by decide))⟩
  | log n =>
    have hfew : (GasFunc.makeGasLog n).Few := Nat.le_of_lt_succ n.2
    exact ⟨le_refl _, rfl, List.mem_singleton.2 rfl, fun f hf => by cases hf; exact hfew, trivial, fun _ => rfl, nofun,
      .inr (.inr ⟨_, rfl, show 0 < 375 by decide⟩)⟩
  | _ => first | decide | cases hv

theorem homestead_sound : newHomesteadInstructionSet.Sound := frontier_sound.set _ fun _ => by decide

theorem tangerineWhistle_sound : newTangerineWhistleInstructionSet.Sound :=
  homestead_sound
    |>.setGas _ (by decide)
    |>.setGas _ (by decide)
    |>.setGas _ (by decide)
    |>.setGas _ (by decide)
    |>.setGas _ (by decide)
    |>.setGas _ (by decide)
    |>.setGas _ (by decide)

theorem spuriousDragon_sound : newSpuriousDragonInstructionSet.Sound := tangerineWhistle_sound.set _ fun _ => by decide

theorem byzantium_sound : newByzantiumInstructionSet.Sound :=
  spuriousDragon_sound
    |>.set _ (fun _ => by decide)
    |>.set _ (fun _ => by decide)
    |>.set _ (fun _ => by decide)
    |>.set _ (fun _ => by decide)

theorem constantinople_sound : newConstantinopleInstructionSet.Sound :=
  byzantium_sound
    |>.set _ (fun _ => by decide)
    |>.set _ (fun _ => by decide)
    |>.set _ (fun _ => by decide)
    |>.set _ (fun _ => by decide)
    |>.set _ (fun _ => by decide)

theorem istanbul_sound : newIstanbulInstructionSet.Sound :=
  constantinople_sound
    |>.set _ (fun _ => by decide)
    |>.setGas _ (by decide)
    |>.setGas _ (by decide)
    |>.setGas _ (by decide)
    |>.set _ (fun _ => by decide)
    |>.setGas _ (by decide)
    |>.set _ fun _ => by decide

theorem yoloV1_sound : newYoloV1InstructionSet.Sound :=
  istanbul_sound
    |>.set _ (fun _ => by decide)
    |>.set _ (fun _ => by decide)
    |>.set _ fun _ => by decide

end JumpTable

theorem Rules.jumpTable_sound (r : Rules) : r.jumpTable.Sound := by
  unfold Rules.jumpTable
  repeat' split
  · exact JumpTable.yoloV1_sound
  · exact JumpTable.istanbul_sound
  · exact JumpTable.constantinople_sound
  · exact JumpTable.byzantium_sound
  · exact JumpTable.spuriousDragon_sound
  · exact JumpTable.tangerineWhistle_sound
  · exact JumpTable.homestead_sound
  · exact JumpTable.frontier_sound

theorem Rules.operation_sound {r : Rules} {b : UInt8} (h : (r.operation b).valid = true) :
    ∃ op, OpCode.ofByte b = some op ∧ (r.operation b).Sound op := by
  unfold Rules.operation at h ⊢
  cases hb : OpCode.ofByte b with
  | none => rw [hb] at h; cases h
  | some op => rw [hb] at h; exact ⟨op, rfl, r.jumpTable_sound op h⟩

end NdnGeth.Vm
