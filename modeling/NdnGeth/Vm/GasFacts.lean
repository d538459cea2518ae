/-
What the gas functions charge.

`GasFunc.extra` is what an operation costs besides its memory, as an exact
number. `Priced` is what a gas function leaves: the machine as it was, except
for what was read of the state, the refund counter and the gas set aside for
a callee, and a cost that is the fee for the memory and this number.
-/
import Mathlib.Data.Nat.Size
import NdnGeth.Vm.Effect
import NdnGeth.Vm.MemoryFacts

namespace NdnGeth.Vm

open Lib (Result)
open NdnGeth.Core (Hash)
open NdnGeth.State (Digests StateDB)
open NdnGeth.Types (Address)

variable {D : Digests} {E : Panic → Prop} {F : Prop}

/-! ## The stack -/

/-- An item of the stack; zero below its bottom. -/
def Frame.item (m : Frame) (n : Nat) : Nat := m.stack.getD n 0

theorem Machine.back_eq {m : Machine D} {n : Nat} (h : n < m.stack.length) : m.back n = .ok (m.item n) := by
  unfold Machine.back Frame.item
  rw [List.getElem?_eq_getElem h, List.getD_eq_getElem?_getD, List.getElem?_eq_getElem h]
  rfl

theorem Frame.item_mem {m : Frame} {n : Nat} (h : n < m.stack.length) : m.item n ∈ m.stack := by
  unfold Frame.item
  rw [List.getD_eq_getElem?_getD, List.getElem?_eq_getElem h]
  exact List.getElem_mem _

/-! ## The size of the memory -/

namespace MemorySizeFunc

def height : MemorySizeFunc → Nat
  | memorySha3 | memoryReturn | memoryRevert | memoryLog => 2
  | memoryCallDataCopy | memoryReturnDataCopy | memoryCodeCopy | memoryCreate | memoryCreate2 => 3
  | memoryExtCodeCopy => 4
  | memoryMLoad | memoryMStore8 | memoryMStore => 1
  | memoryCall => 7
  | memoryDelegateCall | memoryStaticCall => 6

/-- The areas an operation reads and writes lie in the memory. -/
def Covered (m : Frame) (mem : Memory) : MemorySizeFunc → Prop
  | memorySha3 | memoryReturn | memoryRevert | memoryLog => mem.Covers (m.item 0) (m.item 1)
  | memoryCallDataCopy | memoryReturnDataCopy | memoryCodeCopy => mem.Covers (m.item 0) (m.item 2)
  | memoryExtCodeCopy => mem.Covers (m.item 1) (m.item 3)
  | memoryMLoad | memoryMStore => mem.Covers (m.item 0) 32
  | memoryMStore8 => mem.Covers (m.item 0) 1
  | memoryCreate | memoryCreate2 => mem.Covers (m.item 1) (m.item 2)
  | memoryCall => mem.Covers (m.item 5) (m.item 6) ∧ mem.Covers (m.item 3) (m.item 4)
  | memoryDelegateCall | memoryStaticCall => mem.Covers (m.item 4) (m.item 5) ∧ mem.Covers (m.item 2) (m.item 3)

variable {m : Machine D}

theorem covers_of_calc {off l size : Nat} {mem : Memory} (h : calcMemSize64 off l = some size) (hs : size ≤ mem.len) :
    mem.Covers off l := by
  rcases calcMemSize64_eq_some.1 h with ⟨rfl, -⟩ | ⟨-, -, rfl⟩
  · exact .inl rfl
  · exact .inr hs

theorem area_spec {i j : Nat} (hi : i < m.stack.length) (hj : j < m.stack.length) :
    ∃ r, area m i j = .ok r ∧ ∀ size, r = some size → ∀ mem : Memory, size ≤ mem.len → mem.Covers (m.item i) (m.item j) := by
  refine ⟨_, by simp only [area, Machine.back_eq hi, Machine.back_eq hj, Result.ok_bind]; rfl, ?_⟩
  exact fun size h mem hs => covers_of_calc h hs

theorem fixedArea_spec {i l : Nat} (hi : i < m.stack.length) (hl : l < two64) :
    ∃ r, fixedArea m i l = .ok r ∧ ∀ size, r = some size → ∀ mem : Memory, size ≤ mem.len → mem.Covers (m.item i) l := by
  refine ⟨_, by simp only [fixedArea, Machine.back_eq hi, Result.ok_bind]; rfl, fun size h mem hs => ?_⟩
  rcases (calcMemSize64WithUint_eq_some hl).1 h with ⟨rfl, -⟩ | ⟨-, -, rfl⟩
  · exact .inl rfl
  · exact .inr hs

theorem areas_spec {i j k l : Nat} (hi : i < m.stack.length) (hj : j < m.stack.length) (hk : k < m.stack.length)
    (hl : l < m.stack.length) :
    ∃ r, areas m i j k l = .ok r ∧ ∀ size, r = some size → ∀ mem : Memory, size ≤ mem.len →
      mem.Covers (m.item i) (m.item j) ∧ mem.Covers (m.item k) (m.item l) := by
  refine ⟨_, by simp only [areas, Machine.back_eq hi, Machine.back_eq hj, Machine.back_eq hk, Machine.back_eq hl,
    Result.ok_bind]; rfl, ?_⟩
  intro size h mem hs
  obtain ⟨x, hx, h⟩ := Option.bind_eq_some_iff.1 h
  obtain ⟨y, hy, h⟩ := Option.bind_eq_some_iff.1 h
  have hmax : x ≤ size ∧ y ≤ size := by
    have := Option.some.inj h
    split at this <;> omega
  exact ⟨covers_of_calc hx (hmax.1.trans hs), covers_of_calc hy (hmax.2.trans hs)⟩

theorem size_spec (f : MemorySizeFunc) (h : f.height ≤ m.stack.length) :
    ∃ r, f.size m = .ok r ∧ ∀ size, r = some size → ∀ mem : Memory, size ≤ mem.len → f.Covered m.toFrame mem := by
  have hlt {i : Nat} (hi : i < f.height) : i < m.stack.length := Nat.lt_of_lt_of_le hi h
  cases f with
  | memoryMLoad | memoryMStore8 | memoryMStore => exact fixedArea_spec (hlt (by decide)) (by decide)
  | memoryCall | memoryDelegateCall | memoryStaticCall =>
    exact areas_spec (hlt (by decide)) (hlt (by decide)) (hlt (by decide)) (hlt (by decide))
  | memorySha3 | memoryCallDataCopy | memoryReturnDataCopy | memoryCodeCopy | memoryExtCodeCopy | memoryCreate | memoryCreate2
  | memoryReturn | memoryRevert | memoryLog => exact area_spec (hlt (by decide)) (hlt (by decide))

end MemorySizeFunc

theorem wholeWords_spec {size memorySize : Nat} (h : safeMul (toWordSize size) 32 = some memorySize) :
    size ≤ memorySize ∧ 32 ∣ memorySize := by
  obtain ⟨hlt, rfl⟩ := safeMul_eq_some.1 h
  refine ⟨?_, Dvd.intro_left _ rfl⟩
  unfold toWordSize two64 at *
  split at hlt
  · omega
  · rename_i hs
    rw [if_neg hs]
    omega

/-! ## What an operation costs besides its memory -/

/-- The words that cover so many bytes. -/
def words (size : Nat) : Nat := (size + 31) / 32

/-- Of a write to a slot. -/
def NetSstore.price (p : NetSstore) (original current value : Hash) : Nat :=
  if current = value then p.noopGas
  else if original = current then if original = 0 then p.initGas else p.cleanGas
  else p.dirtyGas

namespace GasFunc

/-- How much of the stack is read. -/
def height : GasFunc → Nat
  | memoryCopierGas stackpos => stackpos + 1
  | gasSStore | gasSStoreEIP2200 | makeGasLog _ | gasSha3 | gasExpFrontier | gasExpEIP158 => 2
  | pureMemoryGascost => 0
  | gasCreate2 | gasCall | gasCallCode => 3
  | gasDelegateCall | gasStaticCall | gasSelfdestruct => 1

/-- Whether the refund counter is written. -/
def writes : GasFunc → Bool
  | gasSStore | gasSStoreEIP2200 | gasSelfdestruct => true
  | _ => false

/-- Whether memory is charged for. -/
def metersMemory : GasFunc → Bool
  | gasSStore | gasSStoreEIP2200 | gasSelfdestruct | gasExpFrontier | gasExpEIP158 => false
  | _ => true

/-- Whether gas is set aside for a callee. -/
def calls : GasFunc → Bool
  | gasCall | gasCallCode | gasDelegateCall | gasStaticCall => true
  | _ => false

/-- The least that an operation costs. -/
def floor : GasFunc → Nat
  | gasSStore | gasSStoreEIP2200 => 200
  | makeGasLog _ => 375
  | gasExpFrontier | gasExpEIP158 => 10
  | _ => 0

/-- What is charged for a value that goes with a call. -/
def valueGas (m : Frame) : GasFunc → Nat
  | gasCall | gasCallCode => if m.item 2 ≠ 0 then Params.callValueTransferGas else 0
  | _ => 0

/-- The number of topics of a log. -/
def Few : GasFunc → Prop
  | makeGasLog n => n ≤ 4
  | _ => True

instance : DecidablePred Few := fun f => by
  cases f <;> unfold Few <;> infer_instance

/-- What is set aside for a callee: what was asked for, and since EIP-150 at most
all but one 64th of what is left after the call is paid. -/
def callee (env : Env D) (m : Machine D) (base : Nat) : Nat :=
  if env.rules.isEIP150 then min (m.item 0) (m.gas - base - (m.gas - base) / 64) else m.item 0

def sstoreExtra (env : Env D) (m : Machine D) (p : NetSstore) : Nat :=
  p.price (m.evm.state.getCommittedState env.db m.contract.self (bigToHash (m.item 0))).1
    (m.evm.state.getState env.db m.contract.self (bigToHash (m.item 0))).1 (bigToHash (m.item 1))

def selfdestructExtra (env : Env D) (m : Machine D) : Nat :=
  let address := bigToAddress (m.item 0)
  if !env.rules.isEIP150 then 0
  else if env.rules.isEIP158 then
    if (m.evm.state.isEmpty address).1 ∧ (m.evm.state.getBalance m.contract.self).1 ≠ 0 then 30000 else 5000
  else if (m.evm.state.exist address).1 then 5000 else 30000

/-- What the call itself costs. -/
def callBase (env : Env D) (m : Machine D) : Nat :=
  (newAccountGas env m (m.item 2 != 0) (bigToAddress (m.item 1))).1 + gasCall.valueGas m.toFrame

/-- What an operation costs besides its memory, for which `fee` is charged. -/
def extra (env : Env D) (m : Machine D) (fee : Nat) : GasFunc → Nat
  | memoryCopierGas stackpos => 3 * words (m.item stackpos)
  | gasSStore =>
    if env.rules.isPetersburg ∨ !env.rules.isConstantinople then
      if (m.evm.state.getState env.db m.contract.self (bigToHash (m.item 0))).1 = 0 ∧ m.item 1 ≠ 0 then 20000
      else 5000
    else sstoreExtra env m .eip1283
  | gasSStoreEIP2200 => sstoreExtra env m .eip2200
  | makeGasLog n => 375 + 375 * n + 8 * m.item 1
  | gasSha3 => 6 * words (m.item 1)
  | pureMemoryGascost => 0
  | gasCreate2 => 6 * words (m.item 2)
  | gasExpFrontier => 10 + 10 * (((m.item 1).size + 7) / 8)
  | gasExpEIP158 => 10 + 50 * (((m.item 1).size + 7) / 8)
  | gasCall => callBase env m + callee env m (callBase env m + fee)
  | gasCallCode => gasCallCode.valueGas m.toFrame + callee env m (gasCallCode.valueGas m.toFrame + fee)
  | gasDelegateCall => callee env m fee
  | gasStaticCall => callee env m fee
  | gasSelfdestruct => selfdestructExtra env m

/-- The fee for a memory that grows to `size`. -/
def fee (mem : Memory) (size : Nat) (f : GasFunc) : Nat :=
  if f.metersMemory then memoryFee (max mem.len size / 32) - memoryFee (mem.len / 32) else 0

end GasFunc

/-! ## What a gas function leaves -/

/-- The machine, but for what was read of the state, and the numbers kept for
the memory and a callee. -/
structure Kept (env : Env D) (w : Watch) (m m' : Machine D) : Prop where
  frame : m' = { m with memory := m'.memory, evm := m'.evm }
  store : m'.memory.store = m.memory.store
  evm : m'.evm = { m.evm with state := m'.evm.state, callGasTemp := m'.evm.callGasTemp }
  effect : Effect env w m.evm.state m'.evm.state 0

structure Priced (env : Env D) (f : GasFunc) (size : Nat) (m m' : Machine D) (cost : Nat) : Prop where
  memory : if f.metersMemory then m'.memory.Due size else m'.memory = m.memory
  floor : f.floor ≤ cost
  callee : f.calls = true → m'.evm.callGasTemp + f.valueGas m.toFrame ≤ cost
  exact : cost ≤ m.gas → (∀ x ∈ m.stack, x < two256) →
    cost = f.fee m.memory size + f.extra env m (f.fee m.memory size)

def Charges (env : Env D) (w : Watch) (f : GasFunc) (size : Nat) (m : Machine D) (r : Machine D × Option Nat) : Prop :=
  Kept env w m r.1 ∧ ∀ cost, r.2 = some cost → Priced env f size m r.1 cost

section

variable {env : Env D} {w : Watch} {m m' : Machine D} {size : Nat} {f : GasFunc}

theorem Kept.stack (h : Kept env w m m') : m'.stack = m.stack := by rw [h.frame]

theorem Kept.contract (h : Kept env w m m') : m'.contract = m.contract := by rw [h.frame]

theorem Kept.refl (m : Machine D) : Kept env w m m := ⟨rfl, rfl, rfl, .refl⟩

theorem Kept.setState {s : StateDB D} (h : Effect env w m.evm.state s 0) : Kept env w m (m.setState s) :=
  ⟨rfl, rfl, rfl, h⟩

theorem Charges.none (h : Kept env w m m') : Charges env w f size m (m', none) := ⟨h, nofun⟩

namespace GasFunc

variable {original current value : Hash} {s s₀ : StateDB D} {n : Machine D} {d : Int} {p : NetSstore}

theorem withMemory_sat {g : Machine D → Nat → Result Panic (Machine D × Option Nat)}
    (hk : Kept env w m n) (hn : n.memory = m.memory) (hm : m.memory.Ok) (h32 : 32 ∣ size)
    (hf : f.metersMemory = true)
    (hg : ∀ mem, mem.store = m.memory.store → mem.Due size →
      (g { n with memory := mem } (f.fee m.memory size)).Sat (Charges env w f size m) E F) :
    (withMemory n size g).Sat (Charges env w f size m) E F := by
  unfold withMemory
  rw [hn]
  split
  · exact .none hk
  · rename_i fee mem hc
    obtain ⟨hstore, hdue, hfee⟩ := memoryGasCost_spec hm h32 hc
    have hfee' : fee = f.fee m.memory size := by
      rw [GasFunc.fee, if_pos hf]
      omega
    rw [hfee']
    exact hg mem hstore hdue

theorem charges_of_memory {mem : Memory} {r : Option Nat} (hf : f.metersMemory = true) (hc : f.calls = false)
    (hstore : mem.store = m.memory.store) (hdue : mem.Due size)
    (hr : ∀ cost, r = some cost → f.floor ≤ cost ∧ ((∀ x ∈ m.stack, x < two256) →
      cost = f.fee m.memory size + f.extra env m (f.fee m.memory size))) :
    Charges env w f size m ({ m with memory := mem }, r) := by
  refine ⟨⟨rfl, hstore, rfl, .refl⟩, fun cost h => ⟨?_, (hr cost h).1, ?_, fun _ => (hr cost h).2⟩⟩
  · rw [if_pos hf]
    exact hdue
  · rw [hc]
    nofun

theorem wordGas_eq {n price : Nat} (h : n < m.stack.length) :
    wordGas m n price = .ok ((bigUint64 (m.item n)).bind fun words => safeMul (toWordSize words) price) := by
  unfold wordGas
  rw [Machine.back_eq h]
  rfl

theorem memoryAndWords_sat {n price : Nat} (hm : m.memory.Ok) (h32 : 32 ∣ size) (hf : f.metersMemory = true)
    (hc : f.calls = false) (hn : n < m.stack.length) (hfl : f.floor = 0)
    (hx : f.extra env m (f.fee m.memory size) = price * words (m.item n)) :
    (memoryAndWords m size n price).Sat (Charges env w f size m) E F := by
  refine withMemory_sat (.refl m) rfl hm h32 hf fun mem hstore hdue => ?_
  have hback : wordGas { m with memory := mem } n price =
      .ok ((bigUint64 (m.item n)).bind fun words => safeMul (toWordSize words) price) := wordGas_eq hn
  rw [hback, Result.ok_bind]
  refine charges_of_memory hf hc hstore hdue fun cost hcost => ⟨by omega, fun _ => ?_⟩
  obtain ⟨g, hg, hcost⟩ := Option.bind_eq_some_iff.1 hcost
  obtain ⟨k, hk, hg⟩ := Option.bind_eq_some_iff.1 hg
  obtain ⟨hlt, rfl⟩ := bigUint64_eq_some.1 hk
  obtain ⟨-, rfl⟩ := safeMul_eq_some.1 hg
  obtain ⟨-, rfl⟩ := safeAdd_eq_some.1 hcost
  rw [hx, toWordSize_of_lt hlt, Nat.mul_comm price]
  rfl

theorem pureMemory_sat (hm : m.memory.Ok) (h32 : 32 ∣ size) :
    (withMemory m size fun m gas => .ok (m, some gas)).Sat (Charges env w pureMemoryGascost size m) E F := by
  refine withMemory_sat (f := pureMemoryGascost) (.refl m) rfl hm h32 rfl fun mem hstore hdue => ?_
  refine charges_of_memory rfl rfl hstore hdue fun cost hcost => ?_
  cases hcost
  exact ⟨Nat.zero_le _, fun _ => rfl⟩

theorem logGas_sat {n : Nat} (hm : m.memory.Ok) (h32 : 32 ∣ size) (hn : n ≤ 4) (hs : 2 ≤ m.stack.length) :
    (logGas m size n).Sat (Charges env w (makeGasLog n) size m) E F := by
  unfold logGas
  rw [Machine.back_eq (show 1 < m.stack.length by omega), Result.ok_bind]
  cases hsz : bigUint64 (m.item 1) with
  | none => exact .none (.refl m)
  | some requestedSize =>
    obtain ⟨-, rfl⟩ := bigUint64_eq_some.1 hsz
    refine withMemory_sat (.refl m) rfl hm h32 rfl fun mem hstore hdue => ?_
    refine charges_of_memory rfl rfl hstore hdue fun cost hcost => ?_
    obtain ⟨g₁, h₁, hcost⟩ := Option.bind_eq_some_iff.1 hcost
    obtain ⟨g₂, h₂, hcost⟩ := Option.bind_eq_some_iff.1 hcost
    obtain ⟨g₃, h₃, hcost⟩ := Option.bind_eq_some_iff.1 hcost
    obtain ⟨-, rfl⟩ := safeAdd_eq_some.1 h₁
    obtain ⟨-, rfl⟩ := safeAdd_eq_some.1 h₂
    obtain ⟨-, rfl⟩ := safeMul_eq_some.1 h₃
    obtain ⟨-, rfl⟩ := safeAdd_eq_some.1 hcost
    have htopics : mul64 n Params.logTopicGas = 375 * n := by
      have hle : n * Params.logTopicGas ≤ 4 * Params.logTopicGas := Nat.mul_le_mul_right _ hn
      rw [mul64_of_lt (Nat.lt_of_le_of_lt hle (by decide)), Nat.mul_comm]
      rfl
    have hsize : m.item 1 * Params.logDataGas = 8 * m.item 1 := Nat.mul_comm _ _
    rw [htopics, hsize]
    show 375 ≤ _ ∧ (_ → _ = _ + (375 + 375 * n + 8 * m.item 1))
    unfold Params.logGas
    exact ⟨by omega, fun _ => by omega⟩

theorem expGas_sat {expByte : Nat} (hf : f.metersMemory = false) (hc : f.calls = false) (hb : expByte ≤ 50)
    (hfl : f.floor = 10) (hx : f.extra env m (f.fee m.memory size) = 10 + expByte * (((m.item 1).size + 7) / 8))
    (hs : 2 ≤ m.stack.length) : (expGas m expByte).Sat (Charges env w f size m) E F := by
  unfold expGas
  rw [Machine.back_eq (show 1 < m.stack.length by omega), Result.ok_bind]
  refine ⟨.refl m, fun cost hcost => ⟨by rw [hf]; rfl, ?_, by rw [hc]; nofun, fun _ hw => ?_⟩⟩
  · obtain ⟨-, rfl⟩ := safeAdd_eq_some.1 hcost
    rw [hfl]
    exact Nat.le_add_left _ _
  · obtain ⟨-, rfl⟩ := safeAdd_eq_some.1 hcost
    have hsize : (m.item 1).size ≤ 256 := Nat.size_le.2 (two256_eq ▸ hw _ (Frame.item_mem (by omega)))
    have hle : ((m.item 1).size + 7) / 8 * expByte ≤ 32 * 50 := Nat.mul_le_mul (by omega) hb
    rw [mul64_of_lt (Nat.lt_of_le_of_lt hle (by decide)), hx, GasFunc.fee, hf, if_neg (by decide), Nat.mul_comm]
    unfold Params.expGas
    omega

/-! ## Calls -/

theorem callGas_spec {avail base asked gas : Nat} {eip150 : Bool} (h : callGas eip150 avail base asked = some gas)
    (ha : avail < two64) (hle : base ≤ avail) :
    gas = if eip150 then min asked (avail - base - (avail - base) / 64) else asked := by
  unfold callGas isUint64 uint64 at h
  rw [sub64_of_le hle ha] at h
  cases eip150 with
  | false =>
    simp only [Bool.false_eq_true, false_and, if_false] at h
    split at h
    · cases h
    · rename_i hlt
      have hlt : asked < two64 := by simpa using hlt
      rw [Nat.mod_eq_of_lt hlt] at h
      exact (Option.some.inj h).symm
  | true =>
    rw [if_pos rfl]
    simp only [true_and] at h
    by_cases hlt : asked < two64
    · simp only [hlt, decide_true, Bool.not_true, Bool.false_eq_true, false_or, Nat.mod_eq_of_lt hlt, if_false] at h
      split at h <;> cases h <;> omega
    · simp only [hlt, decide_false, Bool.not_false, true_or, if_true] at h
      cases h
      omega

theorem withCallGas_sat {base own : Nat} (hk : Kept env w m n) (hdue : n.memory.Due size)
    (hf : f.metersMemory = true) (hfl : f.floor = 0) (hs : 1 ≤ m.stack.length) (hg : m.gas < two64)
    (hbase : base = own + f.fee m.memory size) (hv : f.valueGas m.toFrame ≤ own)
    (hx : f.extra env m (f.fee m.memory size) = own + GasFunc.callee env m base) :
    (withCallGas env n base).Sat (Charges env w f size m) E F := by
  have hgas : n.gas = m.gas := by unfold Machine.gas; rw [hk.contract]
  have hitem : n.item 0 = m.item 0 := by unfold Frame.item; rw [hk.stack]
  unfold withCallGas
  rw [Machine.back_eq (show 0 < n.stack.length by rw [hk.stack]; omega), Result.ok_bind, hitem, hgas]
  cases hc : callGas env.rules.isEIP150 m.gas base (m.item 0) with
  | none => exact .none hk
  | some gas =>
    refine ⟨⟨?_, hk.store, ?_, hk.effect⟩, fun cost hcost => ?_⟩
    · show ({ n with evm := _ } : Machine D) = _
      rw [hk.frame]
    · show ({ n.evm with callGasTemp := gas } : Evm D) = _
      rw [hk.evm]
    · obtain ⟨-, rfl⟩ := safeAdd_eq_some.1 hcost
      refine ⟨by rw [if_pos hf]; exact hdue, by omega, fun _ => ?_, fun hle _ => ?_⟩
      · show gas + _ ≤ _
        omega
      · have hgas := callGas_spec hc hg (by omega)
        rw [hx, GasFunc.callee, ← hgas]
        omega

theorem kept_memory {mem : Memory} (hk : Kept env w m n) (hstore : mem.store = m.memory.store) :
    Kept env w m { n with memory := mem } :=
  ⟨by show ({ n with memory := mem } : Machine D) = _; rw [hk.frame], hstore, hk.evm, hk.effect⟩

theorem newAccountGas_kept (env : Env D) (w : Watch) (m : Machine D) (tv : Bool) (a : Address) :
    Kept env w m (newAccountGas env m tv a).2 ∧ (newAccountGas env m tv a).2.memory = m.memory := by
  unfold newAccountGas
  split
  · split
    · exact ⟨.setState (Effect.refl.get (.empty a)), rfl⟩
    · exact ⟨.refl m, rfl⟩
  · exact ⟨.setState (Effect.refl.get (.exist a)), rfl⟩

theorem callCost_sat (hm : m.memory.Ok) (h32 : 32 ∣ size) (hs : 3 ≤ m.stack.length) (hg : m.gas < two64) :
    (callCost env m size).Sat (Charges env w gasCall size m) E F := by
  obtain ⟨hk, hmem⟩ := newAccountGas_kept env w m (m.item 2 != 0) (bigToAddress (m.item 1))
  have hown : (if (m.item 2 != 0) = true then
        (newAccountGas env m (m.item 2 != 0) (bigToAddress (m.item 1))).1 + Params.callValueTransferGas
      else (newAccountGas env m (m.item 2 != 0) (bigToAddress (m.item 1))).1) = callBase env m := by
    unfold callBase valueGas
    by_cases hz : m.item 2 = 0 <;> simp [hz]
  unfold callCost
  rw [Machine.back_eq (show 2 < m.stack.length by omega), Machine.back_eq (show 1 < m.stack.length by omega)]
  simp only [Result.ok_bind, hown]
  refine withMemory_sat hk hmem hm h32 rfl fun mem hstore hdue => ?_
  cases hc : safeAdd (callBase env m) (gasCall.fee m.memory size) with
  | none => exact .none (kept_memory hk hstore)
  | some base =>
    obtain ⟨-, rfl⟩ := safeAdd_eq_some.1 hc
    exact withCallGas_sat (kept_memory hk hstore) hdue rfl rfl (by omega) hg rfl (Nat.le_add_left _ _) rfl

theorem callCodeCost_sat (hm : m.memory.Ok) (h32 : 32 ∣ size) (hs : 3 ≤ m.stack.length) (hg : m.gas < two64) :
    (callCodeCost env m size).Sat (Charges env w gasCallCode size m) E F := by
  refine withMemory_sat (f := gasCallCode) (.refl m) rfl hm h32 rfl fun mem hstore hdue => ?_
  have hback : Machine.back { m with memory := mem } 2 = .ok (m.item 2) :=
    Machine.back_eq (show 2 < m.stack.length by omega)
  simp only [hback, Result.ok_bind]
  have hown : (if m.item 2 ≠ 0 then Params.callValueTransferGas else 0) = gasCallCode.valueGas m.toFrame := rfl
  rw [hown]
  cases hc : safeAdd (gasCallCode.valueGas m.toFrame) (gasCallCode.fee m.memory size) with
  | none => exact .none (kept_memory (.refl m) hstore)
  | some base =>
    obtain ⟨-, rfl⟩ := safeAdd_eq_some.1 hc
    exact withCallGas_sat (kept_memory (.refl m) hstore) hdue rfl rfl (by omega) hg rfl (le_refl _) rfl

theorem plainCall_sat (hm : m.memory.Ok) (h32 : 32 ∣ size) (hs : 1 ≤ m.stack.length) (hg : m.gas < two64)
    (hf : f.metersMemory = true) (hfl : f.floor = 0) (hv : f.valueGas m.toFrame = 0)
    (hx : f.extra env m (f.fee m.memory size) = GasFunc.callee env m (f.fee m.memory size)) :
    (withMemory m size fun m gas => withCallGas env m gas).Sat (Charges env w f size m) E F := by
  refine withMemory_sat (.refl m) rfl hm h32 hf fun mem hstore hdue => ?_
  refine withCallGas_sat (kept_memory (.refl m) hstore) hdue hf hfl hs hg (Nat.zero_add _).symm (by omega) ?_
  rw [hx, Nat.zero_add]

/-! ## The state -/

theorem charges_of_state {s : StateDB D} {cost : Nat} (hf : f.metersMemory = false) (hc : f.calls = false)
    (he : Effect env w m.evm.state s 0) (hfl : f.floor ≤ cost)
    (hx : cost = f.extra env m (f.fee m.memory size)) :
    Charges env w f size m (m.setState s, some cost) := by
  refine ⟨.setState he, fun c h => ?_⟩
  cases h
  refine ⟨by rw [hf]; rfl, hfl, by rw [hc]; nofun, fun _ _ => ?_⟩
  rw [← hx, GasFunc.fee, hf]
  exact (Nat.zero_add _).symm

theorem addRefund_effect (h : Effect env w s₀ s d) (hs : w.still = false)
    (gas : BitVec 64) : Effect env w s₀ (s.addRefund gas) d :=
  h.mutate (m := .addRefund gas) hs rfl

theorem netSstore_clear_effect {s s' s₀ : StateDB D}
    (h : p.clear s original current value = some s') (hs : w.still = false) (he : Effect env w s₀ s d) :
    Effect env w s₀ s' d := by
  unfold NetSstore.clear at h
  split at h
  · split at h
    · exact he.mutate (m := .subRefund p.clearRefund) hs h
    · split at h
      · cases h; exact addRefund_effect he hs _
      · cases h; exact he
  · cases h; exact he

theorem netSstore_reset_effect (p : NetSstore) (original value : Hash)
    (hs : w.still = false) (he : Effect env w s₀ s d) : Effect env w s₀ (p.reset s original value) d := by
  unfold NetSstore.reset
  split
  · split
    · exact addRefund_effect he hs _
    · exact addRefund_effect he hs _
  · exact he

theorem netSstore_gas_spec {s s' s₀ : StateDB D} {g : Nat}
    (h : p.gas s original current value = some (g, s')) (hne : current ≠ value) (hs : w.still = false)
    (he : Effect env w s₀ s d) : g = p.price original current value ∧ Effect env w s₀ s' d := by
  unfold NetSstore.gas at h
  unfold NetSstore.price
  rw [if_neg hne]
  split at h
  · rename_i ho
    rw [if_pos ho]
    split at h
    · rename_i hz
      cases h
      exact ⟨by rw [if_pos hz], he⟩
    · rename_i hz
      cases h
      refine ⟨by rw [if_neg hz], ?_⟩
      split
      · exact addRefund_effect he hs _
      · exact he
  · rename_i ho
    rw [if_neg ho]
    obtain ⟨s₁, h₁, h⟩ := Option.map_eq_some_iff.1 h
    cases h
    exact ⟨rfl, netSstore_reset_effect p original value hs (netSstore_clear_effect h₁ hs he)⟩

theorem getCommittedState_after {s : StateDB D} (hwf : s.WF env.db) (g : State.Getter) (a : Address) (key : Hash) :
    ((s.get env.db g).2.getCommittedState env.db a key).1 = (s.getCommittedState env.db a key).1 := by
  have hc := hwf.get_calm g
  have h := (hc.view (congrFun hc.facts a) key).2.2.2.2.2
  have hwf' := (hwf.get_warm g).1.wf hwf
  rw [(hwf'.getCommittedState (A := fun _ => True) a key).1, (hwf.getCommittedState (A := fun _ => True) a key).1]
  exact State.Reading.value.inj h

theorem netSstore_sat (hwf : m.evm.state.WF env.db) (hs : w.still = false)
    (hf : f.metersMemory = false) (hc : f.calls = false) (hfl : ∀ o c v, f.floor ≤ p.price o c v)
    (hx : f.extra env m (f.fee m.memory size) = sstoreExtra env m p) :
    (netSstore env (m.setState (m.evm.state.getState env.db m.contract.self (bigToHash (m.item 0))).2) p
      (bigToHash (m.item 0)) (m.evm.state.getState env.db m.contract.self (bigToHash (m.item 0))).1
      (bigToHash (m.item 1))).Sat (Charges env w f size m) (· = .refund) F := by
  have he₁ : Effect env w m.evm.state (m.evm.state.getState env.db m.contract.self (bigToHash (m.item 0))).2 0 :=
    Effect.refl.get (.state m.contract.self (bigToHash (m.item 0)))
  have horig := getCommittedState_after hwf (.state m.contract.self (bigToHash (m.item 0))) m.contract.self
    (bigToHash (m.item 0))
  unfold netSstore
  split
  · rename_i heq
    refine charges_of_state hf hc he₁ ?_ ?_
    · have := hfl 0 0 0
      rwa [NetSstore.price, if_pos rfl] at this
    · rw [hx, sstoreExtra, NetSstore.price, if_pos heq]
  · rename_i hne
    have he₂ := he₁.get (.committedState m.contract.self (bigToHash (m.item 0)))
    rw [Result.sat_bind]
    cases hgas : p.gas _ _ _ _ with
    | none => exact rfl
    | some r =>
      obtain ⟨g, s'⟩ := r
      obtain ⟨rfl, he⟩ := netSstore_gas_spec hgas hne hs he₂
      refine charges_of_state hf hc he (hfl _ _ _) ?_
      rw [hx, sstoreExtra, ← horig]
      rfl

theorem price_le (p : NetSstore) {n : Nat} (h₁ : n ≤ p.noopGas) (h₂ : n ≤ p.initGas) (h₃ : n ≤ p.cleanGas)
    (h₄ : n ≤ p.dirtyGas) (original current value : Hash) : n ≤ p.price original current value := by
  unfold NetSstore.price
  split
  · exact h₁
  · split
    · split
      · exact h₂
      · exact h₃
    · exact h₄

theorem sstoreGas_sat (hwf : m.evm.state.WF env.db) (hs : w.still = false) (hst : 2 ≤ m.stack.length) :
    (sstoreGas env m).Sat (Charges env w gasSStore size m) (· = .refund) F := by
  have he : Effect env w m.evm.state (m.evm.state.getState env.db m.contract.self (bigToHash (m.item 0))).2 0 :=
    Effect.refl.get (.state m.contract.self (bigToHash (m.item 0)))
  unfold sstoreGas
  rw [Machine.back_eq (show 1 < m.stack.length by omega), Machine.back_eq (show 0 < m.stack.length by omega)]
  simp only [Result.ok_bind]
  split
  · rename_i hp
    have hx (n : Nat) (hn : n = if (m.evm.state.getState env.db m.contract.self (bigToHash (m.item 0))).1 = 0 ∧
        m.item 1 ≠ 0 then 20000 else 5000) : n = gasSStore.extra env m (gasSStore.fee m.memory size) := by
      rw [hn, extra, if_pos hp]
    split
    · rename_i hz
      exact charges_of_state rfl rfl he (by decide) (hx _ (by rw [if_pos hz]; rfl))
    · rename_i hz
      split
      · exact charges_of_state rfl rfl (addRefund_effect he hs _) (by decide) (hx _ (by rw [if_neg hz]; rfl))
      · exact charges_of_state rfl rfl he (by decide) (hx _ (by rw [if_neg hz]; rfl))
  · rename_i hp
    refine netSstore_sat hwf hs rfl rfl (price_le .eip1283 (by decide) (by decide) (by decide) (by decide)) ?_
    rw [extra, if_neg hp]

theorem sstoreGasEIP2200_sat (hwf : m.evm.state.WF env.db) (hs : w.still = false) (hst : 2 ≤ m.stack.length) :
    (sstoreGasEIP2200 env m).Sat (Charges env w gasSStoreEIP2200 size m) (· = .refund) F := by
  unfold sstoreGasEIP2200
  split
  · exact .none (.refl m)
  · rw [Machine.back_eq (show 1 < m.stack.length by omega), Machine.back_eq (show 0 < m.stack.length by omega)]
    exact netSstore_sat hwf hs rfl rfl (price_le .eip2200 (by decide) (by decide) (by decide) (by decide)) rfl

theorem selfdestructRefund_effect (h : Effect env w s₀ s d) (hs : w.still = false)
    (self : Address) : Effect env w s₀ (selfdestructRefund s self) d := by
  have hget : Effect env w s₀ (s.hasSuicided self).2 d := h.get (.suicided self)
  unfold selfdestructRefund
  simp only
  split
  · exact hget
  · exact addRefund_effect hget hs _

theorem selfdestructCost_spec {s : StateDB D} (hwf : s.WF env.db) (self address : Address) :
    (selfdestructCost env s self address).1 =
        (if env.rules.isEIP158 then
          if (s.isEmpty address).1 ∧ (s.getBalance self).1 ≠ 0 then 30000 else 5000
        else if (s.exist address).1 then 5000 else 30000) ∧
      Effect env w s (selfdestructCost env s self address).2 0 := by
  have hbal : ((s.isEmpty address).2.getBalance self).1 = (s.getBalance self).1 := by
    have hw := (hwf.get_warm (.empty address)).1
    have hwf' : (s.isEmpty address).2.WF env.db := hw.wf hwf
    rw [hwf'.getBalance_eq, hwf.getBalance_eq]
    exact congrArg State.Facts.balance (congrFun hw.facts self)
  have hempty : Effect env w s (s.isEmpty address).2 0 := Effect.refl.get (.empty address)
  unfold selfdestructCost
  split
  · simp only
    split
    · rename_i he
      refine ⟨?_, hempty.get (.balance self)⟩
      rw [hbal]
      by_cases hz : (s.getBalance self).1 = 0
      · simp [hz, Params.selfdestructGasEIP150]
      · simp [hz, he, Params.selfdestructGasEIP150, Params.createBySelfdestructGas]
    · rename_i he
      exact ⟨by simp [he, Params.selfdestructGasEIP150], hempty⟩
  · exact ⟨rfl, Effect.refl.get (.exist address)⟩

theorem selfdestructGas_sat (hwf : m.evm.state.WF env.db) (hs : w.still = false) (hst : 1 ≤ m.stack.length) :
    (selfdestructGas env m).Sat (Charges env w gasSelfdestruct size m) E F := by
  unfold selfdestructGas
  split
  · rename_i h150
    rw [Machine.back_eq (show 0 < m.stack.length by omega)]
    obtain ⟨hcost, he⟩ := selfdestructCost_spec (w := w) hwf m.contract.self (bigToAddress (m.item 0))
    have hx : (selfdestructCost env m.evm.state m.contract.self (bigToAddress (m.item 0))).1 =
        gasSelfdestruct.extra env m (gasSelfdestruct.fee m.memory size) := by
      rw [hcost, extra, selfdestructExtra, h150]
      rfl
    exact charges_of_state rfl rfl (selfdestructRefund_effect he hs _) (Nat.zero_le _) hx
  · rename_i h150
    refine charges_of_state rfl rfl (selfdestructRefund_effect .refl hs _) (Nat.zero_le _) ?_
    rw [extra, selfdestructExtra, if_pos (by simpa using h150)]

/-- Every gas function leaves the machine as it is and charges what it should; it
panics only where the refund counter would go below zero. -/
theorem gas_sat (f : GasFunc) (hwf : m.evm.state.WF env.db) (hm : m.memory.Ok) (h32 : 32 ∣ size)
    (hst : f.height ≤ m.stack.length) (hw : f.writes = true → w.still = false) (hfew : f.Few) (hg : m.gas < two64) :
    (f.gas env m size).Sat (Charges env w f size m) (· = .refund) F := by
  cases f with
  | memoryCopierGas n => exact memoryAndWords_sat hm h32 rfl rfl hst rfl rfl
  | gasSStore => exact sstoreGas_sat hwf (hw rfl) hst
  | gasSStoreEIP2200 => exact sstoreGasEIP2200_sat hwf (hw rfl) hst
  | makeGasLog n => exact logGas_sat hm h32 hfew hst
  | gasSha3 => exact memoryAndWords_sat hm h32 rfl rfl hst rfl rfl
  | pureMemoryGascost => exact pureMemory_sat hm h32
  | gasCreate2 => exact memoryAndWords_sat hm h32 rfl rfl hst rfl rfl
  | gasExpFrontier => exact expGas_sat rfl rfl (by decide) rfl rfl hst
  | gasExpEIP158 => exact expGas_sat rfl rfl (by decide) rfl rfl hst
  | gasCall => exact callCost_sat hm h32 hst hg
  | gasCallCode => exact callCodeCost_sat hm h32 hst hg
  | gasDelegateCall => exact plainCall_sat hm h32 hst hg rfl rfl rfl rfl
  | gasStaticCall => exact plainCall_sat hm h32 hst hg rfl rfl rfl rfl
  | gasSelfdestruct => exact selfdestructGas_sat hwf (hw rfl) hst

end GasFunc

end

end NdnGeth.Vm
