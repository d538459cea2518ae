/-
Whole executions: what a round of the interpreter does, a frame, and a call
with all the calls below it.

A round is charged for before it is executed. Then the stack is high enough
and the memory covers what the instruction touches, and what a callee is
handed was paid for, with its stipend (`Paid`). So every round that does not
end the frame lowers its gas, and no frame runs out of rounds; and as no frame
starts below the depth limit, no call runs out of levels (`interpret_ok`).
-/
import NdnGeth.Vm.Execution

namespace NdnGeth.Vm

open Lib (Result iterate iterate_sat Round)
open Lib.Rlp (Bytes)
open State (Digests StateDB Getter)
open Types (Address)

variable {D : Digests} {env : Env D} {w : Watch} {m m' : Machine D}

/-! ## What a round is charged -/

/-- The memory fee that a round is charged: what `memoryGasCost` returns in it. -/
def Operation.memoryCharge (o : Operation) (m : Machine D) : Nat :=
  match o.memorySize.elim (.ok (some 0)) fun f => f.size m with
  | .ok (some size) => ((safeMul (toWordSize size) 32).bind (memoryGasCost m.memory)).elim 0 Prod.fst
  | _ => 0

/-- The rest of what a round is charged, where `fee` is charged for the memory. -/
def Operation.otherCharge (env : Env D) (o : Operation) (m : Machine D) (fee : Nat) : Nat :=
  o.constantGas +
    o.dynamicGas.elim 0 (·.extra env (m.setGas (m.gas - o.constantGas)) fee)

/-- The machine after a charge, whether there was enough gas or not. -/
structure Charged (env : Env D) (w : Watch) (m m' : Machine D) : Prop where
  stack : m'.stack = m.stack
  contract : m'.contract = { m.contract with gas := m'.contract.gas }
  gas : m'.gas ≤ m.gas
  moved : Moved env w m.evm m'.evm

theorem Charged.refl (m : Machine D) : Charged env w m m := ⟨rfl, rfl, le_refl _, .refl _⟩

/-- The machine after an operation was paid for. -/
structure Paid (env : Env D) (w : Watch) (o : Operation) (m m' : Machine D) : Prop extends Charged env w m m' where
  ready : Ready o.execute m'
  handed : m'.gas + m'.handed o.execute ≤ m.gas
  used : (o.halts = true ∨ o.reverts = true) ∨ m'.gas + m'.handed o.execute < m.gas
  memory : memoryFee (m'.memory.len / 32) = memoryFee (m.memory.len / 32) + o.memoryCharge m
  exact : (∀ x ∈ m.stack, x < two256) → m'.gas + o.memoryCharge m + o.otherCharge env m (o.memoryCharge m) = m.gas

theorem handed_add_floor {e : Execute} {f : GasFunc} {cost : Nat} (hf : some f ∈ e.prices)
    (hc : f.calls = true → m'.evm.callGasTemp + f.valueGas m.toFrame ≤ cost) (hs : m'.stack = m.stack)
    (hfl : f.floor ≤ cost) : m'.handed e + f.floor ≤ cost := by
  have hstipend (h2 : m'.evm.callGasTemp + (if m.item 2 ≠ 0 then Params.callValueTransferGas else 0) ≤ cost) :
      m'.evm.callGasTemp + (if u256 (m'.item 2) ≠ 0 then Params.callStipend else 0) ≤ cost := by
    split
    · rename_i hv
      have hne : m.item 2 ≠ 0 := fun h => hv (by rw [Frame.item, hs, ← Frame.item, h]; rfl)
      rw [if_pos hne] at h2
      have hle : Params.callStipend ≤ Params.callValueTransferGas := by decide
      omega
    · omega
  cases e with
  | opCall => cases List.mem_singleton.1 hf; exact hstipend (hc rfl)
  | opCallCode => cases List.mem_singleton.1 hf; exact hstipend (hc rfl)
  | opDelegateCall => cases List.mem_singleton.1 hf; exact hc rfl
  | opStaticCall => cases List.mem_singleton.1 hf; exact hc rfl
  | _ => exact (Nat.zero_add _).trans_le hfl

theorem handed_of_unpriced {e : Execute} (h : none ∈ e.prices) : m.handed e = 0 := by
  cases e with
  | opCall | opCallCode | opDelegateCall | opStaticCall => cases List.mem_singleton.1 h
  | _ => rfl

theorem memoryGasCost_small (mem : Memory) {size : Nat} (h : size ≤ maxMemory) :
    ∃ r, memoryGasCost mem size = some r := by
  unfold memoryGasCost
  split
  · exact ⟨_, rfl⟩
  · rw [if_neg (show ¬ size > 0x1FFFFFFFE0 from Nat.not_lt.2 h)]
    simp only
    split
    · exact ⟨_, rfl⟩
    · exact ⟨_, rfl⟩

/-- The memory a round leaves, where `size` was computed for it. -/
def Memory.grown (mem : Memory) (size : Nat) : Memory := if size > 0 then mem.resize size else mem

/-- What the dynamic part of a charge comes to. -/
structure Costs (env : Env D) (o : Operation) (size : Nat) (m m' : Machine D) (cost : Nat) : Prop where
  memory : (m'.memory.grown size).Ok
  covers : size ≤ (m'.memory.grown size).len
  fee : memoryFee ((m'.memory.grown size).len / 32) =
    memoryFee (m.memory.len / 32) + (memoryGasCost m.memory size).elim 0 Prod.fst
  handed : m'.handed o.execute + o.dynamicGas.elim 0 GasFunc.floor ≤ cost
  exact : cost ≤ m.gas → (∀ x ∈ m.stack, x < two256) →
    cost = (memoryGasCost m.memory size).elim 0 Prod.fst +
      o.dynamicGas.elim 0 (·.extra env m ((memoryGasCost m.memory size).elim 0 Prod.fst))

variable {o : Operation} {op : OpCode} {size : Nat}

theorem Priced.costs_of_meters {f : GasFunc} {cost : Nat} (hp : Priced env f size m m' cost) (hk : Kept env w m m')
    (hm : m.memory.Ok) (h32 : 32 ∣ size) (ho : some f ∈ o.execute.prices) (hf : o.dynamicGas = some f)
    (hmem : f.metersMemory = true) : Costs env o size m m' cost := by
  have hdue : m'.memory.Due size := by simpa [hmem] using hp.memory
  have hlen : m'.memory.len = m.memory.len := by unfold Memory.len; rw [hk.store]
  obtain ⟨hok, hcov⟩ := hdue.resize (hlen ▸ hm.words) h32
  have hsmall := hdue.small
  obtain ⟨⟨fee, mem⟩, hcost⟩ := memoryGasCost_small m.memory (show size ≤ maxMemory by omega)
  obtain ⟨-, -, hfee⟩ := memoryGasCost_spec hm h32 hcost
  have heq : (memoryGasCost m.memory size).elim 0 Prod.fst = f.fee m.memory size := by
    rw [hcost, GasFunc.fee, if_pos hmem]
    show fee = _
    omega
  have hgrown : (m'.memory.grown size).len = max m.memory.len size := by
    unfold Memory.grown
    split
    · rw [Memory.len_resize, hlen]
    · omega
  refine ⟨hok, hcov, ?_, ?_, fun hle hx => ?_⟩
  · rw [hgrown, hcost, ← hfee]
    exact Nat.add_comm _ _
  · rw [hf]
    exact handed_add_floor ho hp.callee hk.stack hp.floor
  · rw [heq, hf]
    exact hp.exact hle hx

theorem Costs.of_unmetered {cost : Nat} (hm : m.memory.Ok) (hmem : m'.memory = m.memory)
    (hhand : m'.handed o.execute + o.dynamicGas.elim 0 GasFunc.floor ≤ cost)
    (hx : cost ≤ m.gas → (∀ x ∈ m.stack, x < two256) → cost = o.dynamicGas.elim 0 (·.extra env m 0)) :
    Costs env o 0 m m' cost where
  memory := by rw [hmem]; exact hm
  covers := Nat.zero_le _
  fee := by rw [hmem]; rfl
  handed := hhand
  exact hle hs := (hx hle hs).trans (Nat.zero_add _).symm

theorem Operation.dynamicGas_sat (ho : o.Sound op) (hst : o.minStack ≤ m.stack.length) (hwf : m.evm.state.WF env.db)
    (hm : m.memory.Ok) (h32 : 32 ∣ size) (h0 : o.memorySize = none → size = 0)
    (hw : o.writes = true → w.still = false) (hg : m.gas < two64) :
    (o.dynamicGas.elim (.ok (m, some 0)) fun f => f.gas env m size).Sat
      (fun r => Kept env w m r.1 ∧ ∀ cost, r.2 = some cost → Costs env o size m r.1 cost) (· = .refund)
      False := by
  cases hd : o.dynamicGas with
  | none =>
    have hp : none ∈ o.execute.prices := hd ▸ ho.price
    refine ⟨.refl m, fun cost hc => ?_⟩
    cases hc
    have hnone : o.memorySize = none := by
      cases hmem : o.memorySize with
      | none => rfl
      | some mf => obtain ⟨f, hf, -⟩ := Execute.prices_meters hp (ho.memory ▸ hmem); cases hf
    cases h0 hnone
    exact .of_unmetered hm rfl (by rw [handed_of_unpriced hp, hd]; exact le_refl _) fun _ _ => by rw [hd]; rfl
  | some f =>
    have hp : some f ∈ o.execute.prices := hd ▸ ho.price
    obtain ⟨hheight, hwrites⟩ := Execute.prices_fit o.execute _ hp f rfl
    have hgas := GasFunc.gas_sat (w := w) (F := False) f hwf hm h32 (hheight.trans (ho.pops.trans hst))
      (fun h => hw (ho.writes (hwrites h))) (ho.few f hd) hg
    refine hgas.mono fun r ⟨hk, hcost⟩ => ⟨hk, fun cost hc => ?_⟩
    have hpr := hcost cost hc
    cases hmm : f.metersMemory with
    | true => exact hpr.costs_of_meters hk hm h32 hp hd hmm
    | false =>
      have hmem : r.1.memory = m.memory := by simpa [hmm] using hpr.memory
      have hnone : o.memorySize = none := by
        cases hms : o.memorySize with
        | none => rfl
        | some mf =>
          obtain ⟨f', hf, hf'⟩ := Execute.prices_meters hp (ho.memory ▸ hms)
          cases hf
          rw [hmm] at hf'
          cases hf'
      cases h0 hnone
      refine .of_unmetered hm hmem ?_ fun hle hx => ?_
      · rw [hd]
        exact handed_add_floor hp hpr.callee hk.stack hpr.floor
      · have hfee : f.fee m.memory 0 = 0 := by rw [GasFunc.fee, hmm]; rfl
        have := hpr.exact hle hx
        rw [hfee, Nat.zero_add] at this
        rw [hd]
        exact this

theorem MemorySizeFunc.covered_congr {f : MemorySizeFunc} {fr fr' : Frame} {mem : Memory} (h : fr'.stack = fr.stack)
    (hc : f.Covered fr mem) : f.Covered fr' mem := by
  have hitem (n : Nat) : fr'.item n = fr.item n := by rw [Frame.item, h, ← Frame.item]
  cases f <;> simpa only [Covered, hitem] using hc

theorem Operation.memorySize_spec (ho : o.Sound op) (hst : o.minStack ≤ m.stack.length) :
    ∃ r, (o.memorySize.elim (.ok (some 0)) fun f => f.size m) = Result.ok r ∧ (o.memorySize = none → r = some 0) ∧
      ∀ size, r = some size → ∀ mem : Memory, size ≤ mem.len → ∀ f ∈ o.execute.memory, f.Covered m.toFrame mem := by
  cases hm : o.memorySize with
  | none => exact ⟨some 0, rfl, fun _ => rfl, fun size _ mem _ f hf => by rw [← ho.memory, hm] at hf; cases hf⟩
  | some f =>
    have hmem : o.execute.memory = some f := ho.memory ▸ hm
    obtain ⟨r, hr, hcov⟩ := f.size_spec ((Execute.memory_height hmem).trans (ho.pops.trans hst))
    refine ⟨r, hr, nofun, fun size hsize mem hle f' hf' => ?_⟩
    rw [hmem] at hf'
    cases hf'
    exact hcov size hsize mem hle

theorem Kept.charged (h : Kept env w m m') : Charged env w m m' where
  stack := h.stack
  contract := by rw [h.contract]
  gas := by unfold Machine.gas; rw [h.contract]
  moved := ⟨by rw [h.evm], by rw [h.evm], 0, h.effect⟩

theorem Operation.chargeDynamic_sat (ho : o.Sound op) (hst : o.minStack ≤ m.stack.length)
    (hwf : m.evm.state.WF env.db) (hm : m.memory.Ok) (hw : o.writes = true → w.still = false) (hg : m.gas < two64) :
    (o.chargeDynamic env m).Sat (fun r => Charged env w m r.1 ∧ (r.2 = none → ∃ size n cost, Kept env w m n ∧
        Costs env o size m n cost ∧ cost ≤ m.gas ∧ o.memoryCharge m = (memoryGasCost m.memory size).elim 0 Prod.fst ∧
        (∀ f ∈ o.execute.memory, f.Covered m.toFrame (n.memory.grown size)) ∧
        r.1 = { n.setGas (m.gas - cost) with memory := n.memory.grown size })) (· = .refund) False := by
  obtain ⟨r, hr, hr0, hcov⟩ := memorySize_spec (m := m) ho hst
  unfold chargeDynamic
  rw [hr, Result.ok_bind]
  cases hb : r.bind fun memSize => safeMul (toWordSize memSize) 32 with
  | none => exact ⟨.refl m, nofun⟩
  | some size =>
    obtain ⟨memSize, hms, hwords⟩ := Option.bind_eq_some_iff.1 hb
    obtain ⟨hle, h32⟩ := wholeWords_spec hwords
    have h0 : o.memorySize = none → size = 0 := fun h => by
      cases (hr0 h).symm.trans hms
      cases hwords
      rfl
    have hcharge : o.memoryCharge m = (memoryGasCost m.memory size).elim 0 Prod.fst := by
      unfold memoryCharge
      rw [hr, hms]
      simp only [hwords, Option.bind_some]
    refine (dynamicGas_sat ho hst hwf hm h32 h0 hw hg).bind ?_
    rintro ⟨n, dynamicCost⟩ ⟨hk, hcost⟩
    cases dynamicCost with
    | none => exact ⟨hk.charged, nofun⟩
    | some cost =>
      have hcosts := hcost cost rfl
      have hgas : n.contract.gas = m.gas := by rw [hk.contract]; rfl
      simp only [Option.bind_some, Contract.useGas]
      by_cases hlt : n.contract.gas < cost
      · rw [if_pos hlt]
        exact ⟨hk.charged, nofun⟩
      rw [if_neg hlt]
      have hkc := hk.charged
      refine ⟨⟨hkc.stack, by rw [hk.contract], ?_, hkc.moved⟩, fun _ => ?_⟩
      · exact (Nat.sub_le _ _).trans (le_of_eq hgas)
      · refine ⟨size, n, cost, hk, hcosts, by omega, hcharge, hcov memSize hms _ (hle.trans hcosts.covers), ?_⟩
        rw [← hgas]
        rfl

theorem Operation.charge_sat (ho : o.Sound op) (hst : o.minStack ≤ m.stack.length) (hwf : m.evm.state.WF env.db)
    (hm : m.memory.Ok) (hw : o.writes = true → w.still = false) (hg : m.gas < two64) :
    (o.charge env m).Sat (fun r => Charged env w m r.1 ∧ (r.2 = none → Paid env w o m r.1)) (· = .refund)
      False := by
  unfold Operation.charge Contract.useGas
  by_cases hc : m.contract.gas < o.constantGas
  · rw [if_pos hc]
    exact ⟨.refl m, nofun⟩
  rw [if_neg hc]
  have hle : o.constantGas ≤ m.gas := Nat.le_of_not_lt hc
  -- the machine after the constant part
  obtain ⟨n, hn⟩ : ∃ n, n = m.setGas (m.gas - o.constantGas) := ⟨_, rfl⟩
  have hnc : Charged env w m n := by
    rw [hn]
    exact ⟨rfl, rfl, Nat.sub_le _ _, .refl _⟩
  have hngas : n.gas = m.gas - o.constantGas := by rw [hn]; rfl
  have hnmem : n.memory = m.memory := by rw [hn]; rfl
  have hncharge : o.memoryCharge n = o.memoryCharge m := by
    unfold memoryCharge
    rw [hn]
    cases o.memorySize with
    | none => rfl
    | some f => cases f <;> rfl
  show (o.chargeDynamic env (m.setGas (m.gas - o.constantGas))).Sat _ _ _
  rw [← hn]
  refine (chargeDynamic_sat ho (hnc.stack ▸ hst) (by rw [hn]; exact hwf) (hnmem ▸ hm) hw (by omega)).mono ?_
  rintro ⟨m', err⟩ ⟨hch, hpaid⟩
  have hch' : Charged env w m m' :=
    ⟨hch.stack.trans hnc.stack, by rw [hch.contract, hnc.contract], hch.gas.trans hnc.gas, hnc.moved.trans hch.moved⟩
  refine ⟨hch', fun herr => ?_⟩
  obtain ⟨size, n', cost, hk, hcosts, hcost, hcharge, hcov, hm'⟩ := hpaid herr
  replace hm' : m' = _ := hm'
  have hmem' : m'.memory = n'.memory.grown size := by rw [hm']
  have hgas' : m'.gas = n.gas - cost := by rw [hm']; rfl
  have hhand : m'.handed o.execute = n'.handed o.execute := by rw [hm']; cases o.execute <;> rfl
  have hfloor := hcosts.handed
  show Paid env w o m m'
  refine { hch' with ready := ⟨?_, ?_, ?_⟩, handed := ?_, used := ?_, memory := ?_, exact := fun hx => ?_ }
  · rw [hch'.stack]
    exact ho.pops.trans hst
  · rw [hmem']
    exact hcosts.memory
  · rw [hmem']
    exact fun f hf => MemorySizeFunc.covered_congr hch.stack (hcov f hf)
  · omega
  · refine ho.paid.imp_right fun h => ?_
    rcases h with h | ⟨f, hf, hfl⟩
    · omega
    · rw [hf] at hfloor
      simp only [Option.elim_some] at hfloor
      omega
  · rw [hmem', ← hncharge, hcharge, ← hnmem]
    exact hcosts.fee
  · have hexact := hcosts.exact hcost (hnc.stack ▸ hx)
    rw [← hcharge] at hexact
    rw [← hncharge, otherCharge, ← hn]
    omega

/-! ## Rounds -/

/-- What stays of a frame while it runs. -/
structure Framed (env : Env D) (w : Watch) (m₀ m : Machine D) : Prop where
  contract : m.contract = { m₀.contract with gas := m.contract.gas }
  gas : m.gas ≤ m₀.gas
  moved : Moved env w m₀.evm m.evm

variable {m₀ : Machine D} {calls : Calls D} {bound : Nat}

theorem Framed.refl (m : Machine D) : Framed env w m m := ⟨rfl, le_refl _, .refl _⟩

theorem Framed.trans (h₁ : Framed env w m₀ m) (h₂ : Framed env w m m') : Framed env w m₀ m' :=
  ⟨by rw [h₂.contract, h₁.contract], h₂.gas.trans h₁.gas, h₁.moved.trans h₂.moved⟩

theorem Charged.framed (h : Charged env w m m') : Framed env w m m' := ⟨h.contract, h.gas, h.moved⟩

theorem Framed.calling (h : Framed env w m₀ m) (h₀ : Calling env w calls bound False m₀) :
    Calling env w calls bound False m where
  guard := h.moved.guard h₀.guard
  shield := by rw [h.moved.readOnly]; exact h₀.shield
  self := by rw [h.contract]; exact h₀.self
  calls := by rw [h.moved.depth]; exact h₀.calls

theorem Machine.tick_framed (env : Env D) (w : Watch) (m : Machine D) : Framed env w m m.tick ∧ m.tick.memory = m.memory ∧ m.tick.gas = m.gas := by
  unfold Machine.tick
  simp only
  split
  · exact ⟨⟨rfl, le_refl _, rfl, rfl, 0, .refl⟩, rfl, rfl⟩
  · exact ⟨⟨rfl, le_refl _, .refl _⟩, rfl, rfl⟩

def Running (env : Env D) (w : Watch) (m₀ m : Machine D) : Prop := m.memory.Ok ∧ Framed env w m₀ m

/-- What a round does: the frame has ended, or has less gas. -/
def RoundOk (env : Env D) (w : Watch) (m₀ m : Machine D) : Machine D ⊕ Halted D → Prop :=
  Round (Running env w m₀) Machine.gas (fun h => Framed env w m₀ h.machine) m

/-- What is charged for memory up to the end of a round, where `fee` is charged
in it: that for the size it then has, unless the frame failed. -/
def Billed (m : Machine D) (fee : Nat) : Machine D ⊕ Halted D → Prop
  | .inl m' => memoryFee (m'.memory.len / 32) = memoryFee (m.memory.len / 32) + fee
  | .inr h => h.err = none → memoryFee (h.machine.memory.len / 32) = memoryFee (m.memory.len / 32) + fee

theorem Billed.of_memory {fee : Nat} {r : Machine D ⊕ Halted D} (h : Billed m' fee r) (hm : m'.memory = m.memory) :
    Billed m fee r := by
  cases r with
  | inl n => unfold Billed; rw [← hm]; exact h
  | inr ended => unfold Billed; rw [← hm]; exact h

theorem Operation.conclude_ok {res : Bytes} {err : Option VmError} {fee : Nat} (hm : m'.memory.Ok)
    (hf : Framed env w m₀ m') (hu : (o.halts = true ∨ o.reverts = true) ∨ m'.gas < m.gas)
    (hfee : memoryFee (m'.memory.len / 32) = memoryFee (m.memory.len / 32) + fee) :
    RoundOk env w m₀ m (o.conclude m' res err) ∧ Billed m fee (o.conclude m' res err) := by
  -- the result is remembered
  obtain ⟨n, hn⟩ : ∃ n, n = if o.returns then { m' with evm := { m'.evm with returnData := res } } else m' := ⟨_, rfl⟩
  have hnf : Framed env w m₀ n ∧ n.memory = m'.memory ∧ n.gas = m'.gas := by
    rw [hn]
    split
    · exact ⟨hf.trans ⟨rfl, le_refl _, rfl, rfl, 0, .refl⟩, rfl, rfl⟩
    · exact ⟨hf, rfl, rfl⟩
  obtain ⟨hnf, hnm, hng⟩ := hnf
  have hnfee : memoryFee (n.memory.len / 32) = memoryFee (m.memory.len / 32) + fee := by rw [hnm]; exact hfee
  unfold Operation.conclude
  rw [← hn]
  simp only
  split
  · exact ⟨hnf, fun _ => hnfee⟩
  split
  · exact ⟨hnf, fun _ => hnfee⟩
  rename_i hrev
  split
  · exact ⟨hnf, fun _ => hnfee⟩
  rename_i hhalt
  have hlt : n.gas < m.gas := hng ▸ hu.resolve_left (not_or.2 ⟨hhalt, hrev⟩)
  split
  · exact ⟨⟨⟨hnm ▸ hm, hnf⟩, hlt⟩, hnfee⟩
  · exact ⟨⟨⟨hnm ▸ hm, hnf.trans ⟨rfl, le_refl _, .refl _⟩⟩, hlt⟩, hnfee⟩

theorem Operation.perform_sat (ho : o.Sound op) (hst : o.minStack ≤ m.stack.length)
    (h : Calling env w calls bound False m) (hm : m.memory.Ok) (hw : o.writes = true → w.still = false)
    (hv : o.execute = .opCall → w.still = true → m.item 2 = 0) (hg : m.gas < two64) (hb : m.gas < bound) :
    (o.perform env calls m).Sat (fun r => RoundOk env w m m r ∧ Billed m (o.memoryCharge m) r) (· = .refund)
      False := by
  unfold Operation.perform
  refine (charge_sat ho hst h.guard.good.wf hm hw hg).bind ?_
  rintro ⟨n, err⟩ ⟨hch, hpaid⟩
  replace hch : Charged env w m n := hch
  cases err with
  | some err => exact ⟨hch.framed, nofun⟩
  | none =>
    have hp : Paid env w o m n := hpaid rfl
    have hvn : o.execute = .opCall → w.still = true → n.item 2 = 0 := by
      rw [Frame.item, hch.stack, ← Frame.item]
      exact hv
    have hhand := hp.handed
    refine (Execute.run_sat o.execute (hch.framed.calling h) hp.ready ho.shaped (fun he => hw (ho.writes he)) hvn
      (by omega) (by omega)).bind ?_
    rintro ⟨m', res, err⟩ hdid
    replace hdid : Did env w n (n.handed o.execute) m' := hdid
    have hgas := hdid.gas
    have hlt : (o.halts = true ∨ o.reverts = true) ∨ m'.gas < m.gas := hp.used.imp_right fun hlt => by omega
    exact conclude_ok (hdid.memory.ok hp.ready.memory)
      ⟨by rw [hdid.contract, hp.contract], by omega, hp.moved.trans hdid.moved⟩ hlt (by rw [hdid.memory.1]; exact hp.memory)

/-- The operation at the program counter. -/
def Machine.operation (env : Env D) (m : Machine D) : Operation := env.rules.operation (m.contract.getOp m.pc)

/-- The operation passed the checks that are made before it is charged for. -/
structure Admitted (env : Env D) (w : Watch) (m : Machine D) : Prop where
  sound : ∃ op, (m.operation env).Sound op
  stack : (m.operation env).minStack ≤ m.stack.length
  writes : (m.operation env).writes = true → w.still = false
  call : (m.operation env).execute = .opCall → w.still = true → m.item 2 = 0

/-- What is checked before an operation is charged for. -/
def Machine.Checked (env : Env D) (m : Machine D) : Prop :=
  (m.operation env).valid = true ∧ (m.operation env).minStack ≤ m.stack.length ∧
    (m.evm.readOnly && env.rules.isByzantium && (m.operation env).forbidden m (m.contract.getOp m.pc)) = false

theorem Machine.Checked.admitted (h : m.Checked env) (hp : Protected env w m.evm.readOnly) : Admitted env w m := by
  obtain ⟨hvalid, hst, hforbidden⟩ := h
  obtain ⟨op, hop, ho⟩ := Rules.operation_sound hvalid
  -- in read-only mode nothing is forbidden that comes so far
  have hfree : w.still = true → (m.operation env).forbidden m (m.contract.getOp m.pc) = false := by
    intro hs
    obtain ⟨hro, hbyz⟩ := hp hs
    simpa [hro, hbyz] using hforbidden
  refine ⟨⟨op, ho⟩, hst, fun hw => ?_, fun hcall hs => ?_⟩
  · cases hs : w.still with
    | false => rfl
    | true =>
      have := hfree hs
      unfold Operation.forbidden at this
      rw [hw] at this
      cases this
  · have := hfree hs
    unfold Operation.forbidden at this
    rw [hop, ho.call hcall] at this
    have hz : (m.stack[2]?).getD 0 = 0 := by simpa using (Bool.or_eq_false_iff.1 this).2
    rw [Frame.item, List.getD_eq_getElem?_getD]
    exact hz

theorem next_sat (h : Calling env w calls bound False m) (hm : m.memory.Ok) (hg : m.gas < two64) (hb : m.gas < bound) :
    (next env calls m).Sat (fun r => RoundOk env w m m r ∧ Billed m ((m.operation env).memoryCharge m) r)
      (· = .refund) False := by
  unfold next
  simp only
  split
  · exact ⟨Framed.refl m, nofun⟩
  rename_i hvalid
  split
  · exact ⟨Framed.refl m, nofun⟩
  rename_i hst
  split
  · exact ⟨Framed.refl m, nofun⟩
  split
  · exact ⟨Framed.refl m, nofun⟩
  rename_i hforbidden
  have hchecked : m.Checked env := ⟨by simpa [Machine.operation] using hvalid, Nat.le_of_not_lt hst,
    by simpa [Machine.operation] using hforbidden⟩
  obtain ⟨⟨op, ho⟩, hstack, hw, hv⟩ := hchecked.admitted h.shield
  exact Operation.perform_sat ho hstack h hm hw hv hg hb

/-- The fee that a round charges for memory. -/
def Machine.memoryCharge (env : Env D) (m : Machine D) : Nat :=
  if m.aborted env then 0 else (m.tick.operation env).memoryCharge m.tick

theorem round_sat (h₀ : Calling env w calls bound False m₀) (hg : m₀.gas < two64) (hb : m₀.gas < bound)
    (h : Running env w m₀ m) :
    (round env calls m).Sat (fun r => RoundOk env w m₀ m r ∧ Billed m (m.memoryCharge env) r)
      (· = .refund) False := by
  obtain ⟨hm, hf⟩ := h
  obtain ⟨htick, hmem, hgas⟩ := Machine.tick_framed env w m
  have hft := hf.trans htick
  have hle := hf.gas
  unfold round Machine.memoryCharge
  split
  · exact ⟨hft, fun _ => by rw [hmem]; rfl⟩
  · refine (next_sat (hft.calling h₀) (hmem ▸ hm) (by omega) (by omega)).mono ?_
    rintro (m' | ended) ⟨hr, hb⟩
    · exact ⟨⟨⟨hr.1.1, hft.trans hr.1.2⟩, hgas ▸ hr.2⟩, hb.of_memory hmem⟩
    · exact ⟨hft.trans hr, hb.of_memory hmem⟩

/-! ## Frames -/

structure RanOk (env : Env D) (w : Watch) (evm : Evm D) (gas : Nat) (r : Ran D) : Prop where
  gas : r.gas ≤ gas
  moved : Moved env w evm r.evm

def RunnerOk (env : Env D) (w : Watch) (runner : Runner D) (depth bound : Nat) : Prop :=
  ∀ evm contract input readOnly, evm.depth = depth → Protected env w (evm.readOnly || readOnly) →
    Guard env w evm.state → (contract.code ≠ [] → ¬ w.idle contract.self) → contract.gas < two64 →
    contract.gas < bound →
    (runner evm contract input readOnly).Sat (RanOk env w evm contract.gas) (· = .refund) False

theorem iterate_round_sat {rounds : Nat} (h₀ : Calling env w calls bound False m₀) (hm : m₀.memory.Ok)
    (hg : m₀.gas < two64) (hb : m₀.gas < bound) (hr : m₀.gas < rounds) :
    (iterate (round env calls) rounds m₀).Sat (fun h => Framed env w m₀ h.machine) (· = .refund) False :=
  iterate_sat (fun _ hm => (round_sat h₀ hg hb hm).mono fun _ h => h.1) ⟨hm, .refl _⟩ hr

theorem Evm.enter_readOnly (evm : Evm D) (readOnly : Bool) :
    (evm.enter readOnly).readOnly = (evm.readOnly || readOnly) := by
  unfold Evm.enter
  cases evm.readOnly <;> cases readOnly <;> rfl

theorem Moved.leave {evm evm' : Evm D} {readOnly : Bool} (h : Moved env w (evm.enter readOnly) evm') :
    Moved env w evm (evm'.leave (readOnly && !evm.readOnly)) where
  depth := by
    show evm'.depth - 1 = _
    rw [h.depth]
    exact Nat.add_sub_cancel _ _
  readOnly := by
    show (if (readOnly && !evm.readOnly) = true then false else evm'.readOnly) = _
    rw [h.readOnly, Evm.enter_readOnly]
    cases evm.readOnly <;> cases readOnly <;> rfl
  effect := h.effect

theorem calling_start {evm : Evm D} {contract : Contract} {readOnly : Bool} (input : Bytes)
    (hc : CallsOk env w calls (evm.depth + 1) bound False) (hp : Protected env w (evm.readOnly || readOnly))
    (hguard : Guard env w evm.state) (hidle : ¬ w.idle contract.self) :
    Calling env w calls bound False (.start (evm.enter readOnly) contract input) :=
  ⟨hguard, by rw [← Evm.enter_readOnly] at hp; exact hp, hidle, hc⟩

theorem interpreterRun_ok {rounds depth : Nat} (hc : CallsOk env w calls (depth + 1) rounds False) :
    RunnerOk env w (interpreterRun env calls rounds) depth rounds := by
  intro evm contract input readOnly hd hp hguard hidle hg hb
  unfold interpreterRun
  simp only
  split
  · exact ⟨le_refl _, (Moved.refl _).leave⟩
  rename_i hcode
  refine (iterate_round_sat (calling_start input (by rw [hd]; exact hc) hp hguard (hidle hcode)) Memory.Ok.new hg hb
    hb).bind ?_
  exact fun ended hf => ⟨hf.gas, hf.moved.leave⟩

theorem runPrecompiledContract_ok (p : PrecompiledContract) (evm : Evm D) (contract : Contract) (input : Bytes) :
    RanOk env w evm contract.gas (runPrecompiledContract env p evm contract input) := by
  unfold runPrecompiledContract Contract.useGas
  split
  · exact ⟨le_refl _, .refl _⟩
  · rename_i c hc
    split at hc
    · cases hc
    · cases hc
      split
      · exact ⟨Nat.sub_le _ _, .refl _⟩
      · exact ⟨Nat.sub_le _ _, .refl _⟩

theorem run_ok {runner : Runner D} {depth : Nat} (h : RunnerOk env w runner depth bound) :
    RunnerOk env w (run env runner) depth bound := by
  intro evm contract input readOnly hd hp hguard hidle hg hb
  unfold run
  split
  · exact runPrecompiledContract_ok _ _ _ _
  · exact h evm contract input readOnly hd hp hguard hidle hg hb

end NdnGeth.Vm
