/-
Every execution ends, stays within its memory and is charged for it.

`Passes` is a run of the loop of a frame, with the sum of the fees that were
charged for memory on the way.
-/
import NdnGeth.Vm.Outcome

namespace NdnGeth.Vm

open Lib (Result iterate)
open Lib.Rlp (Bytes)
open State (Digests StateDB)
open Types (Address)

variable {D : Digests} {env : Env D} {calls : Calls D} {m₀ m m' : Machine D}

/-- The rounds of a frame so far, and the fees charged for memory in them. -/
inductive Passes (env : Env D) (calls : Calls D) (m₀ : Machine D) : Nat → Machine D ⊕ Halted D → Prop
  | start : Passes env calls m₀ 0 (.inl m₀)
  | round {fee : Nat} {m : Machine D} {r : Machine D ⊕ Halted D} : Passes env calls m₀ fee (.inl m) →
    round env calls m = .ok r → Passes env calls m₀ (fee + m.memoryCharge env) r

/-- Executions of which nothing more is asked. -/
def Watch.any : Watch := ⟨false, fun _ => False, False⟩

theorem Guard.any {s : StateDB D} (h : s.Good env.db) : Guard env .any s := ⟨h, nofun⟩

theorem Protected.any {readOnly : Bool} : Protected env .any readOnly := nofun

theorem Passes.paid {bound fee : Nat} {r : Machine D ⊕ Halted D} (h₀ : Calling env .any calls bound False m₀)
    (hm : m₀.memory = .new) (hg : m₀.gas < two64) (hb : m₀.gas < bound) (h : Passes env calls m₀ fee r) :
    Billed m₀ fee r ∧ ∀ m, r = .inl m → Running env .any m₀ m := by
  induction h with
  | start => exact ⟨rfl, fun m h => by cases h; exact ⟨hm ▸ Memory.Ok.new, .refl _⟩⟩
  | @round fee m r hp hr ih =>
    obtain ⟨hbill, hrun⟩ := ih
    replace hbill : memoryFee (m.memory.len / 32) = memoryFee (m₀.memory.len / 32) + fee := hbill
    obtain ⟨hround, hbilled⟩ := (round_sat h₀ hg hb (hrun m rfl)).of_ok hr
    cases r with
    | inl m' =>
      replace hbilled : memoryFee (m'.memory.len / 32) = memoryFee (m.memory.len / 32) + m.memoryCharge env := hbilled
      refine ⟨?_, fun n hn => by cases hn; exact hround.1⟩
      show memoryFee (m'.memory.len / 32) = _
      omega
    | inr ended =>
      refine ⟨fun he => ?_, fun n hn => by cases hn⟩
      have := hbilled he
      omega

theorem perform_of_deep {evm : Evm D} (runner runner' : Runner D) (req : Request)
    (h : Params.callCreateDepth < evm.depth) : perform env runner evm req = perform env runner' evm req := by
  cases req with
  | call caller addr input gas value => simp only [perform, call, if_pos h]
  | callCode caller addr input gas value => simp only [perform, callCode, if_pos h]
  | delegateCall caller addr input gas => simp only [perform, delegateCall, if_pos h]
  | staticCall caller addr input gas => simp only [perform, staticCall, if_pos h]
  | create caller code gas value => simp only [perform, create, if_pos h]
  | create2 caller code gas endowment salt => simp only [perform, create, if_pos h]

/-- A state, gas that fits its type, more rounds than gas and levels enough to
meet the depth limit. -/
structure Enough (env : Env D) (rounds levels : Nat) (evm : Evm D) (gas : Nat) : Prop where
  reachable : State.Node.Reachable ⟨env.db, evm.state⟩
  fits : gas < two64
  lasts : gas < rounds
  deep : Params.callCreateDepth < evm.depth + levels

variable {evm : Evm D} {contract : Contract} {input : Bytes} {readOnly : Bool} {rounds levels : Nat}

theorem Enough.guard {gas : Nat} (h : Enough env rounds levels evm gas) : Guard env .any evm.state := .any h.reachable.good

theorem Enough.calling (h : Enough env rounds (levels + 1) evm contract.gas) (input : Bytes) (readOnly : Bool) :
    Calling env .any (execute env rounds levels) rounds False (.start (evm.enter readOnly) contract input) := by
  have hd := h.deep
  have hc : CallsOk env .any (execute env rounds levels) (evm.depth + 1) rounds False :=
    perform_ok fun hle => run_interpret_ok env .any rounds (by omega) hle
  exact calling_start input hc .any h.guard nofun

theorem Passes.charged {bound fee : Nat} (h₀ : Calling env .any calls bound False m₀) (hm : m₀.memory = .new)
    (hg : m₀.gas < two64) (hb : m₀.gas < bound) (h : Passes env calls m₀ fee (.inl m)) (hc : m.tick.Checked env)
    (hr : (m.tick.operation env).charge env m.tick = .ok (m', none)) :
    Paid env .any (m.tick.operation env) m.tick m' := by
  obtain ⟨hmem, hf⟩ := (h.paid h₀ hm hg hb).2 m rfl
  obtain ⟨htick, htm, htg⟩ := Machine.tick_framed env .any m
  have hcall := (hf.trans htick).calling h₀
  obtain ⟨⟨op, ho⟩, hst, hw, -⟩ := hc.admitted hcall.shield
  have hle := hf.gas
  exact ((Operation.charge_sat ho hst hcall.guard.good.wf (htm ▸ hmem) hw (by omega)).of_ok hr).2 rfl

/-- Every execution ends: so many rounds as there is gas and one more are
enough for each frame, and so many levels that the depth limit is met. Every
round but the last uses gas, and what is handed to a callee was charged before. -/
theorem interpreter_terminates (h : Enough env rounds (levels + 1) evm contract.gas) :
    interpret env rounds (levels + 1) evm contract input readOnly ≠ .unfinished ∧
    (∀ n, contract.gas < n →
      iterate (round env (execute env rounds levels)) n (.start (evm.enter readOnly) contract input) ≠ .unfinished) ∧
    (∀ fee m, Passes env (execute env rounds levels) (.start (evm.enter readOnly) contract input) fee (.inl m) →
      m.evm.depth = evm.depth + 1 ∧
      (∀ m', round env (execute env rounds levels) m = .ok (.inl m') → m'.gas < m.gas) ∧
      (m.tick.Checked env → ∀ m', (m.tick.operation env).charge env m.tick = .ok (m', none) →
        m'.gas + m'.handed (m.tick.operation env).execute ≤ m.gas ∧
        ((m.tick.operation env).execute.calls = true → ∀ calls',
          (∀ evm req, req.gas = m'.handed (m.tick.operation env).execute →
            calls' evm req = execute env rounds levels evm req) →
          (m.tick.operation env).execute.run env calls' m' =
            (m.tick.operation env).execute.run env (execute env rounds levels) m'))) ∧
    ∀ runner runner' evm' req, Params.callCreateDepth < evm'.depth →
      perform env runner evm' req = perform env runner' evm' req := by
  have hcall := h.calling input readOnly
  refine ⟨fun hu => ?_, fun n hn hu => ?_, fun fee m hp => ?_, fun runner runner' evm' req => perform_of_deep _ _ _⟩
  · have hok := interpret_ok env .any rounds (Nat.succ_pos levels) h.deep evm contract input readOnly rfl .any h.guard
      (fun _ => nofun) h.fits h.lasts
    rw [hu] at hok
    exact hok
  · have hok := iterate_round_sat hcall Memory.Ok.new h.fits h.lasts hn
    rw [hu] at hok
    exact hok
  · have hrun := (hp.paid hcall rfl h.fits h.lasts).2 m rfl
    have hle := hrun.2.gas
    refine ⟨hrun.2.moved.depth, fun m' hr => ?_, fun hc m' hr => ?_⟩
    · exact ((round_sat hcall h.fits h.lasts hrun).of_ok hr).1.2
    · have hpaid := hp.charged hcall rfl h.fits h.lasts hc hr
      have htick := (Machine.tick_framed env .any m).2.2
      have hhand := hpaid.handed
      have hgas : (Machine.start (evm.enter readOnly) contract input).gas < two64 := h.fits
      exact ⟨by omega, fun he calls' hcalls => Execute.run_handed he hpaid.ready.stack (by omega) hcalls⟩

def sampleRules : Rules := ⟨true, true, true, true, true, true, true, false⟩

/-- `RequiredGas`. The samples call three of the contracts, and cannot pay for
another. -/
def sampleGas : PrecompiledContract → Bytes → Nat
  | .dataCopy, input => (input.length + 31) / 32 * 3 + 15
  | .bn256ScalarMulIstanbul, _ => 6000
  | .bls12381G1Add, _ => 600
  | _, _ => two64 - 1

/-- `Run`, on the inputs of the samples. A product of no input is one of the point
at infinity, and a sum wants 256 bytes. -/
def sampleRun : PrecompiledContract → Bytes → Option Bytes
  | .dataCopy, input => some input
  | .bn256ScalarMulIstanbul, [] => some (List.replicate 64 0)
  | _, _ => none

def sampleEnv : Env State.Node.sampleDigests where
  ctx := ⟨fun _ => 0, 1, 1, 2, 10000000, 1, 1, 1⟩
  rules := sampleRules
  chainID := 1
  noRecursion := false
  enablePreimageRecording := false
  abort _ := false
  db := State.Node.sample.db
  keccak256 _ := 0
  codeHashBytes _ := 0
  createAddress a n := a + n.zeroExtend 160 + 1
  createAddress2 a _ _ := a + 2
  requiredGas := sampleGas
  native := sampleRun

/-- `JUMPDEST`, `PUSH1 0`, `JUMP`: a loop without an end. -/
def loopContract (gas : Nat) : Contract := ⟨1, 7, [0x5b, 0x60, 0, 0x56], 7, [], gas, 0⟩

theorem enough_sample {rounds gas : Nat} (hg : gas < two64) (hr : gas < rounds) :
    Enough sampleEnv rounds (1024 + 1) (.new State.Node.sample.state) gas :=
  ⟨.of_opened State.Node.sample_opened .nil, hg, hr, by decide⟩

theorem interpreter_terminates_loop :
    interpret sampleEnv 101 1025 (.new State.Node.sample.state) (loopContract 100) [] false ≠ .unfinished :=
  (interpreter_terminates (enough_sample (by decide) (by decide))).1

theorem Request.fit_any (req : Request) : req.Fit .any := by
  cases req with
  | call => exact ⟨nofun, id⟩
  | callCode => exact id
  | delegateCall => exact id
  | staticCall => trivial
  | create => exact ⟨rfl, id⟩
  | create2 => exact ⟨rfl, id⟩

/-- Executions stay in bounds, and their memory is paid for. No run panics at an
index. As long as a frame has not failed, it was charged `3w + w * w / 512`
for its `w` words. What a round is charged, hands out and takes back is never
a number that has wrapped around. -/
theorem memory_in_bounds_and_paid (h : Enough env rounds (levels + 1) evm contract.gas) :
    (∀ p, interpret env rounds (levels + 1) evm contract input readOnly = .fault p → p = .refund) ∧
    ∀ fee r, Passes env (execute env rounds levels) (.start (evm.enter readOnly) contract input) fee r →
      (∀ ended, r = .inr ended → ended.err = none → fee = memoryFee (ended.machine.memory.len / 32)) ∧
      ∀ m, r = .inl m → 32 ∣ m.memory.len ∧ fee = memoryFee (m.memory.len / 32) ∧
        (m.tick.Checked env → ∀ m', (m.tick.operation env).charge env m.tick = .ok (m', none) →
          ((∀ x ∈ m.tick.stack, x < two256) →
            m'.gas + (m.tick.operation env).memoryCharge m.tick +
              (m.tick.operation env).otherCharge env m.tick ((m.tick.operation env).memoryCharge m.tick) = m.gas) ∧
          m'.gas + m'.handed (m.tick.operation env).execute ≤ m.gas ∧
          ∀ req reply, req.gas = m'.handed (m.tick.operation env).execute →
            execute env rounds levels m'.evm req = .ok reply → add64 m'.gas reply.gas = m'.gas + reply.gas) := by
  have hcall := h.calling input readOnly
  have hgas : (Machine.start (evm.enter readOnly) contract input).gas < two64 := h.fits
  have hlast : (Machine.start (evm.enter readOnly) contract input).gas < rounds := h.lasts
  have hzero (fee : Nat) : memoryFee ((Machine.start (evm.enter readOnly) contract input).memory.len / 32) + fee = fee := by
    have hz : memoryFee (Memory.new.len / 32) = 0 := by decide
    exact (congrArg (· + fee) hz).trans (Nat.zero_add fee)
  refine ⟨fun p hp => ?_, fun fee r hp => ?_⟩
  · have hok := interpret_ok env .any rounds (Nat.succ_pos levels) h.deep evm contract input readOnly rfl .any h.guard
      (fun _ => nofun) h.fits h.lasts
    rw [hp] at hok
    exact hok
  obtain ⟨hbill, hrun⟩ := hp.paid hcall rfl h.fits h.lasts
  refine ⟨fun ended hr he => ?_, fun m hr => ?_⟩
  · subst hr
    exact ((hbill he).trans (hzero fee)).symm
  · subst hr
    obtain ⟨hmem, hf⟩ := hrun m rfl
    refine ⟨hmem.words, (Eq.trans hbill (hzero fee)).symm, fun hc m' hm' => ?_⟩
    have hpaid := hp.charged hcall rfl h.fits h.lasts hc hm'
    obtain ⟨htick, -, htg⟩ := Machine.tick_framed env .any m
    have hhand := hpaid.handed
    have hle := hf.gas
    rw [htg] at hhand
    refine ⟨fun hx => (hpaid.exact hx).trans htg, hhand, fun req reply hreq hreply => ?_⟩
    have hm := ((hf.trans htick).trans hpaid.toCharged.framed).calling hcall
    have hreplied := (hm.calls m'.evm req rfl .any hm.guard req.fit_any (by omega) (by omega)).of_ok hreply
    have hr := hreplied.gas
    exact add64_of_lt (by omega)

/-- `MSTORE` at 40: three words are paid for when the frame stops. -/
theorem memory_in_bounds_and_paid_mstore :
    ∃ fee ended, Passes sampleEnv (execute sampleEnv 101 1024)
        (.start (Evm.enter (.new State.Node.sample.state) false) ⟨1, 7, [0x60, 1, 0x60, 40, 0x52, 0], 7, [], 100, 0⟩ [])
        fee (.inr ended) ∧
      ended.err = none ∧ ended.machine.memory.len = 96 ∧ fee = memoryFee 3 := by
  obtain ⟨fee, ended, hp, he, hlen⟩ : ∃ fee ended, Passes sampleEnv (execute sampleEnv 101 1024)
      (.start (Evm.enter (.new State.Node.sample.state) false) ⟨1, 7, [0x60, 1, 0x60, 40, 0x52, 0], 7, [], 100, 0⟩ [])
      fee (.inr ended) ∧ ended.err = none ∧ ended.machine.memory.len = 96 :=
    ⟨_, _, .round (.round (.round (.round .start rfl) rfl) rfl) rfl, rfl, rfl⟩
  refine ⟨fee, ended, hp, he, hlen, ?_⟩
  rw [((memory_in_bounds_and_paid (enough_sample (by decide) (by decide))).2 fee _ hp).1 ended rfl he, hlen]

/-- A frame at a `CALL` with a value, for all gas there is, with 800 gas left. -/
def poorCaller : Machine State.Node.sampleDigests :=
  { Machine.start (.new State.Node.sample.state) ⟨1, 7, [0xf1], 7, [], 800, 0⟩ [] with
    stack := [two256 - 1, 9, 1, 0, 0, 0, 0] }

/-- `callGas` subtracts what the call costs from what is left, also where it is
more: then the gas it sets aside for the callee has wrapped around. The call
fails, as there is not so much gas. -/
theorem callGas_wraps :
    poorCaller.Checked sampleEnv ∧
      ((poorCaller.operation sampleEnv).charge sampleEnv poorCaller).Sat
        (fun r => r.2 = some .outOfGas ∧ r.1.gas = 100 ∧ r.1.evm.callGasTemp = 18158513697557806502) (fun _ => False)
        False := by
  refine ⟨⟨?_, ?_, ?_⟩, ?_⟩
  all_goals decide +kernel

end NdnGeth.Vm
