/-
What the four kinds of call return of a precompiled contract. The set of those
contracts is chosen twice: by `run`, which runs them, and by `Call`, which
returns at once, with all of the gas, when it is asked to send nothing to an
address that is neither an account nor, as it thinks, a precompiled contract.
The second choice was not extended for YoloV1.

`runCall_precompiled`: each call that comes to `run` returns `Env.answer`.
`precompiles_alike_iff`: when the four agree.
-/
import NdnGeth.Vm.Executions

namespace NdnGeth.Vm

open Lib (Result)
open Lib.Rlp (Bytes)
open Types (Address)
open State (Digests StateDB)
open State.StateDB (Good Warm)

variable {D : Digests} {env : Env D} {evm : Evm D} {interpreter : Runner D} {p : PrecompiledContract} {caller : Contract}
  {addr : Address} {input : Bytes} {gas : Nat}

/-- What a caller sees of a call. -/
structure Answer where
  ret : Bytes
  gas : Nat
  err : Option VmError
  deriving DecidableEq

def Reply.answer (r : Reply D) : Answer := ⟨r.ret, r.gas, r.err⟩

/-- What a precompiled contract is to answer. An error takes all of the gas. -/
def Env.answer (env : Env D) (p : PrecompiledContract) (input : Bytes) (gas : Nat) : Answer :=
  if gas < env.requiredGas p input then ⟨[], 0, some .outOfGas⟩
  else match env.native p input with
    | some ret => ⟨ret, gas - env.requiredGas p input, none⟩
    | none => ⟨[], 0, some .precompiled⟩

inductive CallKind | call | callCode | delegateCall | staticCall
  deriving DecidableEq

/-- The request of a contract for a call without value. -/
def CallKind.request (k : CallKind) (caller : Contract) (addr : Address) (input : Bytes) (gas : Nat) : Request :=
  match k with
  | call => .call caller.self addr input gas 0
  | callCode => .callCode caller.self addr input gas 0
  | delegateCall => .delegateCall caller addr input gas
  | staticCall => .staticCall caller.self addr input gas

/-- `Call` takes the address for that of nothing at all. -/
def Skipped (env : Env D) (evm : Evm D) (addr : Address) : Prop :=
  (evm.state.exist addr).1 = false ∧ env.rules.calledPrecompiles addr = none ∧ env.rules.isEIP158 = true

instance : Decidable (Skipped env evm addr) := inferInstanceAs (Decidable (_ ∧ _ ∧ _))

/-- A call returns this. -/
def Answers (env : Env D) (interpreter : Runner D) (evm : Evm D) (req : Request) (a : Answer) : Prop :=
  ∃ r, perform env (run env interpreter) evm req = .ok r ∧ r.answer = a

theorem Answers.unique {req : Request} {a b : Answer} (ha : Answers env interpreter evm req a)
    (hb : Answers env interpreter evm req b) : a = b := by
  obtain ⟨r, hr, rfl⟩ := ha
  obtain ⟨r', hr', rfl⟩ := hb
  cases hr.symm.trans hr'
  rfl

/-! ## Calls that run the contract -/

theorem runCall_precompiled (interpreter : Runner D) (evm : Evm D) {t u : StateDB D} {d : Int} (contract : Contract)
    (input : Bytes) (readOnly : Bool) (hp : env.rules.precompiles contract.codeAddr = some p) (ht : Good env.db t) (hu : Effect env .any t.snapshot.2 u d) :
    ∃ r, runCall (run env interpreter) { evm with state := u } contract input readOnly t.nextRevisionId = .ok r ∧
      r.answer = env.answer p input contract.gas := by
  obtain ⟨v, hv, -⟩ := hu.revert ht
  unfold runCall run
  rw [hp]
  simp only [Result.ok_bind, runPrecompiledContract, Contract.useGas, Env.answer]
  by_cases hgas : contract.gas < env.requiredGas p input
  · simp only [if_pos hgas, failed, Option.isSome_some, if_true, hv]
    exact ⟨_, rfl, rfl⟩
  · simp only [if_neg hgas]
    cases env.native p input with
    | some ret => exact ⟨_, rfl, rfl⟩
    | none =>
      simp only [failed, Option.isSome_some, if_true, hv]
      exact ⟨_, rfl, rfl⟩

theorem callContract_effect {s : StateDB D} (hs : s.WF env.db) (callerAddress self addr : Address) (value gas : Nat) :
    Effect env .any s (callContract env s callerAddress self addr value gas).2 0 :=
  (callContract_spec .any s hs callerAddress self addr value gas).1

/-- No limit stops the call. -/
def Enters (env : Env D) (evm : Evm D) : Prop :=
  (env.noRecursion && decide (evm.depth > 0)) = false ∧ evm.depth ≤ Params.callCreateDepth

theorem delegateCall_answers (hin : Enters env evm) (hs : Good env.db evm.state)
    (hp : env.rules.precompiles addr = some p) :
    Answers env interpreter evm (.delegateCall caller addr input gas) (env.answer p input gas) := by
  unfold Answers perform delegateCall
  simp only [hin.1, Bool.false_eq_true, if_false]
  rw [if_neg (Nat.not_lt.2 hin.2)]
  exact runCall_precompiled interpreter evm _ input _ hp hs (callContract_effect hs.snapshot.wf _ _ addr _ gas)

theorem staticCall_answers (hin : Enters env evm) (hs : Good env.db evm.state) {caller : Address}
    (hp : env.rules.precompiles addr = some p) :
    Answers env interpreter evm (.staticCall caller addr input gas) (env.answer p input gas) := by
  unfold Answers perform staticCall
  simp only [hin.1, Bool.false_eq_true, if_false]
  rw [if_neg (Nat.not_lt.2 hin.2)]
  exact runCall_precompiled interpreter evm _ input _ hp hs
    ((callContract_effect hs.snapshot.wf _ _ addr _ gas).mutate (m := .addBalance addr 0) rfl rfl)

variable {self : Address}

theorem canTransfer_zero (hs : Good env.db evm.state) (hb : 0 ≤ (evm.state.facts env.db self).balance) :
    canTransfer evm.state self 0 = (true, (evm.state.get env.db (.balance self)).2) := by
  rw [canTransfer_eq hs.wf]
  simpa using hb

theorem callCode_answers (hin : Enters env evm) (hs : Good env.db evm.state)
    (hb : 0 ≤ (evm.state.facts env.db self).balance) (hp : env.rules.precompiles addr = some p) :
    Answers env interpreter evm (.callCode self addr input gas 0) (env.answer p input gas) := by
  have hgood : Good env.db (evm.state.get env.db (.balance self)).2 :=
    (Effect.refl.get (w := .any) (.balance self)).good hs
  unfold Answers perform callCode
  simp only [hin.1, Bool.false_eq_true, if_false, canTransfer_zero hs hb, Bool.not_true]
  rw [if_neg (Nat.not_lt.2 hin.2)]
  exact runCall_precompiled interpreter evm _ input _ hp hgood (callContract_effect hgood.snapshot.wf _ _ addr _ gas)

theorem exist_after_balance (hs : Good env.db evm.state) :
    ((evm.state.get env.db (.balance self)).2.snapshot.2.exist addr).1 = (evm.state.exist addr).1 := by
  have hwarm := (hs.wf.get_warm (.balance self)).1
  have hgood : Good env.db (evm.state.get env.db (.balance self)).2 :=
    (Effect.refl.get (w := .any) (.balance self)).good hs
  rw [exist_eq hgood.snapshot.wf, exist_eq hs.wf]
  change ((evm.state.get env.db (.balance self)).2.live addr).isSome = _
  cases hl : evm.state.live addr with
  | none => rw [hwarm.of_live_none hl]
  | some o =>
    obtain ⟨o', ho', -⟩ := hwarm.of_live hl
    rw [ho']
    rfl

theorem call_answers (hin : Enters env evm) (hs : Good env.db evm.state)
    (hb : 0 ≤ (evm.state.facts env.db self).balance) (hp : env.rules.precompiles addr = some p) :
    Answers env interpreter evm (.call self addr input gas 0)
      (if Skipped env evm addr then ⟨[], gas, none⟩ else env.answer p input gas) := by
  have hexist : ((evm.state.get env.db (.balance self)).2.snapshot.2.exist addr).1 = (evm.state.exist addr).1 :=
    exist_after_balance hs
  have hgood : Good env.db (evm.state.get env.db (.balance self)).2 :=
    (Effect.refl.get (w := .any) (.balance self)).good hs
  unfold Answers perform call
  simp only [hin.1, Bool.false_eq_true, if_false, canTransfer_zero hs hb, Bool.not_true]
  rw [if_neg (Nat.not_lt.2 hin.2)]
  generalize (evm.state.get env.db (.balance self)).2 = t at *
  by_cases hskip : Skipped env evm addr
  · have hcond : (!(t.snapshot.2.exist addr).1 && (env.rules.calledPrecompiles addr).isNone && env.rules.isEIP158 &&
        (0 : Nat) == 0) = true := by
      simp [hexist, hskip.1, hskip.2.1, hskip.2.2]
    rw [if_pos hskip]
    refine ⟨_, if_pos hcond, rfl⟩
  · have hcond : ¬ (!(t.snapshot.2.exist addr).1 && (env.rules.calledPrecompiles addr).isNone && env.rules.isEIP158 &&
        (0 : Nat) == 0) = true := by
      intro h
      simp only [hexist, beq_self_eq_true, Bool.and_true, Bool.and_eq_true, Bool.not_eq_true', Option.isNone_iff_eq_none] at h
      exact hskip ⟨h.1.1, h.1.2, h.2⟩
    have htouch : Effect env .any t.snapshot.2 _ 0 :=
      (Effect.refl.touch (.any hgood.snapshot) fun (_ : t.snapshot.2.live addr = none) h => by cases h).1
    have hpaid := htouch.transfer (v := 0) (a := self) (b := addr) (fun _ => rfl) (fun h => h.elim) (.inl rfl)
    have hcode := callContract_effect (hpaid.good hgood.snapshot).wf self addr addr 0 gas
    obtain ⟨r, hr, ha⟩ := runCall_precompiled interpreter evm (callContract env _ self addr addr 0 gas).1 input false hp hgood
      (hpaid.trans hcode)
    rw [if_neg hskip]
    exact ⟨r, (if_neg hcond).trans hr, ha⟩

/-! ## Agreement -/

theorem answers_of_stopped (hout : ¬ Enters env evm) (k : CallKind) :
    Answers env interpreter evm (k.request caller addr input gas)
      ⟨[], gas, if (env.noRecursion && decide (evm.depth > 0)) = true then none else some .depth⟩ := by
  by_cases hrec : (env.noRecursion && decide (evm.depth > 0)) = true
  · rw [if_pos hrec]
    cases k with
    | call | callCode | delegateCall | staticCall => exact ⟨_, if_pos hrec, rfl⟩
  · have hdeep : evm.depth > Params.callCreateDepth := by
      by_contra hle
      exact hout ⟨Bool.eq_false_iff.2 hrec, Nat.le_of_not_lt hle⟩
    rw [if_neg hrec]
    cases k with
    | call | callCode | delegateCall | staticCall => exact ⟨_, (if_neg hrec).trans (if_pos hdeep), rfl⟩

theorem callCode_in_debt (hin : Enters env evm) (hs : Good env.db evm.state)
    (hb : ¬ 0 ≤ (evm.state.facts env.db self).balance) :
    Answers env interpreter evm (.callCode self addr input gas 0) ⟨[], gas, some .insufficientBalance⟩ := by
  have hcan : canTransfer evm.state self 0 = (false, (evm.state.get env.db (.balance self)).2) := by
    rw [canTransfer_eq hs.wf]
    simpa using hb
  unfold Answers perform callCode
  simp only [hin.1, Bool.false_eq_true, if_false, hcan, Bool.not_false, if_true]
  rw [if_neg (Nat.not_lt.2 hin.2)]
  exact ⟨_, rfl, rfl⟩

theorem answer_err_ne (env : Env D) (p : PrecompiledContract) (input : Bytes) (gas : Nat) :
    (env.answer p input gas).err ≠ some .insufficientBalance := by
  unfold Env.answer
  split
  · simp
  · split <;> simp

/-- The four kinds of call answer alike exactly when the call is not started, or
`Call` does not skip a contract that would have answered something else. -/
theorem precompiles_alike_iff (env : Env D) (interpreter : Runner D) (evm : Evm D) (caller : Contract) (addr : Address)
    (input : Bytes) (gas : Nat) {p : PrecompiledContract} (hreach : State.Node.Reachable ⟨env.db, evm.state⟩)
    (hp : env.rules.precompiles addr = some p) :
    (∃ a, ∀ k : CallKind, Answers env interpreter evm (k.request caller addr input gas) a) ↔
      ¬ Enters env evm ∨ 0 ≤ (evm.state.facts env.db caller.self).balance ∧
        (Skipped env evm addr → env.answer p input gas = ⟨[], gas, none⟩) := by
  have hs : Good env.db evm.state := hreach.good
  by_cases hin : Enters env evm
  · have hdelegate : Answers env interpreter evm (.delegateCall caller addr input gas) (env.answer p input gas) :=
      delegateCall_answers hin hs hp
    constructor
    · rintro ⟨a, ha⟩
      have ha' : a = env.answer p input gas := (ha .delegateCall).unique hdelegate
      have hb : 0 ≤ (evm.state.facts env.db caller.self).balance := by
        by_contra hneg
        have hdebt := (ha .callCode).unique (callCode_in_debt hin hs hneg)
        rw [ha'] at hdebt
        exact answer_err_ne env p input gas (by rw [hdebt])
      refine .inr ⟨hb, fun hskip => ?_⟩
      have hcall := (ha .call).unique (call_answers hin hs hb hp)
      rw [if_pos hskip] at hcall
      rw [← ha', hcall]
    · rintro (hout | ⟨hb, hskip⟩)
      · exact absurd hin hout
      refine ⟨env.answer p input gas, fun k => ?_⟩
      cases k with
      | delegateCall => exact hdelegate
      | staticCall => exact staticCall_answers hin hs hp
      | callCode => exact callCode_answers hin hs hb hp
      | call =>
        have hcall : Answers env interpreter evm (.call caller.self addr input gas 0) _ := call_answers hin hs hb hp
        split at hcall
        · rename_i h
          rw [hskip h]
          exact hcall
        · exact hcall
  · exact ⟨fun _ => .inl hin, fun _ => ⟨_, answers_of_stopped hin⟩⟩

/-- `sampleEnv`, with the rules of YoloV1. -/
def yoloEnv : Env State.Node.sampleDigests := { sampleEnv with rules := ⟨true, true, true, true, true, true, true, true⟩ }

/-- The identity is no account, and answers every kind of call. -/
theorem precompiles_alike_identity :
    State.Node.Reachable ⟨yoloEnv.db, State.Node.sample.state⟩ ∧ yoloEnv.rules.precompiles 4 = some .dataCopy ∧
      ∃ a, ∀ k : CallKind, Answers yoloEnv (interpret yoloEnv 5000 1025) (.new State.Node.sample.state)
        (k.request (loopContract 100) 4 [1] 4000) a := by
  have hreach : State.Node.Reachable ⟨yoloEnv.db, State.Node.sample.state⟩ := .of_opened State.Node.sample_opened .nil
  refine ⟨hreach, rfl, (precompiles_alike_iff yoloEnv _ (.new State.Node.sample.state) _ 4 [1] 4000 hreach rfl).2 (.inr ?_)⟩
  refine ⟨by decide +kernel, fun h => ?_⟩
  cases h.2.1

/-- A sum of points of BLS12-381, with too short an input: `Call` returns nothing for
nothing, while the other calls run the contract and fail. -/
theorem precompile_skipped :
    yoloEnv.rules.precompiles 10 = some .bls12381G1Add ∧
      (execute yoloEnv 5000 1025 (.new State.Node.sample.state) (.call 7 10 [1] 4000 0)).Sat
        (fun r => r.answer = ⟨[], 4000, none⟩) (fun _ => False) False ∧
      ∀ k : CallKind, k ≠ .call →
        (execute yoloEnv 5000 1025 (.new State.Node.sample.state) (k.request (loopContract 100) 10 [1] 4000)).Sat
          (fun r => r.answer = ⟨[], 0, some .precompiled⟩) (fun _ => False) False := by
  refine ⟨by decide +kernel, by decide +kernel, fun k hk => ?_⟩
  cases k with
  | call => exact absurd rfl hk
  | callCode => decide +kernel
  | delegateCall => decide +kernel
  | staticCall => decide +kernel

end NdnGeth.Vm
