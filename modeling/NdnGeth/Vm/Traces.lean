/-
What is seen of a call afterwards: nothing of one that failed, and nothing of
a static call.
-/
import NdnGeth.Vm.Executions

namespace NdnGeth.Vm

open Lib (Result)
open Lib.Rlp (Bytes)
open State (Digests StateDB Getter Slot)
open State.StateDB (Warm)
open Types (Address)

variable {D : Digests} {env : Env D} {rounds levels : Nat} {evm : Evm D} {req : Request} {r : Reply D}

/-! ## Calls that failed -/

/-- The account that creates a contract. -/
def Request.creator : Request → Option Address
  | create caller _ _ _ => some caller
  | create2 caller _ _ _ _ => some caller
  | _ => none

/-- Raised before anything is done. -/
def VmError.early (e : VmError) : Bool := e == .depth || e == .insufficientBalance

/-- What is left of a request that failed: the state is as it was, but for the
nonce of the account that creates a contract, which is incremented first. -/
structure Undone (env : Env D) (evm : Evm D) (req : Request) (r : Reply D) (e : VmError) (s : StateDB D)
    (counted : Bool) : Prop where
  spent : e.early = true ∨ e = .executionReverted ∨ r.gas = 0
  warm : Warm env.db (fun _ => False) r.evm.state s
  wf : s.WF env.db
  logs : s.logs = evm.state.logs
  refund : s.refund = evm.state.refund
  fakes : ∀ a, evm.state.fakes a = none → s.fakes a = none
  facts : ∀ a, s.facts env.db a = { evm.state.facts env.db a with
    nonce := (evm.state.facts env.db a).nonce + if counted ∧ req.creator = some a then 1 else 0 }

variable {e : VmError} {gas : Nat}

theorem Undone.of_warm (hwf : evm.state.WF env.db) (hs : e.early = true ∨ e = .executionReverted ∨ r.gas = 0)
    (hw : Warm env.db (fun _ => False) r.evm.state evm.state) : Undone env evm req r e evm.state false where
  spent := hs
  warm := hw
  wf := hwf
  logs := rfl
  refund := rfl
  fakes _ := id
  facts a := by simp

theorem Outcome.spent_early {w : Watch} (h : Outcome env w evm gas r)
    (hh : env.rules.isHomestead = true) (he : r.err = some e) :
    e.early = true ∨ e = .executionReverted ∨ r.gas = 0 := by
  rcases h.spent hh (by rw [he]; nofun) with hz | hrev | hd | hb
  · exact .inr (.inr hz)
  · rw [he] at hrev; cases hrev; exact .inr (.inl rfl)
  · rw [he] at hd; cases hd; exact .inl rfl
  · rw [he] at hb; cases hb; exact .inl rfl

theorem Outcome.undone_of_call {w : Watch} (h : Outcome env w evm gas r)
    (hwf : evm.state.WF env.db) (hh : env.rules.isHomestead = true) (he : r.err = some e) :
    Undone env evm req r e evm.state false :=
  .of_warm hwf (h.spent_early hh he) (h.undone hh (by rw [he]; nofun))

theorem undone_of_create {w : Watch} {caller : Address} {t : StateDB D}
    (hwf : evm.state.WF env.db) (ht : Warm env.db (fun _ => False) t evm.state) (hh : env.rules.isHomestead = true)
    (hc : req.creator = some caller) (he : r.err = some e)
    (h : ((r.err = some .depth ∨ r.err = some .insufficientBalance) ∧ Warm env.db (fun _ => False) r.evm.state t) ∨
      ∃ s, Warm env.db (fun _ => False) s t ∧
        Outcome env w { evm with state := s.setNonce caller ((s.facts env.db caller).nonce + 1) } gas r) :
    ∃ s counted, Undone env evm req r e s counted := by
  rcases h with ⟨hearly, hw⟩ | ⟨s, hst, hout⟩
  · refine ⟨_, _, .of_warm hwf (.inl ?_) (hw.trans ht)⟩
    rcases hearly with h | h
    · rw [he] at h; cases h; rfl
    · rw [he] at h; cases h; rfl
  · have hs := hst.trans ht
    have hswf := hs.wf hwf
    obtain ⟨hlogs, hrefund⟩ := hswf.setNonce_logs caller ((s.facts env.db caller).nonce + 1)
    refine ⟨_, true, hout.spent_early hh he, hout.undone hh (by rw [he]; nofun),
      (hswf.setNonce (A := fun _ => False) caller _).wf hswf, hlogs.trans hs.logs, hrefund.trans hs.refund,
      fun a ha => ?_, fun a => ?_⟩
    · rw [hswf.setNonce_fakes]
      exact hs.fakes_none id ha
    · rw [hswf.setNonce_facts, hs.facts, hc]
      by_cases ha : a = caller
      · subst ha
        simp
      · simp [Function.update_of_ne ha, Ne.symm ha]

theorem execute_undone (h : Enough env rounds levels evm req.gas) (hh : env.rules.isHomestead = true)
    (hr : execute env rounds levels evm req = .ok r) (he : r.err = some e) :
    ∃ s counted, Undone env evm req r e s counted := by
  have hwf := h.guard.good.wf
  have hrun (hle : evm.depth ≤ Params.callCreateDepth) :
      RunnerOk env .any (run env (interpret env rounds levels)) evm.depth rounds :=
    run_interpret_ok env .any rounds h.deep hle
  cases req with
  | call caller addr input gas value =>
    exact ⟨_, _, ((call_sat hrun h.guard h.fits h.lasts .any nofun nofun).of_ok hr).undone_of_call hwf hh he⟩
  | callCode caller addr input gas value =>
    exact ⟨_, _, ((callCode_sat hrun h.guard h.fits h.lasts .any id).of_ok hr).undone_of_call hwf hh he⟩
  | delegateCall caller addr input gas =>
    exact ⟨_, _, ((delegateCall_sat hrun h.guard h.fits h.lasts .any id).of_ok hr).undone_of_call hwf hh he⟩
  | staticCall caller addr input gas =>
    exact ⟨_, _, ((staticCall_sat hrun h.guard h.fits h.lasts .any).of_ok hr).undone_of_call hwf hh he⟩
  | create caller code gas value =>
    have hget := (hwf.get_warm (.nonce caller)).1
    have heff : Effect env .any evm.state (evm.state.getNonce caller).2 0 := Effect.refl.get (.nonce caller)
    have hc := (create_sat { evm with state := (evm.state.getNonce caller).2 } rfl hrun .any
      (heff.guard h.guard) id h.fits h.lasts).of_ok hr
    exact undone_of_create hwf hget hh rfl he hc.2
  | create2 caller code gas endowment salt =>
    have hc := (create_sat evm rfl hrun .any h.guard id h.fits h.lasts).of_ok hr
    exact undone_of_create hwf (.refl _) hh rfl he hc.2

/-- A frame that failed leaves no trace, and gas never grows. The storage of an
account is as before only where none was set for debugging, or what was set is as
before. -/
theorem failed_call_leaves_no_trace (h : Enough env rounds levels evm req.gas) (hh : env.rules.isHomestead = true)
    (hr : execute env rounds levels evm req = .ok r) :
    r.gas ≤ req.gas ∧
    ∀ e, r.err = some e →
      (e.early = true ∨ e = .executionReverted ∨ r.gas = 0) ∧ r.evm.state.logs = evm.state.logs ∧
      r.evm.state.refund = evm.state.refund ∧
      ∃ counted : Bool, ∀ a,
        (r.evm.state.get env.db (.balance a)).1 = (evm.state.get env.db (.balance a)).1 ∧
        (r.evm.state.getNonce a).1 = (evm.state.getNonce a).1 + (if counted ∧ req.creator = some a then 1 else 0) ∧
        (r.evm.state.get env.db (.code a)).1 = (evm.state.get env.db (.code a)).1 ∧
        (r.evm.state.get env.db (.suicided a)).1 = (evm.state.get env.db (.suicided a)).1 ∧
        (evm.state.NoFake a ∨ r.evm.state.fakes a = evm.state.fakes a → ∀ key,
          (r.evm.state.get env.db (.state a key)).1 = (evm.state.get env.db (.state a key)).1 ∧
          (r.evm.state.get env.db (.committedState a key)).1 = (evm.state.get env.db (.committedState a key)).1) := by
  have hwf := h.guard.good.wf
  have hcalls : CallsOk env .any (execute env rounds levels) evm.depth rounds False :=
    perform_ok (run_interpret_ok env .any rounds h.deep)
  refine ⟨((hcalls evm req rfl .any h.guard req.fit_any h.fits h.lasts).of_ok hr).gas, fun e he => ?_⟩
  obtain ⟨s, counted, hu⟩ := execute_undone h hh hr he
  have hrwf := hu.warm.wf hu.wf
  refine ⟨hu.spent, hu.warm.logs.trans hu.logs, hu.warm.refund.trans hu.refund, counted, fun a => ?_⟩
  have hf : r.evm.state.facts env.db a = { evm.state.facts env.db a with
      nonce := (evm.state.facts env.db a).nonce + if counted ∧ req.creator = some a then 1 else 0 } := by
    rw [hu.warm.facts]
    exact hu.facts a
  simp only [hrwf.get_view, hwf.get_view, StateDB.view_balance, StateDB.view_code, StateDB.view_suicided,
    StateDB.view_state, StateDB.view_committedState, hrwf.getNonce_eq, hwf.getNonce_eq, hf, true_and]
  intro hno key
  have hsame : r.evm.state.fakes a = evm.state.fakes a := by
    rcases hno with hno | hsame
    · have hnone : evm.state.fakes a = none := by
        rw [StateDB.fakes]
        cases hl : evm.state.live a with
        | none => rfl
        | some o => exact hno o (StateDB.live_eq_some.1 hl).1
      rw [hnone]
      exact hu.warm.fakes_none id (hu.fakes a hnone)
    · exact hsame
  rw [hsame]
  exact ⟨rfl, rfl⟩

/-- A contract that is called in the examples. -/
def contractAt (code : Bytes) : State.Node State.Node.sampleDigests :=
  ⟨State.Node.sample.db, State.Node.sample.state.setCode State.Node.sample.db 100 code⟩

theorem contractAt_reachable (code : Bytes) : State.Node.Reachable (contractAt code) := by
  have hrun : Lib.Run State.Node.step State.Node.Env State.Node.sample [.mutation (.setCode 100 code)] (contractAt code) :=
    .cons trivial rfl .nil
  exact .of_opened State.Node.sample_opened hrun

/-- `SSTORE(0, 1)`, `INVALID`. -/
def storeThenFail : Bytes := [0x60, 1, 0x60, 0, 0x55, 0xfe]

theorem failed_call_leaves_no_trace_sstore :
    ∃ r, execute sampleEnv 30001 1025 (.new (contractAt storeThenFail).state) (.call 1 100 [] 30000 0) = .ok r ∧
      r.err = some (.invalidOpCode 0xfe) ∧
      (r.evm.state.get sampleEnv.db (.state 100 0)).1 = ((contractAt storeThenFail).state.get sampleEnv.db (.state 100 0)).1 := by
  obtain ⟨r, hr, he⟩ : ∃ r, execute sampleEnv 30001 1025 (.new (contractAt storeThenFail).state) (.call 1 100 [] 30000 0) =
      .ok r ∧ r.err = some (.invalidOpCode 0xfe) := ⟨_, rfl, rfl⟩
  have henough : Enough sampleEnv 30001 1025 (.new (contractAt storeThenFail).state) (Request.call 1 100 [] 30000 0).gas :=
    ⟨contractAt_reachable _, by decide, by decide, by decide⟩
  obtain ⟨-, -, -, counted, hback⟩ := (failed_call_leaves_no_trace henough rfl hr).2 _ he
  exact ⟨r, hr, he, ((hback 100).2.2.2.2 (.inl fun o ho => by cases ho; rfl) 0).1⟩

/-- The account has storage set for debugging. -/
def debugged : State.Node State.Node.sampleDigests :=
  ⟨State.Node.sample.db, (contractAt storeThenFail).state.setStorage 100 fun _ => none⟩

/-- The write to the storage set for debugging stays after the frame has failed. -/
theorem failed_call_leaves_fakeStorage :
    State.Node.Reachable debugged ∧ (debugged.state.get debugged.db (.state 100 0)).1 = .value 0 ∧
      (execute sampleEnv 30001 1025 (.new debugged.state) (.call 1 100 [] 30000 0)).Sat
        (fun r => r.err = some (.invalidOpCode 0xfe) ∧ (r.evm.state.get debugged.db (.state 100 0)).1 = .value 1)
        (fun _ => False) False := by
  have hrun : Lib.Run State.Node.step State.Node.Env State.Node.sample
      [.mutation (.setCode 100 storeThenFail), .mutation (.setStorage 100 fun _ => none)] debugged :=
    .cons trivial rfl (.cons trivial rfl .nil)
  exact ⟨.of_opened State.Node.sample_opened hrun, by decide +kernel, by decide +kernel⟩

/-! ## Static calls -/

/-- Executions in read-only mode. -/
def Watch.readOnly : Watch := ⟨true, fun _ => False, False⟩

theorem contractAt_leftover (code : Bytes) (a : Address) : (contractAt code).state.leftover a = 0 :=
  (State.Node.sample_opened.good.wf.setCode (A := fun _ => False) 100 code).leftover rfl

/-- A call of account 7, a precompiled contract, with no value. -/
def callSeven : Bytes := [0x60, 0, 0x60, 0, 0x60, 0, 0x60, 0, 0x60, 0, 0x60, 7, 0x61, 0x20, 0, 0xf1]

def graveyard : State.Node State.Node.sampleDigests :=
  ⟨State.Node.buried.db, State.Node.buried.state.setCode State.Node.buried.db 100 callSeven⟩

end NdnGeth.Vm
