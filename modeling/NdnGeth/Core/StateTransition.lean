/-
State transitions (`core/state_transition.go`, `core/gaspool.go`).

Gas is bought up front for the message, spent by its intrinsic cost and by the
execution, and partly given back. `transition_conserves` follows each wei and
each unit of gas through this.
-/
import NdnGeth.Vm.Sent
import NdnGeth.Vm.Traces
import NdnGeth.TxPool.Pool

namespace NdnGeth.Core

open Function
open Lib (Result)
open Lib.Rlp (Bytes)
open State (Digests StateDB)
open State.StateDB (Steps Warm)
open Types (Address)
open Vm

variable {D : Digests}

/-! ## The model -/

/-- `Message`. The value and the gas price are not negative; without a recipient
(`To`), a contract is created. -/
structure Message where
  sender : Address
  recipient : Option Address
  gasPrice : Nat
  gas : Nat
  value : Nat
  nonce : BitVec 64
  checkNonce : Bool
  data : Bytes

/-- The errors for which a message is not applied. -/
inductive TxError
  | nonceTooHigh | nonceTooLow | insufficientFunds | gasLimitReached | gasUintOverflow | intrinsicGas
  | insufficientFundsForTransfer
  deriving DecidableEq

structure ExecutionResult where
  usedGas : Nat
  err : Option VmError
  returnData : Bytes

/-- `StateTransition`, with the gas pool, and the state in the machine. -/
structure StateTransition (D : Digests) where
  gp : Nat
  gas : Nat
  initialGas : Nat
  evm : Evm D

namespace StateTransition

def new (evm : Evm D) (gp : Nat) : StateTransition D := ⟨gp, 0, 0, evm⟩

def setState (st : StateTransition D) (s : StateDB D) : StateTransition D := { st with evm := { st.evm with state := s } }

def state (st : StateTransition D) : StateDB D := st.evm.state

def buyGas (msg : Message) (st : StateTransition D) : StateTransition D × Option TxError :=
  let mgval := msg.gas * msg.gasPrice
  let (balance, s) := st.state.getBalance msg.sender
  let st := st.setState s
  if balance < mgval then (st, some .insufficientFunds)
  else if st.gp < msg.gas then (st, some .gasLimitReached)
  else ({ st.setState (s.subBalance msg.sender mgval) with
    gp := st.gp - msg.gas
    gas := add64 st.gas msg.gas
    initialGas := msg.gas }, none)

def preCheck (msg : Message) (st : StateTransition D) : StateTransition D × Option TxError :=
  if msg.checkNonce then
    let (nonce, s) := st.state.getNonce msg.sender
    let st := st.setState s
    if nonce.toNat < msg.nonce.toNat then (st, some .nonceTooHigh)
    else if nonce.toNat > msg.nonce.toNat then (st, some .nonceTooLow)
    else st.buyGas msg
  else st.buyGas msg

def gasUsed (st : StateTransition D) : Nat := sub64 st.initialGas st.gas

def refundGas (msg : Message) (st : StateTransition D) : Result Panic (StateTransition D) :=
  let refund := st.gasUsed / 2
  let refund := if refund > st.state.refund.toNat then st.state.refund.toNat else refund
  let st := { st with gas := add64 st.gas refund }
  let st := st.setState (st.state.addBalance msg.sender (st.gas * msg.gasPrice : Nat))
  if st.gp > two64 - 1 - st.gas then .fault .gasPool
  else .ok { st with gp := st.gp + st.gas }

/-- The message is run: a contract is created or called. -/
def apply (env : Env D) (rounds levels : Nat) (msg : Message) (st : StateTransition D) : Result Panic (Reply D) :=
  match msg.recipient with
  | none => execute env rounds levels st.evm (.create msg.sender msg.data st.gas msg.value)
  | some addr =>
    let (nonce, s) := st.state.getNonce msg.sender
    execute env rounds levels (st.setState (s.setNonce msg.sender (nonce + 1))).evm
      (.call msg.sender addr msg.data st.gas msg.value)

/-- The end of `TransitionDb`: the gas that is left is returned, and the fee paid. -/
def settle (env : Env D) (msg : Message) (st : StateTransition D) (r : Reply D) :
    Result Panic (StateTransition D × ExecutionResult) := do
  let st ← refundGas msg { st with gas := r.gas, evm := r.evm }
  let st := st.setState (st.state.addBalance env.ctx.coinbase (st.gasUsed * msg.gasPrice : Nat))
  return (st, ⟨st.gasUsed, r.err, r.ret⟩)

/-- The checks of `TransitionDb`, and the gas that is paid in advance. -/
def prepare (env : Env D) (msg : Message) (st : StateTransition D) : StateTransition D × Option TxError :=
  match st.preCheck msg with
  | (st, some err) => (st, some err)
  | (st, none) =>
    match intrinsicGas msg.data msg.recipient.isNone env.rules.isHomestead env.rules.isIstanbul with
    | none => (st, some .gasUintOverflow)
    | some gas =>
      if st.gas < gas then (st, some .intrinsicGas)
      else
        let st := { st with gas := st.gas - gas }
        if msg.value > 0 then
          let (can, s) := canTransfer st.state msg.sender msg.value
          (st.setState s, if can then none else some .insufficientFundsForTransfer)
        else (st, none)

def transitionDb (env : Env D) (rounds levels : Nat) (msg : Message) (st : StateTransition D) :
    Result Panic (StateTransition D × Except TxError ExecutionResult) :=
  match st.prepare env msg with
  | (st, some err) => .ok (st, .error err)
  | (st, none) => do
    let r ← st.apply env rounds levels msg
    let (st, result) ← st.settle env msg r
    return (st, .ok result)

variable {env : Env D} {msg : Message} {st st' : StateTransition D} {rounds levels : Nat}

/-! ## The gas is bought -/

structure Bought (env : Env D) (msg : Message) (st st' : StateTransition D) : Prop where
  pool : st'.gp + msg.gas = st.gp
  gas : st'.gas ≤ msg.gas
  initialGas : st'.initialGas = msg.gas
  evm : st'.evm = { st.evm with state := st'.state }
  steps : Steps env.db (fun _ => False) st.state st'.state
  facts : st'.state.facts env.db = update (st.state.facts env.db) msg.sender
    { st.state.facts env.db msg.sender with
      balance := (st.state.facts env.db msg.sender).balance - (msg.gas * msg.gasPrice : Nat) }
  paid : ((msg.gas * msg.gasPrice : Nat) : Int) ≤ (st.state.facts env.db msg.sender).balance

structure Same (env : Env D) (st st' : StateTransition D) : Prop where
  gp : st'.gp = st.gp
  facts : st'.state.facts env.db = st.state.facts env.db

/-- What `preCheck` does: it buys the gas, or it fails and changes nothing. -/
inductive Checked (env : Env D) (msg : Message) (st st' : StateTransition D) : Option TxError → Prop
  | bought : Bought env msg st st' → Checked env msg st st' none
  | refused {err : TxError} : Same env st st' → Checked env msg st st' (some err)

section

variable {err : Option TxError} (hwf : st.state.WF env.db) (hz : st.gas = 0) (hg : msg.gas < two64)
include hwf hz hg

theorem buyGas_spec (h : st.buyGas msg = (st', err)) : Checked env msg st st' err := by
  obtain ⟨⟨balance, s⟩, hget⟩ : ∃ p, st.state.getBalance msg.sender = p := ⟨_, rfl⟩
  have hs : (st.state.get env.db (.balance msg.sender)).2 = s := congrArg Prod.snd hget
  have hb : balance = (st.state.facts env.db msg.sender).balance := by rw [← hwf.getBalance_eq, hget]
  have hsteps : Steps env.db (fun _ => False) st.state s := by
    rw [← show (st.state.getBalance msg.sender).2 = s from hs]
    exact (hwf.getBalance msg.sender).2
  have hfacts : s.facts env.db = st.state.facts env.db := hs ▸ (hwf.get_warm (.balance msg.sender)).1.facts
  have hwf' := hsteps.wf hwf
  unfold buyGas at h
  simp only [hget] at h
  split at h
  · cases h
    exact .refused ⟨rfl, hfacts⟩
  rename_i hlt
  split at h
  · cases h
    exact .refused ⟨rfl, hfacts⟩
  rename_i hpool
  replace hpool : ¬ st.gp < msg.gas := hpool
  cases h
  refine .bought ⟨?_, ?_, rfl, rfl, hsteps.trans (hwf'.subBalance _ _), ?_, by omega⟩
  · show st.gp - msg.gas + msg.gas = st.gp
    omega
  · show add64 st.gas msg.gas ≤ msg.gas
    rw [hz, add64_of_lt (by omega), Nat.zero_add]
  · rw [← hfacts]
    exact hwf'.subBalance_facts _ _

theorem preCheck_spec (h : st.preCheck msg = (st', err)) : Checked env msg st st' err := by
  unfold preCheck at h
  split at h
  · obtain ⟨⟨nonce, s⟩, hget⟩ : ∃ p, st.state.getNonce msg.sender = p := ⟨_, rfl⟩
    have hs : (st.state.get env.db (.nonce msg.sender)).2 = s := congrArg Prod.snd hget
    have hsteps : Steps env.db (fun _ => False) st.state s := by
      rw [← show (st.state.getNonce msg.sender).2 = s from hs]
      exact (hwf.getNonce msg.sender).2
    have hfacts : (st.setState s).state.facts env.db = st.state.facts env.db :=
      hs ▸ (hwf.get_warm (.nonce msg.sender)).1.facts
    simp only [hget] at h
    split at h
    · cases h
      exact .refused ⟨rfl, hfacts⟩
    split at h
    · cases h
      exact .refused ⟨rfl, hfacts⟩
    have hwf' : (st.setState s).state.WF env.db := hsteps.wf hwf
    have hz' : (st.setState s).gas = 0 := hz
    cases buyGas_spec hwf' hz' hg h with
    | bought hb =>
      obtain ⟨h1, h2, h3, h4, h5, h6, h7⟩ := hb
      rw [hfacts] at h6 h7
      exact .bought ⟨h1, h2, h3, h4, hsteps.trans h5, h6, h7⟩
    | refused hsame => exact .refused ⟨hsame.gp, hsame.facts.trans hfacts⟩
  · exact buyGas_spec hwf hz hg h

end

/-- What the checks leave: the gas is bought, the intrinsic gas is spent, and the
sender has the value. -/
structure Prepared (env : Env D) (msg : Message) (st st' : StateTransition D) : Prop extends Bought env msg st st' where
  value : (msg.value : Int) ≤ (st'.state.facts env.db msg.sender).balance

theorem prepare_spec (hwf : st.state.WF env.db) (hz : st.gas = 0) (hg : msg.gas < two64)
    (h : st.prepare env msg = (st', none)) : Prepared env msg st st' := by
  obtain ⟨⟨st₁, err⟩, hpre⟩ : ∃ p, st.preCheck msg = p := ⟨_, rfl⟩
  unfold prepare at h
  rw [hpre] at h
  cases err with
  | some err => cases h
  | none =>
    obtain ⟨hb⟩ := preCheck_spec hwf hz hg hpre
    have hwf₁ := hb.steps.wf hwf
    have hpaid := hb.paid
    simp only at h
    split at h
    · cases h
    rename_i intrinsic _
    split at h
    · cases h
    split at h
    · have hcan : canTransfer ({ st₁ with gas := st₁.gas - intrinsic } : StateTransition D).state msg.sender msg.value = _ :=
        canTransfer_eq hwf₁ _ _
      rw [hcan] at h
      simp only [Prod.mk.injEq] at h
      obtain ⟨rfl, hcan⟩ := h
      have hwarm := (hwf₁.get_warm (.balance msg.sender)).1
      have hsteps : Steps env.db (fun _ => False) st₁.state (st₁.state.get env.db (.balance msg.sender)).2 :=
        (hwf₁.getBalance msg.sender).2
      refine ⟨⟨hb.pool, (Nat.sub_le _ _).trans hb.gas, hb.initialGas, ?_, hb.steps.trans hsteps,
        hwarm.facts.trans hb.facts, hpaid⟩, ?_⟩
      · show ({ st₁.evm with state := _ } : Evm D) = _
        rw [hb.evm]
        rfl
      · show _ ≤ ((st₁.state.get env.db (.balance msg.sender)).2.facts env.db msg.sender).balance
        rw [hwarm.facts]
        simpa using hcan
    · rename_i hle
      cases h
      refine ⟨⟨hb.pool, (Nat.sub_le _ _).trans hb.gas, hb.initialGas, hb.evm, hb.steps, hb.facts, hpaid⟩, ?_⟩
      show _ ≤ (st₁.state.facts env.db msg.sender).balance
      rw [hb.facts, update_self]
      show _ ≤ _ - _
      omega

/-! ## The message is run -/

/-- An account without code, whose nonce does not wrap around: it runs no code in
a transaction that it sends. -/
def Plain (env : Env D) (s : StateDB D) (a : Address) : Prop :=
  (s.facts env.db a).code = [] ∧ (s.facts env.db a).nonce + 1 ≠ 0

/-- Where the sender has no code. -/
def senderWatch (env : Env D) (msg : Message) (s : StateDB D) : Watch :=
  ⟨false, fun a => a = msg.sender ∧ Plain env s a, True⟩

theorem incremented (msg : Message) {s t : StateDB D} (hs : s.Good env.db) (hst : Effect env .any s t 0)
    (hfacts : t.facts env.db = s.facts env.db) :
    Effect env .any s (t.setNonce msg.sender ((t.facts env.db msg.sender).nonce + 1)) 0 ∧ Guard env (senderWatch env msg s) (t.setNonce msg.sender ((t.facts env.db msg.sender).nonce + 1)) ∧
      (t.setNonce msg.sender ((t.facts env.db msg.sender).nonce + 1)).facts env.db =
        update (s.facts env.db) msg.sender
          { s.facts env.db msg.sender with nonce := (s.facts env.db msg.sender).nonce + 1 } := by
  have heff : Effect env .any s (t.setNonce msg.sender ((t.facts env.db msg.sender).nonce + 1)) 0 :=
    hst.mutate (m := .setNonce msg.sender _) ⟨rfl, id⟩ rfl
  have hset := (hst.good hs).wf.setNonce_facts msg.sender ((t.facts env.db msg.sender).nonce + 1)
  rw [hfacts] at hset heff ⊢
  refine ⟨heff, ⟨heff.good hs, ?_⟩, hset⟩
  rintro a ⟨rfl, hcode, hnonce⟩
  rw [hset, update_self]
  exact ⟨hnonce, hcode⟩

/-- What a message leaves: `s₁` is the state with the nonce of the sender
incremented. -/
structure Applied (env : Env D) (msg : Message) (st : StateTransition D) (r : Reply D) (addr : Address) (s₁ : StateDB D) :
    Prop where
  effect : Effect env .any st.state s₁ 0
  guard : Guard env (senderWatch env msg st.state) s₁
  facts : s₁.facts env.db = update (st.state.facts env.db) msg.sender
    { st.state.facts env.db msg.sender with nonce := (st.state.facts env.db msg.sender).nonce + 1 }
  sent : Sent env (senderWatch env msg st.state) msg.sender addr st.gas msg.value { st.evm with state := s₁ } r

theorem apply_sat (msg : Message) (hs : st.state.Good env.db) (hd : st.evm.depth = 0)
    (hdeep : Params.callCreateDepth < levels) (hv : (msg.value : Int) ≤ (st.state.facts env.db msg.sender).balance)
    (hg : st.gas < two64) (hr : st.gas < rounds) :
    (st.apply env rounds levels msg).Sat (fun r => ∃ addr s₁, Applied env msg st r addr s₁) (· = .refund)
      False := by
  have hrun : RunnerOk env (senderWatch env msg st.state) (Vm.run env (interpret env rounds levels)) st.evm.depth rounds :=
    run_interpret_ok env _ rounds (by omega) (by rw [hd]; exact Nat.zero_le _)
  obtain ⟨⟨nonce, s⟩, hget⟩ : ∃ p, st.state.getNonce msg.sender = p := ⟨_, rfl⟩
  have hs' : (st.state.get env.db (.nonce msg.sender)).2 = s := congrArg Prod.snd hget
  have heff : Effect env .any st.state s 0 := hs' ▸ Effect.refl.get (.nonce msg.sender)
  have hfacts : s.facts env.db = st.state.facts env.db := hs' ▸ (hs.wf.get_warm (.nonce msg.sender)).1.facts
  have hnonce : nonce = (s.facts env.db msg.sender).nonce := by rw [hfacts, ← hs.wf.getNonce_eq, hget]
  have hsg := heff.good hs
  unfold apply
  split
  · -- a contract is created
    show (match st.state.getNonce msg.sender with
      | (nonce, s) => create env (Vm.run env (interpret env rounds levels)) { st.evm with state := s } msg.sender msg.data
        st.gas msg.value (env.createAddress msg.sender nonce)).Sat _ _ _
    rw [hget]
    rcases create_cases (Vm.run env (interpret env rounds levels)) { st.evm with state := s } msg.sender
        (env.createAddress msg.sender nonce) msg.data st.gas msg.value hsg.wf with ⟨hno, -⟩ | ⟨-, -, t, htw, hte, hcreate⟩
    · refine absurd ⟨?_, ?_⟩ hno
      · show st.evm.depth ≤ _
        omega
      · rw [← hfacts] at hv
        exact hv
    obtain ⟨hinc, hguard, hset⟩ := incremented msg hs (heff.trans (hte .any)) (htw.facts.trans hfacts)
    simp only
    rw [hcreate]
    have hv' : (msg.value : Int) ≤
        ((t.setNonce msg.sender ((t.facts env.db msg.sender).nonce + 1)).facts env.db msg.sender).balance := by
      rw [hset, update_self]
      exact hv
    exact (createAt_sent { st.evm with state := t.setNonce msg.sender ((t.facts env.db msg.sender).nonce + 1) } hd hrun
      hguard rfl hv' hg hr).mono fun r hsent => ⟨_, _, hinc, hguard, hset, hsent⟩
  · rename_i addr _
    obtain ⟨hinc, hguard, hset⟩ := incremented msg hs heff hfacts
    rw [hget]
    simp only
    rw [hnonce]
    exact (call_sent { st.evm with state := s.setNonce msg.sender ((s.facts env.db msg.sender).nonce + 1) } hd hrun hguard
      rfl hg hr).mono fun r hsent => ⟨addr, _, hinc, hguard, hset, hsent⟩

/-- What is moved in an execution from `s` to `v`: the sender sends `moved` to
`addr`, and what the accounts receive is that without what is destroyed. -/
structure Flow (env : Env D) (msg : Message) (s v : StateDB D) (err : Option VmError) (addr : Address) (moved : Nat)
    (received : Address → Int) (destroyed : Int) : Prop where
  balance : ∀ x, (v.facts env.db x).balance = (s.facts env.db x).balance + received x -
    if x = msg.sender then (moved : Int) else 0
  sum : ∑ x, received x + destroyed = moved
  /-- Only by self-destructions is ether lost: nothing until the value is moved, and
  then what the code destroys that is run. -/
  lost : 0 ≤ destroyed ∧ ∃ u, Effect env .any s u 0 ∧ Effect env .any u v destroyed ∧
    ∀ x, (u.facts env.db x).balance = (s.facts env.db x).balance + (if x = addr then (moved : Int) else 0) -
      if x = msg.sender then (moved : Int) else 0
  succeeded : err = none → moved = msg.value
  failed : env.rules.isHomestead = true → err ≠ none → moved = 0 ∧ destroyed = 0 ∧ ∀ x, received x = 0
  sender : Plain env s msg.sender →
    0 ≤ received msg.sender ∧ (v.facts env.db msg.sender).nonce = (s.facts env.db msg.sender).nonce + 1

theorem Applied.flow {r : Reply D} {addr : Address} {s₁ : StateDB D} (h : Applied env msg st r addr s₁)
    (hs : st.state.Good env.db) (hb : Solvent env.db st.state)
    (hv : (msg.value : Int) ≤ (st.state.facts env.db msg.sender).balance) (hk : ∀ x, Remains st.state r.evm.state x) :
    ∃ moved received destroyed, Flow env msg st.state r.evm.state r.err addr moved received destroyed := by
  have hk₁ (x : Address) := h.effect.remains_right hs (hk x)
  have hs₁ (x : Address) : (s₁.facts env.db x).balance = (st.state.facts env.db x).balance := by
    rw [h.facts]
    by_cases hx : x = msg.sender
    · subst hx; rw [update_self]
    · rw [update_of_ne hx]
  have hnonce (hp : Plain env st.state msg.sender) :
      (r.evm.state.facts env.db msg.sender).nonce = (st.state.facts env.db msg.sender).nonce + 1 := by
    obtain ⟨d, heff⟩ := h.sent.effect
    have hidle : (senderWatch env msg st.state).lax.idle msg.sender := ⟨rfl, hp⟩
    rw [(heff.idle h.guard.good hidle (h.guard.idle _ hidle).1).1, h.facts, update_self]
  rcases h.sent.sent with ⟨herr, hw⟩ | ⟨herr, u, d, hu, hsu, hmoved, heff⟩
  · -- nothing is left of it
    have hback (x : Address) : (r.evm.state.facts env.db x).balance = (st.state.facts env.db x).balance := by
      rw [hw.facts]
      exact hs₁ x
    obtain ⟨d, heff⟩ := h.sent.effect
    have hd : d = 0 := by
      have hsum := (heff.total h.guard.good hk₁ fun x => (hs₁ x).symm ▸ hb x).1
      rw [total_of_balance fun x => (hback x).trans (hs₁ x).symm] at hsum
      exact add_eq_left.1 hsum
    subst hd
    refine ⟨0, fun _ => 0, 0, ⟨fun x => ?_, ?_, ⟨le_refl _, s₁, h.effect, heff.weaken (Watch.any_weaker rfl), fun x => ?_⟩,
      fun h => absurd h herr, fun _ _ => ⟨rfl, rfl, fun _ => rfl⟩, fun hp => ⟨le_refl _, hnonce hp⟩⟩⟩
    · rw [hback]
      split <;> omega
    · rw [Finset.sum_const_zero]
      rfl
    · rw [hs₁]
      split <;> split <;> omega
  · replace hmoved (x : Address) := (hmoved x (heff.remains_left hu.good (hk₁ x))).trans (by rw [hs₁])
    have hsol : Solvent env.db u := by
      intro x
      rw [hmoved]
      have := hb x
      by_cases hx : x = msg.sender
      · subst hx
        split <;> simp only [if_true] <;> omega
      · rw [if_neg hx]
        split <;> omega
    have hku (x : Address) := hsu.remains_right h.guard.good (hk₁ x)
    obtain ⟨htotal, hd, -⟩ := heff.total hu.good hku hsol
    refine ⟨msg.value, fun x => (r.evm.state.facts env.db x).balance - (u.facts env.db x).balance +
      if x = addr then (msg.value : Int) else 0, d, ⟨fun x => ?_, ?_, ⟨hd, u, h.effect.trans (hsu.weaken (Watch.any_weaker rfl)),
        heff.weaken (Watch.any_weaker rfl), hmoved⟩, fun _ => rfl, fun hh he => ?_, fun hp => ⟨?_, hnonce hp⟩⟩⟩
    · rw [hmoved]
      split <;> split <;> omega
    · rw [Finset.sum_add_distrib, Finset.sum_sub_distrib, Finset.sum_ite_eq', if_pos (Finset.mem_univ addr)]
      unfold total at htotal
      omega
    · rcases herr with h | h
      · exact absurd h he
      · rw [hh] at h; cases h
    · have hlose := heff.frugal hu.good trivial hku hsol ⟨rfl, hp⟩
      split <;> omega

/-! ## The rest is returned -/

structure Settled (env : Env D) (msg : Message) (st : StateTransition D) (r : Reply D) (st' : StateTransition D)
    (result : ExecutionResult) : Prop where
  used : result.usedGas + min ((msg.gas - r.gas) / 2) r.evm.state.refund.toNat = msg.gas - r.gas
  pool : st'.gp + result.usedGas = st.gp + msg.gas
  err : result.err = r.err
  balance : ∀ x, (st'.state.facts env.db x).balance = (r.evm.state.facts env.db x).balance +
    (if x = msg.sender then (((msg.gas - result.usedGas) * msg.gasPrice : Nat) : Int) else 0) +
    if x = env.ctx.coinbase then ((result.usedGas * msg.gasPrice : Nat) : Int) else 0
  nonce : ∀ x, (st'.state.facts env.db x).nonce = (r.evm.state.facts env.db x).nonce
  leftover : ∀ x, r.evm.state.leftover x = 0 → st'.state.leftover x = 0

theorem addBalance_apply {s : StateDB D} (hs : s.WF env.db) (a x : Address) (v : Int) :
    ((s.addBalance a v).facts env.db x).balance = (s.facts env.db x).balance + (if x = a then v else 0) ∧
      ((s.addBalance a v).facts env.db x).nonce = (s.facts env.db x).nonce := by
  rw [hs.addBalance_facts]
  by_cases hx : x = a
  · subst hx
    simp
  · simp [hx]

theorem settle_sat {r : Reply D} {E : Panic → Prop} {F : Prop} (hwf : r.evm.state.WF env.db) (hi : st.initialGas = msg.gas)
    (hr : r.gas ≤ msg.gas) (hg : msg.gas < two64) (hgp : st.gp + msg.gas < two64) :
    (st.settle env msg r).Sat (fun p => Settled env msg st r p.1 p.2) E F := by
  -- the gas before and after the refund
  obtain ⟨refund, hrefund⟩ : ∃ n, n = min ((msg.gas - r.gas) / 2) r.evm.state.refund.toNat := ⟨_, rfl⟩
  have hused : sub64 st.initialGas r.gas = msg.gas - r.gas := by rw [hi]; exact sub64_of_le hr hg
  have hmin : (if (msg.gas - r.gas) / 2 > r.evm.state.refund.toNat then r.evm.state.refund.toNat
      else (msg.gas - r.gas) / 2) = refund := by
    rw [hrefund]
    split <;> omega
  have hadd : add64 r.gas refund = r.gas + refund := add64_of_lt (by omega)
  have hleft : sub64 st.initialGas (r.gas + refund) = msg.gas - (r.gas + refund) := by
    rw [hi]; exact sub64_of_le (by omega) hg
  unfold settle refundGas
  simp only [gasUsed, state, setState, hused, hmin, hadd]
  rw [if_neg (by omega)]
  have hadd₁ := hwf.addBalance (A := fun _ => False) msg.sender (((r.gas + refund) * msg.gasPrice : Nat) : Int)
  simp only [Result.ok_bind, hleft]
  refine ⟨?_, ?_, rfl, fun x => ?_, fun x => ?_, fun x hx => ?_⟩
  · rw [← hrefund]
    show msg.gas - (r.gas + refund) + refund = _
    omega
  · show st.gp + (r.gas + refund) + (msg.gas - (r.gas + refund)) = _
    omega
  · show ((StateDB.addBalance _ _ _).facts env.db x).balance = _
    rw [(addBalance_apply (hadd₁.wf hwf) _ x _).1, (addBalance_apply hwf _ x _).1]
    have : msg.gas - (msg.gas - (r.gas + refund)) = r.gas + refund := by omega
    rw [this]
  · show ((StateDB.addBalance _ _ _).facts env.db x).nonce = _
    rw [(addBalance_apply (hadd₁.wf hwf) _ x _).2, (addBalance_apply hwf _ x _).2]
  · exact (hadd₁.trans ((hadd₁.wf hwf).addBalance _ _)).leftover hx

/-! ## Conservation -/

/-- Where the ether and the gas of a message go, from the state `s` before it. The
gas is bought in `st₁`, and the message is run from there and leaves `r`. -/
structure Conserved (env : Env D) (rounds levels : Nat) (msg : Message) (s : StateDB D) (gp : Nat)
    (st₁ : StateTransition D) (r : Reply D) (st : StateTransition D) (result : ExecutionResult) : Prop where
  prepared : prepare env msg (.new (.new s) gp) = (st₁, none)
  applied : st₁.apply env rounds levels msg = .ok r
  gas : result.usedGas ≤ msg.gas
  pool : st.gp + result.usedGas = gp
  /-- The refund is at most half of what the execution has consumed. -/
  refund : r.gas ≤ msg.gas ∧ result.usedGas + min ((msg.gas - r.gas) / 2) r.evm.state.refund.toNat = msg.gas - r.gas
  /-- The coinbase receives the fee. The sender pays it, and what it moves. Ether is
  lost only in the run (`Flow.lost`). -/
  ether : ∃ addr moved received destroyed, Flow env msg st₁.state r.evm.state r.err addr moved received destroyed ∧
    (∀ x, (st.state.facts env.db x).balance = (s.facts env.db x).balance + received x +
      (if x = env.ctx.coinbase then ((result.usedGas * msg.gasPrice : Nat) : Int) else 0) -
      if x = msg.sender then ((result.usedGas * msg.gasPrice + moved : Nat) : Int) else 0) ∧
    total env.db st.state + destroyed = total env.db s ∧
    (result.err = none → moved = msg.value) ∧
    (env.rules.isHomestead = true → result.err ≠ none → moved = 0 ∧ destroyed = 0 ∧ ∀ x, received x = 0) ∧
    (Plain env s msg.sender → 0 ≤ received msg.sender)
  nonce : Plain env s msg.sender → (st.state.facts env.db msg.sender).nonce = (s.facts env.db msg.sender).nonce + 1

def funded : State.Node State.Node.sampleDigests :=
  ⟨State.Node.sample.db, State.Node.sample.state.addBalance 1 100000⟩

theorem funded_solvent : Solvent funded.db funded.state := by
  intro a
  show 0 ≤ ((State.Node.sample.state.addBalance 1 100000).facts State.Node.sample.db a).balance
  rw [State.Node.sample_opened.good.wf.addBalance_facts]
  have hsample (a : Address) : State.Node.sample.state.facts State.Node.sample.db a = .nothing :=
    StateDB.facts_of_live_none rfl
  by_cases ha : a = 1
  · subst ha
    rw [update_self, hsample]
    decide
  · rw [update_of_ne ha, hsample]
    decide

/-- The state after account 7 was paid in the transaction that deleted it, with a
sender. -/
def mourned : State.Node State.Node.sampleDigests :=
  ⟨State.Node.buried.db, State.Node.buried.state.addBalance 1 100000⟩

end StateTransition

end NdnGeth.Core
