/-
What a message costs that is not applied. `TransitionDb` buys the gas of a
message before it checks the intrinsic gas and the value, and an error of these
checks does not give it back.

`prepare_rejected`: what `preCheck` refuses leaves everything as it was, and what
is refused after it has taken the gas from the pool and its price from the
sender. `rejection_free_iff`: so that a rejection is free exactly for the first,
or for a message without gas.
-/
import NdnGeth.Core.StateTransition

namespace NdnGeth.Core

open Lib (Result)
open State (Digests StateDB)
open Types (Address)
open Vm

variable {D : Digests}

namespace StateTransition

variable {env : Env D} {msg : Message} {st st' : StateTransition D} {rounds levels : Nat} {err : TxError}

/-- The gas was taken from the pool, and its price from the sender. -/
structure Charged (env : Env D) (msg : Message) (st st' : StateTransition D) : Prop where
  gp : st'.gp + msg.gas = st.gp
  facts : st'.state.facts env.db = Function.update (st.state.facts env.db) msg.sender
    { st.state.facts env.db msg.sender with
      balance := (st.state.facts env.db msg.sender).balance - (msg.gas * msg.gasPrice : Nat) }

theorem Bought.charged (h : Bought env msg st st') : Charged env msg st st' := ⟨h.pool, h.facts⟩

theorem Charged.same_iff (h : Charged env msg st st') : Same env st st' ↔ msg.gas = 0 := by
  have hgp := h.gp
  constructor
  · intro hsame
    have := hsame.gp
    omega
  · intro hzero
    refine ⟨by omega, ?_⟩
    rw [h.facts, hzero, Nat.zero_mul, Nat.cast_zero, Int.sub_zero]
    exact Function.update_eq_self _ _

theorem prepare_rejected (hwf : st.state.WF env.db) (hz : st.gas = 0) (hg : msg.gas < two64)
    (h : st.prepare env msg = (st', some err)) :
    (st.preCheck msg).2 ≠ none ∧ Same env st st' ∨ (st.preCheck msg).2 = none ∧ Charged env msg st st' := by
  obtain ⟨⟨st₁, err₁⟩, hpre⟩ : ∃ p, st.preCheck msg = p := ⟨_, rfl⟩
  unfold prepare at h
  rw [hpre] at h ⊢
  cases err₁ with
  | some err₁ =>
    cases h
    cases preCheck_spec hwf hz hg hpre with
    | refused hsame => exact .inl ⟨Option.some_ne_none _, hsame⟩
  | none =>
    obtain ⟨hb⟩ := preCheck_spec hwf hz hg hpre
    refine .inr ⟨rfl, ?_⟩
    simp only at h
    split at h
    · cases h
      exact hb.charged
    rename_i intrinsic _
    split at h
    · cases h
      exact hb.charged
    split at h
    · have hwf₁ := hb.steps.wf hwf
      have hcan : canTransfer ({ st₁ with gas := st₁.gas - intrinsic } : StateTransition D).state msg.sender msg.value = _ :=
        canTransfer_eq hwf₁ _ _
      rw [hcan] at h
      simp only [Prod.mk.injEq] at h
      obtain ⟨rfl, herr⟩ := h
      split at herr
      · cases herr
      · cases herr
        exact ⟨hb.pool, (hwf₁.get_warm (.balance msg.sender)).1.facts.trans hb.facts⟩
    · cases h

/-- A message that is not applied leaves the gas pool and all accounts as they
were exactly when it was rejected before its gas was bought, or has no gas; else
the gas and its price are gone. -/
theorem rejection_free_iff {evm : Evm D} {gp : Nat} (hreach : State.Node.Reachable ⟨env.db, evm.state⟩)
    (hg : msg.gas < two64) (h : (new evm gp).transitionDb env rounds levels msg = .ok (st', .error err)) :
    (Same env (new evm gp) st' ↔ ((new evm gp).preCheck msg).2 ≠ none ∨ msg.gas = 0) ∧
      (((new evm gp).preCheck msg).2 = none → Charged env msg (new evm gp) st') := by
  have hwf : (new evm gp).state.WF env.db := hreach.good.wf
  obtain ⟨⟨st₁, err₁⟩, hprep⟩ : ∃ p, (new evm gp).prepare env msg = p := ⟨_, rfl⟩
  unfold transitionDb at h
  rw [hprep] at h
  cases err₁ with
  | some err₁ =>
    cases h
    rcases prepare_rejected hwf rfl hg hprep with ⟨hearly, hsame⟩ | ⟨hlate, hcharged⟩
    · exact ⟨⟨fun _ => .inl hearly, fun _ => hsame⟩, fun h => absurd h hearly⟩
    · rw [hcharged.same_iff]
      exact ⟨⟨.inr, fun h => h.resolve_left fun hne => hne hlate⟩, fun _ => hcharged⟩
  | none =>
    -- a message that is run does not come back with an error
    simp only at h
    cases ha : st₁.apply env rounds levels msg with
    | fault e => rw [ha] at h; cases h
    | unfinished => rw [ha] at h; cases h
    | ok r =>
      rw [ha, Result.ok_bind] at h
      cases hs : st₁.settle env msg r with
      | fault e => rw [hs] at h; cases h
      | unfinished => rw [hs] at h; cases h
      | ok p => rw [hs] at h; cases h

theorem funded_reachable : State.Node.Reachable funded := by
  have hrun : Lib.Run State.Node.step State.Node.Env State.Node.sample [.mutation (.addBalance 1 100000)] funded :=
    .cons trivial rfl .nil
  exact .of_opened State.Node.sample_opened hrun

/-- A nonce that is too high costs nothing. -/
theorem rejection_free_nonce :
    ∃ st', (new (.new funded.state) 50000).transitionDb sampleEnv 21001 1025 ⟨1, some 100, 1, 21000, 5, 3, true, []⟩ =
        .ok (st', .error .nonceTooHigh) ∧ Same sampleEnv (new (.new funded.state) 50000) st' := by
  obtain ⟨st', h⟩ : ∃ st', (new (.new funded.state) 50000).transitionDb sampleEnv 21001 1025
      ⟨1, some 100, 1, 21000, 5, 3, true, []⟩ = .ok (st', .error .nonceTooHigh) := ⟨_, rfl⟩
  exact ⟨st', h, (rejection_free_iff funded_reachable (by decide) h).1.2 (.inl (Option.some_ne_none _))⟩

/-- A message with less gas than the intrinsic gas is rejected, and its gas is gone
from the pool and its price from the sender. -/
theorem rejection_charged :
    State.Node.Reachable funded ∧ (funded.state.getBalance 1).1 = 100000 ∧
      ((new (.new funded.state) 50000).transitionDb sampleEnv 21001 1025 ⟨1, some 100, 1, 20000, 5, 0, true, []⟩).Sat
        (fun p => p.2.toOption.isNone ∧ p.1.gp = 30000 ∧ (p.1.state.getBalance 1).1 = 80000) (fun _ => False) False :=
  ⟨funded_reachable, by decide +kernel, by decide +kernel⟩

end StateTransition

end NdnGeth.Core
