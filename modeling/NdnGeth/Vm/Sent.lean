/-
Calls from outside.

The account that starts a transaction sends its value, and from then on runs no
code: it sends nothing more. So there are two kinds of effect in such a call:
the transfer of the value, where the sender pays, and the execution, where
it does not (`Sent`).
-/
import NdnGeth.Vm.Executions

namespace NdnGeth.Vm

open Lib (Result)
open Lib.Rlp (Bytes)
open State (Digests StateDB Mutation)
open State.StateDB (Warm)
open Types (Address)

variable {D : Digests} {env : Env D} {w w' : Watch} {evm : Evm D} {gas bound : Nat} {runner : Runner D}

/-! ## Weaker views of an execution -/

/-- Less is asked of an execution. -/
structure Watch.Weaker (w' w : Watch) : Prop where
  still : w'.still = w.still
  idle : ∀ a, w'.idle a → w.idle a
  frugal : w'.frugal → w.frugal

variable {s : StateDB D}

theorem Permitted.weaken {m : Mutation} (hw : w'.Weaker w) (h : Permitted env w s m) :
    Permitted env w' s m := by
  have hs := hw.still
  cases m with
  | createAccount a => unfold Permitted; rw [hs]; exact h
  | setNonce a n => exact ⟨hs.trans h.1, fun hi => h.2 (hw.idle a hi)⟩
  | setCode a c => exact ⟨hs.trans h.1, fun hi => h.2 (hw.idle a hi)⟩
  | setState a k v | addLog l | addRefund g | subRefund g => exact hs.trans h
  | _ => exact h

theorem Effect.weaken {s t : StateDB D} {d : Int} (hw : w'.Weaker w) (h : Effect env w s t d) : Effect env w' s t d := by
  have hs := hw.still
  induction h with
  | refl => exact .refl
  | mutate _ hp hm ih => exact ih.mutate (hp.weaken hw) hm
  | transfer _ hz hi hv ih =>
    exact ih.transfer (fun h => hz (hs ▸ h)) (fun hf h => hi (hw.frugal hf) (hw.idle _ h)) hv
  | destroy _ hz hi ih => exact ih.destroy (hs.trans hz) fun h => hi (hw.idle _ h)
  | failed _ _ hr ih₁ ih₂ => exact ih₁.failed ih₂ hr

theorem Watch.any_weaker (hs : w.still = false) : Watch.any.Weaker w := ⟨hs.symm, nofun, nofun⟩

/-- The same executions, in which also accounts that run no code may send. -/
def Watch.lax (w : Watch) : Watch := { w with frugal := False }

theorem Watch.lax_weaker : w.lax.Weaker w := ⟨rfl, fun _ => id, nofun⟩

theorem Guard.lax (h : Guard env w s) : Guard env w.lax s := ⟨h.good, h.idle⟩

theorem Guard.of_lax (h : Guard env w.lax s) : Guard env w s := ⟨h.good, h.idle⟩

/-! ## What is sent -/

/-- The balances of `u` are those of `s`, with a value moved. -/
def MovedValue (env : Env D) (caller addr : Address) (value : Nat) (s u : StateDB D) : Prop :=
  ∀ x, Remains s u x → (u.facts env.db x).balance =
    (s.facts env.db x).balance + (if x = addr then (value : Int) else 0) - if x = caller then (value : Int) else 0

/-- What a call from outside leaves. It has failed and nothing is left of it, or
the value was moved (`u`) and code was run. -/
structure Sent (env : Env D) (w : Watch) (caller addr : Address) (gas value : Nat) (evm : Evm D) (r : Reply D) : Prop where
  gas : r.gas ≤ gas
  effect : ∃ d, Effect env w.lax evm.state r.evm.state d
  sent : (r.err ≠ none ∧ Warm env.db (fun _ => False) r.evm.state evm.state) ∨
    ((r.err = none ∨ env.rules.isHomestead = false) ∧ ∃ u d, Guard env w u ∧ Effect env w.lax evm.state u 0 ∧
      MovedValue env caller addr value evm.state u ∧ Effect env w u r.evm.state d)

theorem call_sent (evm : Evm D) {caller addr : Address} {input : Bytes} {value : Nat} (hd : evm.depth = 0)
    (hrun : RunnerOk env w runner evm.depth bound) (hguard : Guard env w evm.state) (hs : w.still = false)
    (hg : gas < two64) (hb : gas < bound) :
    (call env runner evm caller addr input gas value).Sat (Sent env w caller addr gas value evm) (· = .refund)
      False := by
  have hstill (h : w.still = true) : value = 0 := by rw [hs] at h; cases h
  rcases call_cases (w := w.lax) runner input hguard.lax hstill (fun h => h.elim) with
    ⟨r, hr, hout, hfail, hdone⟩ | ⟨t, u, contract, he, hr⟩
  · rw [hr]
    refine ⟨hout.gas, hout.moved.effect, ?_⟩
    by_cases herr : r.err = none
    · rcases hdone herr with h | ⟨hv, hf, heff⟩
      · omega
      refine .inr ⟨.inl herr, r.evm.state, 0, (hout.moved.guard hguard.lax).of_lax, heff, fun x _ => ?_, .refl⟩
      rw [hf, hv]
      split <;> split <;> omega
    · exact .inl ⟨herr, hfail herr⟩
  -- the frame runs from `u`, and is undone to `t`
  have hte : Effect env w.lax evm.state t 0 := he.start ▸ Effect.refl.get (.balance caller)
  have htw : Warm env.db (fun _ => False) t evm.state := he.start ▸ (hguard.good.wf.get_warm (.balance caller)).1
  have htg := hte.guard hguard.lax
  have hsnap : Effect env w.lax t t.snapshot.2 0 := Effect.refl.mutate (m := .snapshot) trivial rfl
  have hug : Guard env w.lax u := he.effect.guard (hsnap.guard htg)
  have hcg := he.gas
  have hp : Protected env w (evm.readOnly || false) := fun h => by rw [hs] at h; cases h
  rw [hr]
  unfold runCall
  refine (hrun { evm with state := u } contract input false rfl hp hug.of_lax he.idle (by omega) (by omega)).bind ?_
  intro r hran
  obtain ⟨d, heff⟩ := hran.moved.effect
  have hlax := heff.weaken Watch.lax_weaker
  have hgas := hran.gas
  split
  · rename_i herr
    have htried : Tried env w.lax { evm with state := t } gas r :=
      ⟨by omega, hran.moved.depth, hran.moved.readOnly, _, he.effect.trans hlax⟩
    refine (htried.failed_sat htg.good).bind ?_
    rintro r' ⟨hm, hw, hle, herr', -, -⟩
    obtain ⟨d', hm⟩ := hm.effect
    refine ⟨hle, ⟨_, hte.trans hm⟩, .inl ⟨?_, hw.trans htw⟩⟩
    show r'.err ≠ none
    rw [herr']
    simpa [Option.isSome_iff_ne_none] using herr
  · rename_i herr
    have hnone : r.err = none := by simpa using herr
    have hu : Effect env w.lax evm.state u 0 := (hte.trans hsnap).trans he.effect
    exact ⟨hcg ▸ hgas, ⟨_, hu.trans hlax⟩, .inr ⟨.inl hnone, u, d, hug.of_lax, hu, he.balance, heff⟩⟩

theorem createAt_sent (evm : Evm D) {caller address : Address} {code : Bytes} {value : Nat} (hd : evm.depth = 0)
    (hrun : RunnerOk env w runner evm.depth bound) (hguard : Guard env w evm.state) (hs : w.still = false)
    (hbal : (value : Int) ≤ (evm.state.facts env.db caller).balance) (hg : gas < two64) (hb : gas < bound) :
    (createAt env runner evm caller code gas value address).Sat (Sent env w caller address gas value evm)
      (· = .refund) False := by
  rcases createAt_cases (w := w.lax) runner code hs (fun h => h.elim) hguard.lax hbal with
    ⟨r, hr, hout, hfail, hdone⟩ | ⟨t, u, hf, hr⟩
  · rw [hr]
    have herr : r.err ≠ none := fun h => by have := hdone h; omega
    exact ⟨hout.gas, hout.moved.effect, .inl ⟨herr, hfail herr⟩⟩
  have htg := hf.reads.guard hguard.lax
  have hsnap : Effect env w.lax t t.snapshot.2 0 := Effect.refl.mutate (m := .snapshot) trivial rfl
  have hug : Guard env w.lax u := hf.effect.guard (hsnap.guard htg)
  have hp : Protected env w (evm.readOnly || false) := fun h => by rw [hs] at h; cases h
  rw [hr]
  refine (hrun { evm with state := u } ⟨caller, address, code, address, [], gas, value⟩ [] false rfl hp hug.of_lax
    (fun _ => hf.idle) hg hb).bind ?_
  intro r hran
  obtain ⟨d, heff⟩ := hran.moved.effect
  have htried : Tried env w.lax { evm with state := t } gas r :=
    ⟨hran.gas, hran.moved.depth, hran.moved.readOnly, _, hf.effect.trans (heff.weaken Watch.lax_weaker)⟩
  refine (deploy_sat (w := w.lax) { evm with state := t } hs htg hf.idle htried).mono ?_
  rintro r' ⟨hout, hres⟩
  obtain ⟨d', hm⟩ := hout.moved.effect
  refine ⟨hout.gas, ⟨_, hf.reads.trans hm⟩, ?_⟩
  rcases hres with ⟨herr, hw⟩ | ⟨herr, hstate⟩
  · exact .inl ⟨herr, hw.trans hf.warm⟩
  · refine .inr ⟨herr, u, d, hug.of_lax, (hf.reads.trans hsnap).trans hf.effect, hf.balance, ?_⟩
    rcases hstate with h | h
    · rw [h]; exact heff
    · rw [h]
      exact heff.mutate (m := .setCode address r.ret) ⟨hs, hf.idle⟩ rfl

end NdnGeth.Vm
