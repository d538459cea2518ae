/-
What a call leaves: the functions of `EVM` that start a frame.

A call never gives back more gas than it was given. One that fails leaves the
state as it was when it began, and no gas, unless it asked for the rest of it
back or failed before it ran (`Outcome`). The knot is tied in `interpret_ok`:
with enough rounds and levels every call comes to an end.
-/
import NdnGeth.Vm.Safety

namespace NdnGeth.Vm

open Lib (Result)
open Lib.Rlp (Bytes)
open State (Digests StateDB Getter Mutation Database)
open State.StateDB (Warm Good)
open Types (Address)

variable {D : Digests} {env : Env D} {w : Watch} {evm : Evm D} {gas : Nat} {r : Reply D}

/-- What a call leaves, from the state it can be undone to. -/
structure Outcome (env : Env D) (w : Watch) (evm : Evm D) (gas : Nat) (r : Reply D) : Prop
    extends Replied env w evm gas r where
  undone : env.rules.isHomestead = true → r.err ≠ none → Warm env.db (fun _ => False) r.evm.state evm.state
  spent : env.rules.isHomestead = true → r.err ≠ none → r.gas = 0 ∨ r.err = some .executionReverted ∨
    r.err = some .depth ∨ r.err = some .insufficientBalance

theorem Outcome.idle {ret : Bytes} {err : Option VmError} (h : err = none ∨ err = some .depth ∨ err = some .insufficientBalance) :
    Outcome env w evm gas (.of evm ret gas err) where
  gas := le_refl _
  moved := .refl _
  undone _ _ := .refl _
  spent _ hne := .inr (.inr (h.resolve_left hne))

theorem Outcome.of_get (hs : evm.state.WF env.db) (g : Getter)
    (h : Outcome env w { evm with state := (evm.state.get env.db g).2 } gas r) : Outcome env w evm gas r where
  gas := h.gas
  moved := (Moved.of_effect (Effect.refl.get g)).trans h.moved
  undone hh he := (h.undone hh he).trans (hs.get_warm g).1
  spent := h.spent

/-! ## Frames that fail -/

/-- A frame that was run on a snapshot. -/
structure Tried (env : Env D) (w : Watch) (evm : Evm D) (gas : Nat) (r : Ran D) : Prop where
  gas : r.gas ≤ gas
  moved : Moved env w { evm with state := evm.state.snapshot.2 } r.evm

theorem Tried.succeeded {r : Ran D} (h : Tried env w evm gas r) : Moved env w evm r.evm :=
  (Moved.of_effect (Effect.refl.mutate (m := .snapshot) trivial rfl)).trans h.moved

theorem Tried.failed_sat {r : Ran D} {E : Panic → Prop} {F : Prop} (h : Tried env w evm gas r) (hs : Good env.db evm.state) :
    (failed r evm.state.nextRevisionId).Sat (fun r' => Moved env w evm r'.evm ∧
      Warm env.db (fun _ => False) r'.evm.state evm.state ∧ r'.gas ≤ gas ∧ r'.err = r.err ∧ r'.ret = r.ret ∧
      (r'.gas = 0 ∨ r'.err = some .executionReverted)) E F := by
  obtain ⟨d, heff⟩ := h.moved.effect
  obtain ⟨v, hv, hw⟩ := heff.revert hs
  unfold failed
  rw [hv]
  refine ⟨⟨h.moved.depth, h.moved.readOnly, 0, Effect.refl.failed heff hv⟩, hw, ?_, rfl, rfl, ?_⟩
  · show (if r.err = some .executionReverted then r.gas else 0) ≤ gas
    split
    · exact h.gas
    · exact Nat.zero_le _
  · show (if r.err = some .executionReverted then r.gas else 0) = 0 ∨ _
    split
    · rename_i he
      exact .inr he
    · exact .inl rfl

variable {runner : Runner D} {depth bound : Nat}

variable {value : Nat} {caller address : Address} {input : Bytes} {s : StateDB D}

theorem runCall_sat (evm : Evm D) {u : StateDB D} {d : Int} (contract : Contract) {readOnly : Bool}
    (hrun : RunnerOk env w runner evm.depth bound) (hguard : Guard env w evm.state)
    (hu : Effect env w evm.state.snapshot.2 u d) (hp : Protected env w (evm.readOnly || readOnly))
    (hidle : contract.code ≠ [] → ¬ w.idle contract.self) (hg : contract.gas < two64) (hb : contract.gas < bound) :
    (runCall runner { evm with state := u } contract input readOnly evm.state.nextRevisionId).Sat
      (Outcome env w evm contract.gas) (· = .refund) False := by
  have hsnap : Moved env w evm { evm with state := evm.state.snapshot.2 } :=
    .of_effect (Effect.refl.mutate (m := .snapshot) trivial rfl)
  have hmoved : Moved env w { evm with state := evm.state.snapshot.2 } { evm with state := u } := ⟨rfl, rfl, d, hu⟩
  unfold runCall
  refine (hrun { evm with state := u } contract input readOnly rfl hp ((hsnap.trans hmoved).guard hguard) hidle hg hb).bind ?_
  intro r hr
  have htried : Tried env w evm contract.gas r := ⟨hr.gas, hmoved.trans hr.moved⟩
  split
  · refine (htried.failed_sat hguard.good).bind ?_
    rintro r' ⟨hm, hw, hgas, -, -, hsp⟩
    exact ⟨⟨hgas, hm⟩, fun _ _ => hw, fun _ _ => hsp.imp_right .inl⟩
  · rename_i herr
    have hnone : r.err = none := by simpa using herr
    exact ⟨⟨hr.gas, htried.succeeded⟩, fun _ h => absurd hnone h, fun _ h => absurd hnone h⟩

theorem callContract_warm (hs : s.WF env.db) (callerAddress self addr : Address) (value gas : Nat) :
    Warm env.db (fun _ => False) (callContract env s callerAddress self addr value gas).2 s := by
  have hget := (hs.get_warm (.codeHash addr)).1
  exact ((hget.wf hs).get_warm (.code addr)).1.trans hget

theorem callContract_spec (w : Watch) (s : StateDB D) (hs : s.WF env.db) (callerAddress self addr : Address) (value gas : Nat) :
    Effect env w s (callContract env s callerAddress self addr value gas).2 0 ∧
      (callContract env s callerAddress self addr value gas).1.self = self ∧
      (callContract env s callerAddress self addr value gas).1.gas = gas ∧
      (callContract env s callerAddress self addr value gas).1.code = (s.facts env.db addr).code := by
  have hget := (hs.get_warm (.codeHash addr)).1
  refine ⟨(Effect.refl.get (.codeHash addr)).get (.code addr), rfl, rfl, ?_⟩
  have hwf : (s.getCodeHash addr).2.WF env.db := hget.wf hs
  show ((s.getCodeHash addr).2.getCode env.db addr).1 = _
  rw [hwf.getCode_eq]
  exact congrArg (fun f => (f addr).code) hget.facts

theorem canTransfer_eq (hs : s.WF env.db) (a : Address) (v : Nat) :
    canTransfer s a v = (decide ((v : Int) ≤ (s.facts env.db a).balance), (s.get env.db (.balance a)).2) := by
  unfold canTransfer
  show (decide ((v : Int) ≤ (s.getBalance a).1), _) = _
  rw [hs.getBalance_eq a]
  rfl

/-! ## The calls -/

theorem exist_eq {db : Database D} (hs : s.WF db) (a : Address) : (s.exist a).1 = (s.live a).isSome := by
  unfold StateDB.exist
  rw [hs.getStateObject]

theorem Effect.touch {s t : StateDB D} {d : Int} {addr : Address} (h : Effect env w s t d) (ht : Guard env w t)
    (hc : t.live addr = none → w.still = true → env.Creates addr) :
    Effect env w s (if (t.exist addr).1 then (t.exist addr).2 else (t.exist addr).2.createAccount addr) d ∧
      ∀ x, Remains t (if (t.exist addr).1 then (t.exist addr).2 else (t.exist addr).2.createAccount addr) x ∨
          t.live x ≠ none →
        ((if (t.exist addr).1 then (t.exist addr).2 else (t.exist addr).2.createAccount addr).facts env.db x).balance =
          (t.facts env.db x).balance := by
  have hwarm := (ht.good.wf.get_warm (.exist addr)).1
  have hget : Effect env w s (t.exist addr).2 d := h.get (.exist addr)
  have hfacts : (t.exist addr).2.facts env.db = t.facts env.db := hwarm.facts
  rw [exist_eq ht.good.wf]
  cases hl : t.live addr with
  | some o => exact ⟨hget, fun x _ => congrArg (fun f => (f x).balance) hfacts⟩
  | none =>
    have hl' : (t.exist addr).2.live addr = none := hwarm.of_live_none hl
    have hp : Permitted env w (t.exist addr).2 (.createAccount addr) := .inl ⟨hl', hc hl⟩
    refine ⟨hget.mutate hp rfl, fun x hx => ?_⟩
    have hleft : (t.exist addr).2.leftover = t.leftover := hwarm.leftover
    rw [← hfacts]
    refine hp.balance (hwarm.wf ht.good.wf) rfl (hx.imp (fun hk ha => ?_) fun hlive => ?_)
    · rw [hleft]
      exact hk ha
    · obtain ⟨o, ho⟩ := Option.ne_none_iff_exists'.1 hlive
      obtain ⟨o', ho', -⟩ := hwarm.of_live ho
      rw [show (t.exist addr).2.live x = some o' from ho']
      exact Option.some_ne_none _

/-- What was there to be sent is still there after a balance was found. -/
theorem affords {s t : StateDB D} {a : Address} {v : Nat} (hbal : (v : Int) ≤ (s.facts env.db a).balance)
    (hsame : s.live a ≠ none → (t.facts env.db a).balance = (s.facts env.db a).balance) :
    v = 0 ∨ (v : Int) ≤ (t.facts env.db a).balance := by
  by_cases hl : s.live a = none
  · rw [StateDB.facts_of_live_none hl] at hbal
    exact .inl (Nat.le_zero.1 (Int.ofNat_le.1 hbal))
  · rw [hsame hl]
    exact .inr hbal

theorem framed_call (evm : Evm D) {callerAddress self addr : Address}
    (hrun : RunnerOk env w runner evm.depth bound) (hguard : Guard env w evm.state)
    (hp : Protected env w evm.readOnly) (hi : (evm.state.facts env.db addr).code ≠ [] → ¬ w.idle self)
    (hg : gas < two64) (hb : gas < bound) :
    (runCall runner { evm with state := (callContract env evm.state.snapshot.2 callerAddress self addr value gas).2 }
      (callContract env evm.state.snapshot.2 callerAddress self addr value gas).1 input false evm.state.nextRevisionId).Sat
      (Outcome env w evm gas) (· = .refund) False := by
  obtain ⟨hcode, hself, hcgas, hcc⟩ :=
    callContract_spec w evm.state.snapshot.2 hguard.good.snapshot.wf callerAddress self addr value gas
  refine (runCall_sat evm _ hrun hguard hcode (by rw [Bool.or_false]; exact hp) (fun hne => ?_) (by rw [hcgas]; exact hg)
    (by rw [hcgas]; exact hb)).mono ?_
  · rw [hcc] at hne
    rw [hself]
    exact hi hne
  · rw [hcgas]
    exact fun _ => id

/-- A call that has come to run a contract: `t` is the state a failure is undone
to, and `u` that with the value moved. -/
structure Entered (env : Env D) (w : Watch) (evm : Evm D) (caller addr : Address) (gas value : Nat) (t u : StateDB D)
    (contract : Contract) : Prop where
  depth : evm.depth ≤ Params.callCreateDepth
  start : t = (evm.state.get env.db (.balance caller)).2
  effect : Effect env w t.snapshot.2 u 0
  gas : contract.gas = gas
  idle : contract.code ≠ [] → ¬ w.idle contract.self
  balance : ∀ x, Remains evm.state u x → (u.facts env.db x).balance =
    (evm.state.facts env.db x).balance + (if x = addr then (value : Int) else 0) - if x = caller then (value : Int) else 0

theorem call_cases (runner : Runner D) {caller addr : Address} (input : Bytes) (hguard : Guard env w evm.state)
    (hv : w.still = true → value = 0) (hi : w.frugal → ¬ w.idle caller) :
    (∃ r, call env runner evm caller addr input gas value = .ok r ∧ Outcome env w evm gas r ∧
        (r.err ≠ none → Warm env.db (fun _ => False) r.evm.state evm.state) ∧
        (r.err = none → 0 < evm.depth ∨
          (value = 0 ∧ r.evm.state.facts env.db = evm.state.facts env.db ∧ Effect env w evm.state r.evm.state 0))) ∨
      ∃ t u contract, Entered env w evm caller addr gas value t u contract ∧
        call env runner evm caller addr input gas value =
          runCall runner { evm with state := u } contract input false t.nextRevisionId := by
  unfold call
  split
  · rename_i hrec
    exact .inl ⟨_, rfl, Outcome.idle (.inl rfl), fun _ => .refl _,
      fun _ => .inl (by simpa using (Bool.and_eq_true_iff.1 hrec).2)⟩
  split
  · exact .inl ⟨_, rfl, Outcome.idle (.inr (.inl rfl)), fun _ => .refl _, nofun⟩
  rename_i hdepth
  rw [canTransfer_eq hguard.good.wf]
  obtain ⟨t, ht⟩ : ∃ t, t = (evm.state.get env.db (.balance caller)).2 := ⟨_, rfl⟩
  have htw : Warm env.db (fun _ => False) t evm.state := ht ▸ (hguard.good.wf.get_warm (.balance caller)).1
  have hte : Effect env w evm.state t 0 := ht ▸ Effect.refl.get (.balance caller)
  have htg := hte.guard hguard
  have hfacts : t.facts env.db = evm.state.facts env.db := htw.facts
  simp only
  rw [← ht]
  split
  · refine .inl ⟨_, rfl, ⟨⟨le_refl _, .of_effect hte⟩, fun _ _ => htw, fun _ _ => .inr (.inr (.inr rfl))⟩,
      fun _ => htw, nofun⟩
  rename_i hbal
  have hbal : (value : Int) ≤ (t.facts env.db caller).balance := by
    rw [hfacts]
    simpa using hbal
  have hsnap : Effect env w t t.snapshot.2 0 := Effect.refl.mutate (m := .snapshot) trivial rfl
  have hsg := hsnap.guard htg
  obtain ⟨⟨exist, v⟩, hv'⟩ : ∃ p, t.snapshot.2.exist addr = p := ⟨_, rfl⟩
  have hv₂ : (t.snapshot.2.get env.db (.exist addr)).2 = v := congrArg Prod.snd hv'
  have hve : Effect env w t.snapshot.2 v 0 := hv₂ ▸ Effect.refl.get (.exist addr)
  have hvw : Warm env.db (fun _ => False) v t.snapshot.2 := hv₂ ▸ (hsg.good.wf.get_warm (.exist addr)).1
  rw [show t.snapshot = (t.nextRevisionId, t.snapshot.2) from rfl]
  simp only [hv']
  split
  · rename_i hnone
    refine .inl ⟨_, rfl, ⟨⟨le_refl _, rfl, rfl, 0, (hte.trans hsnap).trans hve⟩, fun _ h => absurd rfl h,
      fun _ h => absurd rfl h⟩, fun h => absurd rfl h, fun _ => .inr ⟨?_, ?_, (hte.trans hsnap).trans hve⟩⟩
    · simpa using (Bool.and_eq_true_iff.1 hnone).2
    · exact hvw.facts.trans hfacts
  rename_i hcreate
  have hcreates : t.snapshot.2.live addr = none → w.still = true → env.Creates addr := by
    intro hl hs
    have hex : exist = false := by
      have := exist_eq hsg.good.wf addr
      rw [hv', hl] at this
      exact this
    rw [hex, hv hs] at hcreate
    unfold Env.Creates
    cases hpre : env.rules.calledPrecompiles addr with
    | some p => exact .inl rfl
    | none =>
      refine .inr ?_
      rw [hpre] at hcreate
      simpa using hcreate
  obtain ⟨htouch, hkeep⟩ := Effect.refl.touch hsg hcreates
  rw [hv'] at htouch hkeep
  have hsend := affords hbal fun hl => hkeep caller (.inr hl)
  have hpaid := htouch.transfer hv (a := caller) (b := addr) hi hsend
  have hpg := hpaid.guard hsg
  obtain ⟨hcode, hself, hcgas, hcc⟩ := callContract_spec w _ hpg.good.wf caller addr addr value gas
  refine .inr ⟨t, _, _, ⟨Nat.le_of_not_lt hdepth, ht, hpaid.trans hcode, hcgas, fun hne hi => hne ?_, fun x hx => ?_⟩, rfl⟩
  · rw [hcc]
    exact (hpg.idle addr (hself ▸ hi)).2
  · rw [(callContract_warm hpg.good.wf caller addr addr value gas).facts,
      transfer_facts_apply (htouch.good hsg.good).wf]
    have hx' := ((Effect.refl.transfer hv hi hsend).trans hcode).remains_left (htouch.good hsg.good) hx
    show _ + _ - _ = _
    rw [hkeep x (.inl fun ha => (congrFun htw.leftover x).trans (hx' ha)), ← hfacts]
    rfl

section

variable (hrun : evm.depth ≤ Params.callCreateDepth → RunnerOk env w runner evm.depth bound)
  (hguard : Guard env w evm.state) (hg : gas < two64) (hb : gas < bound) {caller addr : Address}

include hrun hguard hg hb

theorem staticCall_sat (hp : Protected env w (evm.readOnly || true)) :
    (staticCall env runner evm caller addr input gas).Sat (Outcome env w evm gas) (· = .refund) False := by
  unfold staticCall
  split
  · exact Outcome.idle (.inl rfl)
  split
  · exact Outcome.idle (.inr (.inl rfl))
  rename_i hdepth
  obtain ⟨hcode, hself, hcgas, hcc⟩ :=
    callContract_spec w evm.state.snapshot.2 hguard.good.snapshot.wf caller addr addr 0 gas
  refine (runCall_sat evm (callContract env evm.state.snapshot.2 caller addr addr 0 gas).1
    (hrun (Nat.le_of_not_lt hdepth)) hguard (hcode.mutate (m := .addBalance addr 0) rfl rfl) hp (fun hne hi => hne ?_)
    (by rw [hcgas]; exact hg) (by rw [hcgas]; exact hb)).mono ?_
  · rw [hcc]
    exact (hguard.idle addr (hself ▸ hi)).2
  · rw [hcgas]
    exact fun _ => id

variable (hp : Protected env w evm.readOnly)

include hp

theorem call_sat (hv : w.still = true → value = 0) (hi : w.frugal → ¬ w.idle caller) :
    (call env runner evm caller addr input gas value).Sat (Outcome env w evm gas) (· = .refund) False := by
  rcases call_cases runner input hguard hv hi with ⟨r, hr, hout, -, -⟩ | ⟨t, u, contract, he, hr⟩
  · rw [hr]
    exact hout
  · have hte : Effect env w evm.state t 0 := he.start ▸ Effect.refl.get (.balance caller)
    have hcg := he.gas
    rw [hr]
    refine (runCall_sat { evm with state := t } contract (hrun he.depth) (hte.guard hguard) he.effect
      (by rw [Bool.or_false]; exact hp) he.idle (by omega) (by omega)).mono fun r hr => ?_
    rw [he.gas, he.start] at hr
    exact Outcome.of_get hguard.good.wf (.balance caller) hr

theorem callCode_sat (hi : ¬ w.idle caller) :
    (callCode env runner evm caller addr input gas value).Sat (Outcome env w evm gas) (· = .refund) False := by
  unfold callCode
  split
  · exact Outcome.idle (.inl rfl)
  split
  · exact Outcome.idle (.inr (.inl rfl))
  rename_i hdepth
  rw [canTransfer_eq hguard.good.wf]
  obtain ⟨t, ht⟩ : ∃ t, t = (evm.state.get env.db (.balance caller)).2 := ⟨_, rfl⟩
  have htg : Guard env w t := (ht ▸ Effect.refl.get (.balance caller) : Effect env w evm.state t 0).guard hguard
  refine Result.Sat.mono ?_ fun r hr => Outcome.of_get hguard.good.wf (.balance caller) hr
  simp only
  rw [← ht]
  split
  · exact Outcome.idle (.inr (.inr rfl))
  exact framed_call { evm with state := t } (hrun (Nat.le_of_not_lt hdepth)) htg hp (fun _ => hi) hg hb

theorem delegateCall_sat {caller : Contract} (hi : ¬ w.idle caller.self) :
    (delegateCall env runner evm caller addr input gas).Sat (Outcome env w evm gas) (· = .refund) False := by
  unfold delegateCall
  split
  · exact Outcome.idle (.inl rfl)
  split
  · exact Outcome.idle (.inr (.inl rfl))
  rename_i hdepth
  exact framed_call evm (hrun (Nat.le_of_not_lt hdepth)) hguard hp (fun _ => hi) hg hb

end

/-! ## Creations -/

theorem incremented_balance (hs : s.WF env.db) (caller x : Address) (n : BitVec 64) :
    ((s.setNonce caller n).facts env.db x).balance = (s.facts env.db x).balance := by
  rw [hs.setNonce_facts]
  by_cases hx : x = caller
  · subst hx
    rw [Function.update_self]
  · rw [Function.update_of_ne hx]

theorem newAccount_effect (hs : w.still = false)
    (hguard : Guard env w s) (hn : (s.facts env.db address).nonce = 0) (hi : ¬ w.idle address)
    (hc : w.frugal → ¬ w.idle caller) (hbal : (value : Int) ≤ (s.facts env.db caller).balance) :
    Effect env w s (newAccount env s caller address value) 0 ∧
      ∀ x, Remains s (newAccount env s caller address value) x →
        ((newAccount env s caller address value).facts env.db x).balance =
          (s.facts env.db x).balance + (if x = address then (value : Int) else 0) - if x = caller then (value : Int) else 0 := by
  have hpc : Permitted env w s (.createAccount address) := .inr ⟨hs, hn⟩
  have hcreate : Effect env w s (s.createAccount address) 0 := Effect.refl.mutate hpc rfl
  have hcwf := (hcreate.good hguard.good).wf
  have hpn : Permitted env w (s.createAccount address) (.setNonce address 1) := ⟨hs, hi⟩
  -- the account before it is paid
  obtain ⟨t, ht⟩ : ∃ t, t = if env.rules.isEIP158 then (s.createAccount address).setNonce address 1 else s.createAccount address :=
    ⟨_, rfl⟩
  have hafter : Effect env w (s.createAccount address) t 0 := by
    rw [ht]
    split
    · exact Effect.refl.mutate hpn rfl
    · exact .refl
  have hnonce : Effect env w s t 0 := hcreate.trans hafter
  have hsame (x : Address) (hx : Remains s (s.createAccount address) x ∨ s.live x ≠ none) :
      (t.facts env.db x).balance = (s.facts env.db x).balance := by
    rw [← hpc.balance hguard.good.wf rfl hx, ht]
    split
    · exact incremented_balance hcwf address x 1
    · rfl
  have hstill (h : w.still = true) : value = 0 := by rw [hs] at h; cases h
  have hsend := affords hbal fun hl => hsame caller (.inr hl)
  unfold newAccount
  simp only
  rw [← ht]
  refine ⟨hnonce.transfer hstill hc hsend, fun x hx => ?_⟩
  rw [transfer_facts_apply (hnonce.good hguard.good).wf,
    ← hsame x (.inl ((hafter.transfer hstill hc hsend).remains_left (hcreate.good hguard.good) hx))]

theorem deploy_sat (evm : Evm D) {address : Address} {r : Ran D} {E : Panic → Prop} {F : Prop} (hs : w.still = false)
    (hguard : Guard env w evm.state) (hi : ¬ w.idle address) (hr : Tried env w evm gas r) :
    (deploy env address evm.state.nextRevisionId r).Sat (fun r' => Outcome env w evm gas r' ∧
      ((r'.err ≠ none ∧ Warm env.db (fun _ => False) r'.evm.state evm.state) ∨
        ((r'.err = none ∨ env.rules.isHomestead = false) ∧
          (r'.evm.state = r.evm.state ∨ r'.evm.state = r.evm.state.setCode env.db address r.ret)))) E F := by
  -- the frame with its code set
  obtain ⟨r', hr'⟩ : ∃ r', r' = (if r.err.isNone && !(env.rules.isEIP158 && decide (r.ret.length > Params.maxCodeSize)) then
      if r.gas < mul64 r.ret.length Params.createDataGas then { r with err := some .codeStoreOutOfGas }
      else { r with
        gas := r.gas - mul64 r.ret.length Params.createDataGas
        evm := { r.evm with state := r.evm.state.setCode env.db address r.ret } }
    else r : Ran D) := ⟨_, rfl⟩
  have htried : Tried env w evm gas r' ∧
      (r'.evm.state = r.evm.state ∨ r'.evm.state = r.evm.state.setCode env.db address r.ret) := by
    rw [hr']
    split
    · split
      · exact ⟨⟨hr.gas, hr.moved⟩, .inl rfl⟩
      · exact ⟨⟨(Nat.sub_le _ _).trans hr.gas,
          hr.moved.trans (.of_effect (Effect.refl.mutate (m := .setCode address r.ret) ⟨hs, hi⟩ rfl))⟩, .inr rfl⟩
    · exact ⟨hr, .inl rfl⟩
  obtain ⟨htried, hstate⟩ := htried
  unfold deploy
  simp only
  rw [← hr']
  split
  · rename_i hfail
    refine (htried.failed_sat hguard.good).bind ?_
    rintro r'' ⟨hm, hw, hgas, he, -, hsp⟩
    refine ⟨⟨⟨hgas, hm⟩, fun _ _ => hw, fun _ _ => hsp.imp_right fun he => .inl ?_⟩, .inl ⟨?_, hw⟩⟩
    · show (if _ then _ else r''.err) = _
      rw [he]
      split
      · rename_i h; simp at h
      · rfl
    · show (if _ then _ else r''.err) ≠ none
      rw [he]
      split
      · exact nofun
      · rename_i h
        intro hn
        rw [hn] at hfail h
        simp at hfail h
        exact absurd (h hfail.1) (Nat.not_le.2 hfail.2)
  · rename_i hkeep
    have hnone (hh : env.rules.isHomestead = true) :
        (if (env.rules.isEIP158 && decide (r.ret.length > Params.maxCodeSize)) && r'.err.isNone then
          some VmError.maxCodeSizeExceeded else r'.err) = none := by
      rw [hh, Bool.true_or, Bool.and_true, Bool.or_eq_true, not_or] at hkeep
      rw [Bool.eq_false_iff.2 hkeep.1]
      simpa using hkeep.2
    refine ⟨⟨⟨htried.gas, htried.succeeded⟩, fun hh he => absurd (hnone hh) he, fun hh he => absurd (hnone hh) he⟩,
      .inr ⟨?_, hstate⟩⟩
    cases hh : env.rules.isHomestead with
    | true => exact .inl (hnone hh)
    | false => exact .inr rfl

/-- A creation that has come to run the code: `t` is the state a failure is undone
to, and `u` that with the new account. -/
structure Founded (env : Env D) (w : Watch) (evm : Evm D) (caller address : Address) (value : Nat) (t u : StateDB D) :
    Prop where
  reads : Effect env w evm.state t 0
  warm : Warm env.db (fun _ => False) t evm.state
  effect : Effect env w t.snapshot.2 u 0
  idle : ¬ w.idle address
  balance : ∀ x, Remains evm.state u x → (u.facts env.db x).balance = (evm.state.facts env.db x).balance +
    (if x = address then (value : Int) else 0) - if x = caller then (value : Int) else 0

theorem createAt_cases (runner : Runner D) (code : Bytes) (hs : w.still = false)
    (hc : w.frugal → ¬ w.idle caller) (hguard : Guard env w evm.state)
    (hbal : (value : Int) ≤ (evm.state.facts env.db caller).balance) :
    (∃ r, createAt env runner evm caller code gas value address = .ok r ∧ Outcome env w evm gas r ∧
        (r.err ≠ none → Warm env.db (fun _ => False) r.evm.state evm.state) ∧ (r.err = none → 0 < evm.depth)) ∨
      ∃ t u, Founded env w evm caller address value t u ∧
        createAt env runner evm caller code gas value address = (do
          let r ← runner { evm with state := u } ⟨caller, address, code, address, [], gas, value⟩ [] false
          deploy env address t.nextRevisionId r) := by
  have hwf := hguard.good.wf
  -- the state after the reads
  obtain ⟨⟨hash, s₁⟩, h₁⟩ : ∃ p, evm.state.getCodeHash address = p := ⟨_, rfl⟩
  obtain ⟨⟨nonce, t⟩, h₂⟩ : ∃ p, s₁.getNonce address = p := ⟨_, rfl⟩
  have hs₁ : (evm.state.get env.db (.codeHash address)).2 = s₁ := congrArg Prod.snd h₁
  have ht : (s₁.get env.db (.nonce address)).2 = t := congrArg Prod.snd h₂
  have hwarm₁ : Warm env.db (fun _ => False) s₁ evm.state := hs₁ ▸ (hwf.get_warm (.codeHash address)).1
  have hwf₁ := hwarm₁.wf hwf
  have htw : Warm env.db (fun _ => False) t evm.state := (ht ▸ (hwf₁.get_warm (.nonce address)).1).trans hwarm₁
  have hte : Effect env w evm.state t 0 := ht ▸ hs₁ ▸ (Effect.refl.get (.codeHash address)).get (.nonce address)
  have htg := hte.guard hguard
  have hfacts : t.facts env.db = evm.state.facts env.db := htw.facts
  have hnonce : nonce = (t.facts env.db address).nonce := by
    rw [hfacts, ← hwarm₁.facts, ← hwf₁.getNonce_eq, h₂]
  unfold createAt
  rw [h₁]
  simp only [h₂]
  rw [hnonce]
  split
  · exact .inl ⟨_, rfl, ⟨⟨Nat.zero_le _, .of_effect hte⟩, fun _ _ => htw, fun _ _ => .inl rfl⟩, fun _ => htw, nofun⟩
  rename_i hfree
  have hn : (t.facts env.db address).nonce = 0 := not_not.1 (not_or.1 hfree).1
  have hi : ¬ w.idle address := fun h => (htg.idle address h).1 hn
  have hsnap : Effect env w t t.snapshot.2 0 := Effect.refl.mutate (m := .snapshot) trivial rfl
  have hsg := hsnap.guard htg
  obtain ⟨hnew, hkeep⟩ := newAccount_effect hs hsg hn hi hc (by rw [← hfacts] at hbal; exact hbal)
  rw [show t.snapshot = (t.nextRevisionId, t.snapshot.2) from rfl]
  simp only
  split
  · rename_i hrec
    exact .inl ⟨_, rfl, ⟨⟨le_refl _, rfl, rfl, 0, (hte.trans hsnap).trans hnew⟩, fun _ h => absurd rfl h,
      fun _ h => absurd rfl h⟩, fun h => absurd rfl h, fun _ => by simpa using (Bool.and_eq_true_iff.1 hrec).2⟩
  · exact .inr ⟨t, _, ⟨hte, htw, hnew, hi, fun x hx => by rw [← hfacts]; exact hkeep x fun ha => (congrFun htw.leftover x).trans (hx ha)⟩, rfl⟩

theorem createAt_sat (evm : Evm D) {code : Bytes} (hs : w.still = false)
    (hc : w.frugal → ¬ w.idle caller) (hrun : RunnerOk env w runner evm.depth bound) (hp : Protected env w evm.readOnly)
    (hguard : Guard env w evm.state) (hbal : (value : Int) ≤ (evm.state.facts env.db caller).balance) (hg : gas < two64)
    (hb : gas < bound) :
    (createAt env runner evm caller code gas value address).Sat (Outcome env w evm gas) (· = .refund)
      False := by
  rcases createAt_cases runner code hs hc hguard hbal with ⟨r, hr, hout, -, -⟩ | ⟨t, u, hf, hr⟩
  · rw [hr]
    exact hout
  have htg := hf.reads.guard hguard
  have hsg : Guard env w t.snapshot.2 := (Effect.refl.mutate (m := .snapshot) trivial rfl : Effect env w t _ 0).guard htg
  have hmoved : Moved env w { evm with state := t.snapshot.2 } { evm with state := u } := ⟨rfl, rfl, 0, hf.effect⟩
  rw [hr]
  refine (hrun { evm with state := u } ⟨caller, address, code, address, [], gas, value⟩ [] false rfl
    (by rw [Bool.or_false]; exact hp) (hf.effect.guard hsg) (fun _ => hf.idle) hg hb).bind ?_
  intro r hr
  refine (deploy_sat { evm with state := t } hs htg hf.idle ⟨hr.gas, hmoved.trans hr.moved⟩).mono fun r' hr' => ?_
  replace hr' := hr'.1
  exact ⟨⟨hr'.gas, (Moved.of_effect hf.reads).trans hr'.moved⟩, fun hh he => (hr'.undone hh he).trans hf.warm, hr'.spent⟩

theorem create_cases (runner : Runner D) (evm : Evm D) (caller address : Address) (code : Bytes) (gas value : Nat)
    (hwf : evm.state.WF env.db) :
    (¬ (evm.depth ≤ Params.callCreateDepth ∧ (value : Int) ≤ (evm.state.facts env.db caller).balance) ∧
        ∃ t err, Warm env.db (fun _ => False) t evm.state ∧ (∀ w, Effect env w evm.state t 0) ∧
          (err = .depth ∨ err = .insufficientBalance) ∧
          create env runner evm caller code gas value address = .ok (.of { evm with state := t } [] gas (some err))) ∨
      (evm.depth ≤ Params.callCreateDepth ∧ (value : Int) ≤ (evm.state.facts env.db caller).balance ∧
        ∃ s, Warm env.db (fun _ => False) s evm.state ∧ (∀ w, Effect env w evm.state s 0) ∧
          create env runner evm caller code gas value address = createAt env runner
            { evm with state := s.setNonce caller ((s.facts env.db caller).nonce + 1) } caller code gas value address) := by
  unfold create
  split
  · rename_i hdepth
    exact .inl ⟨fun h => by omega, evm.state, _, .refl _, fun _ => .refl, .inl rfl, rfl⟩
  rename_i hdepth
  rw [canTransfer_eq hwf]
  have hwarm₁ := (hwf.get_warm (.balance caller)).1
  have heff₁ (w : Watch) : Effect env w evm.state (evm.state.get env.db (.balance caller)).2 0 :=
    Effect.refl.get (.balance caller)
  obtain ⟨t, ht⟩ : ∃ t, t = (evm.state.get env.db (.balance caller)).2 := ⟨_, rfl⟩
  rw [← ht] at hwarm₁ heff₁ ⊢
  simp only
  split
  · rename_i hbal
    exact .inl ⟨fun h => by simp [h.2] at hbal, t, _, hwarm₁, heff₁, .inr rfl, rfl⟩
  rename_i hbal
  have hwf₁ := hwarm₁.wf hwf
  obtain ⟨⟨nonce, u⟩, hn⟩ : ∃ p, t.getNonce caller = p := ⟨_, rfl⟩
  have hu : (t.get env.db (.nonce caller)).2 = u := congrArg Prod.snd hn
  have huw : Warm env.db (fun _ => False) u evm.state := (hu ▸ (hwf₁.get_warm (.nonce caller)).1).trans hwarm₁
  have hnonce : nonce = (u.facts env.db caller).nonce := by
    rw [huw.facts, ← hwarm₁.facts, ← hwf₁.getNonce_eq, hn]
  simp only [hn]
  rw [hnonce]
  exact .inr ⟨Nat.le_of_not_lt hdepth, by simpa using hbal, u, huw, fun w => hu ▸ (heff₁ w).get (.nonce caller), rfl⟩

theorem create_sat (evm : Evm D) {code : Bytes} (hs : w.still = false)
    (hrun : evm.depth ≤ Params.callCreateDepth → RunnerOk env w runner evm.depth bound)
    (hp : Protected env w evm.readOnly) (hguard : Guard env w evm.state) (hi : ¬ w.idle caller)
    (hg : gas < two64) (hb : gas < bound) :
    (create env runner evm caller code gas value address).Sat
      (fun r => Replied env w evm gas r ∧
        (((r.err = some .depth ∨ r.err = some .insufficientBalance) ∧
            Warm env.db (fun _ => False) r.evm.state evm.state) ∨
          ∃ s, Warm env.db (fun _ => False) s evm.state ∧
            Outcome env w { evm with state := s.setNonce caller ((s.facts env.db caller).nonce + 1) } gas r))
      (· = .refund) False := by
  have hwf := hguard.good.wf
  rcases create_cases runner evm caller address code gas value hwf with
    ⟨-, t, err, htw, hte, he, hr⟩ | ⟨hdepth, hbal, s, hsw, hse, hr⟩
  · rw [hr]
    exact ⟨⟨le_refl _, .of_effect (hte w)⟩, .inl ⟨he.imp (congrArg some) (congrArg some), htw⟩⟩
  have hset : Effect env w evm.state (s.setNonce caller ((s.facts env.db caller).nonce + 1)) 0 :=
    (hse w).mutate (m := .setNonce caller _) ⟨hs, hi⟩ rfl
  rw [← hsw.facts] at hbal
  rw [hr]
  refine (createAt_sat { evm with state := s.setNonce caller ((s.facts env.db caller).nonce + 1) } hs (fun _ => hi)
    (hrun hdepth) hp (hset.guard hguard) (by rw [incremented_balance (hsw.wf hwf)]; exact hbal) hg hb).mono fun r hr => ?_
  exact ⟨⟨hr.gas, (Moved.of_effect hset).trans hr.moved⟩, .inr ⟨s, hsw, hr⟩⟩

/-! ## The knot -/

theorem perform_ok (hrun : depth ≤ Params.callCreateDepth → RunnerOk env w runner depth bound) :
    CallsOk env w (perform env runner) depth bound False := by
  rintro evm req rfl hp hguard hfit hg hb
  cases req with
  | call caller addr input gas value => exact (call_sat hrun hguard hg hb hp hfit.1 fun _ => hfit.2).mono fun _ h => h.toReplied
  | callCode caller addr input gas value => exact (callCode_sat hrun hguard hg hb hp hfit).mono fun _ h => h.toReplied
  | delegateCall caller addr input gas =>
    exact (delegateCall_sat hrun hguard hg hb hp hfit).mono fun _ h => h.toReplied
  | staticCall caller addr input gas =>
    have hp' : Protected env w (evm.readOnly || true) := fun h => ⟨Bool.or_true _, (hp h).2⟩
    exact (staticCall_sat hrun hguard hg hb hp').mono fun _ h => h.toReplied
  | create caller code gas value =>
    have hget : Moved env w evm { evm with state := (evm.state.getNonce caller).2 } :=
      .of_effect (Effect.refl.get (.nonce caller))
    refine (create_sat { evm with state := (evm.state.getNonce caller).2 } hfit.1 hrun hp
      (hget.guard hguard) hfit.2 hg hb).mono fun r h => ?_
    exact ⟨h.1.gas, hget.trans h.1.moved⟩
  | create2 caller code gas endowment salt =>
    exact (create_sat evm hfit.1 hrun hp hguard hfit.2 hg hb).mono fun _ h => h.1

/-- `Run` with all calls below it: more rounds than there is gas are enough,
and so many levels that the depth limit is met. -/
theorem interpret_ok (env : Env D) (w : Watch) (rounds : Nat) {levels depth : Nat} (hl : 0 < levels)
    (hd : Params.callCreateDepth < depth + levels) : RunnerOk env w (interpret env rounds levels) depth rounds := by
  induction levels generalizing depth with
  | zero => cases hl
  | succ levels ih =>
    refine interpreterRun_ok (perform_ok fun hle => run_ok (ih ?_ ?_))
    · omega
    · omega

theorem run_interpret_ok (env : Env D) (w : Watch) (rounds : Nat) {levels depth : Nat}
    (hd : Params.callCreateDepth < depth + levels) (h : depth ≤ Params.callCreateDepth) :
    RunnerOk env w (run env (interpret env rounds levels)) depth rounds :=
  run_ok (interpret_ok env w rounds (by omega) hd)

end NdnGeth.Vm
