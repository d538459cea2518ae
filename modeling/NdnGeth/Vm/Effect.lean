/-
What an execution can do to the state.

`Effect env w s t d`: a frame can take the state from `s` to `t`, by calls of
the state database that it is allowed to make (`Permitted`), by transfers and
self-destructions, and by frames that failed and were undone. `d` is what was
destroyed: the balances of accounts that were their own beneficiary.

`Watch` says which executions are meant: those in read-only mode, and those in
which some accounts run no code. From this follow the invariant of the state
database and that everything can be undone (`Effect.ext`), that nothing is seen
of a read-only execution (`Effect.calm`), that accounts that run no code keep
their nonce (`Effect.idle`), and what becomes of the sum of all balances
(`Effect.total`); where no account was created that was deleted before, and had
a balance then (`Remains`).
-/
import Mathlib.Algebra.BigOperators.Group.Finset.Basic
import Mathlib.Algebra.BigOperators.Group.Finset.Piecewise
import Mathlib.Data.FinEnum
import NdnGeth.State.Calm
import NdnGeth.Vm.Interpreter

namespace NdnGeth.Vm

open Function
open State
open State.StateDB (Good Ext Warm Steps Quiet Calm)
open Types (Address)

variable {D : Digests}

/-! ## Effects -/

/-- Which executions are meant. -/
structure Watch where
  /-- The execution is in read-only mode. -/
  still : Bool
  /-- Accounts that run no code. -/
  idle : Address → Prop
  /-- The accounts that run no code send nothing. -/
  frugal : Prop

/-- The accounts that a call without value creates. -/
def Env.Creates (env : Env D) (a : Address) : Prop :=
  (env.rules.calledPrecompiles a).isSome ∨ env.rules.isEIP158 = false

/-- When a frame makes a call of the state database. -/
def Permitted (env : Env D) (w : Watch) (s : StateDB D) : Mutation → Prop
  | .get _ => True
  | .snapshot => True
  | .addPreimage _ _ => True
  | .addBalance _ v => v = 0
  | .createAccount a =>
    (s.live a = none ∧ (w.still = true → env.Creates a)) ∨ (w.still = false ∧ (s.facts env.db a).nonce = 0)
  | .setNonce a _ => w.still = false ∧ ¬ w.idle a
  | .setCode a _ => w.still = false ∧ ¬ w.idle a
  | .setState _ _ _ => w.still = false
  | .addLog _ => w.still = false
  | .addRefund _ => w.still = false
  | .subRefund _ => w.still = false
  | _ => False

inductive Effect (env : Env D) (w : Watch) : StateDB D → StateDB D → Int → Prop
  | refl {s : StateDB D} : Effect env w s s 0
  | mutate {s t u : StateDB D} {d : Int} {m : Mutation} : Effect env w s t d → Permitted env w t m →
    t.mutate env.db m = some u → Effect env w s u d
  | transfer {s t : StateDB D} {d : Int} {a b : Address} {v : Nat} : Effect env w s t d →
    (w.still = true → v = 0) → (w.frugal → ¬ w.idle a) → (v = 0 ∨ (v : Int) ≤ (t.facts env.db a).balance) →
    Effect env w s (transfer t a b v) d
  | destroy {s t : StateDB D} {d : Int} {a b : Address} : Effect env w s t d → w.still = false → ¬ w.idle a →
    Effect env w s (selfdestruct t a b) (d + if a = b then (t.facts env.db a).balance else 0)
  | failed {s t u v : StateDB D} {d d' : Int} : Effect env w s t d → Effect env w t.snapshot.2 u d' →
    u.revertToSnapshot t.nextRevisionId = some v → Effect env w s v d

namespace Effect

variable {env : Env D} {w : Watch} {s t u : StateDB D} {d d' : Int}

theorem trans (h₁ : Effect env w s t d) (h₂ : Effect env w t u d') : Effect env w s u (d + d') := by
  induction h₂ with
  | refl => rw [Int.add_zero]; exact h₁
  | mutate _ hp hm ih => exact (ih h₁).mutate hp hm
  | transfer _ hs hi hv ih => exact (ih h₁).transfer hs hi hv
  | destroy _ hs hi ih => rw [← Int.add_assoc]; exact (ih h₁).destroy hs hi
  | failed _ hf hr ih => exact (ih h₁).failed hf hr

theorem get (h : Effect env w s t d) (g : Getter) : Effect env w s (t.get env.db g).2 d :=
  h.mutate (m := .get g) trivial rfl

end Effect

/-! ## The invariant, and undoing -/

variable {env : Env D} {w : Watch} {s t u : StateDB D} {d d' : Int} {A : Address → Prop}

theorem transfer_steps (h : s.WF env.db) (a b : Address) (v : Nat) : Steps env.db A s (transfer s a b v) := by
  have hsub : Steps env.db A s (s.subBalance a v) := h.subBalance a v
  exact hsub.trans ((hsub.wf h).addBalance b v)

theorem selfdestruct_steps (h : s.WF env.db) (a b : Address) : Steps env.db A s (selfdestruct s a b) := by
  have hget : Steps env.db A s (s.getBalance a).2 := (h.getBalance a).2
  have hadd : Steps env.db A s ((s.getBalance a).2.addBalance b (s.getBalance a).1) :=
    hget.trans ((hget.wf h).addBalance b _)
  exact hadd.trans ((hadd.wf h).suicide a)

variable {a : Address} {m : Mutation}

theorem Permitted.steps (h : s.WF env.db) (hp : Permitted env w s m) (hm : s.mutate env.db m = some t) :
    Steps env.db A s t ∨ t = s.snapshot.2 := by
  rcases h.mutate (A := A) hm (by rintro a st rfl; exact hp.elim) with hs | hs | ⟨i, rfl, -⟩
  · exact .inl hs
  · exact .inr hs
  · exact hp.elim

theorem Effect.ext (h : Effect env w s t d) (hs : Good env.db s) :
    Good env.db t ∧ Ext env.db (fun _ => False) s t := by
  have hstep {s t u : StateDB D} (ht : Good env.db t ∧ Ext env.db (fun _ => False) s t)
      (hst : Steps env.db (fun _ => False) t u) : Good env.db u ∧ Ext env.db (fun _ => False) s u :=
    ⟨ht.1.steps hst, ht.2.trans (.of_steps hst ht.1.inv) ht.1.inv⟩
  induction h with
  | refl => exact ⟨hs, .refl _⟩
  | mutate _ hp hm ih =>
    obtain ⟨ht, hext⟩ := ih hs
    rcases hp.steps ht.wf hm with hst | rfl
    · exact hstep ⟨ht, hext⟩ hst
    · exact ⟨ht.snapshot, hext.trans (.snapshot _) ht.inv⟩
  | transfer _ _ _ _ ih => exact hstep (ih hs) (transfer_steps (ih hs).1.wf _ _ _)
  | destroy _ _ _ ih => exact hstep (ih hs) (selfdestruct_steps (ih hs).1.wf _ _)
  | failed _ _ hr ih₁ ih₂ =>
    obtain ⟨ht, hext⟩ := ih₁ hs
    obtain ⟨hu, hext'⟩ := ih₂ ht.snapshot
    have hback := ((Ext.snapshot _).trans hext' ht.snapshot.inv).revert ht.revs hu (Nat.le_refl _) hr
    exact ⟨hu.revert hr, hext.trans hback ht.inv⟩

theorem Effect.good (h : Effect env w s t d) (hs : Good env.db s) : Good env.db t := (h.ext hs).1

theorem Effect.revert (h : Effect env w s.snapshot.2 t d) (hs : Good env.db s) :
    ∃ u, t.revertToSnapshot s.nextRevisionId = some u ∧ Warm env.db (fun _ => False) u s := by
  obtain ⟨ht, hext⟩ := h.ext hs.snapshot
  exact hext.revertToSnapshot ht

theorem Effect.warm_of_failed {v : StateDB D} (h : Effect env w s.snapshot.2 u d) (hs : Good env.db s)
    (hr : u.revertToSnapshot s.nextRevisionId = some v) : Warm env.db (fun _ => False) v s := by
  obtain ⟨v', hv', hw⟩ := h.revert hs
  cases hr.symm.trans hv'
  exact hw

theorem Effect.leftover (h : Effect env w s t d) (hs : Good env.db s) (hl : s.leftover a = 0) :
    t.leftover a = 0 := by
  induction h with
  | refl => exact hl
  | mutate hst hp hm ih =>
    rcases hp.steps (A := fun _ => False) (hst.good hs).wf hm with h | rfl
    · exact h.leftover (ih hs hl)
    · exact ih hs hl
  | transfer hst _ _ _ ih =>
    exact (transfer_steps (A := fun _ => False) (hst.good hs).wf _ _ _).leftover (ih hs hl)
  | destroy hst _ _ ih =>
    exact (selfdestruct_steps (A := fun _ => False) (hst.good hs).wf _ _).leftover (ih hs hl)
  | failed hst hf hr ih _ =>
    rw [(hf.warm_of_failed (hst.good hs) hr).leftover]
    exact ih hs hl

/-- A balance that `a` left behind when it was deleted is still left behind: the
account was not created in between. -/
def Remains (s t : StateDB D) (a : Address) : Prop := t.leftover a = 0 → s.leftover a = 0

theorem Effect.remains_left {r : StateDB D} (h : Effect env w s t d) (hs : Good env.db s) (hk : Remains r t a) :
    Remains r s a := fun ha => hk (h.leftover hs ha)

theorem Effect.remains_right (h : Effect env w s t d) (hs : Good env.db s) (hk : Remains s u a) : Remains t u a :=
  fun ha => h.leftover hs (hk ha)

theorem leftover_of_live (hl : s.live a ≠ none) : s.leftover a = 0 := by
  obtain ⟨o, ho⟩ := Option.ne_none_iff_exists'.1 hl
  obtain ⟨hp, hd⟩ := StateDB.live_eq_some.1 ho
  rw [StateDB.leftover_eq_peek, hp]
  simp [hd]

theorem Remains.createAccount (h : s.WF env.db) (hk : Remains s (s.createAccount a) a) : s.leftover a = 0 :=
  hk (leftover_of_live (by rw [h.createAccount_live]; exact Option.some_ne_none _))

/-! ## Read-only mode -/

theorem transfer_zero_calm (h : s.WF env.db) (a b : Address) : Calm env.db s (transfer s a b 0) := by
  have hsub : Steps env.db (fun _ => False) s (s.subBalance a 0) := h.subBalance a 0
  exact (h.subBalance_zero_calm a).trans ((hsub.wf h).addBalance_zero_calm b)

/-- Nothing is seen to change but an account that the call may create, if it had
left a balance behind. -/
structure Unmoved (env : Env D) (s t : StateDB D) : Prop extends Quiet s t where
  facts : ∀ x, (env.Creates x → Remains s t x) → t.facts env.db x = s.facts env.db x

theorem Unmoved.of_calm (h : Calm env.db s t) : Unmoved env s t := ⟨h.toQuiet, fun x _ => congrFun h.facts x⟩

theorem Permitted.calm (h : s.WF env.db) (hstill : w.still = true) (hp : Permitted env w s m)
    (hm : s.mutate env.db m = some t) : Unmoved env s t := by
  have hno : ¬ w.still = false := by simp [hstill]
  cases m with
  | get g => cases hm; exact .of_calm (h.get_calm g)
  | snapshot => cases hm; exact .of_calm (StateDB.snapshot_calm s)
  | addPreimage hash p => cases hm; exact .of_calm (StateDB.addPreimage_calm s hash p)
  | addBalance a v =>
    cases hm
    cases (show v = 0 from hp)
    exact .of_calm (h.addBalance_zero_calm a)
  | createAccount a =>
    cases hm
    rcases hp with ⟨hlive, hc⟩ | ⟨hs, -⟩
    · refine ⟨h.createObject_quiet hlive true, fun x hx => ?_⟩
      rw [h.createAccount_facts]
      by_cases ha : x = a
      · subst ha
        rw [update_self, (hx (hc hstill)).createAccount h, StateDB.facts_of_live_none hlive]
        rfl
      · rw [update_of_ne ha]
    · exact absurd hs hno
  | setNonce a n => exact absurd hp.1 hno
  | setCode a c => exact absurd hp.1 hno
  | setState a k v | addLog l | addRefund g | subRefund g => exact absurd hp hno
  | _ => exact hp.elim

theorem Effect.calm (h : Effect env w s t d) (hstill : w.still = true) (hs : Good env.db s) : Unmoved env s t := by
  -- one more step of the effect
  have hstep {s t u : StateDB D} {d d' : Int} (hst : Effect env w s t d) (hs : Good env.db s) (ih : Unmoved env s t)
      (htu : Effect env w t u d') (h : Unmoved env t u) : Unmoved env s u :=
    ⟨ih.toQuiet.trans h.toQuiet, fun x hx => (h.facts x fun hc => hst.remains_right hs (hx hc)).trans
      (ih.facts x fun hc => htu.remains_left (hst.good hs) (hx hc))⟩
  induction h with
  | refl => exact .of_calm (.refl _)
  | mutate hst hp hm ih =>
    exact hstep hst hs (ih hs) (Effect.refl.mutate hp hm) (hp.calm (hst.good hs).wf hstill hm)
  | @transfer _ t _ a b v hst hz hi hv ih =>
    refine hstep hst hs (ih hs) (Effect.refl.transfer hz hi hv) (.of_calm ?_)
    rw [hz hstill]
    exact transfer_zero_calm (hst.good hs).wf _ _
  | destroy _ hz _ _ => rw [hstill] at hz; cases hz
  | failed hst hf hr ih₁ ih₂ =>
    have ht := hst.good hs
    obtain ⟨hu, hext⟩ := hf.ext ht.snapshot
    exact hstep hst hs (ih₁ hs) (Effect.refl.failed hf hr) (.of_calm ((ih₂ ht.snapshot).revert hext hu hr))

/-! ## Balances and nonces -/

/-- A permitted call shows on one account. It leaves the balance, and what
accounts that run no code have for a nonce and code. -/
theorem Permitted.facts (h : s.WF env.db) (hp : Permitted env w s m) (hm : s.mutate env.db m = some t) :
    ∃ a f, t.facts env.db = update (s.facts env.db) a f ∧
      (Remains s t a ∨ s.live a ≠ none → f.balance = (s.facts env.db a).balance) ∧
      (w.idle a → (s.facts env.db a).nonce ≠ 0 →
        f.nonce = (s.facts env.db a).nonce ∧ f.code = (s.facts env.db a).code) := by
  have hsame (hf : t.facts env.db = s.facts env.db) : ∃ a f, t.facts env.db = update (s.facts env.db) a f ∧
      (Remains s t a ∨ s.live a ≠ none → f.balance = (s.facts env.db a).balance) ∧
      (w.idle a → (s.facts env.db a).nonce ≠ 0 →
        f.nonce = (s.facts env.db a).nonce ∧ f.code = (s.facts env.db a).code) :=
    ⟨0, s.facts env.db 0, by rw [hf, update_eq_self], fun _ => rfl, fun _ _ => ⟨rfl, rfl⟩⟩
  cases m with
  | get g => cases hm; exact hsame (h.get_warm g).1.facts
  | snapshot => cases hm; exact hsame rfl
  | addPreimage hash p => cases hm; exact hsame (StateDB.addPreimage_calm s hash p).facts
  | addBalance a v =>
    cases hm
    cases (show v = 0 from hp)
    exact hsame (h.addBalance_zero_calm a).facts
  | createAccount a =>
    cases hm
    refine ⟨a, _, h.createAccount_facts a, fun hk => ?_, fun _ hn => ?_⟩
    · rw [hk.elim (fun hk => hk.createAccount h) leftover_of_live, Int.add_zero]
    · rcases hp with ⟨hlive, -⟩ | ⟨-, hz⟩
      · rw [StateDB.facts_of_live_none hlive] at hn
        exact absurd rfl hn
      · exact absurd hz hn
  | setNonce a n =>
    cases hm
    exact ⟨a, _, h.setNonce_facts a n, fun _ => rfl, fun hi => absurd hi hp.2⟩
  | setCode a c =>
    cases hm
    exact ⟨a, _, h.setCode_facts a c, fun _ => rfl, fun hi => absurd hi hp.2⟩
  | setState a k v =>
    cases hm
    obtain ⟨st, hst⟩ := h.setState_facts a k v
    exact ⟨a, _, hst, fun _ => rfl, fun _ _ => ⟨rfl, rfl⟩⟩
  | addLog l => cases hm; exact hsame rfl
  | addRefund g => cases hm; exact hsame rfl
  | subRefund g =>
    simp only [StateDB.mutate, StateDB.subRefund] at hm
    split at hm
    · cases hm
    · cases hm; exact hsame rfl
  | _ => exact hp.elim

theorem transfer_facts (h : s.WF env.db) (a b : Address) (v : Nat) :
    (transfer s a b v).facts env.db =
      let f := update (s.facts env.db) a
        { s.facts env.db a with balance := (s.facts env.db a).balance - v }
      update f b { f b with balance := (f b).balance + v } := by
  have hsub : Steps env.db (fun _ => False) s (s.subBalance a v) := h.subBalance a v
  rw [transfer, (hsub.wf h).addBalance_facts, h.subBalance_facts]

theorem transfer_facts_apply (h : s.WF env.db) (a b x : Address) (v : Nat) :
    (transfer s a b v).facts env.db x = { s.facts env.db x with
      balance := (s.facts env.db x).balance + (if x = b then (v : Int) else 0) - if x = a then (v : Int) else 0 } := by
  have hbal {v v' : Int} (hv : v = v') : ({ s.facts env.db x with balance := v } : Facts) =
      { s.facts env.db x with balance := v' } := by rw [hv]
  rw [transfer_facts h]
  by_cases hb : x = b
  · subst hb
    by_cases ha : x = a
    · subst ha
      simp only [update_self, if_true]
      exact hbal (by omega)
    · simp only [update_self, if_true, if_neg ha, update_of_ne ha]
      exact hbal (by omega)
  · by_cases ha : x = a
    · subst ha
      simp only [update_of_ne hb, update_self, if_true, if_neg hb]
      exact hbal (by omega)
    · simp only [update_of_ne hb, update_of_ne ha, if_neg hb, if_neg ha]
      exact hbal (show (s.facts env.db x).balance = _ by omega)

theorem selfdestruct_facts (h : s.WF env.db) (a b x : Address) :
    ((selfdestruct s a b).facts env.db x).balance =
        (if x = a then 0 else (s.facts env.db x).balance + if x = b then (s.facts env.db a).balance else 0) ∧
      ((selfdestruct s a b).facts env.db x).nonce = (s.facts env.db x).nonce ∧
      ((selfdestruct s a b).facts env.db x).code = (s.facts env.db x).code := by
  have hget := (h.get_warm (.balance a)).1
  have hfacts : (s.getBalance a).2.facts env.db = s.facts env.db := hget.facts
  have hwf : (s.getBalance a).2.WF env.db := hget.wf h
  -- the state after the beneficiary is paid
  obtain ⟨p, hp⟩ : ∃ p, p = (s.getBalance a).2.addBalance b (s.getBalance a).1 := ⟨_, rfl⟩
  have hpwf : p.WF env.db := hp ▸ (hwf.addBalance (A := fun _ => False) b _).wf hwf
  have hpaid : p.facts env.db = update (s.facts env.db) b
      { s.facts env.db b with balance := (s.facts env.db b).balance + (s.facts env.db a).balance } := by
    rw [hp, hwf.addBalance_facts, hfacts, h.getBalance_eq]
  have hend : (selfdestruct s a b).facts env.db = update (p.facts env.db) a
      (if (p.live a).isSome then { p.facts env.db a with balance := 0, suicided := true } else p.facts env.db a) := by
    rw [← hpwf.suicide_facts, hp]
    rfl
  have hp' (y : Address) : (p.facts env.db y).nonce = (s.facts env.db y).nonce ∧
      (p.facts env.db y).code = (s.facts env.db y).code := by
    rw [hpaid]
    by_cases hy : y = b
    · subst hy; simp
    · simp [update_of_ne hy]
  rw [hend]
  by_cases hx : x = a
  · subst hx
    simp only [update_self, if_true]
    cases hl : p.live x with
    | some o => simpa using hp' x
    | none =>
      have hn : p.facts env.db x = .nothing := StateDB.facts_of_live_none hl
      refine ⟨?_, hp' x⟩
      simp only [Option.isSome_none, Bool.false_eq_true, if_false, hn]
      rfl
  · simp only [update_of_ne hx, if_neg hx]
    refine ⟨?_, hp' x⟩
    rw [hpaid]
    by_cases hb : x = b
    · subst hb; simp
    · simp [hb]

theorem Effect.idle (h : Effect env w s t d) (hs : Good env.db s) (ha : w.idle a) (hn : (s.facts env.db a).nonce ≠ 0) :
    (t.facts env.db a).nonce = (s.facts env.db a).nonce ∧ (t.facts env.db a).code = (s.facts env.db a).code := by
  induction h with
  | refl => exact ⟨rfl, rfl⟩
  | mutate hst hp hm ih =>
    obtain ⟨ih1, ih2⟩ := ih hs hn
    obtain ⟨b, f, hf, -, hi⟩ := hp.facts (hst.good hs).wf hm
    rw [hf]
    by_cases hab : a = b
    · subst hab
      rw [update_self, ← ih1, ← ih2]
      exact hi ha (by rw [ih1]; exact hn)
    · rw [update_of_ne hab]
      exact ⟨ih1, ih2⟩
  | transfer hst _ _ _ ih =>
    rw [transfer_facts_apply (hst.good hs).wf]
    exact ih hs hn
  | destroy hst _ _ ih =>
    obtain ⟨-, h1, h2⟩ := selfdestruct_facts (hst.good hs).wf _ _ a
    rw [h1, h2]
    exact ih hs hn
  | failed hst hf hr ih _ =>
    rw [(hf.warm_of_failed (hst.good hs) hr).facts]
    exact ih hs hn

/-! ## The sum of all balances -/

/-- The sum of all balances. -/
def total (db : Database D) (s : StateDB D) : Int := ∑ a : Address, (s.facts db a).balance

theorem total_of_balance {db : Database D} (h : ∀ a, (t.facts db a).balance = (s.facts db a).balance) :
    total db t = total db s := Finset.sum_congr rfl fun a _ => h a

theorem total_of_changes {db : Database D} {f : Address → Int}
    (h : ∀ x, (t.facts db x).balance = (s.facts db x).balance + f x) : total db t = total db s + ∑ x, f x := by
  unfold total
  rw [Finset.sum_congr rfl fun x _ => h x, Finset.sum_add_distrib]

theorem transfer_total (h : s.WF env.db) (a b : Address) (v : Nat) :
    total env.db (transfer s a b v) = total env.db s := by
  simp [total, transfer_facts_apply h, Finset.sum_add_distrib, Finset.sum_sub_distrib]

theorem selfdestruct_total (h : s.WF env.db) (a b : Address) :
    total env.db (selfdestruct s a b) + (if a = b then (s.facts env.db a).balance else 0) = total env.db s := by
  unfold total
  have hx (x : Address) : ((selfdestruct s a b).facts env.db x).balance = (s.facts env.db x).balance +
      (if x = b then (if a = b then 0 else (s.facts env.db a).balance) else 0) +
      if x = a then -(s.facts env.db a).balance else 0 := by
    rw [(selfdestruct_facts h a b x).1]
    by_cases ha : x = a
    · subst ha
      by_cases hb : x = b
      · simp [hb]
      · simp [hb]
    · by_cases hb : x = b
      · subst hb
        simp [ha, Ne.symm ha]
      · simp [ha, hb]
  rw [Finset.sum_congr rfl fun x _ => hx x, Finset.sum_add_distrib, Finset.sum_add_distrib, Finset.sum_ite_eq',
    Finset.sum_ite_eq', if_pos (Finset.mem_univ b), if_pos (Finset.mem_univ a)]
  split <;> omega

/-- No balance is negative. -/
def Solvent (db : Database D) (s : StateDB D) : Prop := ∀ a, 0 ≤ (s.facts db a).balance

theorem Permitted.balance {x : Address} (h : s.WF env.db) (hp : Permitted env w s m)
    (hm : s.mutate env.db m = some t) (hk : Remains s t x ∨ s.live x ≠ none) :
    (t.facts env.db x).balance = (s.facts env.db x).balance := by
  obtain ⟨a, f, hf, hb, -⟩ := hp.facts h hm
  rw [hf]
  by_cases hx : x = a
  · subst hx
    rw [update_self]
    exact hb hk
  · rw [update_of_ne hx]

/-- Only what is destroyed is missing in the end, and no balance has become
negative. -/
theorem Effect.total (h : Effect env w s t d) (hs : Good env.db s) (hk : ∀ a, Remains s t a) (hb : Solvent env.db s) :
    Vm.total env.db t + d = Vm.total env.db s ∧ 0 ≤ d ∧ Solvent env.db t := by
  induction h with
  | refl => exact ⟨Int.add_zero _, le_refl _, hb⟩
  | mutate hst hp hm ih =>
    obtain ⟨ih1, ih2, ih3⟩ := ih hs (fun a => (Effect.refl.mutate hp hm).remains_left (hst.good hs) (hk a)) hb
    have hsame (x : Address) := hp.balance (hst.good hs).wf hm (.inl (hst.remains_right hs (hk x)))
    exact ⟨by rw [total_of_balance hsame]; exact ih1, ih2, fun a => by rw [hsame]; exact ih3 a⟩
  | @transfer _ _ _ a b v hst hz hi hv ih =>
    obtain ⟨ih1, ih2, ih3⟩ := ih hs (fun a => (Effect.refl.transfer hz hi hv).remains_left (hst.good hs) (hk a)) hb
    refine ⟨by rw [transfer_total (hst.good hs).wf]; exact ih1, ih2, fun x => ?_⟩
    rw [transfer_facts_apply (hst.good hs).wf]
    have hx := ih3 x
    by_cases ha : x = a
    · subst ha
      simp only [if_true]
      split <;> omega
    · simp only [if_neg ha]
      split <;> omega
  | @destroy _ t _ a b hst hz hi ih =>
    obtain ⟨ih1, ih2, ih3⟩ := ih hs (fun a => (Effect.refl.destroy hz hi).remains_left (hst.good hs) (hk a)) hb
    have htot := selfdestruct_total (hst.good hs).wf a b
    have ha := ih3 a
    refine ⟨by omega, ?_, fun x => ?_⟩
    · split <;> omega
    · rw [(selfdestruct_facts (hst.good hs).wf a b x).1]
      have hx := ih3 x
      split
      · exact le_refl _
      · split <;> omega
  | failed hst hf hr ih _ =>
    obtain ⟨ih1, ih2, ih3⟩ := ih hs (fun a => (Effect.refl.failed hf hr).remains_left (hst.good hs) (hk a)) hb
    have hback : ∀ x, _ = _ := fun x => congrArg Facts.balance (congrFun (hf.warm_of_failed (hst.good hs) hr).facts x)
    exact ⟨by rw [total_of_balance hback]; exact ih1, ih2, fun a => by rw [hback]; exact ih3 a⟩

theorem Effect.frugal {x : Address} (h : Effect env w s t d) (hs : Good env.db s) (hf : w.frugal)
    (hk : ∀ a, Remains s t a) (hb : Solvent env.db s) (hx : w.idle x) :
    (s.facts env.db x).balance ≤ (t.facts env.db x).balance := by
  induction h with
  | refl => exact le_refl _
  | mutate hst hp hm ih =>
    rw [hp.balance (hst.good hs).wf hm (.inl (hst.remains_right hs (hk x)))]
    exact ih hs (fun a => (Effect.refl.mutate hp hm).remains_left (hst.good hs) (hk a)) hb
  | @transfer _ _ _ a b v hst hz hi hv ih =>
    have hne : x ≠ a := fun h => hi hf (h ▸ hx)
    rw [transfer_facts_apply (hst.good hs).wf]
    have := ih hs (fun a => (Effect.refl.transfer hz hi hv).remains_left (hst.good hs) (hk a)) hb
    simp only [if_neg hne]
    split <;> omega
  | @destroy _ t _ a b hst hz hi ih =>
    have hne : x ≠ a := fun h => hi (h ▸ hx)
    have hkt (a : Address) := (Effect.refl.destroy hz hi).remains_left (hst.good hs) (hk a)
    rw [(selfdestruct_facts (hst.good hs).wf a b x).1, if_neg hne]
    have := ih hs hkt hb
    have := (hst.total hs hkt hb).2.2 a
    split <;> omega
  | failed hst hr hv ih _ =>
    rw [(hr.warm_of_failed (hst.good hs) hv).facts]
    exact ih hs (fun a => (Effect.refl.failed hr hv).remains_left (hst.good hs) (hk a)) hb

end NdnGeth.Vm
