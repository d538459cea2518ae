/-
What the getters show of an account, and what each setter changes of it.

`facts` has this without storage set for debugging, which is in `fakes`. A
balance that a deleted account left behind (`leftover`) is not seen until
`CreateAccount` brings it back.
-/
import NdnGeth.State.Create

namespace NdnGeth.State

open Function
open Lib.Rlp (Bytes)
open Core (Hash)
open Types (Address)

variable {D : Digests} {db : Database D}

/-- What there is to see of an account. -/
@[ext] structure Facts where
  balance : Int
  nonce : BitVec 64
  code : Bytes
  suicided : Bool
  storage : StorageTrie
  committed : StorageTrie

/-- Of an account that does not exist. -/
def Facts.nothing : Facts := ⟨0, 0, [], false, fun _ => 0, fun _ => 0⟩

def StateObject.facts (db : Database D) (o : StateObject D) : Facts :=
  ⟨o.data.balance, o.data.nonce, o.codeBytes db, o.suicided, o.current db, o.committed db⟩

theorem StateObject.Warmer.facts {fake : Prop} {o o' : StateObject D} (w : o'.Warmer db fake o) :
    o'.facts db = o.facts db := by
  rw [StateObject.facts, StateObject.facts, w.data, w.codeBytes, w.suicided, w.current, w.committed]

namespace StateDB

variable {s t u : StateDB D} {a b : Address} {o o' : StateObject D} {A : Address → Prop}

def facts (db : Database D) (s : StateDB D) (a : Address) : Facts :=
  (s.live a).elim .nothing (StateObject.facts db)

def fakes (s : StateDB D) (a : Address) : Option StorageTrie := (s.live a).bind StateObject.fakeStorage

theorem facts_of_live (h : s.live a = some o) : s.facts db a = o.facts db := by rw [facts, h]; rfl

theorem facts_of_live_none (h : s.live a = none) : s.facts db a = .nothing := by rw [facts, h]; rfl

theorem fresh_facts (a : Address) (v : Int) :
    (newObject a (.fresh D v)).facts db = { Facts.nothing with balance := v } := by
  have hcode : (newObject a (.fresh D v)).codeBytes db = [] := by
    simp [StateObject.codeBytes, StateObject.storedCode, newObject, Account.fresh]
  have hbase : (newObject a (.fresh D v)).committed db = fun _ => 0 := fresh_base a v
  have hcur : (newObject a (.fresh D v)).current db = fun _ => 0 := fresh_base a v
  rw [StateObject.facts, hcode, hbase, hcur]
  rfl

/-! ## The getters -/

theorem view_balance (s : StateDB D) (a : Address) : s.view db (.balance a) = .balance (s.facts db a).balance := by
  simp only [view, facts]
  cases s.live a <;> rfl

theorem view_nonce (s : StateDB D) (a : Address) : s.view db (.nonce a) = .nonce (s.facts db a).nonce := by
  simp only [view, facts]
  cases s.live a <;> rfl

theorem view_code (s : StateDB D) (a : Address) : s.view db (.code a) = .code (s.facts db a).code := by
  simp only [view, facts]
  cases s.live a <;> rfl

theorem view_suicided (s : StateDB D) (a : Address) : s.view db (.suicided a) = .bool (s.facts db a).suicided := by
  simp only [view, facts]
  cases s.live a <;> rfl

theorem view_state (s : StateDB D) (a : Address) (key : Slot) :
    s.view db (.state a key) = .value ((s.fakes a).elim ((s.facts db a).storage key) fun fake => fake key) := by
  simp only [view, facts, fakes]
  cases s.live a <;> rfl

theorem view_committedState (s : StateDB D) (a : Address) (key : Slot) :
    s.view db (.committedState a key) =
      .value ((s.fakes a).elim ((s.facts db a).committed key) fun fake => fake key) := by
  simp only [view, facts, fakes]
  cases s.live a <;> rfl

theorem WF.getBalance_eq (h : s.WF db) (a : Address) : (s.getBalance a).1 = (s.facts db a).balance := by
  rw [(h.getBalance (A := fun _ => True) a).1, facts]
  cases s.live a <;> rfl

theorem WF.getNonce_eq (h : s.WF db) (a : Address) : (s.getNonce a).1 = (s.facts db a).nonce := by
  rw [(h.getNonce (A := fun _ => True) a).1, facts]
  cases s.live a <;> rfl

theorem WF.getCode_eq (h : s.WF db) (a : Address) : (s.getCode db a).1 = (s.facts db a).code := by
  rw [(h.getCode (A := fun _ => True) a).1, facts]
  cases s.live a <;> rfl

theorem Warm.facts (h : Warm db A t s) : t.facts db = s.facts db := by
  funext a
  cases ho : s.live a with
  | none => rw [facts_of_live_none ho, facts_of_live_none (h.of_live_none ho)]
  | some o =>
    obtain ⟨o', ho', w⟩ := h.of_live ho
    rw [facts_of_live ho, facts_of_live ho', w.facts]

theorem Warm.fakes_none {B : Address → Prop} (h : Warm db B t s) (ha : ¬ B a) (hf : s.fakes a = none) : t.fakes a = none := by
  cases ho : s.live a with
  | none => rw [fakes, h.of_live_none ho]; rfl
  | some o =>
    obtain ⟨o', ho', w⟩ := h.of_live ho
    rw [fakes, ho] at hf
    rw [fakes, ho']
    exact w.fake ha hf

/-! ## Objects -/

theorem live_setStateObject (s : StateDB D) (hd : o.deleted = false) (a : Address) :
    (s.setStateObject o).live a = if a = o.address then some o else s.live a := by
  rw [live, peek_setStateObject]
  split
  · simp [hd]
  · rfl

theorem facts_setStateObject (s : StateDB D) (hd : o.deleted = false) :
    (s.setStateObject o).facts db = update (s.facts db) o.address (o.facts db) := by
  funext a
  rw [facts, live_setStateObject s hd]
  by_cases ha : a = o.address
  · subst ha; simp
  · rw [if_neg ha, update_of_ne ha]
    rfl

theorem fakes_setStateObject (s : StateDB D) (hd : o.deleted = false) :
    (s.setStateObject o).fakes = update s.fakes o.address o.fakeStorage := by
  funext a
  rw [fakes, live_setStateObject s hd]
  by_cases ha : a = o.address
  · subst ha; simp
  · rw [if_neg ha, update_of_ne ha]
    rfl

theorem live_load (s : StateDB D) (a b : Address) : (s.load a).live b = s.live b := by rw [live, peek_load]; rfl

theorem fakes_load (s : StateDB D) (a : Address) : (s.load a).fakes = s.fakes := by
  funext b
  rw [fakes, live_load]
  rfl

theorem WF.fakes_read (h : s.WF db) (ho : s.live a = some o) (w : o'.Warmer db False o)
    (hf : o'.fakeStorage = o.fakeStorage) : ((s.load a).setStateObject o').fakes = s.fakes := by
  have ha : o'.address = a := w.address.trans (h.peek_address (live_eq_some.1 ho).1)
  rw [fakes_setStateObject _ (w.deleted.trans (live_eq_some.1 ho).2), fakes_load, ha, hf]
  refine update_eq_self_iff.2 ?_
  rw [fakes, ho]
  rfl

end StateDB

namespace StateObject

theorem getTrie_fakeStorage (db : Database D) (o : StateObject D) : (o.getTrie db).1.fakeStorage = o.fakeStorage := by
  unfold getTrie
  split
  · rfl
  · split <;> rfl

theorem getCommittedState_fakeStorage (db : Database D) (snap : Option (Snap D)) (d : Bool) (o : StateObject D)
    (key : Slot) : (o.getCommittedState db snap d key).1.fakeStorage = o.fakeStorage := by
  unfold getCommittedState
  split
  · rfl
  · split
    · rfl
    · split
      · rfl
      · split
        · rfl
        · exact getTrie_fakeStorage db o

theorem getState_fakeStorage (db : Database D) (snap : Option (Snap D)) (d : Bool) (o : StateObject D)
    (key : Slot) : (o.getState db snap d key).1.fakeStorage = o.fakeStorage := by
  unfold getState
  split
  · rfl
  · split
    · rfl
    · exact getCommittedState_fakeStorage db snap d o key

theorem getCode_fakeStorage (db : Database D) (o : StateObject D) : (o.getCode db).1.fakeStorage = o.fakeStorage := by
  unfold getCode
  split
  · rfl
  · split
    · rfl
    · split <;> rfl

theorem codeSize_fakeStorage (db : Database D) (o : StateObject D) :
    (o.codeSize db).1.fakeStorage = o.fakeStorage := by
  unfold codeSize
  split
  · rfl
  · split
    · rfl
    · split <;> rfl

end StateObject

namespace StateDB

variable {s t u : StateDB D} {a b : Address} {o o' : StateObject D} {A : Address → Prop}

theorem WF.get_cases (h : s.WF db) (g : Getter) :
    ∃ a, (s.get db g).2 = s.load a ∨ ∃ o o', s.live a = some o ∧ o'.Warmer db False o ∧
      o'.fakeStorage = o.fakeStorage ∧ (s.get db g).2 = (s.load a).setStateObject o' := by
  have hload (a : Address) : (s.getStateObject a).2 = s.load a := by rw [h.getStateObject]
  cases g with
  | exist a | empty a | balance a | nonce a | suicided a | codeHash a => exact ⟨a, .inl (hload a)⟩
  | code a =>
    refine ⟨a, ?_⟩
    cases ho : s.live a with
    | none => exact .inl (by rw [StateDB.get, StateDB.getCode, h.getStateObject, ho]; rfl)
    | some o =>
      exact .inr ⟨o, _, rfl, (o.getCode_spec db False).1, o.getCode_fakeStorage db,
        by rw [StateDB.get, StateDB.getCode, h.getStateObject, ho]; rfl⟩
  | codeSize a =>
    refine ⟨a, ?_⟩
    cases ho : s.live a with
    | none => exact .inl (by rw [StateDB.get, StateDB.getCodeSize, h.getStateObject, ho]; rfl)
    | some o =>
      exact .inr ⟨o, _, rfl, (o.codeSize_spec db False).1, o.codeSize_fakeStorage db,
        by rw [StateDB.get, StateDB.getCodeSize, h.getStateObject, ho]; rfl⟩
  | state a key =>
    refine ⟨a, ?_⟩
    cases ho : s.live a with
    | none => exact .inl (by rw [StateDB.get, StateDB.getState, h.getStateObject, ho]; rfl)
    | some o =>
      exact .inr ⟨o, _, rfl, (StateObject.getState_spec (h.load_snapOk ho) key False).1, o.getState_fakeStorage db _ _ key,
        by rw [StateDB.get, StateDB.getState, h.getStateObject, ho]; rfl⟩
  | committedState a key =>
    refine ⟨a, ?_⟩
    cases ho : s.live a with
    | none => exact .inl (by rw [StateDB.get, StateDB.getCommittedState, h.getStateObject, ho]; rfl)
    | some o =>
      exact .inr ⟨o, _, rfl, (StateObject.getCommittedState_spec (h.load_snapOk ho) key False).1,
        o.getCommittedState_fakeStorage db _ _ key,
        by rw [StateDB.get, StateDB.getCommittedState, h.getStateObject, ho]; rfl⟩

theorem WF.get_warm (h : s.WF db) (g : Getter) :
    Warm db (fun _ => False) (s.get db g).2 s ∧ (s.get db g).2.fakes = s.fakes := by
  obtain ⟨a, hg | ⟨o, o', ho, w, hf, hg⟩⟩ := h.get_cases g
  · rw [hg]
    exact ⟨.load s a, fakes_load s a⟩
  · rw [hg]
    have ha : o.address = a := h.peek_address (live_eq_some.1 ho).1
    have hset : Warm db (fun _ => False) ((s.load a).setStateObject o') (s.load a) :=
      .setStateObject (o := o) (by rw [peek_load, ha]; exact (live_eq_some.1 ho).1) w
    exact ⟨hset.trans (.load s a), h.fakes_read ho w hf⟩

/-! ## The setters -/

theorem WF.createObject_live (h : s.WF db) (a b : Address) (carry : Bool) :
    (s.createObject a carry).2.live b =
      if b = a then some (newObject a (.fresh D (if carry then (s.peek a).elim 0 fun o => o.data.balance else 0)))
      else s.live b := by
  obtain ⟨hobj, hset, -⟩ := h.createObject (A := fun _ => True) a carry
  by_cases hb : b = a
  · subst hb
    rw [if_pos rfl]
    rw [hobj] at hset
    exact live_eq_some.2 ⟨peek_of_loaded hset, rfl⟩
  · rw [if_neg hb]
    unfold live
    rw [h.createObject_peek_of_ne carry hb]

theorem WF.createObject_facts (h : s.WF db) (a : Address) (carry : Bool) :
    (s.createObject a carry).2.facts db = update (s.facts db) a
      { Facts.nothing with balance := if carry then (s.facts db a).balance + s.leftover a else 0 } := by
  funext b
  rw [facts, h.createObject_live]
  by_cases hb : b = a
  · subst hb
    have hbal : ((s.peek b).elim 0 fun o => o.data.balance) = (s.facts db b).balance + s.leftover b := by
      rw [peek_balance, facts]
      cases s.live b <;> rfl
    rw [if_pos rfl, update_self, hbal]
    exact fresh_facts b _
  · rw [if_neg hb, update_of_ne hb]
    rfl

theorem WF.createObject_fakes (h : s.WF db) (a : Address) (carry : Bool) :
    (s.createObject a carry).2.fakes = update s.fakes a none := by
  funext b
  rw [fakes, h.createObject_live]
  by_cases hb : b = a
  · subst hb
    rw [if_pos rfl, update_self]
    rfl
  · rw [if_neg hb, update_of_ne hb]
    rfl

theorem WF.getOrNew_cases (h : s.WF db) (a : Address) :
    (s.getOrNewStateObject a).2 = s.load a ∨
      (s.live a = none ∧ (s.getOrNewStateObject a).2 = ((s.load a).createObject a false).2) := by
  rw [StateDB.getOrNewStateObject, h.getStateObject]
  cases s.live a with
  | some o => exact .inl rfl
  | none => exact .inr ⟨rfl, rfl⟩

theorem WF.getOrNew_facts (h : s.WF db) (a : Address) :
    (s.getOrNewStateObject a).2.facts db = s.facts db ∧ (s.getOrNewStateObject a).2.fakes = s.fakes := by
  have hload : Warm db (fun _ => True) (s.load a) s := .load s a
  rcases h.getOrNew_cases a with hu | ⟨hl, hu⟩
  · rw [hu]
    exact ⟨hload.facts, fakes_load s a⟩
  · rw [hu, (hload.wf h).createObject_facts, (hload.wf h).createObject_fakes, hload.facts, fakes_load]
    exact ⟨update_eq_self_iff.2 (facts_of_live_none hl).symm,
      update_eq_self_iff.2 (by rw [fakes, hl]; rfl)⟩

theorem WF.getOrNew_object (h : s.WF db) (a : Address) :
    ∃ o u, s.getOrNewStateObject a = (o, u) ∧ o.deleted = false ∧ o.address = a ∧ o.facts db = s.facts db a ∧
      o.fakeStorage = s.fakes a ∧ u.facts db = s.facts db ∧ u.fakes = s.fakes ∧ u.WF db ∧
      u.stateObjects a = some o := by
  obtain ⟨o, u, hg, hst, hu, hd, ha, ho⟩ := h.getOrNewStateObject (A := fun _ => True) a
  have hseen := h.getOrNew_facts a
  rw [hg] at hseen
  refine ⟨o, u, hg, hd, ha, ?_, ?_, hseen.1, hseen.2, hst.wf h, hu⟩
  · rw [← ho, facts]
    cases s.live a with
    | some x => rfl
    | none => exact fresh_facts a 0
  · rw [← ho, fakes]
    cases s.live a <;> rfl

theorem facts_change {f : Facts} (hu : u.facts db = s.facts db) (e : JournalEntry D) (ha : o.address = a)
    (hd : o.deleted = false) (hf : o.facts db = f) :
    ((u.append e).setStateObject o).facts db = update (s.facts db) a f := by
  rw [facts_setStateObject _ hd, ha, hf]
  exact congrArg (fun x => update x a f) hu

theorem WF.addBalance_facts (h : s.WF db) (a : Address) (v : Int) :
    (s.addBalance a v).facts db = update (s.facts db) a
      { s.facts db a with balance := (s.facts db a).balance + v } := by
  obtain ⟨o, u, hg, hd, rfl, ho, -, hu, -⟩ := h.getOrNew_object a
  simp only [StateDB.addBalance, hg]
  split
  · rename_i hv
    have hself : ({ s.facts db o.address with balance := (s.facts db o.address).balance + v } : Facts) =
        s.facts db o.address := by rw [hv, Int.add_zero]
    rw [hself, update_eq_self]
    split
    · rw [← hu]
      unfold touch
      split <;> rfl
    · exact hu
  · refine facts_change hu _ rfl hd ?_
    rw [← ho]
    rfl

theorem WF.subBalance_facts (h : s.WF db) (a : Address) (v : Int) :
    (s.subBalance a v).facts db = update (s.facts db) a
      { s.facts db a with balance := (s.facts db a).balance - v } := by
  obtain ⟨o, u, hg, hd, rfl, ho, -, hu, -⟩ := h.getOrNew_object a
  simp only [StateDB.subBalance, hg]
  split
  · rename_i hv
    have hself : ({ s.facts db o.address with balance := (s.facts db o.address).balance - v } : Facts) =
        s.facts db o.address := by rw [hv, Int.sub_zero]
    rw [hself, update_eq_self, hu]
  · refine facts_change hu _ rfl hd ?_
    rw [← ho]
    rfl

theorem WF.setNonce_facts (h : s.WF db) (a : Address) (n : BitVec 64) :
    (s.setNonce a n).facts db = update (s.facts db) a { s.facts db a with nonce := n } := by
  obtain ⟨o, u, hg, hd, rfl, ho, -, hu, -⟩ := h.getOrNew_object a
  simp only [StateDB.setNonce, hg]
  refine facts_change hu _ rfl hd ?_
  rw [← ho]
  rfl

theorem WF.setNonce_fakes (h : s.WF db) (a : Address) (n : BitVec 64) : (s.setNonce a n).fakes = s.fakes := by
  obtain ⟨o, u, hg, hd, rfl, -, hf, -, hu, -⟩ := h.getOrNew_object a
  simp only [StateDB.setNonce, hg]
  rw [fakes_setStateObject _ (show (o.setNonce n).deleted = false from hd)]
  show update u.fakes o.address o.fakeStorage = s.fakes
  rw [hu, hf, update_eq_self]

theorem WF.setCode_facts (h : s.WF db) (a : Address) (c : Bytes) :
    (s.setCode db a c).facts db = update (s.facts db) a { s.facts db a with code := c } := by
  obtain ⟨o, u, hg, hd, rfl, ho, -, hu, -⟩ := h.getOrNew_object a
  obtain ⟨hw, -⟩ := o.getCode_spec db False
  simp only [StateDB.setCode, hg]
  refine facts_change hu _ hw.address (hw.deleted.trans hd) ?_
  rw [← ho, ← hw.facts]
  rfl

theorem WF.setState_facts (h : s.WF db) (a : Address) (key : Slot) (v : Value) :
    ∃ st, (s.setState db a key v).facts db = update (s.facts db) a { s.facts db a with storage := st } := by
  obtain ⟨o, u, hg, hd, rfl, ho, -, hu, -, hwf, hobj⟩ := h.getOrNew_object a
  have hw := (StateObject.getState_spec (hwf.snapOk o.address o hobj hd) key False).1
  have hread (x : StateObject D) (hx : x.address = o.address) (hxd : x.deleted = false) (st : StorageTrie)
      (hf : x.facts db = { o.facts db with storage := st }) :
      (u.setStateObject x).facts db =
        update (s.facts db) o.address { s.facts db o.address with storage := st } := by
    rw [facts_setStateObject _ hxd, hx, hf, hu, ho]
  simp only [StateDB.setState, hg]
  split
  · rename_i fake _
    exact ⟨_, hread { o with fakeStorage := some (update fake key v) } rfl hd _ rfl⟩
  · split
    · exact ⟨_, hread _ hw.address (hw.deleted.trans hd) _ hw.facts⟩
    · refine ⟨_, hread ((o.getState db u.snap (u.snapDestructs o.address) key).1.setState key v) hw.address
        (hw.deleted.trans hd) (StateObject.current db
          ((o.getState db u.snap (u.snapDestructs o.address) key).1.setState key v)) ?_⟩
      rw [← hw.facts]
      rfl

theorem WF.suicide_facts (h : s.WF db) (a : Address) :
    (s.suicide a).2.facts db = update (s.facts db) a
      (if (s.live a).isSome then { s.facts db a with balance := 0, suicided := true } else s.facts db a) := by
  simp only [StateDB.suicide, h.getStateObject]
  have hload : Warm db (fun _ => True) (s.load a) s := .load s a
  cases ho : s.live a with
  | none =>
    simp only [Option.isSome_none, Bool.false_eq_true, if_false, update_eq_self]
    exact hload.facts
  | some o =>
    obtain ⟨hp, hd⟩ := live_eq_some.1 ho
    have ha : o.address = a := h.peek_address hp
    simp only [Option.isSome_some, if_true]
    refine facts_change hload.facts _ ha hd ?_
    rw [facts_of_live ho]
    rfl

theorem WF.createAccount_facts (h : s.WF db) (a : Address) :
    (s.createAccount a).facts db = update (s.facts db) a
      { Facts.nothing with balance := (s.facts db a).balance + s.leftover a } :=
  h.createObject_facts a true

/-! ## What deleted accounts left behind -/

theorem leftover_eq_peek (s : StateDB D) (a : Address) :
    s.leftover a = (s.peek a).elim 0 fun o => if o.deleted then o.data.balance else 0 := by
  unfold leftover peek
  cases s.stateObjects a with
  | some o => rfl
  | none => cases s.trie a <;> rfl

theorem Warm.leftover (h : Warm db A t s) : t.leftover = s.leftover := by
  funext a
  rw [leftover_eq_peek, leftover_eq_peek]
  cases ho : s.peek a with
  | none => rw [h.of_none ho]
  | some o =>
    obtain ⟨o', ho', w⟩ := h.of_some ho
    simp only [ho', Option.elim, w.deleted, w.data]

theorem Change.leftover (c : Change db s t) (hs : s.leftover a = 0) : t.leftover a = 0 := by
  have hset (x : StateDB D) (hx : x.leftover a = 0) (o : StateObject D) (hd : o.deleted = false) :
      (x.setStateObject o).leftover a = 0 := by
    rw [leftover_eq_peek, peek_setStateObject]
    split
    · simp [hd]
    · rw [← leftover_eq_peek]
      exact hx
  cases c with
  | create h => exact hset _ hs _ rfl
  | reset h v =>
    rw [destruct_eq]
    exact hset _ hs _ rfl
  | object h hd c => exact hset _ hs _ (c.deleted.trans hd)
  | touch h hd =>
    unfold StateDB.touch
    split <;> exact hs
  | log l => exact hs
  | preimage h p => exact hs
  | refund v => exact hs

theorem Steps.leftover (h : Steps db A s t) (hs : s.leftover a = 0) : t.leftover a = 0 := by
  induction h with
  | refl => exact hs
  | warm _ hw _ ih => rw [hw.leftover]; exact ih
  | change _ c ih => exact c.leftover ih

end StateDB

end NdnGeth.State
