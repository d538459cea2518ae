/-
What the methods of the state database do, step by step.

Every method is a sequence of reads, which only fill caches, and of changes
that go through the journal (`Steps`). Its results are those of the views.
-/
import NdnGeth.State.Undo

namespace NdnGeth.State

open Lib.Rlp (Bytes)
open Core (Hash)
open Types (Address)

variable {D : Digests} {db : Database D}

namespace StateDB

variable {s s' t u : StateDB D} {a : Address} {o o' : StateObject D} {A : Address → Prop}

/-- No snapshot is taken or given up between the two states. -/
structure SameRevs (t s : StateDB D) : Prop where
  valid : t.validRevisions = s.validRevisions
  next : t.nextRevisionId = s.nextRevisionId

theorem SameRevs.refl (s : StateDB D) : SameRevs s s := ⟨rfl, rfl⟩

theorem SameRevs.trans (h₁ : SameRevs u t) (h₂ : SameRevs t s) : SameRevs u s :=
  ⟨h₁.valid.trans h₂.valid, h₁.next.trans h₂.next⟩

/-- Reads and journaled changes. -/
inductive Steps (db : Database D) (A : Address → Prop) (s : StateDB D) : StateDB D → Prop
  | refl : Steps db A s s
  | warm {t u : StateDB D} : Steps db A s t → Warm db A u t → SameRevs u t → Steps db A s u
  | change {t u : StateDB D} : Steps db A s t → Change db t u → Steps db A s u

theorem Change.sameRevs (c : Change db s s') : SameRevs s' s := by
  cases c with
  | create => exact ⟨rfl, rfl⟩
  | reset => rw [destruct_eq]; exact ⟨rfl, rfl⟩
  | object => exact ⟨rfl, rfl⟩
  | touch => unfold StateDB.touch; split <;> exact ⟨rfl, rfl⟩
  | log => exact ⟨rfl, rfl⟩
  | preimage => exact ⟨rfl, rfl⟩
  | refund => exact ⟨rfl, rfl⟩

namespace Steps

theorem trans (h₁ : Steps db A s t) (h₂ : Steps db A t u) : Steps db A s u := by
  induction h₂ with
  | refl => exact h₁
  | warm _ hw hr ih => exact .warm ih hw hr
  | change _ c ih => exact .change ih c

theorem read (h : Warm db A t s) (hr : SameRevs t s) : Steps db A s t := .warm .refl h hr

theorem one (c : Change db s t) : Steps db A s t := .change .refl c

theorem wf (h : Steps db A s t) (hs : s.WF db) : t.WF db := by
  induction h with
  | refl => exact hs
  | warm _ hw _ ih => exact hw.wf ih
  | change _ c ih => exact c.wf ih

theorem sameRevs (h : Steps db A s t) : SameRevs t s := by
  induction h with
  | refl => exact .refl s
  | warm _ _ hr ih => exact hr.trans ih
  | change _ c ih => exact c.sameRevs.trans ih

end Steps

/-! ## Objects -/

theorem load_sameRevs (s : StateDB D) (a : Address) : SameRevs (s.load a) s := by
  unfold load
  split
  · exact .refl s
  · cases s.trie a <;> exact ⟨rfl, rfl⟩

theorem load_steps (s : StateDB D) (a : Address) : Steps db A s (s.load a) :=
  .read (.load s a) (load_sameRevs s a)

theorem WF.createObject (h : s.WF db) (a : Address) (carry : Bool) :
    (s.createObject a carry).1 =
        newObject a (.fresh D (if carry then (s.peek a).elim 0 fun o => o.data.balance else 0)) ∧
      (s.createObject a carry).2.stateObjects a = some (s.createObject a carry).1 ∧
      Steps db A s (s.createObject a carry).2 := by
  rw [StateDB.createObject, h.getDeletedStateObject]
  cases hp : s.peek a with
  | none =>
    have hn : (s.load a).peek a = none := by rw [peek_load]; exact hp
    refine ⟨?_, setStateObject_self _ (newObject a _), (load_steps s a).change (.create hn)⟩
    cases carry <;> rfl
  | some prev =>
    have hl : (s.load a).stateObjects a = some prev := (load_loaded s a).trans hp
    exact ⟨rfl, setStateObject_self _ (newObject a _), (load_steps s a).change (.reset hl _)⟩

theorem WF.getOrNewStateObject (h : s.WF db) (a : Address) :
    ∃ o u, s.getOrNewStateObject a = (o, u) ∧ Steps db A s u ∧ u.stateObjects a = some o ∧
      o.deleted = false ∧ o.address = a ∧ (s.live a).getD (newObject a (.fresh D 0)) = o := by
  rw [StateDB.getOrNewStateObject, h.getStateObject]
  cases ho : s.live a with
  | some o =>
    obtain ⟨hp, hd⟩ := live_eq_some.1 ho
    exact ⟨o, s.load a, rfl, load_steps s a, (load_loaded s a).trans hp, hd, h.peek_address hp, rfl⟩
  | none =>
    have hl : (s.load a).WF db := (Warm.load (A := A) s a).wf h
    obtain ⟨h1, h2, h3⟩ := hl.createObject (A := A) a false
    refine ⟨((s.load a).createObject a false).1, ((s.load a).createObject a false).2, rfl,
      (load_steps s a).trans h3, h2, ?_, ?_, ?_⟩
    · rw [h1]; rfl
    · rw [h1]; rfl
    · rw [h1]; rfl

theorem Steps.setStateObject (h : Steps db A s u) (ho : u.peek o.address = some o)
    (w : o'.Warmer db (A o.address) o) : Steps db A s (u.setStateObject o') :=
  h.warm (.setStateObject ho w) ⟨rfl, rfl⟩

/-! ## Getters -/

theorem WF.getStateObject_steps (h : s.WF db) (a : Address) : Steps db A s (s.getStateObject a).2 := by
  rw [h.getStateObject]
  exact load_steps s a

theorem WF.load_object (h : s.WF db) (ho : s.live a = some o) (w : o'.Warmer db (A a) o) :
    Steps db A s ((s.load a).setStateObject o') := by
  obtain ⟨hp, -⟩ := live_eq_some.1 ho
  have ha : o.address = a := h.peek_address hp
  refine (load_steps s a).setStateObject (o := o) ?_ (ha ▸ w)
  rw [peek_load, ha]
  exact hp

theorem WF.load_snapOk (h : s.WF db) (ho : s.live a = some o) :
    o.SnapOk db (s.load a).snap ((s.load a).snapDestructs a) := by
  obtain ⟨hp, hd⟩ := live_eq_some.1 ho
  have hsn := h.peek_snapOk hp hd
  unfold load
  split
  · exact hsn
  · cases s.trie a <;> exact hsn

section

variable (h : s.WF db) (a)
include h

theorem WF.exist : (s.exist a).1 = (s.live a).isSome ∧ Steps db A s (s.exist a).2 :=
  ⟨by rw [StateDB.exist, h.getStateObject], h.getStateObject_steps a⟩

theorem WF.isEmpty : (s.isEmpty a).1 = (s.live a).elim true StateObject.empty ∧ Steps db A s (s.isEmpty a).2 :=
  ⟨by rw [StateDB.isEmpty, h.getStateObject], h.getStateObject_steps a⟩

theorem WF.getBalance : (s.getBalance a).1 = (s.live a).elim 0 (fun o => o.data.balance) ∧ Steps db A s (s.getBalance a).2 :=
  ⟨by rw [StateDB.getBalance, h.getStateObject], h.getStateObject_steps a⟩

theorem WF.getNonce : (s.getNonce a).1 = (s.live a).elim 0 (fun o => o.data.nonce) ∧ Steps db A s (s.getNonce a).2 :=
  ⟨by rw [StateDB.getNonce, h.getStateObject], h.getStateObject_steps a⟩

theorem WF.hasSuicided : (s.hasSuicided a).1 = (s.live a).elim false StateObject.suicided ∧ Steps db A s (s.hasSuicided a).2 :=
  ⟨by rw [StateDB.hasSuicided, h.getStateObject], h.getStateObject_steps a⟩

theorem WF.getCodeHash : (s.getCodeHash a).1 = (s.live a).map (fun o => o.data.codeHash) ∧ Steps db A s (s.getCodeHash a).2 :=
  ⟨by rw [StateDB.getCodeHash, h.getStateObject], h.getStateObject_steps a⟩

theorem WF.getCode : (s.getCode db a).1 = (s.live a).elim [] (fun o => o.codeBytes db) ∧ Steps db A s (s.getCode db a).2 := by
  unfold StateDB.getCode
  rw [h.getStateObject]
  cases ho : s.live a with
  | none => exact ⟨rfl, load_steps s a⟩
  | some o =>
    obtain ⟨hw, hc⟩ := o.getCode_spec db (A a)
    refine ⟨?_, h.load_object ho hw⟩
    show ((o.getCode db).2).getD [] = o.codeBytes db
    rw [hc]
    rfl

theorem WF.getCodeSize : (s.getCodeSize db a).1 = (s.live a).elim 0 (fun o => (o.codeBytes db).length) ∧
    Steps db A s (s.getCodeSize db a).2 := by
  unfold StateDB.getCodeSize
  rw [h.getStateObject]
  cases ho : s.live a with
  | none => exact ⟨rfl, load_steps s a⟩
  | some o =>
    obtain ⟨hw, hc⟩ := o.codeSize_spec db (A a)
    exact ⟨hc, h.load_object ho hw⟩

theorem WF.getState (key : Slot) :
    (s.getState db a key).1 = (s.live a).elim 0 (fun o => o.shown key (o.current db key)) ∧
      Steps db A s (s.getState db a key).2 := by
  unfold StateDB.getState
  rw [h.getStateObject]
  cases ho : s.live a with
  | none => exact ⟨rfl, load_steps s a⟩
  | some o =>
    obtain ⟨hw, hv⟩ := StateObject.getState_spec (h.load_snapOk ho) key (A a)
    exact ⟨hv, h.load_object ho hw⟩

theorem WF.getCommittedState (key : Slot) :
    (s.getCommittedState db a key).1 = (s.live a).elim 0 (fun o => o.shown key (o.committed db key)) ∧
      Steps db A s (s.getCommittedState db a key).2 := by
  unfold StateDB.getCommittedState
  rw [h.getStateObject]
  cases ho : s.live a with
  | none => exact ⟨rfl, load_steps s a⟩
  | some o =>
    obtain ⟨hw, hv⟩ := StateObject.getCommittedState_spec (h.load_snapOk ho) key (A a)
    exact ⟨hv, h.load_object ho hw⟩

end

/-! ## Setters -/

theorem Steps.object {e : JournalEntry D} (h : Steps db A s u) (ho : u.stateObjects a = some o)
    (ha : o.address = a) (hd : o.deleted = false) (c : ObjChange db o e o') :
    Steps db A s ((u.append e).setStateObject o') := by
  subst ha
  exact h.change (.object ho hd c)

theorem Steps.readObject {e : JournalEntry D} {o₁ : StateObject D} (h : Steps db A s u)
    (ho : u.stateObjects a = some o) (ha : o.address = a) (hd : o.deleted = false) (w : o₁.Warmer db (A a) o)
    (c : ObjChange db o₁ e o') : Steps db A s ((u.append e).setStateObject o') := by
  subst ha
  have hread := h.setStateObject (peek_of_loaded ho) w
  have heq : ((u.setStateObject o₁).append e).setStateObject o' = (u.append e).setStateObject o' := by
    simp only [StateDB.append, StateDB.setStateObject, c.address, Function.update_idem]
  rw [← heq]
  exact hread.object (setStateObject_self _ _) rfl (w.deleted.trans hd) c

theorem getCode_snd (db : Database D) (o : StateObject D) :
    (o.getCode db).2 = (o.getCode db).1.code.or ((o.getCode db).1.storedCode db) := by
  obtain ⟨hw, hc⟩ := o.getCode_spec db True
  rw [hw.storedCode, hc]
  rcases hw.code with h1 | ⟨h1, h2⟩
  · rw [h1]
  · rw [h1, h2]; cases o.storedCode db <;> rfl

section

variable (h : s.WF db) (a)
include h

theorem WF.addBalance (v : Int) : Steps db A s (s.addBalance a v) := by
  obtain ⟨o, u, hg, hsteps, hu, hd, ha, -⟩ := h.getOrNewStateObject (A := A) a
  simp only [StateDB.addBalance, hg]
  split
  · split
    · subst ha; exact hsteps.change (.touch hu hd)
    · exact hsteps
  · exact hsteps.object hu ha hd (.balance _)

theorem WF.subBalance (v : Int) : Steps db A s (s.subBalance a v) := by
  obtain ⟨o, u, hg, hsteps, hu, hd, ha, -⟩ := h.getOrNewStateObject (A := A) a
  simp only [StateDB.subBalance, hg]
  split
  · exact hsteps
  · exact hsteps.object hu ha hd (.balance _)

theorem WF.setBalance (v : Int) : Steps db A s (s.setBalance a v) := by
  obtain ⟨o, u, hg, hsteps, hu, hd, ha, -⟩ := h.getOrNewStateObject (A := A) a
  simp only [StateDB.setBalance, hg]
  exact hsteps.object hu ha hd (.balance v)

theorem WF.setNonce (n : BitVec 64) : Steps db A s (s.setNonce a n) := by
  obtain ⟨o, u, hg, hsteps, hu, hd, ha, -⟩ := h.getOrNewStateObject (A := A) a
  simp only [StateDB.setNonce, hg]
  exact hsteps.object hu ha hd (.nonce n)

theorem WF.setCode (c : Bytes) : Steps db A s (s.setCode db a c) := by
  obtain ⟨o, u, hg, hsteps, hu, hd, ha, -⟩ := h.getOrNewStateObject (A := A) a
  obtain ⟨hw, -⟩ := o.getCode_spec db (A a)
  simp only [StateDB.setCode, hg]
  rw [getCode_snd]
  exact hsteps.readObject hu ha hd hw (.code c)

end

theorem getState_known {snap : Option (Snap D)} {d : Bool} (hs : o.SnapOk db snap d) (hc : o.Cached db)
    (hf : o.fakeStorage = none) (key : Slot) (hk : (o.getState db snap d key).1.originStorage key = none) :
    (o.getState db snap d key).1.base db key = 0 := by
  have hw := (StateObject.getState_spec hs key True).1
  rw [hw.base]
  have ho := hw.origin_none hk
  by_cases hwritten : o.pendingStorage key ≠ none ∨ o.dirtyStorage key ≠ none
  · exact hc.known key ho hwritten
  · obtain ⟨hp, hd⟩ := not_or.1 hwritten
    simp only [ne_eq, not_not] at hp hd
    -- it was read, so only a destructed account leaves it uncached
    simp only [StateObject.getState, hf, hd, StateObject.getCommittedState, hp, ho, Option.or_self] at hk
    split at hk
    · rename_i hdes
      obtain ⟨hsome, hdes⟩ := Bool.and_eq_true_iff.1 hdes
      obtain ⟨sn, hsn⟩ := Option.isSome_iff_exists.1 hsome
      have := hs sn hsn key ho
      rw [if_pos hdes] at this
      exact this.symm
    · split at hk <;> simp [StateObject.cacheOrigin] at hk

theorem WF.setState (h : s.WF db) (a : Address) (key : Slot) (v : Value) : Steps db A s (s.setState db a key v) := by
  obtain ⟨o, u, hg, hsteps, hu, hd, ha, -⟩ := h.getOrNewStateObject (A := A) a
  have hwf := hsteps.wf h
  have hsn := hwf.snapOk a o hu hd
  have hcached := hwf.cached a o hu
  have hpeek : u.peek o.address = some o := by rw [ha]; exact peek_of_loaded hu
  simp only [StateDB.setState, hg]
  cases hf : o.fakeStorage with
  | some fake =>
    refine hsteps.setStateObject hpeek { (StateObject.Warmer.refl o : o.Warmer db (A o.address) o) with
      base := rfl
      origin := fun _ => .inl rfl
      dirty := fun _ => .inl rfl
      code := .inl rfl
      fake := fun _ hn => by rw [hf] at hn; cases hn }
  | none =>
    obtain ⟨hw, hv⟩ := StateObject.getState_spec hsn key (A o.address)
    have hload : Steps db A s (u.setStateObject (o.getState db u.snap (u.snapDestructs a) key).1) :=
      hsteps.setStateObject hpeek hw
    simp only
    split
    · exact hload
    · have hcur : (o.getState db u.snap (u.snapDestructs a) key).2 =
          (o.getState db u.snap (u.snapDestructs a) key).1.current db key := by
        rw [hw.current, hv, StateObject.shown, hf]; rfl
      rw [hcur]
      exact hsteps.readObject hu ha hd (ha ▸ hw) (.storage key v (getState_known hsn hcached hf key))

/-- `SetStorage` is the one mutation that is not undone. -/
theorem WF.setStorage (h : s.WF db) {a : Address} (hA : A a) (storage : Storage) :
    Steps db A s (s.setStorage a storage) := by
  obtain ⟨o, u, hg, hsteps, hu, hd, ha, -⟩ := h.getOrNewStateObject (A := A) a
  simp only [StateDB.setStorage, hg]
  refine hsteps.setStateObject (by rw [ha]; exact peek_of_loaded hu)
    { (StateObject.Warmer.refl o : o.Warmer db (A o.address) o) with
      base := rfl
      origin := fun _ => .inl rfl
      dirty := fun _ => .inl rfl
      code := .inl rfl
      fake := fun hn => absurd (ha ▸ hA) hn }

theorem WF.suicide (h : s.WF db) (a : Address) : Steps db A s (s.suicide a).2 := by
  unfold StateDB.suicide
  rw [h.getStateObject]
  cases ho : s.live a with
  | none => exact load_steps s a
  | some o =>
    obtain ⟨hp, hd⟩ := live_eq_some.1 ho
    have ha : o.address = a := h.peek_address hp
    have hl : (s.load a).stateObjects a = some o := (load_loaded s a).trans hp
    subst ha
    exact (load_steps s _).object hl rfl hd .suicide

theorem WF.createAccount (h : s.WF db) (a : Address) : Steps db A s (s.createAccount a) :=
  (h.createObject a true).2.2

theorem addLog_steps (s : StateDB D) (l : Log) : Steps db A s (s.addLog l) := .one (.log l)

theorem addPreimage_steps (s : StateDB D) (hash : Hash) (p : Bytes) : Steps db A s (s.addPreimage hash p) := by
  unfold StateDB.addPreimage
  split
  · exact .refl
  · rename_i hn
    exact .one (.preimage (by simpa using hn) p)

theorem addRefund_steps (s : StateDB D) (gas : BitVec 64) : Steps db A s (s.addRefund gas) := .one (.refund _)

theorem subRefund_steps {gas : BitVec 64} (h : s.subRefund gas = some s') : Steps db A s s' := by
  unfold StateDB.subRefund at h
  split at h
  · cases h
  · cases h; exact .one (.refund _)

theorem prepare_steps (s : StateDB D) (thash bhash : Hash) (ti : BitVec 64) :
    Steps db A s (s.prepare thash bhash ti) :=
  .read { Warm.refl s with frame := rfl } ⟨rfl, rfl⟩

end StateDB

end NdnGeth.State
