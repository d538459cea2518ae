/-
The state database as a machine.

A `Mutation` is a call of a public method within a transaction, an `Op` one
of those or a call that ends a transaction or a block. The states are a state
database with the database below it, which other state databases write to as
well. Every run keeps the invariant (`Reachable.good`), and a run of mutations
after `Snapshot` is undone by `RevertToSnapshot`.
-/
import NdnGeth.State.Revert

namespace NdnGeth.State

open Lib (Run anyStep exec)
open Lib.Rlp (Bytes)
open Core (Hash)
open Types (Address)

variable {D : Digests} {db db' : Database D}

/-! ## Getters -/

/-- A call of a getter of an account. -/
inductive Getter
  | exist (a : Address)
  | empty (a : Address)
  | balance (a : Address)
  | nonce (a : Address)
  | suicided (a : Address)
  | codeHash (a : Address)
  | code (a : Address)
  | codeSize (a : Address)
  | state (a : Address) (key : Slot)
  | committedState (a : Address) (key : Slot)

inductive Reading (D : Digests)
  | bool (b : Bool)
  | balance (v : Int)
  | nonce (n : BitVec 64)
  | codeHash (hash : Option D.Code)
  | code (c : Bytes)
  | size (n : Nat)
  | value (v : Value)
  deriving DecidableEq

/-- The account whose storage is read. -/
def Getter.storageOf : Getter → Option Address
  | state a _ => some a
  | committedState a _ => some a
  | _ => none

namespace StateDB

variable {s s' s₁ s₂ t u : StateDB D} {a : Address} {A : Address → Prop}

def get (db : Database D) (s : StateDB D) : Getter → Reading D × StateDB D
  | .exist a => (s.exist a).map .bool id
  | .empty a => (s.isEmpty a).map .bool id
  | .balance a => (s.getBalance a).map .balance id
  | .nonce a => (s.getNonce a).map .nonce id
  | .suicided a => (s.hasSuicided a).map .bool id
  | .codeHash a => (s.getCodeHash a).map .codeHash id
  | .code a => (s.getCode db a).map .code id
  | .codeSize a => (s.getCodeSize db a).map .size id
  | .state a key => (s.getState db a key).map .value id
  | .committedState a key => (s.getCommittedState db a key).map .value id

/-- What the getters are to return, from the object of the account. -/
def view (db : Database D) (s : StateDB D) : Getter → Reading D
  | .exist a => .bool (s.live a).isSome
  | .empty a => .bool ((s.live a).elim true StateObject.empty)
  | .balance a => .balance ((s.live a).elim 0 fun o => o.data.balance)
  | .nonce a => .nonce ((s.live a).elim 0 fun o => o.data.nonce)
  | .suicided a => .bool ((s.live a).elim false StateObject.suicided)
  | .codeHash a => .codeHash ((s.live a).map fun o => o.data.codeHash)
  | .code a => .code ((s.live a).elim [] fun o => o.codeBytes db)
  | .codeSize a => .size ((s.live a).elim 0 fun o => (o.codeBytes db).length)
  | .state a key => .value ((s.live a).elim 0 fun o => o.shown key (o.current db key))
  | .committedState a key => .value ((s.live a).elim 0 fun o => o.shown key (o.committed db key))

theorem WF.get (h : s.WF db) (g : Getter) : (s.get db g).1 = s.view db g ∧ Steps db A s (s.get db g).2 := by
  cases g with
  | exist a => exact (h.exist a).imp_left (congrArg Reading.bool)
  | empty a => exact (h.isEmpty a).imp_left (congrArg Reading.bool)
  | balance a => exact (h.getBalance a).imp_left (congrArg Reading.balance)
  | nonce a => exact (h.getNonce a).imp_left (congrArg Reading.nonce)
  | suicided a => exact (h.hasSuicided a).imp_left (congrArg Reading.bool)
  | codeHash a => exact (h.getCodeHash a).imp_left (congrArg Reading.codeHash)
  | code a => exact (h.getCode a).imp_left (congrArg Reading.code)
  | codeSize a => exact (h.getCodeSize a).imp_left (congrArg Reading.size)
  | state a key => exact (h.getState a key).imp_left (congrArg Reading.value)
  | committedState a key => exact (h.getCommittedState a key).imp_left (congrArg Reading.value)

/-- No storage is set for debugging on the account. -/
def NoFake (s : StateDB D) (a : Address) : Prop := ∀ o, s.peek a = some o → o.fakeStorage = none

theorem Warm.elim {β : Type*} (h : Warm db A t s) {a : Address} {d : β} {f : StateObject D → β}
    (hf : ∀ {o o'}, s.peek a = some o → o'.Warmer db (A a) o → f o' = f o) : (t.live a).elim d f = (s.live a).elim d f := by
  cases ho : s.live a with
  | none => rw [h.of_live_none ho]
  | some o =>
    obtain ⟨o', ho', hw⟩ := h.of_live ho
    rw [ho']
    exact hf (live_eq_some.1 ho).1 hw

theorem Warm.view (h : Warm db A t s) (g : Getter) (hg : ∀ a, g.storageOf = some a → ¬ A a ∧ s.NoFake a) :
    t.view db g = s.view db g := by
  cases g with
  | exist a =>
    cases ho : s.live a with
    | none => simp only [StateDB.view, ho, h.of_live_none ho]
    | some o => obtain ⟨o', ho', -⟩ := h.of_live ho; simp only [StateDB.view, ho, ho', Option.isSome_some]
  | empty a => exact congrArg Reading.bool (h.elim fun _ w => by simp only [StateObject.empty, w.data])
  | balance a => exact congrArg Reading.balance (h.elim fun _ w => by rw [w.data])
  | nonce a => exact congrArg Reading.nonce (h.elim fun _ w => by rw [w.data])
  | suicided a => exact congrArg Reading.bool (h.elim fun _ w => w.suicided)
  | codeHash a =>
    cases ho : s.live a with
    | none => simp only [StateDB.view, ho, h.of_live_none ho]
    | some o => obtain ⟨o', ho', hw⟩ := h.of_live ho; simp only [StateDB.view, ho, ho', Option.map_some, hw.data]
  | code a => exact congrArg Reading.code (h.elim fun _ w => w.codeBytes)
  | codeSize a => exact congrArg Reading.size (h.elim fun _ w => by rw [w.codeBytes])
  | state a key =>
    obtain ⟨hA, hfake⟩ := hg a rfl
    refine congrArg Reading.value (h.elim fun ho w => ?_)
    rw [StateObject.shown, StateObject.shown, hfake _ ho, w.fake hA (hfake _ ho), w.current]
  | committedState a key =>
    obtain ⟨hA, hfake⟩ := hg a rfl
    refine congrArg Reading.value (h.elim fun ho w => ?_)
    rw [StateObject.shown, StateObject.shown, hfake _ ho, w.fake hA (hfake _ ho), w.committed]

end StateDB

/-! ## Mutations -/

/-- A call within a transaction. `cover` is the snapshot layer on its own: it
may go stale, and its generation may get further. -/
inductive Mutation
  | get (g : Getter)
  | cover (account : Address → Bool) (slot : Address → Slot → Bool)
  | prepare (thash bhash : Hash) (ti : BitVec 64)
  | addBalance (a : Address) (amount : Int)
  | subBalance (a : Address) (amount : Int)
  | setBalance (a : Address) (amount : Int)
  | setNonce (a : Address) (nonce : BitVec 64)
  | setCode (a : Address) (code : Bytes)
  | setState (a : Address) (key : Slot) (value : Value)
  | setStorage (a : Address) (storage : Storage)
  | suicide (a : Address)
  | createAccount (a : Address)
  | addLog (log : Log)
  | addPreimage (hash : Hash) (preimage : Bytes)
  | addRefund (gas : BitVec 64)
  | subRefund (gas : BitVec 64)
  | snapshot
  | revertToSnapshot (revid : Nat)

namespace StateDB

variable {s s' s₁ s₂ t u : StateDB D} {a : Address} {A : Address → Prop}

/-- The snapshot layer, as much of it as can be read now. -/
def cover (account : Address → Bool) (slot : Address → Slot → Bool) (s : StateDB D) : StateDB D :=
  { s with snap := s.snap.map fun sn => { sn with coversAccount := account, coversSlot := slot } }

def mutate (db : Database D) (s : StateDB D) : Mutation → Option (StateDB D)
  | .get g => some (s.get db g).2
  | .cover account slot => some (s.cover account slot)
  | .prepare thash bhash ti => some (s.prepare thash bhash ti)
  | .addBalance a amount => some (s.addBalance a amount)
  | .subBalance a amount => some (s.subBalance a amount)
  | .setBalance a amount => some (s.setBalance a amount)
  | .setNonce a nonce => some (s.setNonce a nonce)
  | .setCode a code => some (s.setCode db a code)
  | .setState a key value => some (s.setState db a key value)
  | .setStorage a storage => some (s.setStorage a storage)
  | .suicide a => some (s.suicide a).2
  | .createAccount a => some (s.createAccount a)
  | .addLog log => some (s.addLog log)
  | .addPreimage hash preimage => some (s.addPreimage hash preimage)
  | .addRefund gas => some (s.addRefund gas)
  | .subRefund gas => s.subRefund gas
  | .snapshot => some s.snapshot.2
  | .revertToSnapshot revid => s.revertToSnapshot revid

theorem cover_warm (account : Address → Bool) (slot : Address → Slot → Bool) (s : StateDB D) :
    Warm db A (s.cover account slot) s := by
  refine { Warm.refl s with frame := ?_ }
  unfold cover bare
  cases s.snap <;> rfl

theorem WF.mutate {m : Mutation} (h : s.WF db) (hm : s.mutate db m = some s')
    (hA : ∀ a st, m = .setStorage a st → A a) :
    Steps db A s s' ∨ s' = s.snapshot.2 ∨ ∃ revid, m = .revertToSnapshot revid ∧ s.revertToSnapshot revid = some s' := by
  cases m with
  | get g => cases hm; exact .inl (h.get g).2
  | cover account slot => cases hm; exact .inl (.read (cover_warm account slot s) ⟨rfl, rfl⟩)
  | prepare thash bhash ti => cases hm; exact .inl (prepare_steps s thash bhash ti)
  | addBalance a v => cases hm; exact .inl (h.addBalance a v)
  | subBalance a v => cases hm; exact .inl (h.subBalance a v)
  | setBalance a v => cases hm; exact .inl (h.setBalance a v)
  | setNonce a n => cases hm; exact .inl (h.setNonce a n)
  | setCode a c => cases hm; exact .inl (h.setCode a c)
  | setState a k v => cases hm; exact .inl (h.setState a k v)
  | setStorage a st => cases hm; exact .inl (h.setStorage (hA a st rfl) st)
  | suicide a => cases hm; exact .inl (h.suicide a)
  | createAccount a => cases hm; exact .inl (h.createAccount a)
  | addLog l => cases hm; exact .inl (addLog_steps s l)
  | addPreimage hash p => cases hm; exact .inl (addPreimage_steps s hash p)
  | addRefund g => cases hm; exact .inl (addRefund_steps s g)
  | subRefund g => exact .inl (subRefund_steps hm)
  | snapshot => cases hm; exact .inr (.inl rfl)
  | revertToSnapshot i => exact .inr (.inr ⟨i, rfl, hm⟩)

theorem Good.mutate {m : Mutation} (h : Good db s) (hm : s.mutate db m = some s') : Good db s' := by
  rcases h.wf.mutate (A := fun _ => True) hm fun _ _ _ => trivial with hs | rfl | ⟨i, -, hr⟩
  · exact h.steps hs
  · exact h.snapshot
  · exact h.revert hr

/-! ## Nested reverts -/

/-- Within a snapshot, only later ones are reverted to. -/
def Nested (id : Nat) (_ : StateDB D) (m : Mutation) : Prop := ∀ revid, m = .revertToSnapshot revid → id < revid

theorem Good.ext_of_run {ms : List Mutation} (h : Good db s) (hA : ∀ a st, Mutation.setStorage a st ∈ ms → A a)
    (hrun : Run (StateDB.mutate db) (Nested s.nextRevisionId) s.snapshot.2 ms s₂) :
    Good db s₂ ∧ Ext db A s.snapshot.2 s₂ := by
  refine (hrun.with_mem fun _ => id).invariant (I := fun u => Good db u ∧ Ext db A s.snapshot.2 u) ?_
    ⟨h.snapshot, .refl _⟩
  rintro u m u' ⟨hu, hext⟩ ⟨hn, hmem⟩ hm
  refine ⟨hu.mutate hm, ?_⟩
  rcases hu.wf.mutate hm fun a st hst => hA a st (hst ▸ hmem) with hs | rfl | ⟨i, rfl, hr⟩
  · exact hext.trans (.of_steps hs hu.inv) hu.inv
  · exact hext.trans (.snapshot u) hu.inv
  · exact hext.revert h.snapshot.revs hu (hn i rfl) hr

theorem Ext.revertToSnapshot (h₂ : Good db s₂) (hext : Ext db A s.snapshot.2 s₂) :
    ∃ t, s₂.revertToSnapshot s.nextRevisionId = some t ∧ Warm db A t s := by
  obtain ⟨new, hrevs, -⟩ := hext.revs
  obtain ⟨u, hu, hw⟩ := hext.undo
  have hfound := h₂.revs.revertToSnapshot (r := ⟨s.nextRevisionId, s.journal.entries.length⟩) hrevs
  refine ⟨{ u with validRevisions := s.validRevisions }, ?_, ?_⟩
  · rw [hfound]
    have : s₂.revertJournal s.journal.entries.length = some u := hu
    rw [this]
    rfl
  · have hpre : Warm db A ({ u with validRevisions := s.validRevisions } : StateDB D) u :=
      { Warm.refl u with frame := rfl }
    have hsnap : Warm db A s.snapshot.2 s := { Warm.refl s with frame := rfl }
    exact (hpre.trans hw).trans hsnap

end StateDB

/-! ## Transactions and blocks -/

/-- A call on a state database. With `grow` others write to its database. -/
inductive Op (D : Digests)
  | mutation (m : Mutation)
  | finalise (deleteEmptyObjects : Bool) (ord : StateDB.Orders)
  | intermediateRoot (deleteEmptyObjects : Bool) (ord : StateDB.Orders)
  | commit (deleteEmptyObjects : Bool) (ord : StateDB.Orders)
  | copy
  | reset (root : D.StateRoot) (snap : Option (Snap D))
  | grow (db : Database D)

/-- A state database, with the database below it. -/
structure Node (D : Digests) where
  db : Database D
  state : StateDB D

namespace Node

def step (n : Node D) : Op D → Option (Node D)
  | .mutation m => (n.state.mutate n.db m).map fun s => { n with state := s }
  | .finalise de ord => some { n with state := n.state.finalise de ord }
  | .intermediateRoot de ord => (n.state.intermediateRoot n.db de ord).map fun (_, s) => { n with state := s }
  | .commit de ord => (n.state.commit n.db de ord).map fun c => ⟨c.db, c.state⟩
  | .copy => some { n with state := n.state.copy }
  | .reset root snap => (n.state.reset n.db root snap).map fun s => { n with state := s }
  | .grow db => some { n with db := db }

/-- The database has the storage of the accounts that are not loaded. -/
def Holds (db : Database D) (s : StateDB D) : Prop :=
  ∀ a acc, s.stateObjects a = none → s.trie a = some acc → (db.openStorageTrie acc.root).isSome

/-- The snapshot layer has the contents of the tries. -/
def SnapAgrees (db : Database D) (snap : Option (Snap D)) (trie : D.AccountTrie) : Prop :=
  ∀ sn, snap = some sn → ∀ a, (sn.account a).map SlimAccount.full = trie a ∧
    sn.storage a = StateDB.storageOf db (trie a)

/-- A state database just opened, on a database that has what it opens. -/
structure Opened (n : Node D) : Prop where
  sound : n.db.Sound
  opened : ∃ root snap, StateDB.new n.db root snap = some n.state ∧ SnapAgrees n.db snap n.state.trie
  holds : Holds n.db n.state

/-- What a call finds: loops go through their maps in some order, and the
database has what is opened from it. -/
def Env (n : Node D) : Op D → Prop
  | .mutation _ => True
  | .finalise _ ord => StateDB.FinaliseOrder ord n.state
  | .intermediateRoot de ord => StateDB.RootOrder de ord n.state
  | .commit de ord => StateDB.CommitOrder n.db de ord n.state
  | .copy => Holds n.db n.state.copy
  | .reset root snap => ∀ s, n.state.reset n.db root snap = some s → SnapAgrees n.db snap s.trie ∧ Holds n.db s
  | .grow db => n.db.Le db ∧ db.Sound

/-- The states a state database can be in. -/
def Reachable (n : Node D) : Prop := ∃ n₀ ops, Opened n₀ ∧ Run step Env n₀ ops n

end Node

namespace StateDB

variable {s s' s₁ s₂ t u : StateDB D} {a : Address} {A : Address → Prop}

theorem WF.mono (hle : db.Le db') (hdb : db'.Sound) (h : s.WF db) : s.WF db' :=
  WF.iff_cell.2 ⟨hdb, fun a => ((WF.iff_cell.1 h).2 a).mono hle⟩

theorem Good.mono (hle : db.Le db') (hdb : db'.Sound) (h : Good db s) : Good db' s :=
  ⟨fun n hn => by
    obtain ⟨u, hu, hwf⟩ := h.inv n hn
    exact ⟨u, hu, hwf.mono hle hdb⟩, h.revs⟩

theorem Good.of_wf (h : s.WF db) (he : s.journal.entries = []) (hv : s.validRevisions = []) : Good db s where
  inv := .of_empty h he
  revs := by
    constructor <;> rw [hv]
    · exact .nil
    · nofun
    · nofun

theorem clearJournalAndRefund_entries (s : StateDB D) : s.clearJournalAndRefund.journal.entries = [] := by
  unfold clearJournalAndRefund
  split
  · assumption
  · rfl

theorem finalise_entries (de : Bool) (ord : Orders) (s : StateDB D) :
    (s.finalise de ord).journal.entries = [] ∧ (s.finalise de ord).validRevisions = [] :=
  ⟨clearJournalAndRefund_entries _, rfl⟩

theorem intermediateRoot_entries {de : Bool} {ord : Orders} {r : D.StateRoot} (hn : ord.pending.Nodup)
    (h : s.intermediateRoot db de ord = some (r, s')) : s'.journal.entries = [] ∧ s'.validRevisions = [] := by
  obtain ⟨-, hcore, -⟩ := intermediateRoot_cell hn h
  obtain ⟨h1, h2⟩ := finalise_entries de ord s
  exact ⟨show s'.core.journal.entries = [] by rw [hcore]; exact h1,
    show s'.core.validRevisions = [] by rw [hcore]; exact h2⟩

theorem commit_entries {de : Bool} {ord : Orders} {c : Committed D} (h : s.WF db) (hord : CommitOrder db de ord s)
    (hc : s.commit db de ord = some c) : c.state.journal.entries = [] ∧ c.state.validRevisions = [] := by
  obtain ⟨r, s₁, w, hi, hw, hcase⟩ := commit_cases hc
  obtain ⟨hdirty, hslots⟩ := hord.dirty r s₁ hi
  obtain ⟨hcore, -⟩ := commitObjects_spec ord.dirty ⟨false, db, s₁⟩ w hdirty.nodup rfl
    (h.intermediateRoot hord.toRootOrder hi) (fun a _ => hslots a) hw
  obtain ⟨h1, h2⟩ := intermediateRoot_entries hord.pending.nodup hi
  have hw1 : w.state.journal.entries = [] := show w.state.core.journal.entries = [] by rw [hcore]; exact h1
  have hw2 : w.state.validRevisions = [] := show w.state.core.validRevisions = [] by rw [hcore]; exact h2
  rcases hcase with ⟨-, -, -, hst⟩ | ⟨-, -, -, hst⟩ <;> rw [hst] <;> exact ⟨hw1, hw2⟩

theorem ofTrie_wf {trie : D.AccountTrie} {snap : Option (Snap D)} (hdb : db.Sound)
    (hs : Node.SnapAgrees db snap trie) (hh : Node.Holds db (ofTrie trie snap)) : (ofTrie trie snap).WF db where
  sound := hdb
  address _ _ h := by cases h
  cached _ _ h := by cases h
  snapOk _ _ h := by cases h
  opened a acc _ hacc := hh a acc rfl hacc
  loaded a := by rintro (h | h) <;> cases h
  unloaded a sn hsn _ := by
    obtain ⟨h1, h2⟩ := hs sn hsn a
    exact ⟨h1, rfl, h2⟩

theorem copy_peek_cases {o : StateObject D} (h : s.copy.stateObjects a = some o) :
    ∃ o', s.stateObjects a = some o' ∧ o = o'.deepCopy := by
  simp only [copy] at h
  split at h
  · obtain ⟨o', ho', rfl⟩ := Option.map_eq_some_iff.1 h
    exact ⟨o', ho', rfl⟩
  · cases h

theorem WF.copy (h : s.WF db) (hh : Node.Holds db s.copy) : s.copy.WF db where
  sound := h.sound
  address a o ho := by
    obtain ⟨o', ho', rfl⟩ := copy_peek_cases ho
    exact h.address a o' ho'
  cached a o ho := by
    obtain ⟨o', ho', rfl⟩ := copy_peek_cases ho
    have hc := h.cached a o' ho'
    exact ⟨hc.opened, hc.origin, hc.known, hc.code⟩
  snapOk _ _ _ _ := nofun
  opened := hh
  loaded a hp := by
    simp only [StateDB.copy, Bool.or_eq_true, decide_eq_true_eq] at hp ⊢
    have hany : (s.journal.dirties a ≠ 0 ∧ (s.stateObjects a).isSome) ∨ s.stateObjectsPending a = true ∨
        s.stateObjectsDirty a = true := by
      rcases hp with (hd | hp) | (hd | hp)
      · exact .inl hd
      · exact .inr (.inl hp)
      · exact .inl hd
      · exact .inr (.inr hp)
    rw [if_pos hany]
    have hsome : s.stateObjects a ≠ none := by
      rcases hany with ⟨-, hd⟩ | hp
      · exact Option.isSome_iff_ne_none.1 hd
      · exact h.loaded a hp
    simpa using hsome
  unloaded _ _ := nofun

theorem Good.step {n n' : Node D} {op : Op D} (h : Good n.db n.state) (he : n.Env op) (hs : n.step op = some n') :
    Good n'.db n'.state := by
  cases op with
  | mutation m =>
    obtain ⟨s, hm, rfl⟩ := Option.map_eq_some_iff.1 hs
    exact h.mutate hm
  | finalise de ord =>
    cases hs
    obtain ⟨h1, h2⟩ := finalise_entries de ord n.state
    exact .of_wf (h.wf.finalise de he.nodup) h1 h2
  | intermediateRoot de ord =>
    obtain ⟨⟨r, s⟩, hi, rfl⟩ := Option.map_eq_some_iff.1 hs
    obtain ⟨h1, h2⟩ := intermediateRoot_entries he.pending.nodup hi
    exact .of_wf (h.wf.intermediateRoot he hi) h1 h2
  | commit de ord =>
    obtain ⟨c, hc, rfl⟩ := Option.map_eq_some_iff.1 hs
    obtain ⟨h1, h2⟩ := commit_entries h.wf he hc
    exact .of_wf (h.wf.commit he hc).1 h1 h2
  | copy =>
    cases hs
    exact .of_wf (h.wf.copy he) rfl rfl
  | reset root snap =>
    obtain ⟨s, hr, rfl⟩ := Option.map_eq_some_iff.1 hs
    obtain ⟨hagree, hh⟩ := he s hr
    obtain ⟨trie, -, rfl⟩ := Option.map_eq_some_iff.1 hr
    have hwf : (ofTrie trie snap).WF n.db := ofTrie_wf h.wf.sound hagree hh
    exact .of_wf { hwf with } (clearJournalAndRefund_entries _) rfl
  | grow db =>
    cases hs
    exact h.mono he.1 he.2

end StateDB

namespace Node

theorem Opened.good {n : Node D} (h : Opened n) : n.state.Good n.db := by
  obtain ⟨root, snap, hnew, hagree⟩ := h.opened
  have hh := h.holds
  obtain ⟨trie, -, heq⟩ := Option.map_eq_some_iff.1 hnew
  rw [← heq] at hagree hh ⊢
  exact .of_wf (StateDB.ofTrie_wf h.sound hagree hh) rfl rfl

theorem Reachable.good {n : Node D} (h : Reachable n) : n.state.Good n.db := by
  obtain ⟨n₀, ops, h₀, hrun⟩ := h
  exact hrun.invariant (I := fun n => n.state.Good n.db) (fun _ _ _ hi he hs => hi.step he hs) h₀.good

theorem Reachable.of_opened {n n' : Node D} {ops : List (Op D)} (h : Opened n) (hrun : Run step Env n ops n') :
    Reachable n' := ⟨n, ops, h, hrun⟩

/-- `RevertToSnapshot` brings back the state at `Snapshot`, whatever was done
in between; the storage of an account only where none was set for debugging. -/
theorem revertToSnapshot_restores {n : Node D} (h : Reachable n) {ms : List Mutation} {s₂ : StateDB D}
    (hrun : Run (StateDB.mutate n.db) (StateDB.Nested n.state.snapshot.1) n.state.snapshot.2 ms s₂) :
    ∃ t, s₂.revertToSnapshot n.state.snapshot.1 = some t ∧
      (∀ g : Getter, (∀ a, g.storageOf = some a → n.state.NoFake a ∧ ∀ st, Mutation.setStorage a st ∉ ms) →
        (t.get n.db g).1 = (n.state.get n.db g).1) ∧
      t.refund = n.state.refund ∧ t.logs = n.state.logs ∧ t.logSize = n.state.logSize ∧
      t.preimages = n.state.preimages ∧ t.snapDestructs = n.state.snapDestructs ∧
      ∀ a, a ≠ ripemd → t.journal.dirties a = n.state.journal.dirties a := by
  have hgood := h.good
  obtain ⟨h₂, hext⟩ := hgood.ext_of_run (A := fun a => ∃ st, Mutation.setStorage a st ∈ ms)
    (fun a st hst => ⟨st, hst⟩) hrun
  obtain ⟨t, ht, hw⟩ := hext.revertToSnapshot h₂
  refine ⟨t, ht, fun g hg => ?_, hw.refund, hw.logs, hw.logSize, hw.preimages, hw.snapDestructs, hw.dirties⟩
  rw [((hw.wf hgood.wf).get (A := fun _ => True) g).1, (hgood.wf.get (A := fun _ => True) g).1]
  refine hw.view g fun a ha => ?_
  obtain ⟨hf, hm⟩ := hg a ha
  exact ⟨fun ⟨st, hst⟩ => hm st hst, hf⟩

/-- Hashes to run the machine with: code is its own hash, and a root is what
two slots hold, or two accounts. -/
def sampleDigests : Digests where
  Code := Bytes
  Root := Value × Value
  StateRoot := Option (State.Account Bytes (Value × Value)) × Option (State.Account Bytes (Value × Value))
  code := id
  storage t := (t 0, t 1)
  state t := (t 2, t 7)

/-- An empty state on an empty database. -/
def sample : Node sampleDigests where
  db := ⟨fun _ => none, fun _ => none, fun _ => none⟩
  state := .ofTrie (fun _ => none) none

theorem sample_opened : Opened sample where
  sound := ⟨nofun, nofun, nofun⟩
  opened := ⟨sampleDigests.state fun _ => none, none, rfl, nofun⟩
  holds _ _ _ := nofun

theorem revertToSnapshot_restores_sample :
    ∃ t, (sample.state.snapshot.2.setState sample.db 7 1 5).revertToSnapshot 0 = some t ∧
      (t.get sample.db (.state 7 1)).1 = (sample.state.get sample.db (.state 7 1)).1 := by
  have hrun : Run (StateDB.mutate sample.db) (StateDB.Nested 0) sample.state.snapshot.2 [.setState 7 1 5]
      (sample.state.snapshot.2.setState sample.db 7 1 5) := .cons nofun rfl .nil
  obtain ⟨t, ht, hget, -⟩ := revertToSnapshot_restores (.of_opened sample_opened .nil) hrun
  exact ⟨t, ht, hget (.state 7 1) fun a _ => ⟨nofun, fun st hst => by simp at hst⟩⟩

/-- Storage set for debugging is written without a journal entry, so that it
stays after the revert. -/
theorem revertToSnapshot_keeps_fakeStorage :
    ∃ n : Node sampleDigests, Reachable n ∧ (n.state.get n.db (.state 7 1)).1 = .value 0 ∧
      ∃ s₂ t, Run (StateDB.mutate n.db) (StateDB.Nested n.state.snapshot.1) n.state.snapshot.2 [.setState 7 1 5] s₂ ∧
        s₂.revertToSnapshot n.state.snapshot.1 = some t ∧ (t.get n.db (.state 7 1)).1 = .value 5 := by
  have hrun : Run step Env sample [.mutation (.setStorage 7 fun _ => none)]
      ⟨sample.db, sample.state.setStorage 7 fun _ => none⟩ := .cons trivial rfl .nil
  exact ⟨_, .of_opened sample_opened hrun, by decide +kernel, _, _, .cons nofun rfl .nil, rfl, by decide +kernel⟩

end Node

end NdnGeth.State
