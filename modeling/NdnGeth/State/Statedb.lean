/-
The state database (`core/state/statedb.go`, `core/state/journal.go`): state
objects over the account trie, with a journal of the changes that can be
undone.

Objects are values here and pointers in the source. The source reaches an
object only through `stateObjects`, and keeps one elsewhere (`prev` of a
journal entry) only while another has taken its place there; so an object
that is changed is put back under its address.

The account trie and the database are read without errors, so the state
database's own `dbErr` is left out, with the timers. A panic is `none`.
-/
import NdnGeth.State.StateObject

namespace NdnGeth.State

open Function
open Lib.Rlp (Bytes)
open Core (Hash)
open Types (Address)

variable {D : Digests}

structure Log where
  address : Address
  topics : List Hash
  data : Bytes
  blockNumber : BitVec 64
  txHash : Hash
  txIndex : BitVec 64
  blockHash : Hash
  index : BitVec 64
  deriving DecidableEq

/-! ## The journal -/

inductive JournalEntry (D : Digests)
  | createObjectChange (account : Address)
  | resetObjectChange (prev : StateObject D) (prevdestruct : Bool)
  | suicideChange (account : Address) (prev : Bool) (prevbalance : Int)
  | balanceChange (account : Address) (prev : Int)
  | nonceChange (account : Address) (prev : BitVec 64)
  | storageChange (account : Address) (key : Slot) (prevalue : Value)
  | codeChange (account : Address) (prevcode : Option Bytes) (prevhash : D.Code)
  | refundChange (prev : BitVec 64)
  | addLogChange (txhash : Hash)
  | addPreimageChange (hash : Hash)
  | touchChange (account : Address)

def JournalEntry.dirtied : JournalEntry D → Option Address
  | createObjectChange a => some a
  | resetObjectChange _ _ => none
  | suicideChange a _ _ => some a
  | balanceChange a _ => some a
  | nonceChange a _ => some a
  | storageChange a _ _ => some a
  | codeChange a _ _ => some a
  | refundChange _ => none
  | addLogChange _ => none
  | addPreimageChange _ => none
  | touchChange a => some a

/-- `journal`. The entries are listed newest first. An address that is not in
the map of dirty accounts has count 0; the source deletes a count that
reaches 0. -/
structure Journal (D : Digests) where
  entries : List (JournalEntry D)
  dirties : Address → Nat

namespace Journal

def new : Journal D := ⟨[], fun _ => 0⟩

def dirty (j : Journal D) (a : Address) : Journal D :=
  { j with dirties := update j.dirties a (j.dirties a + 1) }

def append (j : Journal D) (e : JournalEntry D) : Journal D :=
  let j := { j with entries := e :: j.entries }
  e.dirtied.elim j j.dirty

/-- What `revert` does to the journal for its newest entry. -/
def drop (j : Journal D) (e : JournalEntry D) : Journal D where
  entries := j.entries.tail
  dirties := e.dirtied.elim j.dirties fun a => update j.dirties a (j.dirties a - 1)

end Journal

def ripemd : Address := 3

structure Revision where
  id : Nat
  journalIndex : Nat
  deriving DecidableEq

/-! ## The state database -/

/-- `StateDB`. Sets and maps are functions; a log list that is not in `logs`
is empty. The valid revisions are listed newest first. -/
structure StateDB (D : Digests) where
  trie : D.AccountTrie
  snap : Option (Snap D)
  snapDestructs : Address → Bool
  snapAccounts : Address → Option (SlimAccount D)
  snapStorage : Address → Storage
  stateObjects : Address → Option (StateObject D)
  stateObjectsPending : Address → Bool
  stateObjectsDirty : Address → Bool
  refund : BitVec 64
  thash : Hash
  bhash : Hash
  txIndex : BitVec 64
  logs : Hash → List Log
  logSize : BitVec 64
  preimages : Hash → Option Bytes
  journal : Journal D
  validRevisions : List Revision
  nextRevisionId : Nat

namespace StateDB

/-- A state database over an account trie, as `New` builds it. -/
def ofTrie (trie : D.AccountTrie) (snap : Option (Snap D)) : StateDB D where
  trie := trie
  snap := snap
  snapDestructs := fun _ => false
  snapAccounts := fun _ => none
  snapStorage := fun _ _ => none
  stateObjects := fun _ => none
  stateObjectsPending := fun _ => false
  stateObjectsDirty := fun _ => false
  refund := 0
  thash := 0
  bhash := 0
  txIndex := 0
  logs := fun _ => []
  logSize := 0
  preimages := fun _ => none
  journal := .new
  validRevisions := []
  nextRevisionId := 0

/-- `New`. `snap` is the layer the snapshot tree has for the root. -/
def new (db : Database D) (root : D.StateRoot) (snap : Option (Snap D)) : Option (StateDB D) :=
  (db.openTrie root).map fun trie => ofTrie trie snap

def setStateObject (s : StateDB D) (o : StateObject D) : StateDB D :=
  { s with stateObjects := update s.stateObjects o.address (some o) }

def append (s : StateDB D) (e : JournalEntry D) : StateDB D :=
  { s with journal := s.journal.append e }

/-- The account of an address that has no object yet: from the snapshot or,
where that fails, from the trie. -/
def readAccount (s : StateDB D) (a : Address) : Option D.Account :=
  match s.snap with
  | none => s.trie a
  | some sn => if sn.coversAccount a then (sn.account a).map SlimAccount.full else s.trie a

/-- `getDeletedStateObject`: the object, and the state in which it is live. -/
def getDeletedStateObject (s : StateDB D) (a : Address) : Option (StateObject D) × StateDB D :=
  match s.stateObjects a with
  | some o => (some o, s)
  | none =>
    match s.readAccount a with
    | none => (none, s)
    | some data => (some (newObject a data), s.setStateObject (newObject a data))

def getStateObject (s : StateDB D) (a : Address) : Option (StateObject D) × StateDB D :=
  let (o, s) := s.getDeletedStateObject a
  (o.filter fun o => !o.deleted, s)

/-- The account is noted as destructed for the snapshot, where there is one. -/
def destruct (s : StateDB D) (a : Address) : StateDB D :=
  if s.snap.isSome then { s with snapDestructs := update s.snapDestructs a true } else s

/-- `createObject`, with the balance that `CreateAccount` then gives the new
object: the previous one's where `carry` is set. -/
def createObject (s : StateDB D) (a : Address) (carry : Bool) : StateObject D × StateDB D :=
  let (prev, s) := s.getDeletedStateObject a
  match prev with
  | none =>
    let newobj := newObject a (.fresh D 0)
    (newobj, (s.append (.createObjectChange a)).setStateObject newobj)
  | some prev =>
    let prevdestruct := s.snap.isSome && s.snapDestructs a
    let newobj := newObject a (.fresh D (if carry then prev.data.balance else 0))
    (newobj, ((s.destruct a).append (.resetObjectChange prev prevdestruct)).setStateObject newobj)

def getOrNewStateObject (s : StateDB D) (a : Address) : StateObject D × StateDB D :=
  match s.getStateObject a with
  | (some o, s) => (o, s)
  | (none, s) => s.createObject a false

/-! ## Getters

Each gives its result and the state with what was loaded. -/

def exist (s : StateDB D) (a : Address) : Bool × StateDB D :=
  let (o, s) := s.getStateObject a
  (o.isSome, s)

def isEmpty (s : StateDB D) (a : Address) : Bool × StateDB D :=
  let (o, s) := s.getStateObject a
  (o.elim true StateObject.empty, s)

def getBalance (s : StateDB D) (a : Address) : Int × StateDB D :=
  let (o, s) := s.getStateObject a
  (o.elim 0 fun o => o.data.balance, s)

def getNonce (s : StateDB D) (a : Address) : BitVec 64 × StateDB D :=
  let (o, s) := s.getStateObject a
  (o.elim 0 fun o => o.data.nonce, s)

def hasSuicided (s : StateDB D) (a : Address) : Bool × StateDB D :=
  let (o, s) := s.getStateObject a
  (o.elim false StateObject.suicided, s)

/-- `GetCodeHash`. The hash of an account that does not exist is zero. -/
def getCodeHash (s : StateDB D) (a : Address) : Option D.Code × StateDB D :=
  let (o, s) := s.getStateObject a
  (o.map fun o => o.data.codeHash, s)

def getCode (db : Database D) (s : StateDB D) (a : Address) : Bytes × StateDB D :=
  match s.getStateObject a with
  | (none, s) => ([], s)
  | (some o, s) =>
    let (o, code) := o.getCode db
    (code.getD [], s.setStateObject o)

def getCodeSize (db : Database D) (s : StateDB D) (a : Address) : Nat × StateDB D :=
  match s.getStateObject a with
  | (none, s) => (0, s)
  | (some o, s) =>
    let (o, size) := o.codeSize db
    (size, s.setStateObject o)

def getState (db : Database D) (s : StateDB D) (a : Address) (key : Slot) : Value × StateDB D :=
  match s.getStateObject a with
  | (none, s) => (0, s)
  | (some o, s) =>
    let (o, value) := o.getState db s.snap (s.snapDestructs a) key
    (value, s.setStateObject o)

def getCommittedState (db : Database D) (s : StateDB D) (a : Address) (key : Slot) : Value × StateDB D :=
  match s.getStateObject a with
  | (none, s) => (0, s)
  | (some o, s) =>
    let (o, value) := o.getCommittedState db s.snap (s.snapDestructs a) key
    (value, s.setStateObject o)

/-! ## Setters -/

def touch (s : StateDB D) (o : StateObject D) : StateDB D :=
  let s := s.append (.touchChange o.address)
  if o.address = ripemd then { s with journal := s.journal.dirty o.address } else s

def setObjectBalance (s : StateDB D) (o : StateObject D) (amount : Int) : StateDB D :=
  (s.append (.balanceChange o.address o.data.balance)).setStateObject (o.setBalance amount)

def addBalance (s : StateDB D) (a : Address) (amount : Int) : StateDB D :=
  let (o, s) := s.getOrNewStateObject a
  if amount = 0 then if o.empty then s.touch o else s
  else s.setObjectBalance o (o.data.balance + amount)

def subBalance (s : StateDB D) (a : Address) (amount : Int) : StateDB D :=
  let (o, s) := s.getOrNewStateObject a
  if amount = 0 then s else s.setObjectBalance o (o.data.balance - amount)

def setBalance (s : StateDB D) (a : Address) (amount : Int) : StateDB D :=
  let (o, s) := s.getOrNewStateObject a
  s.setObjectBalance o amount

def setNonce (s : StateDB D) (a : Address) (nonce : BitVec 64) : StateDB D :=
  let (o, s) := s.getOrNewStateObject a
  (s.append (.nonceChange o.address o.data.nonce)).setStateObject (o.setNonce nonce)

def setCode (db : Database D) (s : StateDB D) (a : Address) (code : Bytes) : StateDB D :=
  let (o, s) := s.getOrNewStateObject a
  let (o, prevcode) := o.getCode db
  (s.append (.codeChange o.address prevcode o.data.codeHash)).setStateObject (o.setCode (D.code code) (some code))

/-- `SetState`. An account with storage set for debugging is written there,
and not to the journal. -/
def setState (db : Database D) (s : StateDB D) (a : Address) (key : Slot) (value : Value) : StateDB D :=
  let (o, s) := s.getOrNewStateObject a
  match o.fakeStorage with
  | some fake => s.setStateObject { o with fakeStorage := some (update fake key value) }
  | none =>
    let (o, prev) := o.getState db s.snap (s.snapDestructs a) key
    if prev = value then s.setStateObject o
    else (s.append (.storageChange o.address key prev)).setStateObject (o.setState key value)

def setStorage (s : StateDB D) (a : Address) (storage : Storage) : StateDB D :=
  let (o, s) := s.getOrNewStateObject a
  s.setStateObject (o.setStorage storage)

def suicide (s : StateDB D) (a : Address) : Bool × StateDB D :=
  match s.getStateObject a with
  | (none, s) => (false, s)
  | (some o, s) =>
    (true, (s.append (.suicideChange a o.suicided o.data.balance)).setStateObject (o.setSuicided true 0))

def createAccount (s : StateDB D) (a : Address) : StateDB D := (s.createObject a true).2

def addLog (s : StateDB D) (log : Log) : StateDB D :=
  let s := s.append (.addLogChange s.thash)
  let log := { log with txHash := s.thash, blockHash := s.bhash, txIndex := s.txIndex, index := s.logSize }
  { s with
    logs := update s.logs s.thash (s.logs s.thash ++ [log])
    logSize := s.logSize + 1 }

def addPreimage (s : StateDB D) (hash : Hash) (preimage : Bytes) : StateDB D :=
  if (s.preimages hash).isSome then s
  else
    let s := s.append (.addPreimageChange hash)
    { s with preimages := update s.preimages hash (some preimage) }

def addRefund (s : StateDB D) (gas : BitVec 64) : StateDB D :=
  { s.append (.refundChange s.refund) with refund := s.refund + gas }

/-- `SubRefund`. It panics rather than go below zero. -/
def subRefund (s : StateDB D) (gas : BitVec 64) : Option (StateDB D) :=
  if s.refund < gas then none
  else some { s.append (.refundChange s.refund) with refund := s.refund - gas }

def prepare (s : StateDB D) (thash bhash : Hash) (ti : BitVec 64) : StateDB D :=
  { s with thash := thash, bhash := bhash, txIndex := ti }

/-! ## Snapshot and revert -/

def snapshot (s : StateDB D) : Nat × StateDB D :=
  (s.nextRevisionId,
    { s with
      nextRevisionId := s.nextRevisionId + 1
      validRevisions := ⟨s.nextRevisionId, s.journal.entries.length⟩ :: s.validRevisions })

/-- An entry that changes the object of its account back. The source
dereferences the object, which is nil where the account does not exist. -/
def revertObject (s : StateDB D) (a : Address) (f : StateObject D → StateObject D) : Option (StateDB D) :=
  match s.getStateObject a with
  | (none, _) => none
  | (some o, s) => some (s.setStateObject (f o))

def revertEntry (s : StateDB D) : JournalEntry D → Option (StateDB D)
  | .createObjectChange a =>
    some { s with
      stateObjects := update s.stateObjects a none
      stateObjectsDirty := update s.stateObjectsDirty a false }
  | .resetObjectChange prev prevdestruct =>
    let s := s.setStateObject prev
    if !prevdestruct && s.snap.isSome then
      some { s with snapDestructs := update s.snapDestructs prev.address false }
    else some s
  | .suicideChange a prev prevbalance =>
    match s.getStateObject a with
    | (none, s) => some s
    | (some o, s) => some (s.setStateObject (o.setSuicided prev prevbalance))
  | .balanceChange a prev => s.revertObject a fun o => o.setBalance prev
  | .nonceChange a prev => s.revertObject a fun o => o.setNonce prev
  | .storageChange a key prevalue => s.revertObject a fun o => o.setState key prevalue
  | .codeChange a prevcode prevhash => s.revertObject a fun o => o.setCode prevhash prevcode
  | .refundChange prev => some { s with refund := prev }
  | .addLogChange txhash =>
    -- `logs[:len(logs)-1]` panics on an empty list.
    if s.logs txhash = [] then none
    else
      some { s with
        logs := update s.logs txhash (s.logs txhash).dropLast
        logSize := s.logSize - 1 }
  | .addPreimageChange hash => some { s with preimages := update s.preimages hash none }
  | .touchChange _ => some s

/-- One round of the loop of `journal.revert`: the newest entry is undone. -/
def undo (s : StateDB D) : Option (StateDB D) :=
  match s.journal.entries with
  | [] => none
  | e :: _ => (s.revertEntry e).map fun s => { s with journal := s.journal.drop e }

/-- The loop of `journal.revert`, with the number of entries to undo. -/
def undoN : Nat → StateDB D → Option (StateDB D)
  | 0, s => some s
  | n + 1, s => s.undo.bind (undoN n)

def revertJournal (s : StateDB D) (snapshot : Nat) : Option (StateDB D) :=
  undoN (s.journal.entries.length - snapshot) s

/-- `RevertToSnapshot`. The source finds the revision by binary search in the
list of valid ones, whose ids grow. -/
def revertToSnapshot (s : StateDB D) (revid : Nat) : Option (StateDB D) :=
  match s.validRevisions.dropWhile fun r => revid < r.id with
  | [] => none
  | r :: older =>
    if r.id = revid then (s.revertJournal r.journalIndex).map fun s => { s with validRevisions := older }
    else none

/-! ## Transactions and blocks -/

/-- The orders in which one call goes through its maps. -/
structure Orders where
  dirties : List Address
  pending : List Address
  dirty : List Address
  /-- The slots of an object in `IntermediateRoot`. -/
  slots : Address → List Slot
  /-- The slots of an object in `CommitTrie`. -/
  commitSlots : Address → List Slot

def clearJournalAndRefund (s : StateDB D) : StateDB D :=
  let s := if s.journal.entries = [] then s else { s with journal := .new, refund := 0 }
  { s with validRevisions := [] }

/-- `Reset`. `snap` is the layer the snapshot tree has for the new root. -/
def reset (db : Database D) (root : D.StateRoot) (snap : Option (Snap D)) (s : StateDB D) : Option (StateDB D) :=
  (db.openTrie root).map fun trie =>
    let s := s.clearJournalAndRefund
    { ofTrie trie snap with
      refund := s.refund
      journal := s.journal
      validRevisions := s.validRevisions
      nextRevisionId := s.nextRevisionId }

/-- One address of the loop of `Finalise`. -/
def finaliseObject (deleteEmptyObjects : Bool) (s : StateDB D) (a : Address) : StateDB D :=
  match s.stateObjects a with
  | none => s
  | some o =>
    let s :=
      if o.suicided || deleteEmptyObjects && o.empty then
        let s := { s with stateObjects := update s.stateObjects a (some { o with deleted := true }) }
        if s.snap.isSome then
          { s with
            snapDestructs := update s.snapDestructs a true
            snapAccounts := update s.snapAccounts a none
            snapStorage := update s.snapStorage a fun _ => none }
        else s
      else { s with stateObjects := update s.stateObjects a (some o.finalise) }
    { s with
      stateObjectsPending := update s.stateObjectsPending a true
      stateObjectsDirty := update s.stateObjectsDirty a true }

def finalise (deleteEmptyObjects : Bool) (ord : Orders) (s : StateDB D) : StateDB D :=
  (ord.dirties.foldl (finaliseObject deleteEmptyObjects) s).clearJournalAndRefund

/-- `updateStateObject`. An account with a negative balance cannot be encoded. -/
def updateStateObject (s : StateDB D) (a : Address) (o : StateObject D) : Option (StateDB D) :=
  if o.data.balance < 0 then none
  else
    let s := { s with trie := update s.trie a (some o.data) }
    some (if s.snap.isSome then
      { s with snapAccounts := update s.snapAccounts a (some (slimAccount o.data)) }
    else s)

/-- The storage the object keeps for the snapshot, where there is one. -/
def setSnapStorage (s : StateDB D) (a : Address) (slots : Storage) : StateDB D :=
  if s.snap.isSome then { s with snapStorage := update s.snapStorage a slots } else s

/-- One address of the loop of `IntermediateRoot`. -/
def flushObject (db : Database D) (slots : Address → List Slot) (s : StateDB D) (a : Address) :
    Option (StateDB D) :=
  match s.stateObjects a with
  | none => none
  | some o =>
    if o.deleted then some { s with trie := update s.trie a none }
    else
      let (o, snapSlots) := o.updateRoot db (slots a) (s.snapStorage a)
      let s := { s with stateObjects := update s.stateObjects a (some o) }
      (s.setSnapStorage a snapSlots).updateStateObject a o

def intermediateRoot (db : Database D) (deleteEmptyObjects : Bool) (ord : Orders) (s : StateDB D) :
    Option (D.StateRoot × StateDB D) :=
  let s := s.finalise deleteEmptyObjects ord
  (ord.pending.foldlM (flushObject db ord.slots) s).map fun s =>
    (D.state s.trie, { s with stateObjectsPending := fun _ => false })

/-- The loop of `Commit` on its way: whether an object could not be written,
after which the loop is left. -/
structure Writing (D : Digests) where
  failed : Bool
  db : Database D
  state : StateDB D

/-- One address of the loop of `Commit`. -/
def commitObject (slots : Address → List Slot) (w : Writing D) (a : Address) : Option (Writing D) :=
  if w.failed then some w
  else
    match w.state.stateObjects a with
    | none => none
    | some o =>
      if o.deleted then some w
      else
        let write := o.code.isSome && o.dirtyCode
        let db := if write then w.db.insertBlob o.data.codeHash (o.code.getD []) else w.db
        let o := if write then { o with dirtyCode := false } else o
        let (failed, db, o, snapSlots) := o.commitTrie db (slots a) (w.state.snapStorage a)
        let s := { w.state with stateObjects := update w.state.stateObjects a (some o) }
        some ⟨failed, db, s.setSnapStorage a snapSlots⟩

/-- What `Commit` passes to `snaps.Update`. -/
structure SnapUpdate (D : Digests) where
  root : D.StateRoot
  parent : D.StateRoot
  destructs : Address → Bool
  accounts : Address → Option (SlimAccount D)
  storage : Address → Storage

/-- What `Commit` returns: the root (nothing on an error), with the update of
the snapshot tree. -/
structure Committed (D : Digests) where
  root : Option D.StateRoot
  update : Option (SnapUpdate D)
  db : Database D
  state : StateDB D

/-- The update of the snapshot tree, where there is a state transition. -/
def snapUpdate (s : StateDB D) (root : D.StateRoot) : Option (SnapUpdate D) :=
  match s.snap with
  | none => none
  | some sn =>
    if sn.root = root then none else some ⟨root, sn.root, s.snapDestructs, s.snapAccounts, s.snapStorage⟩

/-- The end of `Commit`, without the snapshot's caches. -/
def dropSnap (s : StateDB D) : StateDB D :=
  { s with
    snap := none
    snapDestructs := fun _ => false
    snapAccounts := fun _ => none
    snapStorage := fun _ _ => none }

def commit (db : Database D) (deleteEmptyObjects : Bool) (ord : Orders) (s : StateDB D) : Option (Committed D) :=
  (s.intermediateRoot db deleteEmptyObjects ord).bind fun (_, s) =>
    (ord.dirty.foldlM (commitObject ord.commitSlots) ⟨false, db, s⟩).map fun w =>
      if w.failed then { root := none, update := none, db := w.db, state := w.state }
      else
        let s := { w.state with stateObjectsDirty := fun _ => false }
        let root := D.state s.trie
        { root := some root, update := s.snapUpdate root, db := w.db.commitState s.trie, state := s.dropSnap }

/-- `Copy`. The copy does not use snapshots, and the transaction set by
`Prepare` is not copied. The source dereferences the objects of the pending
and dirty sets, which are always there. -/
def copy (s : StateDB D) : StateDB D :=
  let dirty (a : Address) := s.journal.dirties a ≠ 0 ∧ (s.stateObjects a).isSome
  { ofTrie s.trie none with
    stateObjects := fun a =>
      if dirty a ∨ s.stateObjectsPending a ∨ s.stateObjectsDirty a then
        (s.stateObjects a).map StateObject.deepCopy
      else none
    stateObjectsPending := fun a => decide (dirty a) || s.stateObjectsPending a
    stateObjectsDirty := fun a => decide (dirty a) || s.stateObjectsDirty a
    refund := s.refund
    logs := s.logs
    logSize := s.logSize
    preimages := s.preimages }

end StateDB

end NdnGeth.State
