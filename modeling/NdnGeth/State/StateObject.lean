/-
State objects (`core/state/state_object.go`): an account as the state
database works on it, with its caches of storage and code.

A trie is its contents: a storage trie gives a value for each slot (zero
where it has no entry), the account trie an account for some addresses. The
database keeps tries and code under their hashes and gives back what was
stored there first; reading it does not fail except where an entry is
missing. The secure trie's hashing of keys is left out.

Hashes are abstract (`Digests`): a type for the hash of code, for the root of
a storage trie and for the root of the account trie, with the functions that
compute them. Nothing is assumed of these functions here.

Go iterates over its maps in any order. Where such a loop writes one place
for each key in turn, it takes the order as an argument.
-/
import NdnGeth.Core.Encoding
import Mathlib.Data.Option.Basic

namespace NdnGeth.State

open Function
open Lib.Rlp (Bytes)
open Core (Hash)
open Types (Address)

/-- The key of a storage entry. -/
abbrev Slot := Hash

/-- What a storage slot holds. -/
abbrev Value := Hash

abbrev Storage := Slot → Option Value

/-- The contents of a storage trie. -/
abbrev StorageTrie := Slot → Value

/-- `Account`, as it is stored in the account trie. `Balance` is a big
integer there. -/
structure Account (Code Root : Type) where
  nonce : BitVec 64
  balance : Int
  root : Root
  codeHash : Code
  deriving DecidableEq

/-- The hashes the state is built on. -/
structure Digests where
  Code : Type
  Root : Type
  StateRoot : Type
  [decCode : DecidableEq Code]
  [decRoot : DecidableEq Root]
  [decStateRoot : DecidableEq StateRoot]
  /-- `crypto.Keccak256Hash` of a contract's code. -/
  code : Bytes → Code
  /-- `trie.Hash` of a storage trie. -/
  storage : StorageTrie → Root
  /-- `trie.Hash` of the account trie. -/
  state : (Address → Option (Account Code Root)) → StateRoot

instance (D : Digests) : DecidableEq D.Code := D.decCode
instance (D : Digests) : DecidableEq D.Root := D.decRoot
instance (D : Digests) : DecidableEq D.StateRoot := D.decStateRoot

namespace Digests

variable (D : Digests)

abbrev Account := State.Account D.Code D.Root

/-- The contents of an account trie. -/
abbrev AccountTrie := Address → Option D.Account

def emptyRoot : D.Root := D.storage fun _ => 0

def emptyCodeHash : D.Code := D.code []

end Digests

variable {D : Digests}

/-! ## The database -/

/-- `state.Database`, with the trie database below it. -/
structure Database (D : Digests) where
  code : D.Code → Option Bytes
  storage : D.Root → Option StorageTrie
  state : D.StateRoot → Option D.AccountTrie

namespace Database

/-- `OpenStorageTrie`. The empty trie is not read from the database. -/
def openStorageTrie (db : Database D) (root : D.Root) : Option StorageTrie :=
  if root = D.emptyRoot then some fun _ => 0 else db.storage root

def openTrie (db : Database D) (root : D.StateRoot) : Option D.AccountTrie :=
  if root = D.state fun _ => none then some fun _ => none else db.state root

/-- Stores `v` under `k` unless something is stored there. -/
def put {K V : Type} [DecidableEq K] (m : K → Option V) (k : K) (v : V) : K → Option V :=
  update m k (some ((m k).getD v))

def insertBlob (db : Database D) (hash : D.Code) (blob : Bytes) : Database D :=
  { db with code := put db.code hash blob }

/-- `Commit` of a storage trie. -/
def commitStorage (db : Database D) (t : StorageTrie) : Database D :=
  { db with storage := put db.storage (D.storage t) t }

/-- `Commit` of the account trie. -/
def commitState (db : Database D) (t : D.AccountTrie) : Database D :=
  { db with state := put db.state (D.state t) t }

end Database

/-! ## Snapshots -/

/-- `snapshot.Account`: the root of an empty trie and the hash of no code are
not written out. -/
structure SlimAccount (D : Digests) where
  nonce : BitVec 64
  balance : Int
  root : Option D.Root
  codeHash : Option D.Code

/-- `snapshot.SlimAccountRLP`. -/
def slimAccount (acc : D.Account) : SlimAccount D where
  nonce := acc.nonce
  balance := acc.balance
  root := if acc.root = D.emptyRoot then none else some acc.root
  codeHash := if acc.codeHash = D.emptyCodeHash then none else some acc.codeHash

/-- The account a slim one stands for. -/
def SlimAccount.full (acc : SlimAccount D) : D.Account where
  nonce := acc.nonce
  balance := acc.balance
  root := acc.root.getD D.emptyRoot
  codeHash := acc.codeHash.getD D.emptyCodeHash

/-- `snapshot.Snapshot`: the flat contents of one state. Reading an entry can
fail, because the layer is stale or not generated that far
(`coversAccount`, `coversSlot`). -/
structure Snap (D : Digests) where
  root : D.StateRoot
  account : Address → Option (SlimAccount D)
  storage : Address → Slot → Value
  coversAccount : Address → Bool
  coversSlot : Address → Slot → Bool

/-! ## State objects -/

/-- `stateObject`. The hash of the address and the pointer to the state
database are left out; methods that use the latter take what they read of it. -/
structure StateObject (D : Digests) where
  address : Address
  data : D.Account
  /-- A storage trie or a contract's code could not be loaded. -/
  dbErr : Bool
  /-- The storage trie, once it is used. -/
  trie : Option StorageTrie
  /-- The code, once it is loaded or set. -/
  code : Option Bytes
  originStorage : Storage
  pendingStorage : Storage
  dirtyStorage : Storage
  /-- Storage set by a caller for debugging, in place of the account's own. -/
  fakeStorage : Option StorageTrie
  dirtyCode : Bool
  suicided : Bool
  deleted : Bool

def newObject (a : Address) (data : D.Account) : StateObject D where
  address := a
  data := data
  dbErr := false
  trie := none
  code := none
  originStorage := fun _ => none
  pendingStorage := fun _ => none
  dirtyStorage := fun _ => none
  fakeStorage := none
  dirtyCode := false
  suicided := false
  deleted := false

/-- The account of `newObject(s, addr, Account{})`, with a balance. -/
def Account.fresh (D : Digests) (balance : Int) : D.Account where
  nonce := 0
  balance := balance
  root := D.emptyRoot
  codeHash := D.emptyCodeHash

namespace StateObject

def empty (o : StateObject D) : Bool :=
  o.data.nonce == 0 && o.data.balance == 0 && o.data.codeHash == D.emptyCodeHash

def setBalance (o : StateObject D) (amount : Int) : StateObject D :=
  { o with data := { o.data with balance := amount } }

def setNonce (o : StateObject D) (nonce : BitVec 64) : StateObject D :=
  { o with data := { o.data with nonce := nonce } }

def setCode (o : StateObject D) (codeHash : D.Code) (code : Option Bytes) : StateObject D :=
  { o with code := code, data := { o.data with codeHash := codeHash }, dirtyCode := true }

def setState (o : StateObject D) (key : Slot) (value : Value) : StateObject D :=
  { o with dirtyStorage := update o.dirtyStorage key (some value) }

/-- `markSuicided`, with the balance cleared as `StateDB.Suicide` does. -/
def setSuicided (o : StateObject D) (suicided : Bool) (balance : Int) : StateObject D :=
  { o.setBalance balance with suicided := suicided }

def getTrie (db : Database D) (o : StateObject D) : StateObject D × StorageTrie :=
  match o.trie with
  | some t => (o, t)
  | none =>
    match db.openStorageTrie o.data.root with
    | some t => ({ o with trie := some t }, t)
    | none => ({ o with trie := some fun _ => 0, dbErr := true }, fun _ => 0)

/-- The end of `GetCommittedState`: the value read is kept as the original one. -/
def cacheOrigin (o : StateObject D) (key : Slot) (value : Value) : StateObject D :=
  { o with originStorage := update o.originStorage key (some value) }

/-- What the snapshot has for a slot: nothing where there is no snapshot or
it cannot be read. -/
def snapSlot (snap : Option (Snap D)) (a : Address) (key : Slot) : Option Value :=
  snap.bind fun sn => if sn.coversSlot a key then some (sn.storage a key) else none

/-- `GetCommittedState`. `destructed` tells whether the account is in the
state database's `snapDestructs`. -/
def getCommittedState (db : Database D) (snap : Option (Snap D)) (destructed : Bool) (o : StateObject D)
    (key : Slot) : StateObject D × Value :=
  match o.fakeStorage with
  | some fake => (o, fake key)
  | none =>
    match (o.pendingStorage key).or (o.originStorage key) with
    | some value => (o, value)
    | none =>
      -- Storage from before a destruction in this block does not count.
      if snap.isSome && destructed then (o, 0)
      else
        match snapSlot snap o.address key with
        | some value => (o.cacheOrigin key value, value)
        | none =>
          let (o, t) := o.getTrie db
          (o.cacheOrigin key (t key), t key)

def getState (db : Database D) (snap : Option (Snap D)) (destructed : Bool) (o : StateObject D)
    (key : Slot) : StateObject D × Value :=
  match o.fakeStorage with
  | some fake => (o, fake key)
  | none =>
    match o.dirtyStorage key with
    | some value => (o, value)
    | none => o.getCommittedState db snap destructed key

def setStorage (o : StateObject D) (storage : Storage) : StateObject D :=
  { o with fakeStorage := some fun key => (storage key).getD (o.fakeStorage.elim 0 fun fake => fake key) }

def getCode (db : Database D) (o : StateObject D) : StateObject D × Option Bytes :=
  match o.code with
  | some code => (o, some code)
  | none =>
    if o.data.codeHash = D.emptyCodeHash then (o, none)
    else
      match db.code o.data.codeHash with
      | some code => ({ o with code := some code }, some code)
      | none => ({ o with dbErr := true }, none)

def codeSize (db : Database D) (o : StateObject D) : StateObject D × Nat :=
  match o.code with
  | some code => (o, code.length)
  | none =>
    if o.data.codeHash = D.emptyCodeHash then (o, 0)
    else
      match db.code o.data.codeHash with
      | some code => (o, code.length)
      | none => ({ o with dbErr := true }, 0)

def finalise (o : StateObject D) : StateObject D :=
  { o with
    pendingStorage := fun key => (o.dirtyStorage key).or (o.pendingStorage key)
    dirtyStorage := fun _ => none }

/-- What the loop of `updateTrie` writes: the original values, the storage
trie and the storage kept for the snapshot. -/
structure Flush where
  origin : Storage
  trie : StorageTrie
  snap : Storage

/-- One slot of the loop of `updateTrie`. -/
def flushSlot (pending : Storage) (f : Flush) (key : Slot) : Flush :=
  match pending key with
  | none => f
  | some value =>
    if value = (f.origin key).getD 0 then f
    else
      { origin := update f.origin key (some value)
        trie := update f.trie key value
        snap := update f.snap key (some value) }

/-- `updateTrie`: the object and the storage kept for the snapshot. `order`
lists the slots of `pendingStorage` as they are met. The source returns the
trie, which is nil where `trie` is still `none`. -/
def updateTrie (db : Database D) (order : List Slot) (o : StateObject D) (snapSlots : Storage) :
    StateObject D × Storage :=
  let o := o.finalise
  if order = [] then (o, snapSlots)
  else
    let (o, t) := o.getTrie db
    let f := order.foldl (flushSlot o.pendingStorage) ⟨o.originStorage, t, snapSlots⟩
    ({ o with originStorage := f.origin, trie := some f.trie, pendingStorage := fun _ => none }, f.snap)

def updateRoot (db : Database D) (order : List Slot) (o : StateObject D) (snapSlots : Storage) :
    StateObject D × Storage :=
  let (o, snapSlots) := o.updateTrie db order snapSlots
  match o.trie with
  | none => (o, snapSlots)
  | some t => ({ o with data := { o.data with root := D.storage t } }, snapSlots)

/-- `CommitTrie`, with the storage kept for the snapshot. The flag is set
where the object could not be loaded, and nothing is written then. -/
def commitTrie (db : Database D) (order : List Slot) (o : StateObject D) (snapSlots : Storage) :
    Bool × Database D × StateObject D × Storage :=
  let (o, snapSlots) := o.updateTrie db order snapSlots
  match o.trie with
  | none => (false, db, o, snapSlots)
  | some t =>
    if o.dbErr then (true, db, o, snapSlots)
    else (false, db.commitStorage t, { o with data := { o.data with root := D.storage t } }, snapSlots)

/-- `deepCopy`. The storage set for debugging is not copied, nor is an error. -/
def deepCopy (o : StateObject D) : StateObject D :=
  { newObject o.address o.data with
    trie := o.trie
    code := o.code
    dirtyStorage := o.dirtyStorage
    originStorage := o.originStorage
    pendingStorage := o.pendingStorage
    suicided := o.suicided
    dirtyCode := o.dirtyCode
    deleted := o.deleted }

end StateObject

end NdnGeth.State
