/-
The transaction pool (`core/tx_pool.go`).

The pool is explicit state. The virtual nonces are what `txNoncer.get` reads,
and of the head's state there are the nonces and balances. Where Go goes through
a map, the order is an input, as is the time. `txLookup.Remove` of an unknown
hash and the last transaction of an empty list are nil dereferences and bad
indices: the pool has `crashed`.

Left out are the journal on disk, metrics and events. A reset is given the
transactions that it injects again; the walk over the two branches that finds
them is not here.
-/
import Mathlib.Data.List.AList
import Mathlib.Data.List.Sort
import NdnGeth.Vm.Common
import NdnGeth.TxPool.Priced

namespace NdnGeth.Core

open Lib.Rlp (Bytes)
open Vm (two64)

namespace Params

def txGas : Nat := 21000
def txGasContractCreation : Nat := 53000
def txDataZeroGas : Nat := 4
def txDataNonZeroGasFrontier : Nat := 68
def txDataNonZeroGasEIP2028 : Nat := 16

end Params

/-- `IntrinsicGas` (`core/state_transition.go`); nothing where it overflows. -/
def intrinsicGas (data : Bytes) (contractCreation isHomestead isEIP2028 : Bool) : Option Nat :=
  let gas := if contractCreation && isHomestead then Params.txGasContractCreation else Params.txGas
  if data.length > 0 then
    let nz := data.countP (· != 0)
    let nonZeroGas := if isEIP2028 then Params.txDataNonZeroGasEIP2028 else Params.txDataNonZeroGasFrontier
    if (two64 - 1 - gas) / nonZeroGas < nz then none
    else
      let gas := gas + nz * nonZeroGas
      let z := data.length - nz
      if (two64 - 1 - gas) / Params.txDataZeroGas < z then none else some (gas + z * Params.txDataZeroGas)
  else some gas

end NdnGeth.Core

namespace NdnGeth.TxPool

open Types (Address)
open Vm (two64)

/-! ## Configuration -/

/-- Nanoseconds since the zero time. -/
abbrev Time := Nat

/-- `time.Since`, which stops at the longest duration. -/
def since (now t : Time) : Nat := min (now - t) (2 ^ 63 - 1)

/-- `TxPoolConfig`. -/
structure Config where
  locals : List Address
  priceLimit : Nat
  priceBump : Nat
  accountSlots : Nat
  globalSlots : Nat
  accountQueue : Nat
  globalQueue : Nat
  lifetime : Nat

/-- `DefaultTxPoolConfig`. -/
def Config.default : Config := ⟨[], 1, 10, 16, 4096, 256, 1024, 3 * 3600 * 10 ^ 9⟩

def Config.sanitize (c : Config) : Config where
  locals := c.locals
  priceLimit := if c.priceLimit < 1 then Config.default.priceLimit else c.priceLimit
  priceBump := if c.priceBump < 1 then Config.default.priceBump else c.priceBump
  accountSlots := if c.accountSlots < 1 then Config.default.accountSlots else c.accountSlots
  globalSlots := if c.globalSlots < 1 then Config.default.globalSlots else c.globalSlots
  accountQueue := if c.accountQueue < 1 then Config.default.accountQueue else c.accountQueue
  globalQueue := if c.globalQueue < 1 then Config.default.globalQueue else c.globalQueue
  lifetime := if c.lifetime < 1 then Config.default.lifetime else c.lifetime

/-- `config.GlobalSlots + config.GlobalQueue`. -/
def Config.capacity (c : Config) : Nat := (c.globalSlots + c.globalQueue) % two64

inductive PoolError
  | alreadyKnown | oversizedData | negativeValue | gasLimit | invalidSender | underpriced | nonceTooLow
  | insufficientFunds | gasUintOverflow | intrinsicGas | replaceUnderpriced
  deriving DecidableEq

/-! ## The pool -/

/-- What the pool reads of a head: its state, its gas limit, and whether the block
after it is of Istanbul. -/
structure Head where
  nonce : Address → Nat
  balance : Address → Int
  gasLimit : Nat
  istanbul : Bool

/-- The lists of transactions by account. -/
abbrev Accounts (strict : Bool) := AList fun _ : Address => TxList strict

def Accounts.txs {strict : Bool} (m : Accounts strict) (a : Address) : List Tx := (m.lookup a).elim [] fun l => l.txs.items

def Accounts.count {strict : Bool} (m : Accounts strict) : Nat := (m.keys.map fun a => (m.txs a).length).sum

/-- The list of an account after a change: an empty one is not kept. -/
def Accounts.write {strict : Bool} (m : Accounts strict) (a : Address) (l : TxList strict) : Accounts strict :=
  if l.len = 0 then m.erase a else m.insert a l

structure Pool where
  config : Config
  gasPrice : Int
  istanbul : Bool
  stateNonce : Address → Nat
  stateBalance : Address → Int
  pendingNonces : Address → Nat
  currentMaxGas : Nat
  locals : Finset Address
  pending : Accounts true
  queue : Accounts false
  beats : Address → Option Time
  all : TxLookup
  priced : TxPricedList
  crashed : Bool

namespace Pool

/-- `NewTxPool` at a head. -/
def new (config : Config) (head : Head) : Pool where
  config := config.sanitize
  gasPrice := config.sanitize.priceLimit
  istanbul := head.istanbul
  stateNonce := head.nonce
  stateBalance := head.balance
  pendingNonces := head.nonce
  currentMaxGas := head.gasLimit
  locals := config.locals.toFinset
  pending := ∅
  queue := ∅
  beats _ := none
  all := .new
  priced := .new
  crashed := false

variable (o : Order) (p : Pool)

/-- `pool.beats[addr]`; without an entry that is the zero time. -/
def beat (a : Address) : Time := (p.beats a).getD 0

/-- `all.Remove`. -/
def forget (tx : Tx) : Pool :=
  { p with all := p.all.remove tx, crashed := p.crashed || decide (tx ∉ p.all.all) }

def removed (count : Nat) : Pool := { p with priced := p.priced.removed o p.all.all count }

/-- `all.Add` and `priced.Put`. -/
def register (tx : Tx) : Pool := { p with all := p.all.add tx, priced := p.priced.put tx }

/-- The transaction that was replaced goes. -/
def discardOld (old : Option Tx) : Pool :=
  match old with
  | none => p
  | some old => (p.forget old).removed o 1

def setIfLower (a : Address) (nonce : Nat) : Pool :=
  if p.pendingNonces a ≤ nonce then p else { p with pendingNonces := Function.update p.pendingNonces a nonce }

def enqueueTx (tx : Tx) : Pool × Except PoolError Bool :=
  -- a new list takes any transaction
  match ((p.queue.lookup tx.sender).getD .new).add tx p.config.priceBump with
  | none => (p, .error .replaceUnderpriced)
  | some (list, old) =>
    let p := { p with queue := p.queue.insert tx.sender list }.discardOld o old
    (if tx ∈ p.all.all then p else p.register tx, .ok old.isSome)

def promoteTx (now : Time) (addr : Address) (tx : Tx) : Pool :=
  match ((p.pending.lookup addr).getD .new).add tx p.config.priceBump with
  | none => (p.forget tx).removed o 1
  | some (list, old) =>
    let p := { p with pending := p.pending.insert addr list }.discardOld o old
    let p := if tx ∈ p.all.all then p else p.register tx
    { p with
      beats := Function.update p.beats addr (some now)
      pendingNonces := Function.update p.pendingNonces addr ((tx.nonce + 1) % two64) }

/-- The transactions that come after one that was taken out wait in the queue. -/
def postpone (txs : List Tx) : Pool := txs.foldl (fun p tx => (p.enqueueTx o tx).1) p

/-- The list of executable transactions of an account after a change. -/
def writePending (addr : Address) (list : TxList true) : Pool :=
  { p with
    pending := p.pending.write addr list
    beats := if list.len = 0 then Function.update p.beats addr none else p.beats }

/-- The end of `removeTx`, for a transaction in the queue. -/
def removeQueued (tx : Tx) : Pool :=
  match p.queue.lookup tx.sender with
  | none => p
  | some future => { p with queue := p.queue.write tx.sender ((future.remove tx).elim future (·.2)) }

def removeTx (outofbound : Bool) (tx : Tx) : Pool :=
  if tx ∉ p.all.all then p
  else
    let p := p.forget tx
    let p := if outofbound then p.removed o 1 else p
    match (p.pending.lookup tx.sender).bind (·.remove tx) with
    | some (invalids, list) => ((p.writePending tx.sender list).postpone o invalids).setIfLower tx.sender tx.nonce
    | none => p.removeQueued tx

/-- `removeTx` for each of some transactions. -/
def removeAll (outofbound : Bool) (txs : List Tx) : Pool := txs.foldl (fun p tx => p.removeTx o outofbound tx) p

/-! ## Additions -/

def validateTx (tx : Tx) (isLocal : Bool) : Option PoolError :=
  if tx.size > txMaxSize then some .oversizedData
  else if tx.value < 0 then some .negativeValue
  else if p.currentMaxGas < tx.gas then some .gasLimit
  else
    match tx.sender? with
    | none => some .invalidSender
    | some addr =>
      let isLocal := isLocal || decide (addr ∈ p.locals)
      if !isLocal && decide (p.gasPrice > tx.gasPrice) then some .underpriced
      else if p.stateNonce addr > tx.nonce then some .nonceTooLow
      else if p.stateBalance addr < tx.cost then some .insufficientFunds
      else
        match Core.intrinsicGas tx.data tx.recipient.isNone true p.istanbul with
        | none => some .gasUintOverflow
        | some intrGas => if tx.gas < intrGas then some .intrinsicGas else none

def underpriced (tx : Tx) : Bool × Pool :=
  let (isUnderpriced, priced) := p.priced.underpriced p.all.all p.locals tx
  (isUnderpriced, { p with priced })

/-- The slots that have to be given up for a transaction. -/
def excess (tx : Tx) : Int := p.all.slots - p.config.capacity + numSlots tx

/-- The part of `add` that makes room in a full pool. -/
def makeRoom (tx : Tx) : Pool :=
  let (drop, priced) := p.priced.discard p.all.all p.locals (p.excess tx)
  { p with priced }.removeAll o false drop

/-- The rest of `add`: replace a transaction, or queue this one. -/
def insertTx (tx : Tx) (isLocal : Bool) : Pool × Except PoolError Bool :=
  match (p.pending.lookup tx.sender).filter (·.overlaps tx) with
  | some list =>
    match list.add tx p.config.priceBump with
    | none => (p, .error .replaceUnderpriced)
    | some (list, old) =>
      (({ p with pending := p.pending.insert tx.sender list }.discardOld o old).register tx, .ok old.isSome)
  | none =>
    match p.enqueueTx o tx with
    | (p, .error e) => (p, .error e)
    | (p, .ok replaced) => ({ p with locals := if isLocal then insert tx.sender p.locals else p.locals }, .ok replaced)

def add (tx : Tx) (isLocal : Bool) : Pool × Except PoolError Bool :=
  if tx ∈ p.all.all then (p, .error .alreadyKnown)
  else
    match p.validateTx tx isLocal with
    | some e => (p, .error e)
    | none =>
      if p.config.capacity ≤ p.all.count then
        let (isUnderpriced, p) := if isLocal then (false, p) else p.underpriced tx
        if isUnderpriced then (p, .error .underpriced) else (p.makeRoom o tx).insertTx o tx isLocal
      else p.insertTx o tx isLocal

/-- `addTxsLocked`, as far as the pool goes. -/
def addTxs (txs : List Tx) (isLocal : Bool) : Pool := txs.foldl (fun p tx => (p.add o tx isLocal).1) p

def setGasPrice (price : Int) : Pool :=
  let (drop, priced) := p.priced.cap p.all.all p.locals price
  { p with gasPrice := price, priced }.removeAll o false drop

/-- An eviction tick in `loop`. -/
def evict (now : Time) : Pool :=
  (o.addrs p.queue.keys).foldl (fun p addr =>
    if addr ∈ p.locals then p
    else if since now (p.beat addr) > p.config.lifetime then p.removeAll o true (p.queue.txs addr)
    else p) p

/-! ## Reorganisations -/

/-- A reset to a head, with the transactions to inject again; nothing, where a
block or the state is missing. -/
abbrev Reset := Option (Head × List Tx)

def reset : Reset → Pool
  | none => p
  | some (head, reinject) =>
    let p := { p with
      stateNonce := head.nonce
      stateBalance := head.balance
      pendingNonces := head.nonce
      currentMaxGas := head.gasLimit }
    { p.addTxs o reinject false with istanbul := head.istanbul }

/-- What is dropped of a list because it is outdated or cannot be paid for, what
follows that in a strict list, and the others: `Forward` and `Filter`. -/
def sift {strict : Bool} (addr : Address) (list : TxList strict) : List Tx × List Tx × TxList strict :=
  let (forwards, list) := list.forward (p.stateNonce addr)
  let (drops, invalids, list) := list.filter (p.stateBalance addr) p.currentMaxGas
  (forwards ++ drops, invalids, list)

/-- A round of `promoteExecutables`. -/
def promoteAccount (now : Time) (addr : Address) : Pool :=
  match p.queue.lookup addr with
  | none => p
  | some list =>
    let (drops, _, list) := p.sift addr list
    let (readies, list) := list.ready (p.pendingNonces addr)
    let p := readies.foldl (fun p tx => p.promoteTx o now addr tx) (drops.foldl forget p)
    let (caps, list) := if addr ∈ p.locals then ([], list) else list.cap p.config.accountQueue
    let p := (caps.foldl forget p).removed o (drops.length + caps.length)
    { p with queue := p.queue.write addr list }

def promoteExecutables (now : Time) (accounts : List Address) : Pool :=
  accounts.foldl (fun p addr => p.promoteAccount o now addr) p

/-- A round of `demoteUnexecutables`. -/
def demoteAccount (addr : Address) : Pool :=
  match p.pending.lookup addr with
  | none => p
  | some list =>
    let nonce := p.stateNonce addr
    let (drops, invalids, list) := p.sift addr list
    let p := (drops.foldl forget p).removed o drops.length
    let p := p.postpone o invalids
    let (gapped, list) := list.gapped nonce
    (p.postpone o gapped).writePending addr list

def demoteUnexecutables : Pool := (o.addrs p.pending.keys).foldl (fun p addr => p.demoteAccount o addr) p

/-- The last transaction of an offender goes. -/
def dropLast (addr : Address) : Pool :=
  match p.pending.lookup addr with
  | none => p
  | some list =>
    let (caps, list) := list.cap (list.len - 1)
    let p := { p with pending := p.pending.insert addr list }
    (caps.foldl (fun p tx => (p.forget tx).setIfLower addr tx.nonce) p).removed o caps.length

/-- The loops of `truncatePending` that take a transaction from each offender, as
long as there are too many and the last offender has more than a limit. Each
round lowers the counter, which bounds the number of rounds. -/
def equalize (offenders : List Address) (limit : Nat) : (rounds : Nat) → Pool × Nat → Pool × Nat
  | 0, s => s
  | n + 1, (p, pending) =>
    match offenders.getLast? with
    | none => (p, pending)
    | some last =>
      if pending > p.config.globalSlots ∧ (p.pending.txs last).length > limit then
        equalize offenders limit n (offenders.foldl (fun p addr => p.dropLast o addr) p, pending - offenders.length)
      else (p, pending)

/-- The loop of `truncatePending` that goes through the spammers. -/
def penalize : (spammers offenders : List Address) → Pool × Nat → List Address × Pool × Nat
  | [], offenders, s => (offenders, s)
  | offender :: spammers, offenders, (p, pending) =>
    if pending > p.config.globalSlots then
      penalize spammers (offenders ++ [offender])
        (equalize o offenders (p.pending.txs offender).length pending (p, pending))
    else (offenders, p, pending)

/-- The accounts that `truncatePending` puts into a queue by their numbers of
transactions, in the order in which they leave it. -/
def spammers : List Address :=
  ((o.addrs p.pending.keys).filter fun a => a ∉ p.locals ∧ (p.pending.txs a).length > p.config.accountSlots).insertionSort
    fun a b => (p.pending.txs b).length ≤ (p.pending.txs a).length

def truncatePending : Pool :=
  if p.pending.count ≤ p.config.globalSlots then p
  else
    let (offenders, p, pending) := penalize o (p.spammers o) [] (p, p.pending.count)
    (equalize o offenders p.config.accountSlots pending (p, pending)).1

/-- The loop of `truncateQueue`. -/
def truncateFrom : List Address → (drop : Nat) → Pool → Pool
  | [], _, p => p
  | addr :: addresses, drop, p =>
    if drop = 0 then p
    else
      let txs := p.queue.txs addr
      if txs.length ≤ drop then truncateFrom addresses (drop - txs.length) (p.removeAll o true txs)
      else truncateFrom addresses 0 (p.removeAll o true (txs.reverse.take drop))

def truncateQueue : Pool :=
  if p.queue.count ≤ p.config.globalQueue then p
  else
    let addresses := ((o.addrs p.queue.keys).filter fun a => a ∉ p.locals).insertionSort fun a b => p.beat a ≤ p.beat b
    truncateFrom o addresses.reverse (p.queue.count - p.config.globalQueue) p

/-- The end of `runReorg`: the virtual nonces come after what is pending. -/
def updateNonces : Pool :=
  { p with
    pendingNonces := fun a => (p.pending.txs a).getLast?.elim (p.pendingNonces a) fun tx => (tx.nonce + 1) % two64
    crashed := p.crashed || decide (∃ a ∈ p.pending.keys, p.pending.txs a = []) }

/-- `runReorg`, with a reset or without. -/
def runReorg (now : Time) (request : Option Reset) (dirtyAccounts : List Address) : Pool :=
  let p := request.elim p (p.reset o)
  let promoteAddrs := if request.isSome then o.addrs p.queue.keys else dirtyAccounts
  let p := p.promoteExecutables o now promoteAddrs
  let p := if request.isSome then p.demoteUnexecutables o else p
  ((p.truncatePending o).truncateQueue o).updateNonces

end Pool

/-! ## Histories -/

/-- What is done to the pool: the calls from outside, and the parts of a
reorganisation, so that the pools in the middle of one are there too. -/
inductive Op
  | add (tx : Tx) (isLocal : Bool)
  | setGasPrice (price : Int)
  | evict
  | runReorg (request : Option Pool.Reset) (dirtyAccounts : List Address)
  | reset (r : Pool.Reset)
  | promoteExecutables (accounts : List Address)
  | demoteUnexecutables
  | truncatePending
  | truncateQueue
  | updateNonces

/-- An operation, when it is done, and the order of the maps. -/
structure Event where
  op : Op
  now : Time
  order : Order

def Pool.step (p : Pool) (e : Event) : Pool :=
  match e.op with
  | .add tx isLocal => (p.add e.order tx isLocal).1
  | .setGasPrice price => p.setGasPrice e.order price
  | .evict => p.evict e.order e.now
  | .runReorg request dirtyAccounts => p.runReorg e.order e.now request dirtyAccounts
  | .reset r => p.reset e.order r
  | .promoteExecutables accounts => p.promoteExecutables e.order e.now accounts
  | .demoteUnexecutables => p.demoteUnexecutables e.order
  | .truncatePending => p.truncatePending e.order
  | .truncateQueue => p.truncateQueue e.order
  | .updateNonces => p.updateNonces

def Pool.run (p : Pool) (events : List Event) : Pool := events.foldl step p

def Pool.Reachable (p : Pool) : Prop := ∃ config head events, p = (new config head).run events

/-! For examples: maps in their own order, a state in which all accounts are new
and rich, and transfers. -/

def plainOrder : Order := ⟨id, fun _ => .refl _, id, fun _ => .refl _⟩

def plainHead : Head := ⟨fun _ => 0, fun _ => 10 ^ 18, 8000000, true⟩

def transfer (sender : Address) (nonce : Nat) (gasPrice : Int) : Tx := ⟨some sender, nonce, gasPrice, 21000, some 0, 0, [], [], 100⟩

def Op.at (op : Op) (now : Time) : Event := ⟨op, now, plainOrder⟩

end NdnGeth.TxPool
