/-
The works of the transaction fetcher (`ndn/eth/txfetcher.go`), with the
handler of the one job each work has. Unlike the block fetcher it never looks
at the answer of `Submit`.

How a transaction is decoded and a name parsed are parameters. Left out are the
main loop, the loop that passes the fetched transactions on, and the times. What
a handler meets of them (`Surroundings`) is an input of its step, as for the
block fetcher: it waits at `Submit`, while `stop` waits for the loops, and while
`fetchedSig`, with room for one, is full. A handler whose object does not decode
calls `Error` on the nil error of its job and brings the program down, so it has
no next step.
-/
import NdnGeth.Eth.BlockFetcher

namespace NdnGeth.Eth

open Core (Hash Transaction)
open Kad (Name)

/-- `rlp.DecodeBytes` into a `types.Transaction`, and `ndn.ParseName`. -/
structure TxDecoder where
  tx : List UInt8 → Option Transaction
  parseName : String → Name

/-- What `pfetch` returns: an object, one of the errors that mean the
transaction is gone (`ErrNoObject`, `ErrJobAborted`, `ErrNack`), or another. -/
inductive TxResult
  | obj (bytes : List UInt8)
  | gone
  | failed
  deriving DecidableEq, Repr

inductive TxErr | fetchForTooLong | gone | noPeer
  deriving DecidableEq, Repr

/-- Where the handler of a job is: at its beginning, choosing the next peer,
at `Submit`, in `onWorkDone`, at its send on `fetchedSig` or at the deferred
`removework`. -/
inductive TxHandlerPc
  | returned (route : Route) (r : TxResult)
  | retry (route : Route)
  | submit (route : Route)
  | finish
  | signal
  | remove
  deriving DecidableEq, Repr

/-- `txFetchingWork`, with its job. -/
structure TxWork where
  hash : Hash
  announcers : List (Peer × Bool)
  tx : Option Transaction
  err : Option TxErr
  done : Bool
  job : JobState TxHandlerPc

namespace TxWork

def new (p : Peer) (hash : Hash) : TxWork := ⟨hash, [(p, true)], none, none, false, .idle⟩

/-- `nextPrefix`: an announcer that was not queried. The name is parsed from
the key of the map, which is the id of the peer and not its prefix. -/
def nextPrefix (dec : TxDecoder) (w : TxWork) (pick : Nat) : Name × TxWork :=
  match BlockWork.unqueried w.announcers pick with
  | some p =>
    (dec.parseName p.id, { w with announcers := w.announcers.map fun e => if e.1 = p then (e.1, true) else e })
  | none => ([], w)

/-- The handler with the job's result, up to the next peer. -/
def returned (dec : TxDecoder) (w : TxWork) (late : Bool) (route : Route) (r : TxResult) : Option TxWork :=
  if w.done then some { w with job := .handler .finish }
  else if late then some { w with err := some .fetchForTooLong, job := .handler .finish }
  else
    match r with
    | .gone => some { w with err := some .gone, job := .handler .finish }
    | .failed => some { w with job := .handler (.retry route) }
    | .obj bytes =>
      match dec.tx bytes with
      | some tx => some { w with tx := some tx, err := none, job := .handler .finish }
      | none => none

/-- The same peer by its private prefix first, then another one. -/
def retry (dec : TxDecoder) (w : TxWork) (pick : Nat) (route : Route) : TxWork :=
  if route.usehint then { w with job := .handler (.submit ⟨route.peername, false⟩) }
  else
    let (peername, w') := w.nextPrefix dec pick
    if peername.isEmpty then { w' with err := some .noPeer, job := .handler .finish }
    else { w' with job := .handler (.submit ⟨peername, false⟩) }

/-- `onWorkDone`, up to the send on `fetchedSig` or the deferred `removework`. -/
def onWorkDone (w : TxWork) (dead : Bool) : TxWork :=
  { w with job := .handler (if dead = false ∧ w.err = none ∧ w.tx.isSome then .signal else .remove) }

def handle (dec : TxDecoder) (w : TxWork) (s : Surroundings) : TxHandlerPc → Option TxWork
  | .returned route r => w.returned dec s.late route r
  | .retry route => some (w.retry dec s.pick route)
  | .submit route => if s.busy then none else some { w with job := if s.closed then .idle else .queued route }
  | .finish => if s.stopping then none else some (w.onWorkDone s.dead)
  | .signal => if s.full then none else some { w with job := .handler .remove }
  | .remove => some { w with job := .idle }

theorem retry_job (dec : TxDecoder) (w : TxWork) (pick : Nat) (route : Route) :
    (∃ route', (w.retry dec pick route).job = .handler (.submit route')) ∨ (w.retry dec pick route).job = .handler .finish := by
  unfold retry
  split
  · exact .inl ⟨_, rfl⟩
  · dsimp only
    split
    · exact .inr rfl
    · exact .inl ⟨_, rfl⟩

end TxWork

end NdnGeth.Eth
