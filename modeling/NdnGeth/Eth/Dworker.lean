/-
The block pipeline of a download (`ndn/eth/dworker.go`): the jobs that
`fetchFullBlocks` submits put their blocks in `fblocks` and then send the
number on `newblockCh`; `processBlocks` waits for the number it expects,
takes the run of blocks that begins there and inserts it.

The two are goroutines, and so is every job: their steps interleave. A job
is one that has been submitted; putting the block and sending the number are
steps of their own, and so are receiving, popping and inserting. What
happens after the work is killed (the pools stop, the channels are closed)
is left out: `processBlocks` only drains the channel then.
-/
import Mathlib.Logic.Function.Basic
import NdnGeth.Lib.Run
import NdnGeth.Core.Types

namespace NdnGeth.Eth

open Core

/-- `Block.NumberU64`. -/
def blockNumberU64 (b : Block) : UInt64 := b.header.numberU64

/-- `fBlocks`: the blocks fetched and not taken yet, by number. -/
abbrev FBlocks := UInt64 → Option Block

namespace FBlocks

def empty : FBlocks := fun _ => none

def put (fb : FBlocks) (b : Block) : FBlocks := Function.update fb (blockNumberU64 b) (some b)

/-- The loop of `pop`. It takes out what it finds, so it ends within as many
turns as there are numbers. -/
def popLoop : (fuel : Nat) → FBlocks → (bnum : UInt64) → List Block × FBlocks
  | 0, fb, _ => ([], fb)
  | fuel + 1, fb, bnum =>
    match fb bnum with
    | none => ([], fb)
    | some b =>
      let (blocks, fb') := popLoop fuel (Function.update fb bnum none) (bnum + 1)
      (b :: blocks, fb')

/-- `pop`: the fetched blocks from `bnum` on, up to the first gap. -/
def pop (fb : FBlocks) (bnum : UInt64) : List Block × FBlocks := popLoop UInt64.size fb bnum

end FBlocks

inductive KillError
  /-- `job.err`: a block could not be fetched. -/
  | job
  /-- `InsertChain` failed. -/
  | insert
  deriving DecidableEq, Repr

inductive ProcessPc
  /-- At the `range` over `newblockCh`. -/
  | ready
  /-- It has received the number it expects. -/
  | popping
  /-- It has taken `blocks` and is to insert them. -/
  | inserting (blocks : List Block)
  | returned
  deriving DecidableEq, Repr

/-- `newblockCh` is made with this capacity. -/
def newblockChCap : Nat := 64

/-- The state of a `dwork` with its goroutines. `inserted` records the blocks
passed to `insertBlocks` and `kills` the calls of `kill`; no step reads
them. -/
structure Dwork where
  ancestor : UInt64
  last : UInt64
  /-- The jobs that have not fetched their block yet, by header. -/
  jobs : List Header
  /-- The jobs that have put their block and are to send its number. -/
  signals : List UInt64
  newblockCh : List UInt64
  fblocks : FBlocks
  bnum : UInt64
  abort : Bool
  pc : ProcessPc
  inserted : List Block
  kills : List (Option KillError)

inductive DworkAct
  /-- The job of the header gets a body, or fails. -/
  | fetched (h : Header) (body : Option Body)
  | send (bnum : UInt64)
  | receive
  | pop
  /-- `InsertChain` returns; `ok` tells whether without an error. -/
  | insert (ok : Bool)
  deriving DecidableEq, Repr

namespace Dwork

/-- A work whose headers have all been fetched, with `processBlocks` at its
loop. With nothing to download it kills the work and returns. -/
def start (ancestor last : UInt64) (headers : List Header) : Dwork :=
  let w : Dwork :=
    { ancestor, last
      jobs := headers
      signals := []
      newblockCh := []
      fblocks := FBlocks.empty
      bnum := ancestor + 1
      abort := false
      pc := .ready
      inserted := []
      kills := [] }
  if w.bnum > last then { w with pc := .returned, kills := [none] } else w

/-- `onfetched`, up to the sending of the number. The block is the header's,
with the body (`getFullBlock`). -/
def onfetched (w : Dwork) (h : Header) : Option Body → Dwork
  | none => { w with jobs := w.jobs.erase h, kills := w.kills ++ [some .job] }
  | some body =>
    { w with
      jobs := w.jobs.erase h
      fblocks := w.fblocks.put (Block.newBlockWithHeader h body)
      signals := w.signals ++ [h.numberU64] }

/-- `processBlocks` on a number from the channel. -/
def received (w : Dwork) (snum : UInt64) (rest : List UInt64) : Dwork :=
  if w.abort ∨ snum ≠ w.bnum then { w with newblockCh := rest } else { w with newblockCh := rest, pc := .popping }

/-- `processBlocks` takes the blocks that are there. -/
def popped (w : Dwork) : Dwork :=
  let (blocks, fblocks) := w.fblocks.pop w.bnum
  if blocks.length > 0 then { w with fblocks, pc := .inserting blocks } else { w with fblocks, pc := .ready }

/-- `processBlocks` once `insertBlocks` has returned. -/
def processed (w : Dwork) (blocks : List Block) (ok : Bool) : Dwork :=
  let w := { w with inserted := w.inserted ++ blocks, pc := .ready }
  if !ok then { w with abort := true, kills := w.kills ++ [some .insert] }
  else if blocks.getLast?.map blockNumberU64 = some w.last then { w with abort := true, kills := w.kills ++ [none] }
  else { w with bnum := w.bnum + .ofNat blocks.length }

def step (w : Dwork) : DworkAct → Option Dwork
  | .fetched h body => if h ∈ w.jobs then some (w.onfetched h body) else none
  | .send bnum =>
    if bnum ∈ w.signals ∧ w.newblockCh.length < newblockChCap then
      some { w with signals := w.signals.erase bnum, newblockCh := w.newblockCh ++ [bnum] }
    else none
  | .receive =>
    match w.pc, w.newblockCh with
    | .ready, snum :: rest => some (w.received snum rest)
    | _, _ => none
  | .pop =>
    match w.pc with
    | .popping => some w.popped
    | _ => none
  | .insert ok =>
    match w.pc with
    | .inserting blocks => some (w.processed blocks ok)
    | _ => none

/-- The steps of a download in which every job gets its block and every
`InsertChain` call succeeds. -/
def Succeeds (_ : Dwork) : DworkAct → Prop
  | .fetched _ body => body ≠ none
  | .insert ok => ok = true
  | _ => True

instance (w : Dwork) : ∀ a, Decidable (w.Succeeds a)
  | .fetched _ body => inferInstanceAs (Decidable (body ≠ none))
  | .insert ok => inferInstanceAs (Decidable (ok = true))
  | .send _ | .receive | .pop => .isTrue trivial

/-! ## What a step does -/

variable {w w' : Dwork}

theorem step_fetched {h : Header} {body : Option Body} (hs : w.step (.fetched h body) = some w') :
    h ∈ w.jobs ∧ w' = w.onfetched h body := by
  simp only [step] at hs
  split at hs
  · next hj => exact ⟨hj, (Option.some.inj hs).symm⟩
  · cases hs

theorem step_send {n : UInt64} (hs : w.step (.send n) = some w') :
    n ∈ w.signals ∧ w' = { w with signals := w.signals.erase n, newblockCh := w.newblockCh ++ [n] } := by
  simp only [step] at hs
  split at hs
  · next hn => exact ⟨hn.1, (Option.some.inj hs).symm⟩
  · cases hs

theorem step_receive (hs : w.step .receive = some w') :
    ∃ snum rest, w.pc = .ready ∧ w.newblockCh = snum :: rest ∧
      ((w.abort = true ∨ snum ≠ w.bnum) ∧ w' = { w with newblockCh := rest } ∨
        (w.abort = false ∧ snum = w.bnum) ∧ w' = { w with newblockCh := rest, pc := .popping }) := by
  simp only [step] at hs
  split at hs
  · next snum rest hp hc =>
    refine ⟨snum, rest, hp, hc, ?_⟩
    cases hs
    simp only [received]
    split
    · next h => exact .inl ⟨h, rfl⟩
    · next h => exact .inr ⟨by simpa using h, rfl⟩
  · cases hs

theorem step_pop (hs : w.step .pop = some w') : w.pc = .popping ∧ w' = w.popped := by
  simp only [step] at hs
  split at hs
  · next hp => exact ⟨hp, (Option.some.inj hs).symm⟩
  · cases hs

theorem step_insert {ok : Bool} (hs : w.step (.insert ok) = some w') :
    ∃ blocks, w.pc = .inserting blocks ∧ w' = w.processed blocks ok := by
  simp only [step] at hs
  split at hs
  · next blocks hp => exact ⟨blocks, hp, (Option.some.inj hs).symm⟩
  · cases hs

end Dwork

end NdnGeth.Eth
