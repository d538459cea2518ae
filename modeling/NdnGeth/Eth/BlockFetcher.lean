/-
The block fetcher (`ndn/eth/blockfetcher.go`): the main loop, which takes up
announcements, and the pool workers, which run the header and body jobs of
the fetching works and call their handlers. Each goroutine is a program
counter, and their steps interleave: `buildblock` unlocks its mutex before
it reads anything, so its test and its write are two steps, and so are the
submission of the jobs and the registration of the work in the fetching list.

A handler may be held up, or brought down with the whole program. It waits
for the pool to take a job, for the mutex that `stop` holds while it waits for
the main loop, and for room in `fetchedSig`, which only the main loop makes; a
step that waits is none. And `nextPrefix` iterates over `holders` under the
mutex, but `addHolder` writes them without it: where the two meet, the runtime
ends the program.

The wire is bytes; how a header or a body is decoded from them is a
parameter, and so is the parsing of names. Left out: the propagation of headers
(of `verifyHeader` only `headersent` is kept), the number of segments, which
only sizes a fetch, and what becomes of a block after `handleFetchedBlock` (each
call is recorded in its work). Whether a block that is not being fetched is
wanted (not known, not fetched, near enough) is an input of its announcement.
-/
import Mathlib.Logic.Function.Basic
import NdnGeth.Core.Types
import NdnGeth.Kad.Common
import NdnGeth.Lib.Run

namespace NdnGeth.Eth

open Function
open Core (Hash Header Body Block)
open Kad (Name)

/-- `peer`, by its id and its ndn name. -/
structure Peer where
  id : String
  name : Name
  deriving DecidableEq, Repr

/-- `PeerRouteInfo`. -/
structure Route where
  peername : Name
  usehint : Bool
  deriving DecidableEq, Repr

structure FetchedHeader where
  header : Header
  td : Nat
  deriving DecidableEq, Repr

structure FetchedBlock where
  block : Block
  td : Nat
  deriving DecidableEq, Repr

inductive BlockPart | header | body
  deriving DecidableEq, Repr

/-- What a job has fetched, decoded. -/
inductive PartData
  | header (h : FetchedHeader)
  | body (b : Body)
  deriving DecidableEq, Repr

/-- `rlp.DecodeBytes` into a `FetchedHeader` and into a `types.Body`, and
`ndn.ParseName`. -/
structure BlockDecoder where
  header : List UInt8 → Option FetchedHeader
  body : List UInt8 → Option Body
  parseName : String → Name

def BlockDecoder.decode (dec : BlockDecoder) (part : BlockPart) (obj : List UInt8) : Option PartData :=
  match part with
  | .header => (dec.header obj).map .header
  | .body => (dec.body obj).map .body

/-- What `pfetch` returns: an object, `ErrJobAborted`, or another error. -/
inductive JobResult
  | obj (bytes : List UInt8)
  | aborted
  | failed
  deriving DecidableEq, Repr

inductive WorkErr | jobAborted | noPeer
  deriving DecidableEq, Repr

/-- Where the handler of a job is: at the writing of its part, at the test of
`buildblock` or its write, in `refetch` or at its `Submit`, at `onWorkDone`
(called because the block was built, or because the job failed), at the send on
`fetchedSig` or at the deferred `removework`. -/
inductive HandlerPc
  | set (p : PartData)
  | check
  | build (b : FetchedBlock)
  | refetch (route : Route)
  | submit (route : Route)
  | finish (built : Bool)
  | signal
  | remove
  deriving DecidableEq, Repr

/-- What a step of a handler meets besides its work. -/
structure Surroundings where
  /-- The pool is closed. -/
  closed : Bool := false
  /-- The pool does not take the job. -/
  busy : Bool := false
  dead : Bool := false
  /-- `stop` holds the mutex of `isdead`. -/
  stopping : Bool := false
  /-- `fetchedSig` is full. -/
  full : Bool := false
  /-- The main loop is in `addHolder`. -/
  writing : Bool := false
  /-- The block is too old or too far. -/
  strange : Bool := false
  /-- The work has outlived `TxFetchingLifeTime`. -/
  late : Bool := false
  /-- The order in which the entries of a map are met. -/
  pick : Nat := 0
  deriving DecidableEq, Repr

/-- An object fetching job: none outstanding, in the pool's queue, fetching,
or in its handler. -/
inductive JobState (π : Type)
  | idle
  | queued (route : Route)
  | running (route : Route)
  | handler (pc : π)
  deriving DecidableEq, Repr

/-- `blockFetchingWork`, with its two jobs. `holders` (by the text of their names)
and `announcers` carry the flag of whether they were queried. `handed` records the blocks passed to
`handleFetchedBlock`, `workDone` counts the calls of `onWorkDone`, and
`removed` tells whether one has come to its `removework`; no step reads
these. -/
structure BlockWork where
  hash : Hash
  header : Option FetchedHeader
  body : Option Body
  fblock : Option FetchedBlock
  headersent : Bool
  holders : List (String × Bool)
  announcers : List (Peer × Bool)
  err : Option WorkErr
  job : BlockPart → JobState HandlerPc
  handed : List FetchedBlock
  workDone : Nat
  removed : Bool

namespace BlockWork

def new (hash : Hash) : BlockWork where
  hash := hash
  header := none
  body := none
  fblock := none
  headersent := false
  holders := []
  announcers := []
  err := none
  job := fun _ => .idle
  handed := []
  workDone := 0
  removed := false

def setJob (w : BlockWork) (part : BlockPart) (j : JobState HandlerPc) : BlockWork :=
  { w with job := update w.job part j }

def setheader (w : BlockWork) (h : FetchedHeader) : BlockWork := { w with header := some h, headersent := true }

def setbody (w : BlockWork) (b : Body) : BlockWork := { w with body := some b }

def setpart (w : BlockWork) : PartData → BlockWork
  | .header h => w.setheader h
  | .body b => w.setbody b

/-- What `buildblock` assembles. -/
def assemble (h : FetchedHeader) (b : Body) : FetchedBlock := ⟨Block.newBlockWithHeader h.header b, h.td⟩

/-- The test of `buildblock`: the block to build, if there is one. -/
def toBuild (w : BlockWork) : Option FetchedBlock :=
  match w.fblock, w.header, w.body with
  | none, some h, some b => some (assemble h b)
  | _, _, _ => none

def addHolder (w : BlockWork) (holder : String) : BlockWork :=
  if (w.holders.map Prod.fst).contains holder then w else { w with holders := w.holders ++ [(holder, false)] }

def addAnnouncer (w : BlockWork) (p : Peer) : BlockWork :=
  if (w.announcers.map (·.1.id)).contains p.id then w else { w with announcers := w.announcers ++ [(p, false)] }

def dropAnnouncer (w : BlockWork) (p : Peer) : BlockWork :=
  { w with announcers := w.announcers.filter (·.1.id ≠ p.id) }

/-- The entry of a map that a `range` loop meets first among those not yet
queried: any of them, as `pick` has it. -/
def unqueried {α : Type} (entries : List (α × Bool)) (pick : Nat) : Option α :=
  let free := (entries.filter fun e => !e.2).map Prod.fst
  free[pick]?.or free.head?

/-- `nextPrefix`: a holder that was not queried, or else an announcer. -/
def nextPrefix (dec : BlockDecoder) (w : BlockWork) (pick : Nat) : Name × BlockWork :=
  match unqueried w.holders pick with
  | some name => (dec.parseName name, { w with holders := w.holders.map fun e => if e.1 = name then (e.1, true) else e })
  | none =>
    match unqueried w.announcers pick with
    | some p => (p.name, { w with announcers := w.announcers.map fun e => if e.1 = p then (e.1, true) else e })
    | none => ([], w)

/-- `refetch` up to `Submit`: first the same peer by its private prefix, then
another one. -/
def refetch (dec : BlockDecoder) (w : BlockWork) (part : BlockPart) (s : Surroundings) (route : Route) : Option BlockWork :=
  if route.usehint then some (w.setJob part (.handler (.submit ⟨route.peername, false⟩)))
  else if s.writing then none
  else
    let (peername, w') := w.nextPrefix dec s.pick
    if peername.isEmpty then some ({ w' with err := some .noPeer }.setJob part (.handler (.finish false)))
    else some (w'.setJob part (.handler (.submit ⟨peername, false⟩)))

/-- `onWorkDone`, up to the send on `fetchedSig` or the deferred `removework`. -/
def onWorkDone (w : BlockWork) (part : BlockPart) (s : Surroundings) : BlockWork :=
  let w' := { w with workDone := w.workDone + 1 }
  match s.dead, w.err, w.fblock with
  | false, none, some b => { w' with handed := w.handed ++ [b] }.setJob part (.handler (if s.strange then .remove else .signal))
  | _, _, _ => w'.setJob part (.handler .remove)

/-- The job returns and its handler begins. -/
def complete (dec : BlockDecoder) (w : BlockWork) (part : BlockPart) (route : Route) : JobResult → BlockWork
  | .aborted => { w with err := some .jobAborted }.setJob part (.handler (.finish false))
  | .failed => w.setJob part (.handler (.refetch route))
  | .obj bytes =>
    match dec.decode part bytes with
    | none => w.setJob part (.handler (.refetch route))
    | some p => w.setJob part (.handler (.set p))

/-- The next step of the handler, if it is not held up. A job that the pool
refuses goes on to `onWorkDone`. -/
def handle (dec : BlockDecoder) (w : BlockWork) (part : BlockPart) (s : Surroundings) : HandlerPc → Option BlockWork
  | .set p => some ((w.setpart p).setJob part (.handler .check))
  | .check =>
    match w.toBuild with
    | some b => some (w.setJob part (.handler (.build b)))
    | none => some (w.setJob part .idle)
  | .build b => some ({ w with fblock := some b }.setJob part (.handler (.finish true)))
  | .refetch route => w.refetch dec part s route
  | .submit route =>
    if s.busy then none
    else some (w.setJob part (if s.closed then .handler (.finish false) else .queued route))
  | .finish _ => if s.stopping then none else some (w.onWorkDone part s)
  | .signal => if s.full then none else some (w.setJob part (.handler .remove))
  | .remove => some ({ w with removed := true }.setJob part .idle)

end BlockWork

/-! ## The fetcher -/

/-- `BlockAnnouncement`: a header with its holder, or a peer's hash. -/
inductive BlockAnnouncement
  | header (h : FetchedHeader) (holder : String)
  | hash (p : Peer) (hash : Hash)
  deriving DecidableEq, Repr

/-- The hash of `BlockInfo`. -/
def BlockAnnouncement.blockHash : BlockAnnouncement → Hash
  | .header h _ => h.header.hash
  | .hash _ h => h

/-- Where the main loop is: at its `select`; in `processAnnouncement` for a
work that is being fetched, at the test of `headersent`, at `setheader`, or
in `buildblock`; for a new work, at the submission of its jobs, at `addwork`
or at the propagation of the header, if it was announced with one. -/
inductive MainPc
  | idle
  | found (i : Nat) (ann : BlockAnnouncement)
  | setheader (i : Nat) (h : FetchedHeader) (holder : String)
  | addHolder (i : Nat) (holder : String)
  | check (i : Nat)
  | build (i : Nat) (b : FetchedBlock)
  | submitHeader (i : Nat) (route : Route)
  | submitBody (i : Nat) (route : Route) (withHeader : Bool)
  | addwork (i : Nat) (withHeader : Bool)
  | propagate (i : Nat)
  deriving DecidableEq, Repr

/-- The main loop is in `addHolder` for the work. -/
def MainPc.writes (i : Nat) : MainPc → Bool
  | .addHolder j _ => i == j
  | _ => false

/-- `blockFetcher`. The works made so far are those below `count`;
`fetching` is the fetching list; `closed` is the pool's; `signals` are those in
`fetchedSig`, which has room for 128. -/
structure BlockFetcher where
  works : Nat → BlockWork
  count : Nat
  fetching : Hash → Option Nat
  main : MainPc
  closed : Bool
  dead : Bool
  signals : Nat

/-- The steps: the main loop takes up an announcement or goes on (with the
answer of `verifyHeader`); a pool worker takes a job, a job returns, a
handler goes on (with what it meets); a peer goes, or pushes a block; the main
loop takes a signal; the pool closes, and a job in its queue is lost by that;
the fetcher stops. -/
inductive FetcherAct
  | announce (ann : BlockAnnouncement) (wanted : Bool)
  | main (verified : Bool)
  | run (i : Nat) (part : BlockPart)
  | complete (i : Nat) (part : BlockPart) (r : JobResult)
  | handle (i : Nat) (part : BlockPart) (s : Surroundings)
  | removepeer (p : Peer)
  | pushed
  | signal
  | close
  | drop (i : Nat) (part : BlockPart)
  | stop
  deriving DecidableEq, Repr

namespace BlockFetcher

def initial : BlockFetcher := ⟨fun _ => .new 0, 0, fun _ => none, .idle, false, false, 0⟩

def setWork (f : BlockFetcher) (i : Nat) (w : BlockWork) : BlockFetcher :=
  { f with works := update f.works i w }

/-- The work made for an announcement. -/
def newWork : BlockAnnouncement → BlockWork
  | .header h holder => { BlockWork.new h.header.hash with header := some h, holders := [(holder, true)] }
  | .hash p hash => { BlockWork.new hash with announcers := [(p, true)] }

/-- `processAnnouncement` up to its first effect. A work that has its header
fetches only the body. -/
def announce (dec : BlockDecoder) (f : BlockFetcher) (ann : BlockAnnouncement) (wanted : Bool) : BlockFetcher :=
  match f.fetching ann.blockHash with
  | some i => { f with main := .found i ann }
  | none =>
    if wanted then
      let f' := { f.setWork f.count (newWork ann) with count := f.count + 1 }
      match ann with
      | .header _ holder => { f' with main := .submitBody f.count ⟨dec.parseName holder, true⟩ true }
      | .hash p _ => { f' with main := .submitHeader f.count ⟨p.name, true⟩ }
    else f

/-- What `processAnnouncement` does once the jobs are submitted or refused. -/
def propagates (i : Nat) (withHeader : Bool) : MainPc := if withHeader then .propagate i else .idle

/-- The main loop's next step. -/
def mainStep (f : BlockFetcher) (verified : Bool) : MainPc → Option BlockFetcher
  | .idle => none
  | .found i (.header h holder) =>
    some { f with main := if (f.works i).headersent then .addHolder i holder else .setheader i h holder }
  | .found i (.hash p _) => some { f.setWork i ((f.works i).addAnnouncer p) with main := .idle }
  | .setheader i h holder => some { f.setWork i ((f.works i).setheader h) with main := .addHolder i holder }
  | .addHolder i holder => some { f.setWork i ((f.works i).addHolder holder) with main := .check i }
  | .check i =>
    match (f.works i).toBuild with
    | some b => some { f with main := .build i b }
    | none => some { f with main := .idle }
  | .build i b =>
    -- The answer of `buildblock` is ignored here, and the work goes on as it is.
    some { f.setWork i { f.works i with fblock := some b } with main := .idle }
  | .submitHeader i route =>
    if f.closed then some { f with main := .idle }
    else some { f.setWork i ((f.works i).setJob .header (.queued route)) with main := .submitBody i route false }
  | .submitBody i route withHeader =>
    if f.closed then some { f with main := propagates i withHeader }
    else some { f.setWork i ((f.works i).setJob .body (.queued route)) with main := .addwork i withHeader }
  | .addwork i withHeader =>
    some { f with
      fetching := update f.fetching (f.works i).hash (some i)
      main := propagates i withHeader }
  | .propagate i =>
    some { f.setWork i { f.works i with headersent := (f.works i).headersent || verified } with main := .idle }

/-- What a handler of the work meets. -/
def meets (f : BlockFetcher) (i : Nat) (s : Surroundings) : Surroundings :=
  { s with closed := f.closed, dead := f.dead, full := 128 ≤ f.signals, writing := s.writing && f.main.writes i }

/-- The next step of the handler of a job; its last one takes the hash off
the fetching list. -/
def handleStep (dec : BlockDecoder) (f : BlockFetcher) (i : Nat) (part : BlockPart) (s : Surroundings) (pc : HandlerPc) :
    Option BlockFetcher :=
  ((f.works i).handle dec part (f.meets i s) pc).map fun w =>
    { f.setWork i w with
      fetching := if pc = .remove then update f.fetching (f.works i).hash none else f.fetching
      signals := if pc = .signal then f.signals + 1 else f.signals }

def step (dec : BlockDecoder) (f : BlockFetcher) : FetcherAct → Option BlockFetcher
  | .announce ann wanted => if f.main = .idle ∧ f.dead = false then some (f.announce dec ann wanted) else none
  | .main verified => f.mainStep verified f.main
  | .run i part =>
    match (f.works i).job part with
    | .queued route => some (f.setWork i ((f.works i).setJob part (.running route)))
    | _ => none
  | .complete i part r =>
    match (f.works i).job part with
    | .running route => some (f.setWork i ((f.works i).complete dec part route r))
    | _ => none
  | .handle i part s =>
    match (f.works i).job part with
    | .handler pc => f.handleStep dec i part s pc
    | _ => none
  | .removepeer p =>
    some { f with
      works := fun i => if f.fetching (f.works i).hash = some i then (f.works i).dropAnnouncer p else f.works i }
  | .pushed => if f.signals < 128 then some { f with signals := f.signals + 1 } else none
  | .signal =>
    if f.main = .idle ∧ f.dead = false ∧ 0 < f.signals then some { f with signals := f.signals - 1 } else none
  | .close => some { f with closed := true }
  | .drop i part =>
    match (f.works i).job part with
    | .queued _ => if f.closed then some (f.setWork i ((f.works i).setJob part .idle)) else none
    | _ => none
  | .stop => if f.main = .idle then some { f with dead := true } else none

end BlockFetcher

/-! ## What a step does

Said once, for every invariant of the fetcher. -/

/-- A handler at this place is not held up, nor brought down. -/
def Surroundings.Lets (s : Surroundings) : HandlerPc → Prop
  | .refetch route => route.usehint = false → s.writing = false
  | .submit _ => s.busy = false
  | .finish _ => s.stopping = false
  | .signal => s.full = false
  | _ => True

namespace BlockWork

/-- The two works differ in nothing but what the peers and the error have to
do with. -/
def Alike (w w' : BlockWork) : Prop :=
  ∃ sent holders announcers err, w' = { w with headersent := sent, holders := holders, announcers := announcers, err := err }

variable {w : BlockWork}

theorem Alike.refl (w : BlockWork) : w.Alike w := ⟨_, _, _, _, rfl⟩

theorem Alike.job {w' : BlockWork} (h : w.Alike w') : w'.job = w.job := by
  obtain ⟨_, _, _, _, rfl⟩ := h
  rfl

theorem addHolder_alike (w : BlockWork) (holder : String) : w.Alike (w.addHolder holder) := by
  unfold addHolder
  split <;> exact ⟨_, _, _, _, rfl⟩

theorem addAnnouncer_alike (w : BlockWork) (p : Peer) : w.Alike (w.addAnnouncer p) := by
  unfold addAnnouncer
  split <;> exact ⟨_, _, _, _, rfl⟩

theorem nextPrefix_alike (dec : BlockDecoder) (w : BlockWork) (pick : Nat) : w.Alike (w.nextPrefix dec pick).2 := by
  unfold nextPrefix
  split
  · exact ⟨_, _, _, _, rfl⟩
  · split <;> exact ⟨_, _, _, _, rfl⟩

theorem toBuild_eq_some {b : FetchedBlock} (h : w.toBuild = some b) :
    w.fblock = none ∧ ∃ h body, w.header = some h ∧ w.body = some body ∧ b = assemble h body := by
  simp only [toBuild] at h
  split at h
  · next hh body hf hhead hbody =>
    cases h
    exact ⟨hf, hh, body, hhead, hbody, rfl⟩
  · cases h

theorem toBuild_eq_none (h : w.toBuild = none) (hf : w.fblock = none) (hh : w.header.isSome) (hb : w.body.isSome) :
    False := by
  obtain ⟨x, hx⟩ := Option.isSome_iff_exists.1 hh
  obtain ⟨y, hy⟩ := Option.isSome_iff_exists.1 hb
  simp [toBuild, hf, hx, hy] at h

@[simp] theorem setJob_self (w : BlockWork) (part : BlockPart) (j : JobState HandlerPc) : (w.setJob part j).job part = j :=
  update_self ..

theorem setJob_ne {part q : BlockPart} (hq : q ≠ part) (j : JobState HandlerPc) : (w.setJob part j).job q = w.job q :=
  update_of_ne hq ..

/-- What a step of a handler leaves of the work, and where the job is then. -/
inductive HandleStep (w : BlockWork) (dead : Bool) : HandlerPc → BlockWork → JobState HandlerPc → Prop
  | set {p} : HandleStep w dead (.set p) (w.setpart p) (.handler .check)
  | test {b} : w.toBuild = some b → HandleStep w dead .check w (.handler (.build b))
  | wait : w.toBuild = none → HandleStep w dead .check w .idle
  | build {b} : HandleStep w dead (.build b) { w with fblock := some b } (.handler (.finish true))
  | next {route r v} : w.Alike v → HandleStep w dead (.refetch route) v (.handler (.submit r))
  | giveUp {route v} : w.Alike v → HandleStep w dead (.refetch route) v (.handler (.finish false))
  | submit {route} : HandleStep w dead (.submit route) w (.queued route)
  | refused {route} : HandleStep w dead (.submit route) w (.handler (.finish false))
  | handOver {built b pc} : w.err = none → w.fblock = some b → dead = false → pc = .remove ∨ pc = .signal →
    HandleStep w dead (.finish built) { w with workDone := w.workDone + 1, handed := w.handed ++ [b] } (.handler pc)
  | finish {built} : ¬(w.err = none ∧ w.fblock.isSome ∧ dead = false) →
    HandleStep w dead (.finish built) { w with workDone := w.workDone + 1 } (.handler .remove)
  | signal : HandleStep w dead .signal w (.handler .remove)
  | remove : HandleStep w dead .remove { w with removed := true } .idle

variable {s : Surroundings}

theorem refetch_cases {dec : BlockDecoder} {part : BlockPart} {route : Route} {dead : Bool}
    (h : route.usehint = false → s.writing = false) :
    ∃ v j, w.refetch dec part s route = some (v.setJob part j) ∧ w.HandleStep dead (.refetch route) v j := by
  unfold refetch
  split
  · exact ⟨_, _, rfl, .next (.refl w)⟩
  · next hhint =>
    rw [if_neg (by simp [h (by simpa using hhint)])]
    obtain ⟨sent, holders, announcers, err, heq⟩ := w.nextPrefix_alike dec s.pick
    dsimp only
    split
    · exact ⟨_, _, rfl, .giveUp ⟨sent, holders, announcers, _, by rw [heq]⟩⟩
    · exact ⟨_, _, rfl, .next ⟨_, _, _, _, heq⟩⟩

theorem onWorkDone_cases (w : BlockWork) (part : BlockPart) (s : Surroundings) (built : Bool) :
    ∃ v j, w.onWorkDone part s = v.setJob part j ∧ w.HandleStep s.dead (.finish built) v j := by
  unfold onWorkDone
  dsimp only
  split
  · next b hd he hb => exact ⟨_, _, rfl, .handOver he hb hd (by cases s.strange <;> simp)⟩
  · next hno =>
    refine ⟨_, _, rfl, .finish fun ⟨he, hb, hd⟩ => ?_⟩
    obtain ⟨b, hb⟩ := Option.isSome_iff_exists.1 hb
    exact hno b hd he hb

/-- A step that is not held up. -/
theorem handle_of_lets (dec : BlockDecoder) (w : BlockWork) (part : BlockPart) {pc : HandlerPc} (h : s.Lets pc) :
    ∃ v j, w.handle dec part s pc = some (v.setJob part j) ∧ w.HandleStep s.dead pc v j := by
  cases pc with
  | set p => exact ⟨_, _, rfl, .set⟩
  | check =>
    simp only [handle]
    split
    · next b hb => exact ⟨_, _, rfl, .test hb⟩
    · next hb => exact ⟨_, _, rfl, .wait hb⟩
  | build b => exact ⟨_, _, rfl, .build⟩
  | refetch route => exact refetch_cases h
  | submit route =>
    simp only [Surroundings.Lets] at h
    simp only [handle, h, Bool.false_eq_true, if_false]
    cases s.closed with
    | false => exact ⟨_, _, rfl, .submit⟩
    | true => exact ⟨_, _, rfl, .refused⟩
  | finish built =>
    simp only [Surroundings.Lets] at h
    obtain ⟨v, j, heq, hs⟩ := w.onWorkDone_cases part s built
    exact ⟨v, j, by simp [handle, h, heq], hs⟩
  | signal =>
    simp only [Surroundings.Lets] at h
    exact ⟨_, _, by simp [handle, h], .signal⟩
  | remove => exact ⟨_, _, rfl, .remove⟩

theorem handle_isSome_iff {dec : BlockDecoder} {part : BlockPart} {pc : HandlerPc} :
    (w.handle dec part s pc).isSome ↔ s.Lets pc := by
  refine ⟨fun h => ?_, fun h => ?_⟩
  · cases pc with
    | refetch route =>
      intro hhint
      cases hw : s.writing with
      | false => rfl
      | true => simp [handle, refetch, hhint, hw] at h
    | submit route | finish built | signal => simpa [handle, Surroundings.Lets] using h
    | set p | check | build b | remove => trivial
  · obtain ⟨v, j, heq, -⟩ := w.handle_of_lets dec part h
    exact Option.isSome_of_eq_some heq

end BlockWork

namespace BlockFetcher

variable {dec : BlockDecoder} {f f' : BlockFetcher} {i : Nat}

/-- What the step of a job leaves of its work, and where the job is then. -/
inductive JobStep (dec : BlockDecoder) (f : BlockFetcher) (i : Nat) (part : BlockPart) :
    FetcherAct → JobState HandlerPc → BlockWork → JobState HandlerPc → Prop
  | run {route} : JobStep dec f i part (.run i part) (.queued route) (f.works i) (.running route)
  | drop {route} : JobStep dec f i part (.drop i part) (.queued route) (f.works i) .idle
  | aborted {route r v} : (f.works i).Alike v → JobStep dec f i part (.complete i part r) (.running route) v (.handler (.finish false))
  | unread {route r} : JobStep dec f i part (.complete i part r) (.running route) (f.works i) (.handler (.refetch route))
  | read {route bytes p} : dec.decode part bytes = some p →
    JobStep dec f i part (.complete i part (.obj bytes)) (.running route) (f.works i) (.handler (.set p))
  | handle {s pc v j} : (f.works i).HandleStep f.dead pc v j → JobStep dec f i part (.handle i part s) (.handler pc) v j

/-- What the main loop's next step leaves of the work it has in hand, and
where it goes on. -/
inductive MainStep (f : BlockFetcher) (i : Nat) : MainPc → BlockWork → MainPc → Prop
  | known {h holder} : MainStep f i (.found i (.header h holder)) (f.works i) (.addHolder i holder)
  | unknown {h holder} : MainStep f i (.found i (.header h holder)) (f.works i) (.setheader i h holder)
  | addAnnouncer {p hash v} : (f.works i).Alike v → MainStep f i (.found i (.hash p hash)) v .idle
  | setheader {h holder} : MainStep f i (.setheader i h holder) ((f.works i).setheader h) (.addHolder i holder)
  | addHolder {holder v} : (f.works i).Alike v → MainStep f i (.addHolder i holder) v (.check i)
  | test {b} : (f.works i).toBuild = some b → MainStep f i (.check i) (f.works i) (.build i b)
  | wait : (f.works i).toBuild = none → MainStep f i (.check i) (f.works i) .idle
  | build {b} : MainStep f i (.build i b) { f.works i with fblock := some b } .idle
  | refused {route} : MainStep f i (.submitHeader i route) (f.works i) .idle
  | submitHeader {route} : MainStep f i (.submitHeader i route) ((f.works i).setJob .header (.queued route)) (.submitBody i route false)
  | bodyRefused {route wh} : MainStep f i (.submitBody i route wh) (f.works i) (propagates i wh)
  | submitBody {route wh} : MainStep f i (.submitBody i route wh) ((f.works i).setJob .body (.queued route)) (.addwork i wh)
  | propagate {v} : (f.works i).Alike v → MainStep f i (.propagate i) v .idle

/-- The steps of the fetcher: an announcement is taken up; the main loop goes
on with a work, or lists it; a job goes on, with the hash taken off the list
at the end of its handler; and all others, which touch no block. -/
inductive Step (dec : BlockDecoder) (f : BlockFetcher) : FetcherAct → BlockFetcher → Prop
  | announce {ann wanted} : f.main = .idle → Step dec f (.announce ann wanted) (f.announce dec ann wanted)
  | main {verified i v m} : MainStep f i f.main v m → Step dec f (.main verified) { f.setWork i v with main := m }
  | addwork {verified i wh} : f.main = .addwork i wh → Step dec f (.main verified)
    { f with fetching := update f.fetching (f.works i).hash (some i), main := propagates i wh }
  | job {a i part v j} (signals : Nat) : JobStep dec f i part a ((f.works i).job part) v j → Step dec f a
    { f.setWork i (v.setJob part j) with
      fetching := if (f.works i).job part = .handler .remove then update f.fetching (f.works i).hash none else f.fetching
      signals := signals }
  | rest {a works closed dead signals} : (∀ i, (f.works i).Alike (works i)) → Step dec f a
    { f with works := works, closed := closed, dead := dead, signals := signals }

theorem mainStep_cases {verified : Bool} {pc : MainPc} (hm : f.main = pc) (h : f.mainStep verified pc = some f') :
    Step dec f (.main verified) f' := by
  have hmove : ∀ {i v m}, MainStep f i pc v m → Step dec f (.main verified) { f.setWork i v with main := m } :=
    fun hs => .main (hm ▸ hs)
  have hstay : ∀ {i m}, MainStep f i pc (f.works i) m → Step dec f (.main verified) { f with main := m } := by
    intro i m hs
    have := hmove hs
    simpa only [setWork, update_eq_self] using this
  cases pc with
  | idle => cases h
  | found i ann =>
    cases ann with
    | header hd holder =>
      simp only [BlockFetcher.mainStep] at h
      split at h <;> cases h
      · exact hstay .known
      · exact hstay .unknown
    | hash p hash =>
      cases h
      exact hmove (.addAnnouncer ((f.works i).addAnnouncer_alike p))
  | setheader i hd holder =>
    cases h
    exact hmove .setheader
  | addHolder i holder =>
    cases h
    exact hmove (.addHolder ((f.works i).addHolder_alike holder))
  | check i =>
    simp only [BlockFetcher.mainStep] at h
    split at h <;> cases h
    · next hb => exact hstay (.test hb)
    · next hb => exact hstay (.wait hb)
  | build i b =>
    cases h
    exact hmove .build
  | submitHeader i route =>
    simp only [BlockFetcher.mainStep] at h
    split at h <;> cases h
    · exact hstay .refused
    · exact hmove .submitHeader
  | submitBody i route wh =>
    simp only [BlockFetcher.mainStep] at h
    split at h <;> cases h
    · exact hstay .bodyRefused
    · exact hmove .submitBody
  | addwork i wh =>
    cases h
    exact .addwork hm
  | propagate i =>
    cases h
    exact hmove (.propagate ⟨_, _, _, _, rfl⟩)

theorem step_cases {a : FetcherAct} (h : f.step dec a = some f') : Step dec f a f' := by
  -- the step of a job that is not at the end of its handler
  have hjob : ∀ {i part v j}, (f.works i).job part ≠ .handler .remove → JobStep dec f i part a ((f.works i).job part) v j →
      Step dec f a (f.setWork i (v.setJob part j)) := by
    intro i part v j hne hs
    have := Step.job f.signals hs
    rwa [if_neg hne] at this
  cases a with
  | announce ann wanted =>
    simp only [BlockFetcher.step] at h
    split at h
    · next hm =>
      cases h
      exact .announce hm.1
    · cases h
  | main verified => exact mainStep_cases rfl h
  | run i part =>
    simp only [BlockFetcher.step] at h
    split at h
    · next route hj =>
      cases h
      exact hjob (by simp [hj]) (hj ▸ .run)
    · cases h
  | complete i part r =>
    simp only [BlockFetcher.step] at h
    split at h
    · next route hj =>
      cases h
      have hne : (f.works i).job part ≠ .handler .remove := by simp [hj]
      unfold BlockWork.complete
      split
      · exact hjob hne (hj ▸ .aborted ⟨_, _, _, _, rfl⟩)
      · exact hjob hne (hj ▸ .unread)
      · split
        · exact hjob hne (hj ▸ .unread)
        · next p hp => exact hjob hne (hj ▸ .read hp)
    · cases h
  | handle i part s =>
    simp only [BlockFetcher.step] at h
    split at h
    · next pc hj =>
      obtain ⟨w, hw, rfl⟩ := Option.map_eq_some_iff.1 h
      obtain ⟨v, j, heq, hs⟩ := (f.works i).handle_of_lets dec part (BlockWork.handle_isSome_iff.1 (Option.isSome_of_eq_some hw))
      cases hw.symm.trans heq
      have hjs : JobStep dec f i part (.handle i part s) ((f.works i).job part) v j := hj ▸ .handle hs
      have hstep := Step.job (if pc = .signal then f.signals + 1 else f.signals) hjs
      simpa only [hj, JobState.handler.injEq] using hstep
    · cases h
  | removepeer p =>
    cases h
    refine .rest fun i => ?_
    split <;> exact ⟨_, _, _, _, rfl⟩
  | pushed | signal | stop =>
    simp only [BlockFetcher.step] at h
    split at h
    · cases h
      exact .rest fun i => .refl _
    · cases h
  | close =>
    cases h
    exact .rest fun i => .refl _
  | drop i part =>
    simp only [BlockFetcher.step] at h
    split at h
    · next route hj =>
      split at h
      · cases h
        exact hjob (by simp [hj]) (hj ▸ .drop)
      · cases h
    · cases h

theorem JobStep.keeps {part : BlockPart} {a : FetcherAct} {old j : JobState HandlerPc} {v : BlockWork}
    (hs : JobStep dec f i part a old v j) :
    old ≠ .idle ∧ v.job = (f.works i).job ∧ v.hash = (f.works i).hash := by
  cases hs with
  | run | drop | unread | read => simp
  | aborted hv =>
    obtain ⟨_, _, _, _, rfl⟩ := hv
    simp
  | handle hh =>
    refine ⟨by simp, ?_⟩
    cases hh with
    | @set p => cases p <;> exact ⟨rfl, rfl⟩
    | next hv | giveUp hv =>
      obtain ⟨_, _, _, _, rfl⟩ := hv
      exact ⟨rfl, rfl⟩
    | test | wait | build | submit | refused | handOver | finish | signal | remove => exact ⟨rfl, rfl⟩

theorem announce_listed {ann : BlockAnnouncement} (h : f.fetching ann.blockHash = some i) (wanted : Bool) :
    f.announce dec ann wanted = { f with main := .found i ann } := by
  simp only [BlockFetcher.announce, h]

theorem announce_cases (dec : BlockDecoder) (f : BlockFetcher) (ann : BlockAnnouncement) (wanted : Bool) :
    (∃ i, f.fetching ann.blockHash = some i ∧ f.announce dec ann wanted = { f with main := .found i ann }) ∨
    (∃ m, f.announce dec ann wanted = { f.setWork f.count (newWork ann) with count := f.count + 1, main := m } ∧
      ((∃ route, m = .submitHeader f.count route) ∨
        ∃ route, m = .submitBody f.count route true ∧ (newWork ann).header.isSome)) ∨
    f.announce dec ann wanted = f := by
  cases hf : f.fetching ann.blockHash with
  | some i => exact .inl ⟨i, rfl, announce_listed hf wanted⟩
  | none =>
    simp only [BlockFetcher.announce, hf]
    split
    · refine .inr (.inl ?_)
      cases ann with
      | header hd holder => exact ⟨_, rfl, .inr ⟨_, rfl, rfl⟩⟩
      | hash p hash => exact ⟨_, rfl, .inl ⟨_, rfl⟩⟩
    · exact .inr (.inr rfl)

theorem setWork_other {w : BlockWork} {j : Nat} (h : j ≠ i) : (f.setWork i w).works j = f.works j := update_of_ne h ..

theorem forall_setWork {w : BlockWork} {P : Nat → BlockWork → Prop} :
    (∀ k, P k ((f.setWork i w).works k)) ↔ P i w ∧ ∀ k, k ≠ i → P k (f.works k) :=
  Function.forall_update_iff f.works P

end BlockFetcher

end NdnGeth.Eth
