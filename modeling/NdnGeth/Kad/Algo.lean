/-
The Kademlia lookup (`ndn/kad/algo.go`, `kadlookupalgo.lookup`) as a
transition system: the lookup goroutine, and the callbacks of the findnode
queries it has made, which other goroutines run when they like.

A round asks the candidates in `queriedpeers` and takes one result for each
from `resultCh`. The callback of a query sends the loop variable `qp` as it
is when the callback runs: under the module's Go version (1.13) the
closures of all iterations share it. A candidate that was queried recently
is not asked; its result is sent at once, empty. Times are inputs of the
steps that read the clock.

The other peers are a function: what a peer answers findnode for this
target, or nothing for one that fails.
-/
import NdnGeth.Lib.Run
import NdnGeth.Kad.Peersort

namespace NdnGeth.Kad

def MAX_CHECKLIVE_ROUNDS : Nat := 3

/-- The errors `lookup` returns. -/
inductive LookupError
  | noPeer
  | jobAborted
  deriving DecidableEq, Repr

/-- What the lookup is given: `k`, the routing table's answer
`closest(target, k)`, and what each peer answers (`none`: an error). -/
structure LookupEnv where
  k : Nat
  closest : List Kadpeer
  find : ID → Option (List Kadpeer)

/-- `findnoderesult`; `err` tells whether there was an error. -/
structure FindnodeResult (target : ID) where
  queried : PqPeer target
  peers : List Kadpeer
  err : Bool

inductive Phase
  /-- At the `select`, with `newlookupround` signalled. -/
  | newlookupround
  /-- In the loop over `queriedpeers`, with `i` of them handled. -/
  | querying (i : Nat)
  /-- Taking results, with `i` of them taken. -/
  | collecting (i : Nat)
  /-- At the `select`, with `newcheckliveround` signalled. -/
  | newcheckliveround
  | done (peers : List Kadpeer) (err : Option LookupError)
  deriving DecidableEq, Repr

/-- The lookup's variables. `pending` are the queries (positions in
`queriedpeers`) whose callback has not run. `answered` records who answered
findnode, with the round; no step reads it. -/
structure Lookup (target : ID) where
  sortedpeers : Peersort target
  queriedpeers : List (PqPeer target)
  solution : List Kadpeer
  newsolution : List Kadpeer
  lookuproundnum : Nat
  checkliverounds : Nat
  pending : List Nat
  resultCh : List (FindnodeResult target)
  phase : Phase
  answered : List (ID × Nat)

/-- The steps. Each of those of the goroutine is enabled in one phase. The
callback of query `i` runs at any time between the query and the end of the
round; in the querying loop, before (`begun = false`) or after the next
iteration has set the loop variable. -/
inductive Act
  | start
  | query (now : Int)
  | callback (i : Nat) (begun : Bool)
  | queried
  | receive (now : Int)
  | extract
  | checklive
  | abort
  deriving DecidableEq, Repr

def compare : (l1 l2 : List Kadpeer) → Bool
  | [], [] => true
  | p :: ps, q :: qs => p.id == q.id && compare ps qs
  | _, _ => false

namespace Lookup

variable {target : ID}

/-- Up to the loop: the first solution, the buffer and the first querying
list. An empty first solution returns `ErrNoPeer`; `newpeersort` may panic. -/
def start (target : ID) (env : LookupEnv) : Option (Except LookupError (Lookup target)) :=
  if env.closest = [] then some (.error .noPeer)
  else
    match Peersort.newpeersort target env.closest with
    | none => none
    | some ps =>
      let (queriedpeers, sortedpeers) := ps.closest KADEMLIA_ALPHA
      some (.ok
        { sortedpeers, queriedpeers
          solution := env.closest
          newsolution := []
          lookuproundnum := 1
          checkliverounds := 1
          pending := []
          resultCh := []
          phase := .newlookupround
          answered := [] })

/-- The loop variable `qp` a callback captures. -/
def loopVar (s : Lookup target) (begun : Bool) : Option (PqPeer target) :=
  match s.phase with
  | .querying i => if begun then s.queriedpeers[i]? else s.queriedpeers[i - 1]?
  | .collecting _ => s.queriedpeers.getLast?
  | _ => none

/-- An iteration over `queriedpeers`: ask, or send an empty result. -/
def query (s : Lookup target) (i : Nat) (qp : PqPeer target) (now : Int) : Lookup target :=
  if s.sortedpeers.recentlyqueried qp now then
    { s with resultCh := s.resultCh ++ [⟨qp, [], false⟩], phase := .querying (i + 1) }
  else { s with pending := s.pending ++ [i], phase := .querying (i + 1) }

/-- The callback of query `i` runs while the loop variable is `qp`. -/
def callback (env : LookupEnv) (s : Lookup target) (i : Nat) (asked qp : PqPeer target) : Lookup target :=
  match env.find asked.id with
  | none => { s with pending := s.pending.erase i, resultCh := s.resultCh ++ [⟨qp, [], true⟩] }
  | some peers =>
    { s with
      pending := s.pending.erase i
      resultCh := s.resultCh ++ [⟨qp, peers, false⟩]
      answered := (asked.id, s.lookuproundnum) :: s.answered }

/-- A result is taken from the channel. -/
def receive (s : Lookup target) (i : Nat) (result : FindnodeResult target) (rest : List (FindnodeResult target))
    (now : Int) : Lookup target :=
  if result.err || result.peers.isEmpty then { s with resultCh := rest, phase := .collecting (i + 1) }
  else
    { s with
      sortedpeers := ((s.sortedpeers.repush result.queried).mark result.queried now).update result.peers
      resultCh := rest
      phase := .collecting (i + 1) }

/-- The end of a round: the new solution and the next querying list. -/
def extract (env : LookupEnv) (s : Lookup target) : Lookup target :=
  let (closest, ps) := s.sortedpeers.closest env.k
  let newsolution := closest.map PqPeer.p
  let s' := { s with
    sortedpeers := (closest.drop KADEMLIA_ALPHA).foldl Peersort.repush ps
    queriedpeers := closest.take KADEMLIA_ALPHA
    solution := newsolution
    newsolution := newsolution }
  if compare s.solution newsolution then { s' with phase := .newcheckliveround }
  else { s' with lookuproundnum := s.lookuproundnum + 1, phase := .newlookupround }

def step (env : LookupEnv) (s : Lookup target) : Act → Option (Lookup target)
  | .start =>
    match s.phase with
    | .newlookupround =>
      -- Nothing to query: `peers` and `err` are returned as they are, nil.
      if s.queriedpeers = [] then some { s with phase := .done [] none }
      else some { s with pending := [], resultCh := [], phase := .querying 0 }
    | _ => none
  | .query now =>
    match s.phase with
    | .querying i =>
      match s.queriedpeers[i]? with
      | some qp => some (s.query i qp now)
      | none => none
    | _ => none
  | .callback i begun =>
    match s.queriedpeers[i]?, s.loopVar begun with
    | some asked, some qp => if i ∈ s.pending then some (callback env s i asked qp) else none
    | _, _ => none
  | .queried =>
    match s.phase with
    | .querying i => if i = s.queriedpeers.length then some { s with phase := .collecting 0 } else none
    | _ => none
  | .receive now =>
    match s.phase, s.resultCh with
    | .collecting i, result :: rest =>
      if i < s.queriedpeers.length then some (s.receive i result rest now) else none
    | _, _ => none
  | .extract =>
    match s.phase with
    | .collecting i => if i = s.queriedpeers.length then some (extract env s) else none
    | _ => none
  | .checklive =>
    match s.phase with
    | .newcheckliveround =>
      -- `all_reply` is always true: the solution is not consolidated yet.
      if s.checkliverounds > MAX_CHECKLIVE_ROUNDS then some { s with phase := .done [] none }
      else some { s with phase := .done s.newsolution none }
    | _ => none
  | .abort =>
    match s.phase with
    | .newlookupround | .newcheckliveround => some { s with phase := .done [] (some .jobAborted) }
    | .collecting i =>
      if i < s.queriedpeers.length then some { s with phase := .done [] (some .jobAborted) } else none
    | _ => none

/-- Takes the steps `as` from the start: who answered, and the phase reached. -/
def play (target : ID) (env : LookupEnv) (ok : Lookup target → Act → Prop) [∀ s a, Decidable (ok s a)] (as : List Act) :
    Option (List (ID × Nat) × Phase) :=
  match start target env with
  | some (.ok s₀) => (Lib.exec (step env) ok s₀ as).map fun s => (s.answered, s.phase)
  | _ => none

theorem play_run {env : LookupEnv} {ok : Lookup target → Act → Prop} [∀ s a, Decidable (ok s a)] {as : List Act}
    {answered : List (ID × Nat)} {phase : Phase} (h : play target env ok as = some (answered, phase)) :
    ∃ s₀ s, start target env = some (.ok s₀) ∧ Lib.Run (step env) ok s₀ as s ∧
      s.answered = answered ∧ s.phase = phase := by
  simp only [play] at h
  split at h
  · next s₀ hs =>
    simp only [Option.map_eq_some_iff, Prod.mk.injEq] at h
    obtain ⟨s, hexec, ha, hp⟩ := h
    exact ⟨s₀, s, hs, .of_exec hexec, ha, hp⟩
  · cases h

/-! ## What a step does -/

variable {env : LookupEnv} {s s' : Lookup target}

variable {begun : Bool}

theorem loopVar_phase {qp : PqPeer target} (h : s.loopVar begun = some qp) :
    ∃ i, s.phase = .querying i ∨ s.phase = .collecting i := by
  unfold loopVar at h
  split at h
  · next i hp => exact ⟨i, .inl hp⟩
  · next i hp => exact ⟨i, .inr hp⟩
  · cases h

theorem loopVar_mem {qp : PqPeer target} (h : s.loopVar begun = some qp) : qp ∈ s.queriedpeers := by
  unfold loopVar at h
  split at h
  · split at h
    all_goals exact List.mem_of_getElem? h
  · exact List.mem_of_getLast? h
  · cases h

theorem step_start (h : step env s .start = some s') : s.phase = .newlookupround ∧
    (s.queriedpeers = [] ∧ s' = { s with phase := .done [] none } ∨
      s.queriedpeers ≠ [] ∧ s' = { s with pending := [], resultCh := [], phase := .querying 0 }) := by
  simp only [step] at h
  split at h
  · next hp =>
    split at h
    · next hq => exact ⟨hp, .inl ⟨hq, (Option.some.inj h).symm⟩⟩
    · next hq => exact ⟨hp, .inr ⟨hq, (Option.some.inj h).symm⟩⟩
  · cases h

theorem step_query {now : Int} (h : step env s (.query now) = some s') :
    ∃ i qp, s.phase = .querying i ∧ s.queriedpeers[i]? = some qp ∧
      (s.sortedpeers.recentlyqueried qp now = true ∧
          s' = { s with resultCh := s.resultCh ++ [⟨qp, [], false⟩], phase := .querying (i + 1) } ∨
        s.sortedpeers.recentlyqueried qp now = false ∧
          s' = { s with pending := s.pending ++ [i], phase := .querying (i + 1) }) := by
  simp only [step] at h
  split at h
  · next i hp =>
    split at h
    · next qp hq =>
      refine ⟨i, qp, hp, hq, ?_⟩
      cases h
      simp only [query]
      split
      · next hr => exact .inl ⟨hr, rfl⟩
      · next hr => exact .inr ⟨by simpa using hr, rfl⟩
    · cases h
  · cases h

theorem step_callback {i : Nat} (h : step env s (.callback i begun) = some s') :
    ∃ asked qp, s.queriedpeers[i]? = some asked ∧ s.loopVar begun = some qp ∧ i ∈ s.pending ∧
      (env.find asked.id = none ∧
          s' = { s with pending := s.pending.erase i, resultCh := s.resultCh ++ [⟨qp, [], true⟩] } ∨
        ∃ peers, env.find asked.id = some peers ∧
          s' = { s with
            pending := s.pending.erase i
            resultCh := s.resultCh ++ [⟨qp, peers, false⟩]
            answered := (asked.id, s.lookuproundnum) :: s.answered }) := by
  simp only [step] at h
  split at h
  · next asked qp ha hq =>
    split at h
    · next hi =>
      refine ⟨asked, qp, ha, hq, hi, ?_⟩
      cases h
      simp only [callback]
      split
      · next hf => exact .inl ⟨hf, rfl⟩
      · next peers hf => exact .inr ⟨peers, hf, rfl⟩
    · cases h
  · cases h

theorem step_queried (h : step env s .queried = some s') :
    s.phase = .querying s.queriedpeers.length ∧ s' = { s with phase := .collecting 0 } := by
  simp only [step] at h
  split at h
  · next i hp =>
    split at h
    · next hi => exact ⟨hi ▸ hp, (Option.some.inj h).symm⟩
    · cases h
  · cases h

theorem step_receive {now : Int} (h : step env s (.receive now) = some s') :
    ∃ i result rest, s.phase = .collecting i ∧ i < s.queriedpeers.length ∧ s.resultCh = result :: rest ∧
      ((result.err = true ∨ result.peers = []) ∧
          s' = { s with resultCh := rest, phase := .collecting (i + 1) } ∨
        (result.err = false ∧ result.peers ≠ []) ∧
          s' = { s with
            sortedpeers := ((s.sortedpeers.repush result.queried).mark result.queried now).update result.peers
            resultCh := rest
            phase := .collecting (i + 1) }) := by
  simp only [step] at h
  split at h
  · next i result rest hp hr =>
    split at h
    · next hi =>
      refine ⟨i, result, rest, hp, hi, hr, ?_⟩
      cases h
      simp only [receive]
      split
      · next hc => exact .inl ⟨by simpa using hc, rfl⟩
      · next hc => exact .inr ⟨by simpa using hc, rfl⟩
    · cases h
  · cases h

theorem step_extract (h : step env s .extract = some s') :
    s.phase = .collecting s.queriedpeers.length ∧ s' = extract env s := by
  simp only [step] at h
  split at h
  · next i hp =>
    split at h
    · next hi => exact ⟨hi ▸ hp, (Option.some.inj h).symm⟩
    · cases h
  · cases h

theorem step_checklive (h : step env s .checklive = some s') : s.phase = .newcheckliveround ∧
    (MAX_CHECKLIVE_ROUNDS < s.checkliverounds ∧ s' = { s with phase := .done [] none } ∨
      s.checkliverounds ≤ MAX_CHECKLIVE_ROUNDS ∧ s' = { s with phase := .done s.newsolution none }) := by
  simp only [step] at h
  split at h
  · next hp =>
    split at h
    · next hc => exact ⟨hp, .inl ⟨hc, (Option.some.inj h).symm⟩⟩
    · next hc => exact ⟨hp, .inr ⟨not_lt.mp hc, (Option.some.inj h).symm⟩⟩
  · cases h

theorem step_abort (h : step env s .abort = some s') :
    s' = { s with phase := .done [] (some .jobAborted) } := by
  simp only [step] at h
  split at h
  · exact (Option.some.inj h).symm
  · exact (Option.some.inj h).symm
  · split at h
    · exact (Option.some.inj h).symm
    · cases h
  · cases h

end Lookup

/-! ## Networks of numbered peers -/

def numberedPeer (n : UInt8) : Kadpeer := peerFromRecord ⟨(Vector.replicate 19 0).push n, [], []⟩

/-- A network of numbered peers: those that answer, with what each tells. -/
def numberedNetwork (k : Nat) (closest : List UInt8) (answers : List (UInt8 × List UInt8)) : LookupEnv where
  k
  closest := closest.map numberedPeer
  find i := (answers.find? fun a => (numberedPeer a.1).id == i).map fun a => a.2.map numberedPeer

theorem numberedNetwork_forall {k : Nat} {closest : List UInt8} {answers : List (UInt8 × List UInt8)}
    {P : List Kadpeer → Prop} (h : ∀ a ∈ answers, P (a.2.map numberedPeer)) (i : ID) (peers : List Kadpeer)
    (hf : (numberedNetwork k closest answers).find i = some peers) : P peers := by
  obtain ⟨a, ha, rfl⟩ := Option.map_eq_some_iff.mp hf
  exact h a (List.mem_of_find?_eq_some ha)

/-- A round at time `now` in which each candidate that is asked answers
before the next one is; `asked` tells which are, and not just passed over. -/
def roundInTurn (now : Int) (asked : List Bool) : List Act :=
  let queries := asked.zipIdx.flatMap fun (b, i) => if b then [.query now, .callback i false] else [.query now]
  [.start] ++ queries ++ [.queried] ++ asked.map (fun _ => .receive now) ++ [.extract]

/-- Peer 4 tells of 2 and 3, which have nothing nearer to tell of. -/
def convergingNetwork : LookupEnv := numberedNetwork 2 [4] [(4, [2, 3]), (2, [2]), (3, [3])]

end NdnGeth.Kad
