/-
What an invocation of a fetch handler comes to (`createHandler` of
`ndn/eth/txfetcher.go` and of `ndn/eth/blockfetcher.go`). Other goroutines may
change the work between two steps of a handler, so each step is taken in a work
that may be any: `TxGoes` and `BlockGoes` say which steps are in order, and an
invocation is a path of them.

A handler leaves this path in five cases. The one of the transaction fetcher
takes the text of a nil error when the object does not decode, and it does not
look at the answer of `Submit`. The one of the block fetcher finds both parts
there and the block built, by someone who does not hand it on, and returns; and
it may come to iterate over the holders while the main loop writes them. Both
wait at `Submit`, at the mutex of `isdead` and at `fetchedSig`, for as long as
nobody lets them on.
-/
import NdnGeth.Eth.BlockWork
import NdnGeth.Eth.TxFetcher

namespace NdnGeth.Eth

/-- What an invocation does about the work: it calls `onWorkDone`, leaves the
rest to the other part, or submits a job. -/
inductive HandlerEffect
  | workDone
  | waits
  | submitted (route : Route)
  deriving DecidableEq, Repr

/-- An invocation from a place in the handler to its return, with its effects. -/
inductive Invocation {π : Type} (goes : π → List HandlerEffect → JobState π → Prop) : π → List HandlerEffect → Prop
  | last {pc es job} : goes pc es job → (∀ pc', job ≠ .handler pc') → Invocation goes pc es
  | next {pc pc' es es'} : goes pc es (.handler pc') → Invocation goes pc' es' → Invocation goes pc (es ++ es')

theorem Invocation.yields {π : Type} {goes : π → List HandlerEffect → JobState π → Prop} {yields : π → List HandlerEffect → Prop}
    (hlast : ∀ {pc es job}, goes pc es job → (∀ pc', job ≠ .handler pc') → yields pc es)
    (hnext : ∀ {pc pc' es es'}, goes pc es (.handler pc') → yields pc' es' → yields pc (es ++ es'))
    {pc : π} {es : List HandlerEffect} (h : Invocation goes pc es) : yields pc es := by
  induction h with
  | last hgoes hend => exact hlast hgoes hend
  | next hgoes _ ih => exact hnext hgoes ih

/-! ## The transaction fetcher -/

inductive TxGoes : TxHandlerPc → List HandlerEffect → JobState TxHandlerPc → Prop
  | finish {route r} : TxGoes (.returned route r) [] (.handler .finish)
  | failed {route r} : TxGoes (.returned route r) [] (.handler (.retry route))
  | retry {route route'} : TxGoes (.retry route) [] (.handler (.submit route'))
  | noPeer {route} : TxGoes (.retry route) [] (.handler .finish)
  | submit {route} : TxGoes (.submit route) [.submitted route] (.queued route)
  | fetched : TxGoes .finish [.workDone] (.handler .signal)
  | workDone : TxGoes .finish [.workDone] (.handler .remove)
  | signalled : TxGoes .signal [] (.handler .remove)
  | removed : TxGoes .remove [] .idle

/-- The object decodes, unless the handler does not come to look at it; the
pool is open at the retry; and the handler is not held up. -/
def TxWork.Survives (dec : TxDecoder) (w : TxWork) (s : Surroundings) : TxHandlerPc → Prop
  | .returned _ (.obj bytes) => w.done = true ∨ s.late = true ∨ (dec.tx bytes).isSome
  | .submit _ => s.busy = false ∧ s.closed = false
  | .finish => s.stopping = false
  | .signal => s.full = false
  | _ => True

namespace TxGoes

theorem returned_survives (dec : TxDecoder) (w : TxWork) (s : Surroundings) (route : Route) (r : TxResult) :
    w.Survives dec s (.returned route r) ↔
      ∃ w' es, w.returned dec s.late route r = some w' ∧ TxGoes (.returned route r) es w'.job := by
  unfold TxWork.returned
  cases hdone : w.done with
  | true =>
    refine iff_of_true ?_ ⟨_, [], rfl, .finish⟩
    cases r <;> simp [TxWork.Survives, hdone]
  | false =>
    cases hlate : s.late with
    | true =>
      refine iff_of_true ?_ ⟨_, [], rfl, .finish⟩
      cases r <;> simp [TxWork.Survives, hlate]
    | false =>
      cases r with
      | gone => exact iff_of_true trivial ⟨_, [], rfl, .finish⟩
      | failed => exact iff_of_true trivial ⟨_, [], rfl, .failed⟩
      | obj bytes =>
        cases hdec : dec.tx bytes with
        | some tx =>
          simp only [Bool.false_eq_true, if_false, hdec]
          refine iff_of_true (by simp [TxWork.Survives, hdec]) ⟨_, [], rfl, ?_⟩
          exact .finish
        | none =>
          refine iff_of_false (by simp [TxWork.Survives, hdone, hlate, hdec]) ?_
          simp [hdec]

/-- A step is in order in just these cases; otherwise the program goes down, the
handler waits or the job is lost. -/
theorem survives_iff (dec : TxDecoder) (w : TxWork) (s : Surroundings) (pc : TxHandlerPc) :
    w.Survives dec s pc ↔ ∃ w' es, w.handle dec s pc = some w' ∧ TxGoes pc es w'.job := by
  cases pc with
  | returned route r => exact returned_survives dec w s route r
  | retry route =>
    refine iff_of_true trivial ⟨_, [], rfl, ?_⟩
    obtain ⟨route', hjob⟩ | hjob := w.retry_job dec s.pick route
    · exact hjob ▸ .retry
    · exact hjob ▸ .noPeer
  | submit route =>
    simp only [TxWork.Survives, TxWork.handle]
    cases s.busy with
    | true => simp
    | false =>
      cases s.closed with
      | false => exact iff_of_true ⟨rfl, rfl⟩ ⟨_, _, rfl, .submit⟩
      | true =>
        refine iff_of_false (by simp) ?_
        rintro ⟨w', es, hw, hgoes⟩
        cases hw
        cases hgoes
  | finish =>
    simp only [TxWork.Survives, TxWork.handle]
    cases s.stopping with
    | true => simp
    | false =>
      refine iff_of_true rfl ⟨_, [.workDone], rfl, ?_⟩
      unfold TxWork.onWorkDone
      dsimp only
      split
      · exact .fetched
      · exact .workDone
  | signal =>
    simp only [TxWork.Survives, TxWork.handle]
    cases s.full with
    | true => simp
    | false => exact iff_of_true rfl ⟨_, _, rfl, .signalled⟩
  | remove => exact iff_of_true trivial ⟨_, _, rfl, .removed⟩

def rank : TxHandlerPc → Nat
  | .returned .. => 5
  | .retry _ => 4
  | .finish => 3
  | .signal => 2
  | .submit _ | .remove => 1

theorem wellFounded : WellFounded fun pc' pc => ∃ es, TxGoes pc es (.handler pc') := by
  refine Subrelation.wf (fun h => ?_) (InvImage.wf rank Nat.lt_wfRel.wf)
  obtain ⟨es, h⟩ := h
  show rank _ < rank _
  cases h <;> simp [rank]

/-- What an invocation does from a place on. -/
def Yields : TxHandlerPc → List HandlerEffect → Prop
  | .returned .., es | .retry _, es => es = [.workDone] ∨ ∃ route, es = [.submitted route]
  | .submit route, es => es = [.submitted route]
  | .finish, es => es = [.workDone]
  | .signal, es | .remove, es => es = []

theorem yields {pc : TxHandlerPc} {es : List HandlerEffect} (h : Invocation TxGoes pc es) : Yields pc es := by
  refine h.yields (fun hgoes hend => ?_) fun hgoes hrest => ?_
  · cases hgoes with
    | submit | removed => rfl
    | _ => exact absurd rfl (hend _)
  · cases hgoes with
    | failed => exact hrest
    | retry => exact .inr ⟨_, hrest⟩
    | finish | noPeer => exact .inl hrest
    | fetched | workDone | signalled => simp_all [Yields]

end TxGoes

/-! ## The block fetcher -/

/-- `waits` needs a part that is not there. -/
inductive BlockGoes (w : BlockWork) : HandlerPc → List HandlerEffect → JobState HandlerPc → Prop
  | set {p} : BlockGoes w (.set p) [] (.handler .check)
  | complete {b} : BlockGoes w .check [] (.handler (.build b))
  | waits : w.header = none ∨ w.body = none → BlockGoes w .check [.waits] .idle
  | build {b built} : BlockGoes w (.build b) [] (.handler (.finish built))
  | refetch {route route'} : BlockGoes w (.refetch route) [] (.handler (.submit route'))
  | noPeer {route} : BlockGoes w (.refetch route) [] (.handler (.finish false))
  | submit {route} : BlockGoes w (.submit route) [.submitted route] (.queued route)
  | refused {route} : BlockGoes w (.submit route) [] (.handler (.finish false))
  | fetched {built} : BlockGoes w (.finish built) [.workDone] (.handler .signal)
  | workDone {built} : BlockGoes w (.finish built) [.workDone] (.handler .remove)
  | signalled : BlockGoes w .signal [] (.handler .remove)
  | removed : BlockGoes w .remove [] .idle

/-- The block is not built when the part arrives, and the handler is not held
up, nor brought down. -/
def BlockWork.Survives (w : BlockWork) (s : Surroundings) (pc : HandlerPc) : Prop :=
  s.Lets pc ∧ (pc = .check → w.fblock = none ∨ w.header = none ∨ w.body = none)

namespace BlockGoes

theorem goes_iff {w v : BlockWork} {dead : Bool} {pc : HandlerPc} {j : JobState HandlerPc} (hs : w.HandleStep dead pc v j) :
    (pc = .check → w.fblock = none ∨ w.header = none ∨ w.body = none) ↔ ∃ es, BlockGoes w pc es j := by
  cases hs with
  | set => exact iff_of_true (by simp) ⟨_, .set⟩
  | test hb => exact iff_of_true (fun _ => .inl (BlockWork.toBuild_eq_some hb).1) ⟨_, .complete⟩
  | wait hb =>
    constructor
    · intro hs
      refine ⟨_, .waits ?_⟩
      rcases hs rfl with hf | hpart
      · -- `buildblock` finds no block built, and builds none.
        by_contra hparts
        rw [not_or, ← ne_eq, Option.ne_none_iff_isSome, ← ne_eq, Option.ne_none_iff_isSome] at hparts
        exact BlockWork.toBuild_eq_none hb hf hparts.1 hparts.2
      · exact hpart
    · rintro ⟨es, hgoes⟩ -
      cases hgoes with
      | waits hpart => exact .inr hpart
  | build => exact iff_of_true (by simp) ⟨_, .build⟩
  | next => exact iff_of_true (by simp) ⟨_, .refetch⟩
  | giveUp => exact iff_of_true (by simp) ⟨_, .noPeer⟩
  | submit => exact iff_of_true (by simp) ⟨_, .submit⟩
  | refused => exact iff_of_true (by simp) ⟨_, .refused⟩
  | handOver _ _ _ hpc =>
    refine iff_of_true (by simp) ?_
    rcases hpc with rfl | rfl
    · exact ⟨_, .workDone⟩
    · exact ⟨_, .fetched⟩
  | finish => exact iff_of_true (by simp) ⟨_, .workDone⟩
  | signal => exact iff_of_true (by simp) ⟨_, .signalled⟩
  | remove => exact iff_of_true (by simp) ⟨_, .removed⟩

theorem survives_iff (dec : BlockDecoder) (w : BlockWork) (part : BlockPart) (s : Surroundings) (pc : HandlerPc) :
    w.Survives s pc ↔ ∃ w' es, w.handle dec part s pc = some w' ∧ BlockGoes w pc es (w'.job part) := by
  by_cases hlets : s.Lets pc
  · obtain ⟨v, j, heq, hs⟩ := w.handle_of_lets dec part hlets
    simp only [BlockWork.Survives, hlets, true_and, heq, goes_iff hs, Option.some.injEq, exists_eq_left', BlockWork.setJob_self,
      exists_and_left]
  · refine iff_of_false (fun h => hlets h.1) ?_
    rintro ⟨w', es, hw, -⟩
    exact hlets (BlockWork.handle_isSome_iff.1 (Option.isSome_of_eq_some hw))

theorem wellFounded : WellFounded fun pc' pc => ∃ w es, BlockGoes w pc es (.handler pc') := by
  refine Subrelation.wf (fun h => ?_) (InvImage.wf (fun pc => (JobState.handler pc).stepsLeft) Nat.lt_wfRel.wf)
  obtain ⟨w, es, h⟩ := h
  show JobState.stepsLeft _ < JobState.stepsLeft _
  cases h <;> simp [JobState.stepsLeft]

def Any (pc : HandlerPc) (es : List HandlerEffect) (job : JobState HandlerPc) : Prop := ∃ w, BlockGoes w pc es job

/-- The work is finished, or left to the other part, or one job submitted. -/
def OneEffect (es : List HandlerEffect) : Prop := es = [.workDone] ∨ es = [.waits] ∨ ∃ route, es = [.submitted route]

/-- What an invocation does from a place on. -/
def Yields : HandlerPc → List HandlerEffect → Prop
  | .build _, es | .finish _, es => es = [.workDone]
  | .signal, es | .remove, es => es = []
  | _, es => OneEffect es

theorem yields {pc : HandlerPc} {es : List HandlerEffect} (h : Invocation Any pc es) : Yields pc es := by
  refine h.yields (fun hgoes hend => ?_) fun hgoes hrest => ?_
  · obtain ⟨w, hgoes⟩ := hgoes
    cases hgoes with
    | waits => exact .inr (.inl rfl)
    | submit => exact .inr (.inr ⟨_, rfl⟩)
    | removed => rfl
    | _ => exact absurd rfl (hend _)
  · obtain ⟨w, hgoes⟩ := hgoes
    cases hgoes with
    | set | refetch | build => exact hrest
    | complete | noPeer | refused => exact .inl hrest
    | fetched | workDone | signalled => simp_all [Yields]

theorem complete_effects (dec : BlockDecoder) (w : BlockWork) (part : BlockPart) (route : Route) (r : JobResult) :
    ∃ pc, (w.complete dec part route r).job part = .handler pc ∧ ∀ es, Invocation Any pc es → OneEffect es := by
  unfold BlockWork.complete
  split
  · exact ⟨_, BlockWork.setJob_self .., fun es h => .inl (yields h)⟩
  · exact ⟨_, BlockWork.setJob_self .., fun es h => yields h⟩
  · split <;> exact ⟨_, BlockWork.setJob_self .., fun es h => yields h⟩

end BlockGoes

/-- A work whose block the main loop has built, while the body was arriving. -/
def builtWork : BlockWork :=
  { BlockWork.new 0 with
    header := some ⟨⟨0, 0, 0, 0, 0⟩, 0⟩
    body := some ⟨[], []⟩
    fblock := some (BlockWork.assemble ⟨⟨0, 0, 0, 0, 0⟩, 0⟩ ⟨[], []⟩) }

end NdnGeth.Eth
