/-
The worker pool (`ndn/utils/workerpool.go`): callers of `Submit`, the
dispatcher `run`, the workers and one call of `Stop`, each taking its steps
in any order. A job goes from the one place of the pool's channel to the
dispatcher, on to the one place of a worker's channel and to the worker.

`accepted_jobs_executed`: when `Stop` has returned, the accepted jobs are
executed, if none of them was on its way to a worker when the pool closed.
Without that one can be lost (`job_lost`): a worker that finds both a job
and its quit channel ready may choose to leave. In any case it is still in one
place (`jobs_in_one_place`).

A send on the closed channel of workers brings the program down, so such a
worker has no next step. `accepted` and `executed` record the jobs for which
`Submit` returned true and those whose `Execute` has returned.
-/
import Mathlib.Data.List.Nodup
import Mathlib.Data.List.Perm.Basic
import NdnGeth.Lib.Run

namespace NdnGeth.Utils

open Lib (Run)
open scoped List

variable {ι : Type*}

/-- Where a worker is: not started, at `wg.Add`, registering, waiting for a
job or for `quit`, with a job it has received, executing it, done with it, at
its deferred `wg.Done`, or gone. -/
inductive WorkerPc (ι : Type*)
  | new
  | started
  | register
  | select
  | got (job : ι)
  | executing (job : ι)
  | executed
  | leaving
  | gone
  deriving DecidableEq, Repr

structure Worker (ι : Type*) where
  jobCh : Option ι
  running : Option ι
  quit : Bool
  pc : WorkerPc ι
  deriving DecidableEq, Repr

/-- Where `run` is: at the start of a worker, at the receive of a worker, at
the receive of a job for it, at the send of the job, or gone. -/
inductive DispatcherPc (ι : Type*)
  | starting (i : Nat)
  | recvWorker
  | recvJob (i : Nat)
  | deliver (i : Nat) (job : ι)
  | gone
  deriving DecidableEq, Repr

/-- The call of `Submit` that has the mutex: before or after its send. -/
inductive SubmitPc (ι : Type*)
  | sending (job : ι)
  | sent (job : ι)
  deriving DecidableEq, Repr

/-- Where `Stop` is: not called, before `close(jobCh)`, at the stop of a
worker, at `wg.Wait`, before `close(workerCh)`, or returned. -/
inductive StopPc
  | idle
  | closeJobs
  | stopping (i : Nat)
  | waiting
  | closeWorkers
  | returned
  deriving DecidableEq, Repr

structure WorkerPool (ι : Type*) where
  workerCh : List Nat
  workerChClosed : Bool
  workers : List (Worker ι)
  jobCh : Option ι
  jobChClosed : Bool
  wg : Nat
  holder : Option (SubmitPc ι)
  closed : Bool
  dispatcher : DispatcherPc ι
  stop : StopPc
  accepted : List ι
  executed : List ι
  killed : List ι
  deriving DecidableEq, Repr

namespace WorkerPool

/-- `NewWorkerPool`. -/
def new (num : Nat) : WorkerPool ι where
  workerCh := []
  workerChClosed := false
  workers := List.replicate num ⟨none, none, false, .new⟩
  jobCh := none
  jobChClosed := false
  wg := 0
  holder := none
  closed := false
  dispatcher := .starting 0
  stop := .idle
  accepted := []
  executed := []
  killed := []

def setWorker (s : WorkerPool ι) (i : Nat) (w : Worker ι) : WorkerPool ι := { s with workers := s.workers.set i w }

/-- The steps: a call of `Submit` takes the mutex and looks at `closed`, it
sends, it returns; the next step of the dispatcher, of worker `i` (`quit`
tells which way its `select` goes), the return of the `Execute` that worker
`i` is in, and the next step of `Stop`. -/
inductive Act (ι : Type*)
  | submit (job : ι)
  | send
  | unlock
  | dispatch
  | work (i : Nat) (quit : Bool)
  | finish (i : Nat)
  | stop
  deriving DecidableEq, Repr

def dispatch (s : WorkerPool ι) : Option (WorkerPool ι) :=
  match s.dispatcher with
  | .starting i =>
    match s.workers[i]? with
    | some w => some { s.setWorker i { w with pc := .started } with dispatcher := .starting (i + 1) }
    | none => some { s with dispatcher := .recvWorker }
  | .recvWorker =>
    match s.workerCh with
    | i :: is => some { s with workerCh := is, dispatcher := .recvJob i }
    | [] => if s.workerChClosed then some { s with dispatcher := .gone } else none
  | .recvJob i =>
    -- a closed channel still gives what it holds
    match s.jobCh with
    | some job => some { s with jobCh := none, dispatcher := .deliver i job }
    | none => if s.jobChClosed then some { s with dispatcher := .gone } else none
  | .deliver i job =>
    match s.workers[i]? with
    | some w =>
      if w.jobCh.isNone then
        some { s.setWorker i { w with jobCh := some job } with dispatcher := .recvWorker }
      else none
    | none => none
  | .gone => none

def work (s : WorkerPool ι) (i : Nat) (w : Worker ι) (quit : Bool) : Option (WorkerPool ι) :=
  match w.pc with
  | .started => some { s.setWorker i { w with pc := .register } with wg := s.wg + 1 }
  | .register =>
    if s.workerChClosed then none
    else if s.workerCh.length < s.workers.length then
      some { s.setWorker i { w with pc := .select } with workerCh := s.workerCh ++ [i] }
    else none
  | .select =>
    if quit then if w.quit then some (s.setWorker i { w with pc := .leaving }) else none
    else
      match w.jobCh with
      | some job => some (s.setWorker i { w with jobCh := none, pc := .got job })
      | none => none
  | .got job => some (s.setWorker i { w with running := some job, pc := .executing job })
  | .executed => some (s.setWorker i { w with running := none, pc := .register })
  | .leaving => some { s.setWorker i { w with pc := .gone } with wg := s.wg - 1 }
  | .new | .executing _ | .gone => none

def stopStep (s : WorkerPool ι) : Option (WorkerPool ι) :=
  match s.stop with
  | .idle => if s.holder.isNone then some { s with closed := true, stop := .closeJobs } else none
  | .closeJobs => some { s with jobChClosed := true, stop := .stopping 0 }
  | .stopping i =>
    match s.workers[i]? with
    | some w =>
      some { s.setWorker i { w with quit := true } with killed := s.killed ++ w.running.toList, stop := .stopping (i + 1) }
    | none => some { s with stop := .waiting }
  | .waiting => if s.wg = 0 then some { s with stop := .closeWorkers } else none
  | .closeWorkers => some { s with workerChClosed := true, stop := .returned }
  | .returned => none

def step (s : WorkerPool ι) : Act ι → Option (WorkerPool ι)
  | .submit job =>
    match s.holder with
    | none => if s.closed then some s else some { s with holder := some (.sending job) }
    | some _ => none
  | .send =>
    match s.holder, s.jobCh with
    | some (.sending job), none => some { s with jobCh := some job, holder := some (.sent job) }
    | _, _ => none
  | .unlock =>
    match s.holder with
    | some (.sent job) => some { s with holder := none, accepted := s.accepted ++ [job] }
    | _ => none
  | .dispatch => s.dispatch
  | .work i quit =>
    match s.workers[i]? with
    | some w => s.work i w quit
    | none => none
  | .finish i =>
    match s.workers[i]? with
    | some w =>
      match w.pc with
      | .executing job => some { s.setWorker i { w with pc := .executed } with executed := s.executed ++ [job] }
      | _ => none
    | none => none
  | .stop => s.stopStep

inductive Step (s : WorkerPool ι) : Act ι → WorkerPool ι → Prop
  | refuse {job} : s.holder = none → s.closed = true → Step s (.submit job) s
  | submit {job} : s.holder = none → s.closed = false → Step s (.submit job) { s with holder := some (.sending job) }
  | send {job} : s.holder = some (.sending job) → s.jobCh = none →
      Step s .send { s with jobCh := some job, holder := some (.sent job) }
  | unlock {job} : s.holder = some (.sent job) →
      Step s .unlock { s with holder := none, accepted := s.accepted ++ [job] }
  | start {i w} : s.dispatcher = .starting i → s.workers[i]? = some w →
      Step s .dispatch { s.setWorker i { w with pc := .started } with dispatcher := .starting (i + 1) }
  | allStarted {i} : s.dispatcher = .starting i → s.workers[i]? = none → Step s .dispatch { s with dispatcher := .recvWorker }
  | recvWorker {i is} : s.dispatcher = .recvWorker → s.workerCh = i :: is →
      Step s .dispatch { s with workerCh := is, dispatcher := .recvJob i }
  | recvJob {i job} : s.dispatcher = .recvJob i → s.jobCh = some job →
      Step s .dispatch { s with jobCh := none, dispatcher := .deliver i job }
  | ends : (s.dispatcher = .recvWorker ∧ s.workerCh = [] ∧ s.workerChClosed = true) ∨
        (∃ i, s.dispatcher = .recvJob i ∧ s.jobCh = none ∧ s.jobChClosed = true) →
      Step s .dispatch { s with dispatcher := .gone }
  | deliver {i job w} : s.dispatcher = .deliver i job → s.workers[i]? = some w → w.jobCh = none →
      Step s .dispatch { s.setWorker i { w with jobCh := some job } with dispatcher := .recvWorker }
  | add {i w quit} : s.workers[i]? = some w → w.pc = .started →
      Step s (.work i quit) { s.setWorker i { w with pc := .register } with wg := s.wg + 1 }
  | register {i w quit} : s.workers[i]? = some w → w.pc = .register → s.workerChClosed = false →
      s.workerCh.length < s.workers.length →
      Step s (.work i quit) { s.setWorker i { w with pc := .select } with workerCh := s.workerCh ++ [i] }
  | quit {i w} : s.workers[i]? = some w → w.pc = .select → w.quit = true →
      Step s (.work i true) (s.setWorker i { w with pc := .leaving })
  | receive {i w job} : s.workers[i]? = some w → w.pc = .select → w.jobCh = some job →
      Step s (.work i false) (s.setWorker i { w with jobCh := none, pc := .got job })
  | execute {i w job quit} : s.workers[i]? = some w → w.pc = .got job →
      Step s (.work i quit) (s.setWorker i { w with running := some job, pc := .executing job })
  | again {i w quit} : s.workers[i]? = some w → w.pc = .executed →
      Step s (.work i quit) (s.setWorker i { w with running := none, pc := .register })
  | leave {i w quit} : s.workers[i]? = some w → w.pc = .leaving →
      Step s (.work i quit) { s.setWorker i { w with pc := .gone } with wg := s.wg - 1 }
  | finish {i w job} : s.workers[i]? = some w → w.pc = .executing job →
      Step s (.finish i) { s.setWorker i { w with pc := .executed } with executed := s.executed ++ [job] }
  | close : s.stop = .idle → s.holder = none → Step s .stop { s with closed := true, stop := .closeJobs }
  | closeJobs : s.stop = .closeJobs → Step s .stop { s with jobChClosed := true, stop := .stopping 0 }
  | stopWorker {i w} : s.stop = .stopping i → s.workers[i]? = some w →
      Step s .stop
        { s.setWorker i { w with quit := true } with killed := s.killed ++ w.running.toList, stop := .stopping (i + 1) }
  | allStopped {i} : s.stop = .stopping i → s.workers[i]? = none → Step s .stop { s with stop := .waiting }
  | wait : s.stop = .waiting → s.wg = 0 → Step s .stop { s with stop := .closeWorkers }
  | returns : s.stop = .closeWorkers → Step s .stop { s with workerChClosed := true, stop := .returned }

variable {s s' : WorkerPool ι} {a : Act ι}

theorem step_cases (h : s.step a = some s') : Step s a s' := by
  cases a with
  | submit job =>
    simp only [step] at h
    split at h
    · next hm =>
      split at h
      · next hc => cases h; exact .refuse hm hc
      · next hc => cases h; exact .submit hm (Bool.eq_false_iff.2 hc)
    · cases h
  | send =>
    simp only [step] at h
    split at h
    · next hm hj => cases h; exact .send hm hj
    · cases h
  | unlock =>
    simp only [step] at h
    split at h
    · next hm => cases h; exact .unlock hm
    · cases h
  | dispatch =>
    simp only [step, dispatch] at h
    split at h
    · next hd =>
      split at h
      · next hw => cases h; exact .start hd hw
      · next hw => cases h; exact .allStarted hd hw
    · next hd =>
      split at h
      · next hw => cases h; exact .recvWorker hd hw
      · next hw =>
        split at h
        · next hc => cases h; exact .ends (.inl ⟨hd, hw, hc⟩)
        · cases h
    · next i hd =>
      split at h
      · next hj => cases h; exact .recvJob hd hj
      · next hj =>
        split at h
        · next hc => cases h; exact .ends (.inr ⟨i, hd, hj, hc⟩)
        · cases h
    · next hd =>
      split at h
      · next hw =>
        split at h
        · next hnone => cases h; exact .deliver hd hw (Option.isNone_iff_eq_none.1 hnone)
        · cases h
      · cases h
    · cases h
  | work i quit =>
    simp only [step] at h
    split at h
    · next w hw =>
      simp only [work] at h
      split at h
      · next hpc => cases h; exact .add hw hpc
      · next hpc =>
        split at h
        · cases h
        · next hopen =>
          split at h
          · next hlen => cases h; exact .register hw hpc (Bool.eq_false_iff.2 hopen) hlen
          · cases h
      · next hpc =>
        split at h
        · next hq =>
          split at h
          · next hquit => cases h; rw [hq]; exact .quit hw hpc hquit
          · cases h
        · next hq =>
          split at h
          · next hj => cases h; rw [Bool.eq_false_iff.2 hq]; exact .receive hw hpc hj
          · cases h
      · next hpc => cases h; exact .execute hw hpc
      · next hpc => cases h; exact .again hw hpc
      · next hpc => cases h; exact .leave hw hpc
      · cases h
      · cases h
      · cases h
    · cases h
  | finish i =>
    simp only [step] at h
    split at h
    · next hw =>
      split at h
      · next hpc => cases h; exact .finish hw hpc
      · cases h
    · cases h
  | stop =>
    simp only [step, stopStep] at h
    split at h
    · next hs =>
      split at h
      · next hm => cases h; exact .close hs (Option.isNone_iff_eq_none.1 hm)
      · cases h
    · next hs => cases h; exact .closeJobs hs
    · next hs =>
      split at h
      · next hw => cases h; exact .stopWorker hs hw
      · next hw => cases h; exact .allStopped hs hw
    · next hs =>
      split at h
      · next hw => cases h; exact .wait hs hw
      · cases h
    · next hs => cases h; exact .returns hs
    · cases h

end WorkerPool

/-! ## Where the jobs are -/

@[simp]
def WorkerPc.jobs : WorkerPc ι → List ι
  | .got job | .executing job => [job]
  | .new | .started | .register | .select | .executed | .leaving | .gone => []

/-- The jobs on the way to a worker or with it. -/
def Worker.jobs (w : Worker ι) : List ι := w.jobCh.toList ++ w.pc.jobs

@[simp]
def DispatcherPc.jobs : DispatcherPc ι → List ι
  | .deliver _ job => [job]
  | .starting _ | .recvWorker | .recvJob _ | .gone => []

/-- The job that is sent by a call which has not returned. -/
@[simp]
def SubmitPc.sentJobs : SubmitPc ι → List ι
  | .sending _ => []
  | .sent job => [job]

variable {α β : Type*} {f : α → List β} {l : List α} {i : Nat}

theorem flatMap_set_perm {a : α} (h : l[i]? = some a) (f : α → List β) (b : α) :
    ((l.set i b).flatMap f ++ f a).Perm (l.flatMap f ++ f b) := by
  induction l generalizing i with
  | nil => cases h
  | cons x l ih =>
    cases i with
    | zero =>
      cases h
      rw [List.set_cons_zero, List.flatMap_cons, List.flatMap_cons, List.append_assoc, List.append_assoc]
      exact List.perm_append_comm_assoc .. |>.trans (((List.perm_append_comm).append_left _).trans
        (List.perm_append_comm_assoc ..))
    | succ i =>
      rw [List.set_cons_succ, List.flatMap_cons, List.flatMap_cons, List.append_assoc, List.append_assoc]
      exact (ih h).append_left _

theorem flatMap_set_cons {a b : α} (h : l[i]? = some a) {x : β}
    (hb : (f b).Perm (x :: f a)) : ((l.set i b).flatMap f).Perm (x :: l.flatMap f) := by
  have hmid : (l.flatMap f ++ x :: f a).Perm (x :: l.flatMap f ++ f a) := List.perm_middle
  exact (List.perm_append_right_iff _).1 (((flatMap_set_perm h f b).trans (hb.append_left _)).trans hmid)

theorem flatMap_set_of_cons {a b : α} (h : l[i]? = some a) {x : β}
    (ha : (f a).Perm (x :: f b)) : (l.flatMap f).Perm (x :: (l.set i b).flatMap f) := by
  have hmid : ((l.set i b).flatMap f ++ x :: f b).Perm (x :: (l.set i b).flatMap f ++ f b) := List.perm_middle
  exact (List.perm_append_right_iff _).1 (((flatMap_set_perm h f b).symm.trans (ha.append_left _)).trans hmid)

theorem flatMap_set_same {a b : α} (h : l[i]? = some a)
    (heq : f b = f a) : ((l.set i b).flatMap f).Perm (l.flatMap f) := by
  have hset := flatMap_set_perm h f b
  rw [heq] at hset
  exact (List.perm_append_right_iff _).1 hset

namespace WorkerPool

variable {s s' : WorkerPool ι} {a : Act ι}

def jobs (s : WorkerPool ι) : List ι := s.jobCh.toList ++ s.dispatcher.jobs ++ s.workers.flatMap Worker.jobs

def sentJobs (s : WorkerPool ι) : List ι := s.holder.toList.flatMap SubmitPc.sentJobs

/-- The invariant of all runs: the workers that `run` has not come to are
not started, and each accepted job is in the pool or was executed. -/
structure Balanced (s : WorkerPool ι) : Prop where
  unstarted : ∀ i, s.dispatcher = .starting i → ∀ j w, i ≤ j → s.workers[j]? = some w → w.pc = .new
  jobs : (s.accepted ++ s.sentJobs).Perm (s.jobs ++ s.executed)

namespace Balanced

theorem new (num : Nat) : Balanced (ι := ι) (.new num) := by
  refine ⟨fun i _ j w _ hw => ?_, ?_⟩
  · rw [WorkerPool.new, List.getElem?_replicate] at hw
    split at hw
    · cases hw
      rfl
    · cases hw
  · have hjobs : (List.replicate num (⟨none, none, false, .new⟩ : Worker ι)).flatMap Worker.jobs = [] :=
      List.flatMap_eq_nil_iff.2 fun w hw => by
        cases List.eq_of_mem_replicate hw
        rfl
    simp [WorkerPool.jobs, WorkerPool.new, sentJobs, DispatcherPc.jobs, hjobs]

end Balanced

theorem jobs_setWorker {i : Nat} {w w' : Worker ι} (hw : s.workers[i]? = some w) (heq : w'.jobs = w.jobs) :
    (s.setWorker i w').jobs.Perm s.jobs :=
  (flatMap_set_same hw heq).append_left _

/-- What a step does to the jobs: it sends one, it finishes one, or it only
moves them. -/
inductive Moves (s : WorkerPool ι) : WorkerPool ι → Prop
  | sent {t job} : s.holder = some (.sending job) → t.holder = some (.sent job) → t.jobs.Perm (job :: s.jobs) →
      t.accepted = s.accepted → t.executed = s.executed → Moves s t
  | finished {t job} : t.holder = s.holder → s.jobs.Perm (job :: t.jobs) → t.accepted = s.accepted →
      t.executed = s.executed ++ [job] → Moves s t
  | moved {t} : t.jobs.Perm s.jobs → t.accepted ++ t.sentJobs = s.accepted ++ s.sentJobs → t.executed = s.executed →
      Moves s t

theorem Step.moves (h : Step s a s') (hb : s.Balanced) : Moves s s' := by
  cases h with
  | refuse | close | closeJobs | allStopped | wait | returns => exact .moved (.refl _) rfl rfl
  | submit hm => exact .moved (.refl _) (by simp [sentJobs, hm]) rfl
  | send hm hj => exact .sent hm rfl (by simp [jobs, hj]) rfl rfl
  | unlock hm => exact .moved (.refl _) (by simp [sentJobs, hm]) rfl
  | @start i w hd hw =>
    have hpc := hb.unstarted i hd i w (Nat.le_refl _) hw
    have hperm : (s.setWorker i { w with pc := .started }).jobs.Perm s.jobs := jobs_setWorker hw (by simp [Worker.jobs, hpc])
    exact .moved (.trans (.of_eq (by simp [jobs, setWorker, hd])) hperm) rfl rfl
  | allStarted hd => exact .moved (.of_eq (by simp [jobs, hd])) rfl rfl
  | recvWorker hd => exact .moved (.of_eq (by simp [jobs, hd])) rfl rfl
  | recvJob hd hj => exact .moved (.of_eq (by simp [jobs, hd, hj])) rfl rfl
  | ends h =>
    rcases h with ⟨hd, -⟩ | ⟨i, hd, -⟩
    · exact .moved (.of_eq (by simp [jobs, hd])) rfl rfl
    · exact .moved (.of_eq (by simp [jobs, hd])) rfl rfl
  | @deliver i job w hd hw hnone =>
    have hput := flatMap_set_cons hw (f := Worker.jobs) (b := { w with jobCh := some job }) (x := job)
      (by simp [Worker.jobs, hnone])
    refine .moved ?_ rfl rfl
    simp only [jobs, setWorker, hd, DispatcherPc.jobs, List.append_nil, List.append_assoc]
    exact hput.append_left _
  | @add i w _ hw hpc =>
    have hperm : (s.setWorker i { w with pc := .register }).jobs.Perm s.jobs := jobs_setWorker hw (by simp [Worker.jobs, hpc])
    exact .moved hperm rfl rfl
  | @register i w _ hw hpc =>
    have hperm : (s.setWorker i { w with pc := .select }).jobs.Perm s.jobs := jobs_setWorker hw (by simp [Worker.jobs, hpc])
    exact .moved hperm rfl rfl
  | quit hw hpc | execute hw hpc | again hw hpc => exact .moved (jobs_setWorker hw (by simp [Worker.jobs, hpc])) rfl rfl
  | receive hw hpc hj => exact .moved (jobs_setWorker hw (by simp [Worker.jobs, hpc, hj])) rfl rfl
  | @leave i w _ hw hpc =>
    have hperm : (s.setWorker i { w with pc := .gone }).jobs.Perm s.jobs := jobs_setWorker hw (by simp [Worker.jobs, hpc])
    exact .moved hperm rfl rfl
  | @finish i w job hw hpc =>
    have hdrop := flatMap_set_of_cons hw (f := Worker.jobs) (b := { w with pc := .executed }) (x := job)
      (by simp [Worker.jobs, hpc])
    refine .finished rfl ?_ rfl rfl
    exact (hdrop.append_left _).trans List.perm_middle
  | @stopWorker i w _ hw =>
    have hperm : (s.setWorker i { w with quit := true }).jobs.Perm s.jobs := jobs_setWorker hw rfl
    exact .moved hperm rfl rfl

namespace Balanced

theorem unstarted_set {i : Nat} {w w' : Worker ι} (h : s.Balanced) (hw : s.workers[i]? = some w)
    (hpc : w.pc = .new → w'.pc = .new) (k : Nat) (hd : s.dispatcher = .starting k) (j : Nat) (v : Worker ι) (hkj : k ≤ j)
    (hv : (s.workers.set i w')[j]? = some v) : v.pc = .new := by
  by_cases hij : i = j
  · subst hij
    have hlt : i < s.workers.length := (List.getElem?_eq_some_iff.1 hw).1
    rw [List.getElem?_set_self hlt] at hv
    cases hv
    exact hpc (h.unstarted k hd i w hkj hw)
  · rw [List.getElem?_set_ne hij] at hv
    exact h.unstarted k hd j v hkj hv

theorem step (h : s.Balanced) (hstep : s.step a = some s') : s'.Balanced := by
  have hcases := step_cases hstep
  refine ⟨?_, ?_⟩
  · cases hcases with
    | refuse | submit | send | unlock | close | closeJobs | allStopped | wait | returns => exact h.unstarted
    | @start i w hd hw =>
      intro k hk j v hkj hv
      cases hk
      rw [setWorker, List.getElem?_set_ne (by omega)] at hv
      exact h.unstarted i hd j v (by omega) hv
    | allStarted | recvWorker | recvJob | ends | deliver =>
      intro k hk
      cases hk
    | add hw hpc | register hw hpc | quit hw hpc | receive hw hpc | execute hw hpc | again hw hpc | leave hw hpc
    | finish hw hpc => exact h.unstarted_set hw fun hnew => by rw [hpc] at hnew; cases hnew
    | stopWorker _ hw => exact h.unstarted_set hw id
  · have hb := h.jobs
    cases hcases.moves h with
    | @sent job hm hm' hjobs ha he =>
      simp only [sentJobs, hm, hm', ha, he, Option.toList_some, List.flatMap_singleton, SubmitPc.sentJobs,
        List.append_nil] at hb ⊢
      calc s.accepted ++ [job]
        _ ~ job :: s.accepted := List.perm_append_singleton ..
        _ ~ job :: s.jobs ++ s.executed := hb.cons job
        _ ~ s'.jobs ++ s.executed := hjobs.symm.append_right _
    | @finished job hm hjobs ha he =>
      have hsent : s'.sentJobs = s.sentJobs := by rw [sentJobs, hm, sentJobs]
      rw [ha, he, hsent]
      calc s.accepted ++ s.sentJobs
        _ ~ job :: s'.jobs ++ s.executed := hb.trans (hjobs.append_right _)
        _ ~ s'.jobs ++ job :: s.executed := List.perm_middle.symm
        _ ~ s'.jobs ++ (s.executed ++ [job]) := (List.perm_append_singleton ..).symm.append_left _
    | moved hjobs ha he =>
      rw [ha, he]
      exact hb.trans (hjobs.symm.append_right _)

end Balanced

/-! ## Stopping the pool -/

structure NoneWaiting (s : WorkerPool ι) : Prop where
  jobCh : s.jobCh = none
  dispatcher : s.dispatcher.jobs = []
  workers : ∀ w ∈ s.workers, w.jobCh = none

/-- The pool is closed only when no job is on its way. -/
def ClosesIdle (s : WorkerPool ι) : Act ι → Prop
  | .stop => s.stop = .idle → s.NoneWaiting
  | .submit _ | .send | .unlock | .dispatch | .work _ _ | .finish _ => True

end WorkerPool

/-- Between `wg.Add` and `wg.Done`. -/
@[simp]
def WorkerPc.counted : WorkerPc ι → Bool
  | .new | .started | .gone => false
  | .register | .select | .got _ | .executing _ | .executed | .leaving => true

namespace WorkerPool

variable {s s' : WorkerPool ι} {a : Act ι} {i : Nat} {w w' : Worker ι}

def counted (s : WorkerPool ι) : Nat := s.workers.countP (·.pc.counted)

theorem countP_set (hw : s.workers[i]? = some w) (w' : Worker ι) :
    (s.workers.set i w').countP (·.pc.counted) + (if w.pc.counted then 1 else 0) =
      s.counted + if w'.pc.counted then 1 else 0 := by
  obtain ⟨hlt, heq⟩ := List.getElem?_eq_some_iff.1 hw
  have hpos : (if w.pc.counted then 1 else 0) ≤ s.counted := by
    split
    · next hc => exact List.countP_pos_iff.2 ⟨w, heq ▸ List.getElem_mem hlt, hc⟩
    · exact Nat.zero_le _
  rw [List.countP_set hlt, heq]
  rw [counted] at hpos ⊢
  omega

theorem countP_set_same (hw : s.workers[i]? = some w) (heq : w'.pc.counted = w.pc.counted) :
    (s.workers.set i w').countP (·.pc.counted) = s.counted := by
  have hset := countP_set hw w'
  rw [heq] at hset
  exact Nat.add_right_cancel hset

theorem wg_step (h : s.wg = s.counted) (hb : s.Balanced) (hstep : Step s a s') : s'.wg = s'.counted := by
  cases hstep with
  | refuse | submit | send | unlock | allStarted | recvWorker | recvJob | ends | close | closeJobs | allStopped | wait
  | returns => exact h
  | @start i w hd hw =>
    have hpc := hb.unstarted i hd i w (Nat.le_refl _) hw
    exact h.trans (countP_set_same hw (by rw [hpc]; rfl)).symm
  | deliver _ hw | stopWorker _ hw => exact h.trans (countP_set_same hw (by rfl)).symm
  | @add i w _ hw hpc =>
    have hset := countP_set hw { w with pc := .register }
    simp only [hpc] at hset
    exact (congrArg (· + 1) h).trans hset.symm
  | @leave i w _ hw hpc =>
    have hset := countP_set hw { w with pc := .gone }
    simp only [hpc] at hset
    exact Nat.sub_eq_of_eq_add (h.trans hset.symm)
  | register hw hpc | quit hw hpc | receive hw hpc | execute hw hpc | again hw hpc | finish hw hpc =>
    exact h.trans (countP_set_same hw (by rw [hpc]; rfl)).symm

theorem NoneWaiting.step (h : s.NoneWaiting) (hm : s.holder = none) (hstep : Step s a s') : s'.NoneWaiting := by
  have hset : ∀ {i w'}, w'.jobCh = none → ∀ v ∈ s.workers.set i w', v.jobCh = none := by
    intro i w' hw' v hv
    rcases List.mem_or_eq_of_mem_set hv with hv | rfl
    · exact h.workers v hv
    · exact hw'
  have hsame : ∀ {i : Nat} {w : Worker ι}, s.workers[i]? = some w → w.jobCh = none := fun hw => h.workers _ (List.mem_of_getElem? hw)
  cases hstep with
  | refuse | submit | unlock | close | closeJobs | allStopped | wait | returns => exact ⟨h.jobCh, h.dispatcher, h.workers⟩
  | send hm' =>
    rw [hm] at hm'
    cases hm'
  | start _ hw =>
    have hnone := hsame hw
    exact ⟨h.jobCh, rfl, hset hnone⟩
  | allStarted | recvWorker | ends => exact ⟨h.jobCh, rfl, h.workers⟩
  | recvJob _ hj =>
    rw [h.jobCh] at hj
    cases hj
  | deliver hd =>
    have := h.dispatcher
    rw [hd] at this
    cases this
  | receive => exact ⟨h.jobCh, h.dispatcher, hset rfl⟩
  | add hw | register hw | quit hw | execute hw | again hw | leave hw | finish hw | stopWorker _ hw =>
    have hnone := hsame hw
    exact ⟨h.jobCh, h.dispatcher, hset hnone⟩

/-- The invariant of the runs that close the pool with no job on its way. -/
structure Closing (s : WorkerPool ι) : Prop where
  balanced : s.Balanced
  wg : s.wg = s.counted
  closed : s.closed = true → s.holder = none ∧ s.NoneWaiting
  stop : s.stop ≠ .idle → s.closed = true
  waited : s.stop = .closeWorkers ∨ s.stop = .returned → ∀ w ∈ s.workers, w.pc.jobs = []

namespace Closing

theorem new (num : Nat) : Closing (ι := ι) (.new num) := by
  refine ⟨.new num, ?_, (fun h => by cases h), (fun h => absurd rfl h), (fun h => by rcases h with h | h <;> cases h)⟩
  simp [counted, WorkerPool.new, List.countP_replicate]

theorem closed_step (h : s.Closing) (hok : s.ClosesIdle a) (hstep : Step s a s') (hclosed : s'.closed = true) :
    s'.holder = none ∧ s'.NoneWaiting := by
  by_cases hc : s.closed = true
  · obtain ⟨hm, hnone⟩ := h.closed hc
    refine ⟨?_, hnone.step hm hstep⟩
    cases hstep with
    | submit _ hopen =>
      rw [hc] at hopen
      cases hopen
    | send hm' =>
      rw [hm] at hm'
      cases hm'
    | unlock => rfl
    | _ => exact hm
  · cases hstep with
    | close hs hm =>
      obtain ⟨hj, hd, hw⟩ := hok hs
      exact ⟨hm, hj, hd, hw⟩
    | _ => exact absurd hclosed hc

theorem stop_step (h : s.Closing) (hstep : Step s a s') (hs : s'.stop ≠ .idle) : s'.closed = true := by
  cases hstep with
  | close => rfl
  | closeJobs hs' | stopWorker hs' | allStopped hs' | wait hs' | returns hs' => exact h.stop (by rw [hs']; nofun)
  | _ => exact h.stop hs

theorem waited_step (h : s.Closing) (hstep : Step s a s') (hs : s'.stop = .closeWorkers ∨ s'.stop = .returned) :
    ∀ w ∈ s'.workers, w.pc.jobs = [] := by
  have hset : ∀ {i w'}, (∀ w ∈ s.workers, w.pc.jobs = []) → w'.pc.jobs = [] → ∀ v ∈ s.workers.set i w', v.pc.jobs = [] := by
    intro i w' hold hw' v hv
    rcases List.mem_or_eq_of_mem_set hv with hv | rfl
    · exact hold v hv
    · exact hw'
  cases hstep with
  | wait hs' hwg =>
    intro w hw
    have hzero : s.workers.countP (·.pc.counted) = 0 := h.wg.symm.trans hwg
    have hnot := List.countP_eq_zero.1 hzero w hw
    cases hpc : w.pc with
    | got | executing =>
      rw [hpc] at hnot
      exact absurd rfl hnot
    | _ => rfl
  | returns hs' => exact h.waited (.inl hs')
  | close | closeJobs | stopWorker | allStopped => rcases hs with hs | hs <;> cases hs
  | refuse | submit | send | unlock | allStarted | recvWorker | recvJob | ends => exact h.waited hs
  | start | add | register | quit | again | leave | finish => exact hset (h.waited hs) rfl
  | deliver _ hw =>
    have hnil := h.waited hs _ (List.mem_of_getElem? hw)
    exact hset (h.waited hs) hnil
  | receive hw _ hj =>
    have hclosed := h.stop fun h0 => by rcases hs with hs | hs <;> cases h0.symm.trans hs
    rw [(h.closed hclosed).2.workers _ (List.mem_of_getElem? hw)] at hj
    cases hj
  | execute hw hpc =>
    have hnil := h.waited hs _ (List.mem_of_getElem? hw)
    rw [hpc] at hnil
    cases hnil

theorem step (h : s.Closing) (hok : s.ClosesIdle a) (hstep : s.step a = some s') : s'.Closing := by
  have hcases := step_cases hstep
  exact ⟨h.balanced.step hstep, wg_step h.wg h.balanced hcases, h.closed_step hok hcases, h.stop_step hcases,
    h.waited_step hcases⟩

end Closing

end WorkerPool

open WorkerPool

/-- **The pool loses no accepted job**, if none was on its way to a worker
when it was closed: when `Stop` has returned, the jobs accepted and the jobs
executed are the same, and no worker has one. -/
theorem accepted_jobs_executed {num : Nat} {acts : List (Act ι)} {s : WorkerPool ι}
    (hrun : Run WorkerPool.step ClosesIdle (.new num) acts s) (hstop : s.stop = .returned) :
    s.executed.Perm s.accepted ∧ s.jobs = [] := by
  have h := hrun.invariant (fun _ _ _ h hok hstep => Closing.step h hok hstep) (.new num)
  obtain ⟨hm, hnone⟩ := h.closed (h.stop (hstop.trans_ne nofun))
  have hworkers : s.workers.flatMap Worker.jobs = [] := by
    refine List.flatMap_eq_nil_iff.2 fun w hw => ?_
    rw [Worker.jobs, hnone.workers w hw, h.waited (.inr hstop) w hw]
    rfl
  have hjobs : s.jobs = [] := by
    rw [WorkerPool.jobs, hnone.jobCh, hnone.dispatcher, hworkers]
    rfl
  have hb := h.balanced.jobs
  rw [hjobs, sentJobs, hm] at hb
  simp only [Option.toList_none, List.flatMap_nil, List.append_nil, List.nil_append] at hb
  exact ⟨hb.symm, hjobs⟩

/-! ## Two stops -/

instance [DecidableEq ι] (s : WorkerPool ι) : Decidable s.NoneWaiting :=
  decidable_of_iff (s.jobCh = none ∧ s.dispatcher.jobs = [] ∧ ∀ w ∈ s.workers, w.jobCh = none)
    ⟨fun h => ⟨h.1, h.2.1, h.2.2⟩, fun h => ⟨h.jobCh, h.dispatcher, h.workers⟩⟩

instance [DecidableEq ι] (s : WorkerPool ι) : ∀ a, Decidable (s.ClosesIdle a)
  | .stop => inferInstanceAs (Decidable (s.stop = .idle → s.NoneWaiting))
  | .submit _ | .send | .unlock | .dispatch | .work _ _ | .finish _ => .isTrue trivial

/-- A pool of one worker starts, and a job comes as far as the worker's
channel. -/
def delivered (job : ι) : List (Act ι) :=
  [.dispatch, .dispatch, .work 0 false, .work 0 false, .dispatch, .submit job, .send, .unlock, .dispatch, .dispatch]

/-- The worker takes the job, and the pool is stopped meanwhile. -/
def stoppedAfter : List (Act Nat) :=
  delivered 7 ++ [.work 0 false, .stop, .work 0 false, .stop, .stop, .stop, .finish 0, .work 0 false, .work 0 false,
    .work 0 true, .work 0 true, .stop, .stop]

theorem accepted_jobs_executed_sample :
    ∃ s, Run WorkerPool.step ClosesIdle (.new 1) stoppedAfter s ∧ s.stop = .returned ∧ s.killed = [7] ∧ s.accepted = [7] ∧
      s.executed.Perm s.accepted ∧ s.jobs = [] := by
  have hexec : (Lib.exec WorkerPool.step ClosesIdle (.new 1) stoppedAfter).map
      (fun s => (s.stop, s.killed, s.accepted)) = some (.returned, [7], [7]) := by
    decide +kernel
  obtain ⟨s, hs, hend⟩ := Option.map_eq_some_iff.1 hexec
  obtain ⟨hstop, hend⟩ := Prod.mk.inj hend
  obtain ⟨hkilled, haccepted⟩ := Prod.mk.inj hend
  have hrun := Run.of_exec hs
  exact ⟨s, hrun, hstop, hkilled, haccepted, accepted_jobs_executed hrun hstop⟩

namespace WorkerPool

structure Halted (s : WorkerPool ι) : Prop where
  dispatcher : s.dispatcher = .gone
  workers : ∀ w ∈ s.workers, w.pc = .gone

theorem Halted.step {s s' : WorkerPool ι} {a : Act ι} (h : s.Halted) (hstep : s.step a = some s') :
    s'.Halted ∧ s'.executed = s.executed := by
  have hgone : ∀ {i : Nat} {w : Worker ι} {pc : WorkerPc ι}, s.workers[i]? = some w → w.pc = pc → pc = .gone :=
    fun hw hpc => hpc.symm.trans (h.workers _ (List.mem_of_getElem? hw))
  cases step_cases hstep with
  | refuse | submit | send | unlock | close | closeJobs | allStopped | wait | returns =>
    exact ⟨⟨h.dispatcher, h.workers⟩, rfl⟩
  | start hd | allStarted hd | recvWorker hd | recvJob hd | deliver hd => cases h.dispatcher.symm.trans hd
  | ends hd => rcases hd with ⟨hd, -⟩ | ⟨i, hd, -⟩ <;> cases h.dispatcher.symm.trans hd
  | add hw hpc | register hw hpc | quit hw hpc | receive hw hpc | execute hw hpc | again hw hpc | leave hw hpc
  | finish hw hpc => cases hgone hw hpc
  | stopWorker _ hw =>
    refine ⟨⟨h.dispatcher, fun v hv => ?_⟩, rfl⟩
    rcases List.mem_or_eq_of_mem_set hv with hv | rfl
    · exact h.workers v hv
    · have hpc := h.workers _ (List.mem_of_getElem? hw)
      exact hpc

theorem Halted.run {s s' : WorkerPool ι} {as : List (Act ι)} (h : s.Halted)
    (hrun : Run WorkerPool.step Lib.anyStep s as s') : s'.executed = s.executed := by
  have hinv := hrun.invariant (I := fun t => t.Halted ∧ t.executed = s.executed)
    (fun _ _ _ ht _ hstep => ⟨(ht.1.step hstep).1, (ht.1.step hstep).2.trans ht.2⟩) ⟨h, rfl⟩
  exact hinv.2

end WorkerPool

/-- The job is in the worker's channel when the pool is stopped, and the
worker leaves. -/
def stoppedBefore : List (Act Nat) :=
  delivered 7 ++ [.stop, .stop, .stop, .stop, .work 0 true, .work 0 true, .stop, .stop, .dispatch]

/-- `Stop` has returned, and a job that was accepted is never executed. -/
theorem job_lost :
    ∃ s, Run WorkerPool.step Lib.anyStep (.new 1) stoppedBefore s ∧ s.stop = .returned ∧ s.accepted = [7] ∧
      ∀ as s', Run WorkerPool.step Lib.anyStep s as s' → s'.executed = [] := by
  have hexec : (Lib.exec WorkerPool.step Lib.anyStep (.new 1) stoppedBefore).map
      (fun s => decide (s.stop = .returned ∧ s.accepted = [7] ∧ s.executed = [] ∧ s.dispatcher = .gone ∧
        ∀ w ∈ s.workers, w.pc = .gone)) = some true := by
    decide +kernel
  obtain ⟨s, hs, hend⟩ := Option.map_eq_some_iff.1 hexec
  obtain ⟨hstop, haccepted, hexecuted, hd, hw⟩ := of_decide_eq_true hend
  have hhalted : s.Halted := ⟨hd, hw⟩
  exact ⟨s, Run.of_exec hs, hstop, haccepted, fun as s' hrun => (hhalted.run hrun).trans hexecuted⟩

/-- **Each job is in one place**: in every run, whatever `Stop` does, the jobs that
were sent are those executed and those still in the pool, each as often as it was
sent. So none is executed twice. -/
theorem jobs_in_one_place {num : Nat} {acts : List (WorkerPool.Act ι)} {s : WorkerPool ι}
    (hrun : Run WorkerPool.step Lib.anyStep (.new num) acts s) : (s.accepted ++ s.sentJobs).Perm (s.jobs ++ s.executed) :=
  (hrun.invariant (fun _ _ _ h _ hstep => WorkerPool.Balanced.step h hstep) (.new num)).jobs

/-- The job that is lost is still in the channel of its worker. -/
theorem jobs_in_one_place_lost : ∃ s, Run WorkerPool.step Lib.anyStep (.new 1) stoppedBefore s ∧ s.jobs = [7] ∧
    (s.accepted ++ s.sentJobs).Perm (s.jobs ++ s.executed) := by
  have hexec : (Lib.exec WorkerPool.step Lib.anyStep (.new 1) stoppedBefore).map WorkerPool.jobs = some [7] := by decide +kernel
  obtain ⟨s, hs, hjobs⟩ := Option.map_eq_some_iff.1 hexec
  exact ⟨s, Run.of_exec hs, hjobs, jobs_in_one_place (Run.of_exec hs)⟩

end NdnGeth.Utils
