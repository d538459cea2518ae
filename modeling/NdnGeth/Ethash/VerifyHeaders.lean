/-
The parallel verification of headers (`VerifyHeaders` and `verifyHeaderWorker`
of `consensus/ethash/consensus.go`): a dispatcher hands indices to workers over
an unbuffered channel, gets them back over a buffered one in any order, and
sends the results in the order of the headers.

An action is one communication, one verification, or one turn of the loop of
the dispatcher that sends results; they interleave in any order. `close` is the
caller's, who may close `abort` at any time. The channel of the results has room
for all of them, so that sending there does not block; `results` are those that
were sent.

`Inv.step`: what every action keeps. `measure_lt`: there is no run without an end,
so that what is blocked for good is what is blocked where no action is left
(`Quiet`). `verifyHeaders_ordered`: the results are right, and who is left blocked:
nobody, unless the dispatcher left on `abort` with more indices on the way than
`done` has room for.
-/
import Mathlib.Algebra.BigOperators.Group.List.Basic
import Mathlib.Algebra.Ring.Nat
import Mathlib.Data.List.Perm.Basic
import NdnGeth.Lib.Run

namespace NdnGeth.Ethash

open Function
open Lib (Run anyStep exec)

/-! ## Workers -/

section Worker

variable {Hash Header Err : Type} [DecidableEq Hash]

/-- What `verifyHeaderWorker` reads of the chain and of headers, with the rules of
`verifyHeader`. -/
structure Chain (Hash Header Err : Type) where
  hash : Header → Hash
  parentHash : Header → Hash
  number : Header → BitVec 64
  getHeader : Hash → BitVec 64 → Option Header
  verifyHeader : (header parent : Header) → (sealed : Bool) → Option Err
  errUnknownAncestor : Err

/-- `verifyHeaderWorker`: nothing where the header is valid. The index is one of
`headers`, and there is a seal for each. -/
def verifyHeaderWorker (chain : Chain Hash Header Err) [Inhabited Header] (headers : List Header) (seals : List Bool)
    (index : Nat) : Option Err :=
  let header (i : Nat) := headers.getD i default
  let parent :=
    if index = 0 then chain.getHeader (chain.parentHash (header 0)) (chain.number (header 0) - 1)
    else if chain.hash (header (index - 1)) = chain.parentHash (header index) then some (header (index - 1))
    else none
  match parent with
  | none => some chain.errUnknownAncestor
  | some parent =>
    if (chain.getHeader (chain.hash (header index)) (chain.number (header index))).isSome then none
    else chain.verifyHeader (header index) parent (seals.getD index false)

end Worker

/-! ## The pipeline -/

inductive Worker
  /-- At `range inputs`. -/
  | waiting
  /-- It verifies a header. -/
  | busy (index : Nat)
  /-- The error is stored, and the index is to be sent on `done`. -/
  | sending (index : Nat)
  | exited
  deriving DecidableEq

/-- The index that a worker has. -/
def Worker.index : Worker → Option Nat
  | .busy i | .sending i => some i
  | .waiting | .exited => none

inductive Mode
  /-- At the `select`. -/
  | select
  /-- In the loop that sends results. -/
  | draining
  /-- It sent the last result. -/
  | finished
  /-- It left on `abort`. -/
  | aborted
  deriving DecidableEq

variable {R : Type}

/-- The goroutines and their channels; `next` is `in` of the source. The local
variable `inputs` is nil from `next = len(headers)` on, and the channel is closed
when the dispatcher has returned. -/
structure State (R : Type) where
  mode : Mode
  next : Nat
  out : Nat
  checked : Nat → Bool
  workers : List Worker
  done : List Nat
  errors : Nat → R
  results : List R
  abort : Bool

inductive Action
  /-- `inputs <- in`, to a worker. -/
  | give (w : Nat)
  | verify (w : Nat)
  /-- `done <- index`. -/
  | put (w : Nat)
  /-- `index := <-done`. -/
  | take
  /-- `errorsOut <- errors[out]`. -/
  | send
  /-- `checked[out]` is not set. -/
  | back
  /-- `<-abort`. -/
  | quit
  /-- The worker finds `inputs` closed. -/
  | exit (w : Nat)
  /-- The caller closes `abort`. -/
  | close
  deriving DecidableEq

namespace State

def returned (s : State R) : Bool := s.mode == .finished || s.mode == .aborted

def setWorker (s : State R) (w : Nat) (x : Worker) : State R := { s with workers := s.workers.set w x }

/-- The next state of the pipeline for so many headers, if the action is possible. -/
def step (verify : Nat → R) (n : Nat) (s : State R) : Action → Option (State R)
  | .give w =>
    if s.mode = .select ∧ s.next < n ∧ s.workers[w]? = some .waiting then
      some { s.setWorker w (.busy s.next) with next := s.next + 1 }
    else none
  | .verify w =>
    match s.workers[w]? with
    | some (.busy i) => some { s.setWorker w (.sending i) with errors := update s.errors i (verify i) }
    | _ => none
  | .put w =>
    match s.workers[w]? with
    | some (.sending i) =>
      if s.done.length < s.workers.length then some { s.setWorker w .waiting with done := s.done ++ [i] } else none
    | _ => none
  | .take =>
    match s.done with
    | i :: done =>
      if s.mode = .select then
        some { s with mode := .draining, done := done, checked := update s.checked i true }
      else none
    | [] => none
  | .send =>
    if s.mode = .draining ∧ s.checked s.out = true then
      let s' := { s with results := s.results ++ [s.errors s.out] }
      if s.out = n - 1 then some { s' with mode := .finished } else some { s' with out := s.out + 1 }
    else none
  | .back => if s.mode = .draining ∧ s.checked s.out = false then some { s with mode := .select } else none
  | .quit => if s.mode = .select ∧ s.abort = true then some { s with mode := .aborted } else none
  | .exit w =>
    if s.returned ∧ s.workers[w]? = some .waiting then some (s.setWorker w .exited) else none
  | .close => some { s with abort := true }

/-- The goroutines at the start; a slice of errors holds nil. -/
def start (workers : Nat) (nil : R) : State R where
  mode := .select
  next := 0
  out := 0
  checked _ := false
  workers := List.replicate workers .waiting
  done := []
  errors _ := nil
  results := []
  abort := false

end State

/-- `VerifyHeaders`: all results at once, or the pipeline. -/
def verifyHeaders (fullFake : Bool) (procs n : Nat) (nil : R) : List R ⊕ State R :=
  if fullFake || n == 0 then .inl (List.replicate n nil)
  else
    let workers := if n < procs then n else procs
    .inr (.start workers nil)

namespace State

variable {verify : Nat → R} {n : Nat} {s s' : State R} {a : Action}

/-- What an action does, with the condition it has. -/
inductive Step (verify : Nat → R) (n : Nat) (s : State R) : Action → State R → Prop
  | give {w} : s.mode = .select → s.next < n → s.workers[w]? = some .waiting →
      Step verify n s (.give w) { s.setWorker w (.busy s.next) with next := s.next + 1 }
  | verify {w i} : s.workers[w]? = some (.busy i) → Step verify n s (.verify w)
      { s.setWorker w (.sending i) with errors := update s.errors i (verify i) }
  | put {w i} : s.workers[w]? = some (.sending i) → s.done.length < s.workers.length →
      Step verify n s (.put w) { s.setWorker w .waiting with done := s.done ++ [i] }
  | take {i done} : s.done = i :: done → s.mode = .select → Step verify n s .take
      { s with mode := .draining, done := done, checked := update s.checked i true }
  | last : s.mode = .draining → s.checked s.out = true → s.out = n - 1 →
      Step verify n s .send { s with results := s.results ++ [s.errors s.out], mode := .finished }
  | send : s.mode = .draining → s.checked s.out = true → s.out ≠ n - 1 →
      Step verify n s .send { s with results := s.results ++ [s.errors s.out], out := s.out + 1 }
  | back : s.mode = .draining → s.checked s.out = false → Step verify n s .back { s with mode := .select }
  | quit : s.mode = .select → s.abort = true → Step verify n s .quit { s with mode := .aborted }
  | exit {w} : s.returned = true → s.workers[w]? = some .waiting → Step verify n s (.exit w) (s.setWorker w .exited)
  | close : Step verify n s .close { s with abort := true }

theorem step_cases (hs : s.step verify n a = some s') : Step verify n s a s' := by
  cases a with
  | give w =>
    simp only [step, Option.ite_none_right_eq_some, Option.some.injEq] at hs
    obtain ⟨⟨hmode, hnext, hw⟩, rfl⟩ := hs
    exact .give hmode hnext hw
  | verify w =>
    simp only [step] at hs
    split at hs
    · next hw =>
      cases hs
      exact .verify hw
    · cases hs
  | put w =>
    simp only [step] at hs
    split at hs
    · next hw =>
      simp only [Option.ite_none_right_eq_some, Option.some.injEq] at hs
      obtain ⟨hroom, rfl⟩ := hs
      exact .put hw hroom
    · cases hs
  | take =>
    simp only [step] at hs
    split at hs
    · next hd =>
      simp only [Option.ite_none_right_eq_some, Option.some.injEq] at hs
      obtain ⟨hmode, rfl⟩ := hs
      exact .take hd hmode
    · cases hs
  | send =>
    simp only [step, Option.ite_none_right_eq_some] at hs
    obtain ⟨⟨hmode, hc⟩, hs⟩ := hs
    split at hs
    · next hlast =>
      cases hs
      exact .last hmode hc hlast
    · next hlast =>
      cases hs
      exact .send hmode hc hlast
  | back =>
    simp only [step, Option.ite_none_right_eq_some, Option.some.injEq] at hs
    obtain ⟨⟨hmode, hc⟩, rfl⟩ := hs
    exact .back hmode hc
  | quit =>
    simp only [step, Option.ite_none_right_eq_some, Option.some.injEq] at hs
    obtain ⟨⟨hmode, habort⟩, rfl⟩ := hs
    exact .quit hmode habort
  | exit w =>
    simp only [step, Option.ite_none_right_eq_some, Option.some.injEq] at hs
    obtain ⟨⟨hret, hw⟩, rfl⟩ := hs
    exact .exit hret hw
  | close =>
    cases hs
    exact .close

/-! ## Indices on the way -/

/-- The indices that are in a channel or with a worker. -/
def flight (done : List Nat) (workers : List Worker) : List Nat := done ++ workers.filterMap Worker.index

/-- The indices that were given to a worker and not got back. -/
def inFlight (s : State R) : List Nat := flight s.done s.workers

theorem flight_cons (done : List Nat) (x : Worker) (workers : List Worker) :
    (flight done (x :: workers)).Perm (x.index.toList ++ flight done workers) := by
  unfold flight
  cases hx : x.index with
  | none => simp [hx]
  | some i => simp [hx, List.perm_middle]

variable {workers : List Worker} {w : Nat} {x : Worker}

theorem flight_get (h : workers[w]? = some x) (done : List Nat) :
    (flight done workers).Perm (x.index.toList ++ flight done (workers.eraseIdx w)) := by
  obtain ⟨hw, rfl⟩ := List.getElem?_eq_some_iff.1 h
  refine .trans ?_ (flight_cons done _ _)
  exact ((List.getElem_cons_eraseIdx_perm hw).symm.filterMap _).append_left done

theorem flight_set (h : workers[w]? = some x) (y : Worker) (done : List Nat) :
    (flight done (workers.set w y)).Perm (y.index.toList ++ flight done (workers.eraseIdx w)) := by
  obtain ⟨hw, -⟩ := List.getElem?_eq_some_iff.1 h
  refine .trans ?_ (flight_cons done _ _)
  exact ((List.set_perm_cons_eraseIdx hw y).filterMap _).append_left done

theorem flight_keep (h : workers[w]? = some x) (y : Worker)
    (hi : y.index = x.index) (done : List Nat) : (flight done (workers.set w y)).Perm (flight done workers) := by
  refine (flight_set h y done).trans ?_
  rw [hi]
  exact (flight_get h done).symm

theorem flight_put {w i : Nat} (h : workers[w]? = some (.sending i)) (done : List Nat) :
    (flight (done ++ [i]) (workers.set w .waiting)).Perm (flight done workers) := by
  refine (flight_set h .waiting _).trans (.trans ?_ (flight_get h done).symm)
  simp [flight, Worker.index, List.perm_middle]

/-! ## The invariant -/

structure Inv (verify : Nat → R) (n : Nat) (s : State R) : Prop where
  next_le : s.next ≤ n
  nodup : s.inFlight.Nodup
  mem : ∀ i, i ∈ s.inFlight ↔ i < s.next ∧ s.checked i = false
  checked : ∀ i, s.checked i = true → i < s.next
  verified : ∀ i, s.checked i = true ∨ i ∈ s.done ∨ .sending i ∈ s.workers → s.errors i = verify i
  results : s.results = (List.range s.results.length).map verify
  out_lt : s.out < n
  sent : s.results.length = if s.mode = .finished then n else s.out
  passed : ∀ i < s.results.length, s.checked i = true
  selecting : s.mode = .select → s.checked s.out = false
  room : s.done.length ≤ s.workers.length
  abort : s.mode = .aborted → s.abort = true
  exited : .exited ∈ s.workers → s.returned = true

theorem inFlight_start (workers : Nat) (nil : R) : (State.start workers nil).inFlight = [] := by
  have hnone : ∀ x ∈ List.replicate workers Worker.waiting, x.index = none := fun x hx => by
    rw [List.eq_of_mem_replicate hx]
    rfl
  simpa [inFlight, flight, State.start, List.filterMap_eq_nil_iff] using hnone

theorem Inv.start (hn : 0 < n) (workers : Nat) (nil : R) : Inv verify n (.start workers nil) where
  next_le := Nat.zero_le n
  nodup := by simp [inFlight_start]
  mem i := by
    rw [inFlight_start]
    simp [State.start]
  checked i h := by cases h
  verified i h := by simp [State.start] at h
  results := rfl
  out_lt := hn
  sent := rfl
  passed i h := by cases h
  selecting _ := rfl
  room := Nat.zero_le _
  abort h := by cases h
  exited h := by simp [State.start] at h

theorem mem_inFlight {i : Nat} (hx : x ∈ s.workers) (hi : x.index = some i) : i ∈ s.inFlight :=
  List.mem_append_right _ (List.mem_filterMap.2 ⟨x, hx, hi⟩)

theorem mem_of_mem_set {y : Worker} (hm : y ∈ workers.set w x) (hne : y ≠ x) : y ∈ workers :=
  (List.mem_or_eq_of_mem_set hm).resolve_right hne

theorem Inv.not_exited (h : Inv verify n s) (hret : s.returned = false) : .exited ∉ s.workers := fun hm =>
  Bool.false_ne_true (hret.symm.trans (h.exited hm))

theorem Inv.give (h : Inv verify n s) (hs : Step verify n s (.give w) s') : Inv verify n s' := by
  cases hs with | give _ hnext hw =>
    have hperm : (flight s.done (s.workers.set w (.busy s.next))).Perm (s.next :: s.inFlight) := by
      refine (flight_set hw _ _).trans (List.Perm.cons _ ?_)
      exact (flight_get hw s.done).symm
    have hfresh : s.next ∉ s.inFlight := fun hm => Nat.lt_irrefl _ ((h.mem _).1 hm).1
    have hunchecked : s.checked s.next = false := by
      by_contra hc
      exact Nat.lt_irrefl _ (h.checked _ (by simpa using hc))
    exact { h with
      next_le := hnext
      nodup := hperm.nodup_iff.2 (List.nodup_cons.2 ⟨hfresh, h.nodup⟩)
      mem := fun i => by
        refine hperm.mem_iff.trans ?_
        rw [List.mem_cons, h.mem]
        show _ ↔ i < s.next + 1 ∧ s.checked i = false
        constructor
        · rintro (rfl | ⟨hlt, hc⟩)
          · exact ⟨Nat.lt_succ_self _, hunchecked⟩
          · exact ⟨Nat.lt_succ_of_lt hlt, hc⟩
        · rintro ⟨hlt, hc⟩
          rcases Nat.lt_succ_iff_lt_or_eq.1 hlt with hlt | rfl
          · exact .inr ⟨hlt, hc⟩
          · exact .inl rfl
      checked := fun i hc => Nat.lt_succ_of_lt (h.checked i hc)
      verified := fun i hi => h.verified i (hi.imp_right (.imp_right fun hm => mem_of_mem_set hm (by simp)))
      room := h.room.trans_eq List.length_set.symm
      exited := fun hm => h.exited (mem_of_mem_set hm (by simp)) }

theorem Inv.work (h : Inv verify n s) (hs : Step verify n s (.verify w) s') : Inv verify n s' := by
  cases hs with | @verify _ i hw =>
    have hperm : (flight s.done (s.workers.set w (.sending i))).Perm s.inFlight :=
      flight_keep hw (.sending i) rfl _
    exact { h with
      nodup := hperm.nodup_iff.2 h.nodup
      mem := fun j => hperm.mem_iff.trans (h.mem j)
      verified := fun j hj => by
        show update s.errors i (verify i) j = verify j
        by_cases hji : j = i
        · rw [hji, update_self]
        · rw [update_of_ne hji]
          exact h.verified j (hj.imp_right (.imp_right fun hm => mem_of_mem_set hm (by simpa using hji)))
      room := h.room.trans_eq List.length_set.symm
      exited := fun hm => h.exited (mem_of_mem_set hm (by simp)) }

theorem Inv.put (h : Inv verify n s) (hs : Step verify n s (.put w) s') : Inv verify n s' := by
  cases hs with | @put _ i hw hroom =>
    have hperm := flight_put hw s.done
    exact { h with
      nodup := hperm.nodup_iff.2 h.nodup
      mem := fun j => hperm.mem_iff.trans (h.mem j)
      verified := fun j hj => by
        rcases hj with hc | hd | hm
        · exact h.verified j (.inl hc)
        · rcases List.mem_append.1 hd with hd | hd
          · exact h.verified j (.inr (.inl hd))
          · rw [List.mem_singleton.1 hd]
            exact h.verified i (.inr (.inr (List.mem_of_getElem? hw)))
        · exact h.verified j (.inr (.inr (mem_of_mem_set hm (by simp))))
      room := by
        show (s.done ++ [i]).length ≤ (s.workers.set w _).length
        rw [List.length_set, List.length_append]
        exact hroom
      exited := fun hm => h.exited (mem_of_mem_set hm (by simp)) }

theorem Inv.take (h : Inv verify n s) (hs : Step verify n s .take s') : Inv verify n s' := by
  cases hs with | @take i done hd hmode =>
    have hflight : s.inFlight = i :: flight done s.workers := by rw [inFlight, hd]; rfl
    have hnodup := h.nodup
    rw [hflight, List.nodup_cons] at hnodup
    have hi : i < s.next := ((h.mem i).1 (by rw [hflight]; exact List.mem_cons_self)).1
    have hkeep (j : Nat) (hj : j ≠ i) : update s.checked i true j = s.checked j := update_of_ne hj _ _
    exact { h with
      nodup := hnodup.2
      mem := fun j => by
        show j ∈ flight done s.workers ↔ j < s.next ∧ update s.checked i true j = false
        by_cases hj : j = i
        · subst hj
          rw [update_self]
          exact ⟨fun hm => absurd hm hnodup.1, fun hc => by cases hc.2⟩
        · rw [hkeep j hj, ← h.mem, hflight, List.mem_cons]
          exact ⟨.inr, fun hm => hm.resolve_left hj⟩
      checked := fun j hc => by
        by_cases hj : j = i
        · rw [hj]
          exact hi
        · exact h.checked j ((hkeep j hj).symm.trans hc)
      verified := fun j hj => by
        by_cases hji : j = i
        · rw [hji]
          exact h.verified i (.inr (.inl (by rw [hd]; exact List.mem_cons_self)))
        · rcases hj with hc | hm | hm
          · exact h.verified j (.inl ((hkeep j hji).symm.trans hc))
          · exact h.verified j (.inr (.inl (by rw [hd]; exact List.mem_cons_of_mem _ hm)))
          · exact h.verified j (.inr (.inr hm))
      sent := by
        rw [h.sent, hmode]
        rfl
      passed := fun j hj => by
        show update s.checked i true j = true
        by_cases hji : j = i
        · rw [hji, update_self]
        · rw [hkeep j hji]
          exact h.passed j hj
      selecting := fun hm => by cases hm
      room := by
        have hr := h.room
        rw [hd, List.length_cons] at hr
        exact Nat.le_of_succ_le hr
      abort := fun hm => by cases hm
      exited := fun hm => absurd hm (h.not_exited (by simp [returned, hmode])) }

theorem Inv.results_send (h : Inv verify n s) (hmode : s.mode = .draining) (hc : s.checked s.out = true) :
    s.results.length = s.out ∧ s.results ++ [s.errors s.out] = (List.range (s.out + 1)).map verify := by
  have hsent : s.results.length = s.out := by rw [h.sent, hmode]; rfl
  refine ⟨hsent, ?_⟩
  rw [List.range_succ, List.map_append, ← hsent, ← h.results, h.verified _ (.inl (by rw [hsent]; exact hc))]
  rfl

theorem Inv.send (h : Inv verify n s) (hs : Step verify n s .send s') : Inv verify n s' := by
  obtain ⟨hmode, hc⟩ : s.mode = .draining ∧ s.checked s.out = true := by
    cases hs with
    | last hmode hc _ => exact ⟨hmode, hc⟩
    | send hmode hc _ => exact ⟨hmode, hc⟩
  obtain ⟨hsent, hresults⟩ := h.results_send hmode hc
  have hlen : (s.results ++ [s.errors s.out]).length = s.out + 1 := by rw [List.length_append, hsent]; rfl
  have hpassed (j : Nat) (hj : j < (s.results ++ [s.errors s.out]).length) : s.checked j = true := by
    rw [hlen] at hj
    rcases Nat.lt_succ_iff_lt_or_eq.1 hj with hj | rfl
    · exact h.passed j (by omega)
    · exact hc
  have hout := h.out_lt
  have hresults' : s.results ++ [s.errors s.out] =
      (List.range (s.results ++ [s.errors s.out]).length).map verify := by rw [hlen, hresults]
  cases hs with
  | last _ _ hlast =>
    exact { h with
      results := hresults'
      sent := by
        show (s.results ++ [s.errors s.out]).length = n
        omega
      passed := hpassed
      selecting := fun hm => by cases hm
      abort := fun hm => by cases hm
      exited := fun _ => rfl }
  | send _ _ hlast =>
    exact { h with
      results := hresults'
      out_lt := by
        show s.out + 1 < n
        omega
      sent := by
        show (s.results ++ [s.errors s.out]).length = if s.mode = .finished then n else s.out + 1
        rw [hlen, hmode]
        rfl
      passed := hpassed
      selecting := fun hm => by
        have : s.mode = .select := hm
        rw [hmode] at this
        cases this }

theorem Inv.exit (h : Inv verify n s) (hs : Step verify n s (.exit w) s') : Inv verify n s' := by
  cases hs with | exit hret hw =>
    have hperm : (flight s.done (s.workers.set w .exited)).Perm s.inFlight :=
      flight_keep hw .exited rfl _
    exact { h with
      nodup := hperm.nodup_iff.2 h.nodup
      mem := fun j => hperm.mem_iff.trans (h.mem j)
      verified := fun j hj => h.verified j (hj.imp_right (.imp_right fun hm => mem_of_mem_set hm (by simp)))
      room := h.room.trans_eq List.length_set.symm
      exited := fun _ => hret }

theorem Inv.step (h : Inv verify n s) (hs : s.step verify n a = some s') : Inv verify n s' := by
  have hstep := step_cases hs
  cases a with
  | give w => exact h.give hstep
  | verify w => exact h.work hstep
  | put w => exact h.put hstep
  | take => exact h.take hstep
  | send => exact h.send hstep
  | exit w => exact h.exit hstep
  | back =>
    cases hstep with | back hmode hc =>
    have hsent := h.sent
    rw [hmode] at hsent
    exact { h with
      sent := hsent
      selecting := fun _ => hc
      abort := fun hm => by cases hm
      exited := fun hm => absurd hm (h.not_exited (by simp [returned, hmode])) }
  | quit =>
    cases hstep with | quit hmode habort =>
    have hsent := h.sent
    rw [hmode] at hsent
    exact { h with
      sent := hsent
      selecting := fun hm => by cases hm
      abort := fun _ => habort
      exited := fun _ => rfl }
  | close =>
    cases hstep
    exact { h with abort := fun _ => rfl }

/-! ## Runs end -/

/-- How many more actions a worker takes at most, with the index it has. -/
def load : Worker → Nat
  | .waiting => 1
  | .busy _ => 6
  | .sending _ => 5
  | .exited => 0

def turns : Mode → Nat
  | .select => 1
  | .draining => 3
  | .finished | .aborted => 0

/-- More than the actions that are left, but for those of the caller. -/
def measure (n : Nat) (s : State R) : Nat :=
  6 * (n - s.next) + (s.workers.map load).sum + 3 * s.done.length + turns s.mode + (n - s.results.length)

theorem sum_load_set (h : workers[w]? = some x) (y : Worker) :
    ((workers.set w y).map load).sum + load x = (workers.map load).sum + load y := by
  obtain ⟨hw, rfl⟩ := List.getElem?_eq_some_iff.1 h
  have hset := ((List.set_perm_cons_eraseIdx hw y).map load).sum_nat
  have hget := ((List.getElem_cons_eraseIdx_perm hw).map load).sum_nat
  rw [List.map_cons, List.sum_cons] at hset hget
  omega

theorem measure_lt (h : Inv verify n s) (ha : a ≠ .close) (hs : s.step verify n a = some s') :
    s'.measure n < s.measure n := by
  cases step_cases hs with
  | give _ hnext hw =>
    have := sum_load_set hw (.busy s.next)
    simp only [measure, setWorker, load] at *
    omega
  | @verify w i hw =>
    have := sum_load_set hw (.sending i)
    simp only [measure, setWorker, load] at *
    omega
  | put hw _ =>
    have := sum_load_set hw .waiting
    simp only [measure, setWorker, load, List.length_append, List.length_singleton] at *
    omega
  | take hd hmode =>
    simp only [measure, hd, hmode, turns, List.length_cons]
    omega
  | last hmode hc _ =>
    have hsent := (h.results_send hmode hc).1
    have hout := h.out_lt
    simp only [measure, hmode, turns, List.length_append, List.length_singleton]
    omega
  | send hmode hc _ =>
    have hsent := (h.results_send hmode hc).1
    have hout := h.out_lt
    simp only [measure, hmode, turns, List.length_append, List.length_singleton]
    omega
  | back hmode _ =>
    simp only [measure, hmode, turns]
    omega
  | quit hmode _ =>
    simp only [measure, hmode, turns]
    omega
  | exit _ hw =>
    have := sum_load_set hw .exited
    simp only [measure, setWorker, load] at *
    omega
  | close => exact absurd rfl ha

/-! ## Where no action is left -/

/-- Nothing is left to do but for the caller. -/
def Quiet (verify : Nat → R) (n : Nat) (s : State R) : Prop := ∀ a, a ≠ .close → s.step verify n a = none

theorem Quiet.not_busy (h : Quiet verify n s) (i : Nat) : .busy i ∉ s.workers := by
  intro hm
  obtain ⟨w, hw⟩ := List.mem_iff_getElem?.1 hm
  have := h (.verify w) (by simp)
  simp [step, hw] at this

theorem Quiet.full (h : Quiet verify n s) {i : Nat} (hm : .sending i ∈ s.workers) : s.workers.length ≤ s.done.length := by
  obtain ⟨w, hw⟩ := List.mem_iff_getElem?.1 hm
  have := h (.put w) (by simp)
  simpa [step, hw] using this

theorem Quiet.not_draining (h : Quiet verify n s) : s.mode ≠ .draining := by
  intro hmode
  have hsend := h .send (by simp)
  have hback := h .back (by simp)
  cases hc : s.checked s.out with
  | true =>
    simp only [step, hmode, hc, and_self, if_true] at hsend
    split at hsend
    · cases hsend
    · cases hsend
  | false => simp [step, hmode, hc] at hback

theorem Quiet.not_selecting (h : Quiet verify n s) (hi : Inv verify n s) (hw : s.workers ≠ []) : s.mode ≠ .select := by
  intro hmode
  have htake := h .take (by simp)
  have hdone : s.done = [] := by
    cases hd : s.done with
    | nil => rfl
    | cons i done => simp [step, hd, hmode] at htake
  have hwaiting (x : Worker) (hx : x ∈ s.workers) : x = .waiting := by
    cases x with
    | waiting => rfl
    | busy i => exact absurd hx (h.not_busy i)
    | sending i =>
      have := h.full hx
      rw [hdone] at this
      exact absurd (List.length_pos_iff.2 hw) (Nat.not_lt.2 this)
    | exited => exact absurd hx (hi.not_exited (by simp [returned, hmode]))
  -- all workers wait, so that everything was given, and checked
  obtain ⟨x, hx⟩ := List.exists_mem_of_ne_nil _ hw
  obtain ⟨w, hget⟩ := List.mem_iff_getElem?.1 hx
  rw [hwaiting x hx] at hget
  have hnext : n ≤ s.next := by
    have hgive := h (.give w) (by simp)
    simpa [step, hmode, hget] using hgive
  have hempty : s.inFlight = [] := by
    rw [inFlight, flight, hdone, List.nil_append, List.filterMap_eq_nil_iff]
    intro y hy
    rw [hwaiting y hy]
    rfl
  have hout := hi.out_lt
  have hmem := (hi.mem s.out).2 ⟨by omega, hi.selecting hmode⟩
  rw [hempty] at hmem
  cases hmem

theorem Inv.finished (h : Inv verify n s) (hmode : s.mode = .finished) : s.results.length = n ∧ s.inFlight = [] := by
  have hsent := h.sent
  rw [if_pos hmode] at hsent
  refine ⟨hsent, List.eq_nil_iff_forall_not_mem.2 fun i hi => ?_⟩
  obtain ⟨hlt, hc⟩ := (h.mem i).1 hi
  have hnext := h.next_le
  rw [h.passed i (by omega)] at hc
  cases hc

/-- Where no action is left, the dispatcher has returned. After all results every
worker has left; after an abort a worker is left exactly where `done` had no room. -/
theorem Quiet.cases (h : Quiet verify n s) (hi : Inv verify n s) (hw : s.workers ≠ []) :
    s.mode = .finished ∧ (∀ x ∈ s.workers, x = .exited) ∨
      s.mode = .aborted ∧ ((∀ x ∈ s.workers, x = .exited) ↔ s.inFlight.length ≤ s.workers.length) := by
  have hleft (hret : s.returned = true) (x : Worker) (hx : x ∈ s.workers) : x = .exited ∨ ∃ i, x = .sending i := by
    cases x with
    | exited => exact .inl rfl
    | sending i => exact .inr ⟨i, rfl⟩
    | busy i => exact absurd hx (h.not_busy i)
    | waiting =>
      obtain ⟨w, hget⟩ := List.mem_iff_getElem?.1 hx
      have := h (.exit w) (by simp)
      simp [step, hret, hget] at this
  cases hmode : s.mode with
  | select => exact absurd hmode (h.not_selecting hi hw)
  | draining => exact absurd hmode h.not_draining
  | finished =>
    refine .inl ⟨rfl, fun x hx => ?_⟩
    rcases hleft (by rw [returned, hmode]; rfl) x hx with rfl | ⟨i, rfl⟩
    · rfl
    · have hmem := mem_inFlight hx rfl
      rw [(hi.finished hmode).2] at hmem
      cases hmem
  | aborted =>
    refine .inr ⟨rfl, fun hall => ?_, fun hle x hx => ?_⟩
    · have hnone : s.workers.filterMap Worker.index = [] :=
        List.filterMap_eq_nil_iff.2 fun x hx => by rw [hall x hx]; rfl
      rw [inFlight, flight, hnone, List.append_nil]
      exact hi.room
    · rcases hleft (by rw [returned, hmode]; rfl) x hx with rfl | ⟨i, rfl⟩
      · rfl
      · have hfull := h.full hx
        have hpos : 0 < (s.workers.filterMap Worker.index).length :=
          List.length_pos_iff.2 (List.ne_nil_of_mem (List.mem_filterMap.2 ⟨_, hx, rfl⟩))
        rw [inFlight, flight, List.length_append] at hle
        omega

theorem aborted_step (hmode : s.mode = .aborted) (hs : s.step verify n a = some s') :
    s'.mode = .aborted ∧ s'.results = s.results ∧ s'.inFlight.length = s.inFlight.length := by
  cases step_cases hs with
  | give h _ _ | take _ h | last h _ _ | send h _ _ | back h _ | quit h _ => rw [hmode] at h; cases h
  | @verify w i hw => exact ⟨hmode, rfl, (flight_keep hw (.sending i) rfl s.done).length_eq⟩
  | put hw _ => exact ⟨hmode, rfl, (flight_put hw s.done).length_eq⟩
  | exit _ hw => exact ⟨hmode, rfl, (flight_keep hw .exited rfl s.done).length_eq⟩
  | close => exact ⟨hmode, rfl, rfl⟩

theorem step_workers (hs : s.step verify n a = some s') : s'.workers.length = s.workers.length := by
  cases step_cases hs with
  | give _ _ _ | verify _ | put _ _ | exit _ _ => exact List.length_set
  | take _ _ => rfl
  | last _ _ _ => rfl
  | send _ _ _ => rfl
  | back _ _ => rfl
  | quit _ _ => rfl
  | close => rfl

end State

/-! ## All interleavings -/

/-- Whatever the interleaving, the results are those of the headers in their order,
and all of them where the dispatcher finished. Every run comes to an end, and there
the dispatcher has returned, and every worker, but after an abort with more indices
on the way than there are workers. -/
theorem verifyHeaders_ordered (verify : Nat → R) (nil : R) (n : Nat) {procs : Nat} (hp : 0 < procs) :
    (∀ rs, verifyHeaders false procs n nil = .inl rs → rs = (List.range n).map verify) ∧
    ∀ s₀ as s, verifyHeaders false procs n nil = .inr s₀ → Run (State.step verify n) anyStep s₀ as s →
      (∃ k ≤ n, s.results = (List.range k).map verify ∧ (s.mode = .finished → k = n)) ∧
      (∀ bs s', Run (State.step verify n) (fun _ b => b ≠ .close) s bs s' → bs.length ≤ s.measure n) ∧
      (s.Quiet verify n → s.mode = .finished ∧ (∀ x ∈ s.workers, x = .exited) ∨
        s.mode = .aborted ∧ ((∀ x ∈ s.workers, x = .exited) ↔ s.inFlight.length ≤ s.workers.length)) ∧
      (s.mode = .aborted → s.abort = true ∧ ∀ bs s', Run (State.step verify n) anyStep s bs s' →
        s'.mode = .aborted ∧ s'.results = s.results ∧ s'.inFlight.length = s.inFlight.length) := by
  unfold verifyHeaders
  by_cases hn : n = 0
  · subst hn
    simp
  rw [if_neg (by simpa using hn)]
  refine ⟨fun rs h => (by cases h), fun s₀ as s h₀ hrun => ?_⟩
  cases h₀
  obtain ⟨hi, hlen⟩ : State.Inv verify n s ∧ s.workers.length = if n < procs then n else procs := by
    refine hrun.invariant (I := fun s => State.Inv verify n s ∧ s.workers.length = if n < procs then n else procs) ?_
      ⟨.start (Nat.pos_of_ne_zero hn) _ nil, List.length_replicate⟩
    rintro s a s' ⟨hi, hlen⟩ - hs
    exact ⟨hi.step hs, (State.step_workers hs).trans hlen⟩
  have hne : s.workers ≠ [] := by
    rw [← List.length_pos_iff, hlen]
    split <;> omega
  refine ⟨⟨s.results.length, ?_, hi.results, fun hmode => (hi.finished hmode).1⟩, fun bs s' hbs => ?_,
    fun hq => hq.cases hi hne, fun hmode => ⟨hi.abort hmode, fun bs s' hbs => ?_⟩⟩
  · have hout := hi.out_lt
    have hsent := hi.sent
    split at hsent <;> omega
  · have := hbs.length_le (I := State.Inv verify n) (μ := State.measure n) (fun _ _ _ hi _ hs => hi.step hs)
      (fun _ _ _ hi hb hs => State.measure_lt hi hb hs) hi
    omega
  · refine hbs.invariant (I := fun t => t.mode = .aborted ∧ t.results = s.results ∧ t.inFlight.length = s.inFlight.length) ?_
      ⟨hmode, rfl, rfl⟩
    rintro t a t' ⟨hm, hr, hf⟩ - ht
    obtain ⟨hm', hr', hf'⟩ := State.aborted_step hm ht
    exact ⟨hm', hr'.trans hr, hf'.trans hf⟩

/-- Two headers and one worker, which gets the second header before the dispatcher
takes the first index back. -/
def handedTwice : List Action := [.give 0, .verify 0, .put 0, .give 0, .verify 0]

/-- Headers are their numbers, and the chain ends with the fourth. -/
def sampleChain : Chain Nat Nat String where
  hash := id
  parentHash h := h - 1
  number h := BitVec.ofNat 64 h
  getHeader hash _ := if hash ≤ 4 then some hash else none
  verifyHeader _ _ sealed := if sealed then none else some "invalid proof-of-work"
  errUnknownAncestor := "unknown ancestor"

/-- The fifth header and the seventh. -/
def sampleVerify : Nat → Option String := verifyHeaderWorker sampleChain [5, 7] [true, true]

/-- All goes on to the end: both results are sent. -/
theorem verifyHeaders_ordered_two :
    ∃ s₀ s, verifyHeaders false 1 2 none = .inr s₀ ∧
      Run (State.step sampleVerify 2) anyStep s₀ (handedTwice ++ [.take, .send, .back, .put 0, .take, .send, .exit 0]) s ∧
      s.results = [none, some "unknown ancestor"] ∧ ∃ k ≤ 2, s.results = (List.range k).map sampleVerify := by
  obtain ⟨s, hs⟩ : ∃ s, exec (State.step sampleVerify 2) anyStep (.start 1 none)
      (handedTwice ++ [.take, .send, .back, .put 0, .take, .send, .exit 0]) = some s := ⟨_, rfl⟩
  have hrun := Run.of_exec hs
  obtain ⟨k, hk, hr, -⟩ := ((verifyHeaders_ordered sampleVerify none 2 Nat.one_pos).2 _ _ s rfl hrun).1
  refine ⟨_, s, rfl, hrun, ?_, k, hk, hr⟩
  cases hs
  rfl

/-- The caller closes `abort` while the worker waits for room in `done`: the
dispatcher leaves, and the worker is blocked for good. -/
theorem worker_left_blocked :
    ∃ s₀ s, verifyHeaders false 1 2 none = .inr s₀ ∧
      Run (State.step sampleVerify 2) anyStep s₀ (handedTwice ++ [.close, .quit]) s ∧
      s.Quiet sampleVerify 2 ∧ s.workers = [.sending 1] ∧ s.done = [0] := by
  obtain ⟨s, hs⟩ : ∃ s, exec (State.step sampleVerify 2) anyStep (.start 1 none) (handedTwice ++ [.close, .quit]) = some s := ⟨_, rfl⟩
  refine ⟨_, s, rfl, Run.of_exec hs, ?_⟩
  cases hs
  refine ⟨fun a ha => ?_, rfl, rfl⟩
  cases a with
  | close => exact absurd rfl ha
  | give w => rfl
  | take => rfl
  | send => rfl
  | back => rfl
  | quit => rfl
  | verify w => cases w <;> rfl
  | put w => cases w <;> rfl
  | exit w => cases w <;> rfl

end NdnGeth.Ethash
