/-
The life of a peer (`ndn/eth/peer.go`, `ndn/eth/peerannounce.go`): it is
registered, its sending loop runs and at its end unregisters the peer, and
`close` ends the loop and waits for it.

The maps and the counters of the set are right whatever happens. That a
registered peer has a loop, and that a closed one is not registered, is not
so: `startsendingloop` starts a loop only for a peer that never had one, so a
peer that is registered again after its loop has ended stays registered for
ever; and `close` does not wait for a loop that has not begun, nor is it seen
by a registration that has.

`register` holds the set's lock from its first part to its second, in which
it waits for the lock that `close` holds (`kmutex`). A loop's goroutine is
created there; it enters the wait group only when it begins.
-/
import NdnGeth.Eth.PeerSet
import NdnGeth.Lib.Run

namespace NdnGeth.Eth

open Function
open Lib (Run)

inductive PeerStatus | handshaking | connected | closed
  deriving DecidableEq, Repr

/-- `p.loop`, and where its goroutine is. -/
inductive SendingLoop
  | none
  | created
  | begun
  /-- Out of its `for`, about to unregister the peer. -/
  | leaving
  | exited
  deriving DecidableEq, Repr

/-- The goroutine is there and has not unregistered its peer. -/
def SendingLoop.running : SendingLoop → Bool
  | .created | .begun | .leaving => true
  | .none | .exited => false

/-- The peers of a node. `quit` tells of which loops the channel is closed,
`registering` who holds the lock of the set in `register`, `closing` which
peers a call of `close` is waiting for, `closed` for which one has returned. -/
structure PeerLife where
  ps : PeerSet
  status : PeerPtr → PeerStatus
  loop : PeerPtr → SendingLoop
  quit : PeerPtr → Bool
  registering : Option PeerPtr
  closing : List PeerPtr
  closed : List PeerPtr

namespace PeerLife

def new : PeerLife := ⟨.new, fun _ => .handshaking, fun _ => .none, fun _ => false, .none, [], []⟩

inductive Act
  | makenewpeer (id : String) (dir : Bool) (dhprv : Nat)
  | register (p : PeerPtr)
  | startsendingloop
  | reject (p : PeerPtr)
  | begin (p : PeerPtr)
  | leave (p : PeerPtr)
  | unregister (p : PeerPtr)
  | close (p : PeerPtr)
  | closed (p : PeerPtr)

/-- One step. `.none` is a step that is not possible, or waits for a lock. -/
def step (s : PeerLife) : Act → Option PeerLife
  | .makenewpeer id dir dhprv =>
    if s.registering = .none then .some { s with ps := (s.ps.makenewpeer id dir dhprv).1 } else .none
  | .register p =>
    if s.registering = .none ∧ p ∈ s.ps.made then
      if (s.ps.register p).2 then
        .some { s with
          ps := (s.ps.register p).1
          status := update s.status p .connected
          registering := .some p }
      else .some { s with ps := (s.ps.register p).1 }
    else .none
  | .startsendingloop =>
    match s.registering with
    | .none => .none
    | .some p =>
      if p ∈ s.closing then .none
      else if s.loop p = .none then
        .some { s with loop := update s.loop p .created, registering := .none }
      else .some { s with registering := .none }
  | .reject p => if s.registering = .none then .some { s with ps := s.ps.reject p } else .none
  | .begin p => if s.loop p = .created then .some { s with loop := update s.loop p .begun } else .none
  | .leave p => if s.loop p = .begun then .some { s with loop := update s.loop p .leaving } else .none
  | .unregister p =>
    if s.registering = .none ∧ s.loop p = .leaving then
      .some { s with ps := s.ps.unregister p, loop := update s.loop p .exited }
    else .none
  | .close p =>
    if p ∈ s.closing then .none
    else if s.status p ≠ .connected then .some { s with closed := p :: s.closed }
    else
      let s := { s with status := update s.status p .closed }
      if s.loop p = .none then .some { s with closed := p :: s.closed }
      -- A channel that is closed twice brings the program down.
      else if s.quit p then .none
      else .some { s with quit := update s.quit p true, closing := p :: s.closing }
  | .closed p =>
    -- The wait group is at zero.
    if p ∈ s.closing ∧ (s.loop p = .created ∨ s.loop p = .exited) then
      .some { s with closing := s.closing.filter (· ≠ p), closed := p :: s.closed }
    else .none

inductive Step (s : PeerLife) : Act → PeerLife → Prop
  | makenewpeer {id dir x} : s.registering = .none →
      Step s (.makenewpeer id dir x) { s with ps := (s.ps.makenewpeer id dir x).1 }
  | register {p} : s.registering = .none → p ∈ s.ps.made → (∀ q ∈ s.ps.peers, q.id ≠ p.id) →
      Step s (.register p) { s with
        ps := (s.ps.register p).1
        status := update s.status p .connected
        registering := .some p }
  | known {p} : s.registering = .none → p ∈ s.ps.made → Step s (.register p) { s with ps := s.ps.reject p }
  | start {p} : s.registering = .some p → p ∉ s.closing → s.loop p = .none →
      Step s .startsendingloop { s with loop := update s.loop p .created, registering := .none }
  | started {p} : s.registering = .some p → p ∉ s.closing → s.loop p ≠ .none →
      Step s .startsendingloop { s with registering := .none }
  | reject {p} : s.registering = .none → Step s (.reject p) { s with ps := s.ps.reject p }
  | begin {p} : s.loop p = .created → Step s (.begin p) { s with loop := update s.loop p .begun }
  | leave {p} : s.loop p = .begun → Step s (.leave p) { s with loop := update s.loop p .leaving }
  | unregister {p} : s.registering = .none → s.loop p = .leaving →
      Step s (.unregister p) { s with ps := s.ps.unregister p, loop := update s.loop p .exited }
  | notConnected {p} : p ∉ s.closing → s.status p ≠ .connected → Step s (.close p) { s with closed := p :: s.closed }
  | noLoop {p} : p ∉ s.closing → s.status p = .connected → s.loop p = .none →
      Step s (.close p) { s with status := update s.status p .closed, closed := p :: s.closed }
  | close {p} : p ∉ s.closing → s.status p = .connected → s.loop p ≠ .none →
      Step s (.close p) { s with
        status := update s.status p .closed
        quit := update s.quit p true
        closing := p :: s.closing }
  | closed {p} : p ∈ s.closing → s.loop p = .created ∨ s.loop p = .exited →
      Step s (.closed p) { s with closing := s.closing.filter (· ≠ p), closed := p :: s.closed }

variable {s s' : PeerLife} {a : Act} {p : PeerPtr}

theorem step_cases (h : s.step a = .some s') : Step s a s' := by
  cases a with
  | makenewpeer id dir x =>
    simp only [step, Option.ite_none_right_eq_some, Option.some.injEq] at h
    obtain ⟨hr, rfl⟩ := h
    exact .makenewpeer hr
  | register p =>
    simp only [step] at h
    split at h
    · next hg =>
      split at h
      · next hadded =>
        cases h
        rcases s.ps.register_cases p with ⟨-, -, -, heq⟩ | ⟨hnew, -⟩
        · rw [heq] at hadded
          cases hadded
        · exact .register hg.1 hg.2 hnew
      · next hknown =>
        cases h
        rcases s.ps.register_cases p with ⟨-, -, -, heq⟩ | ⟨-, hadded, -⟩
        · rw [heq]
          exact .known hg.1 hg.2
        · exact absurd hadded hknown
    · cases h
  | startsendingloop =>
    simp only [step] at h
    split at h
    · cases h
    · next p hp =>
      split at h
      · cases h
      · next hc =>
        split at h
        · next hl =>
          cases h
          exact .start hp hc hl
        · next hl =>
          cases h
          exact .started hp hc hl
  | reject p =>
    simp only [step, Option.ite_none_right_eq_some, Option.some.injEq] at h
    obtain ⟨hr, rfl⟩ := h
    exact .reject hr
  | begin p =>
    simp only [step, Option.ite_none_right_eq_some, Option.some.injEq] at h
    obtain ⟨hl, rfl⟩ := h
    exact .begin hl
  | leave p =>
    simp only [step, Option.ite_none_right_eq_some, Option.some.injEq] at h
    obtain ⟨hl, rfl⟩ := h
    exact .leave hl
  | unregister p =>
    simp only [step, Option.ite_none_right_eq_some, Option.some.injEq] at h
    obtain ⟨⟨hr, hl⟩, rfl⟩ := h
    exact .unregister hr hl
  | close p =>
    simp only [step] at h
    split at h
    · cases h
    · next hc =>
      split at h
      · next hs =>
        cases h
        exact .notConnected hc hs
      · next hs =>
        have hs := not_not.1 hs
        split at h
        · next hl =>
          cases h
          exact .noLoop hc hs hl
        · next hl =>
          split at h
          · cases h
          · cases h
            exact .close hc hs hl
  | closed p =>
    simp only [step, Option.ite_none_right_eq_some, Option.some.injEq] at h
    obtain ⟨⟨hc, hl⟩, rfl⟩ := h
    exact .closed hc hl

/-! ## The set -/

/-- The maps and counters are right, and a loop runs only for a peer that is
registered. -/
structure SetInv (s : PeerLife) : Prop where
  wf : s.ps.WF
  loop : ∀ p, (s.loop p).running = true → p ∈ s.ps.peers
  registering : ∀ p, s.registering = .some p → p ∈ s.ps.peers

theorem SetInv.new : SetInv new where
  wf := PeerSet.WF.new
  loop p h := by cases h
  registering p h := by cases h

theorem SetInv.setLoop (h : SetInv s) (hp : p ∈ s.ps.peers) {l : SendingLoop} {q : PeerPtr}
    (hq : (update s.loop p l q).running = true) : q ∈ s.ps.peers := by
  by_cases heq : q = p
  · rw [heq]
    exact hp
  · rw [update_of_ne heq] at hq
    exact h.loop q hq

theorem SetInv.step (h : SetInv s) (hstep : s.step a = .some s') : SetInv s' := by
  cases step_cases hstep with
  | makenewpeer hr =>
    refine ⟨h.wf.makenewpeer _ _ _, fun q hq => ?_, fun q hq => by simp [hr] at hq⟩
    rw [PeerSet.makenewpeer_peers]
    exact h.loop q hq
  | register hr hp hnew =>
    rcases s.ps.register_cases _ with ⟨q, hq, hid, -⟩ | ⟨-, -, -, hpeers, -⟩
    · exact absurd hid (hnew q hq)
    · refine ⟨h.wf.register hp, fun q hq => ?_, fun q hq => ?_⟩
      · rw [hpeers]
        exact List.mem_append_left _ (h.loop q hq)
      · cases hq
        rw [hpeers]
        exact List.mem_append_right _ (List.mem_singleton_self _)
  | known hr _ => exact ⟨h.wf.reject _, h.loop, h.registering⟩
  | start hr _ _ => exact ⟨h.wf, fun q hq => h.setLoop (h.registering _ hr) hq, fun q hq => by cases hq⟩
  | started hr _ _ => exact ⟨h.wf, h.loop, fun q hq => by cases hq⟩
  | reject hr => exact ⟨h.wf.reject _, h.loop, h.registering⟩
  | begin hl => exact ⟨h.wf, fun q hq => h.setLoop (h.loop _ (by rw [hl]; rfl)) hq, h.registering⟩
  | leave hl => exact ⟨h.wf, fun q hq => h.setLoop (h.loop _ (by rw [hl]; rfl)) hq, h.registering⟩
  | @unregister p hr hl =>
    have hp : p ∈ s.ps.peers := h.loop p (by rw [hl]; rfl)
    refine ⟨h.wf.unregister hp, fun q hq => ?_, fun q hq => by simp [hr] at hq⟩
    have hne : q ≠ p := by
      rintro rfl
      simp [SendingLoop.running] at hq
    simp only [update_of_ne hne] at hq
    -- The loop of another peer is that of another identity.
    have hq := h.loop q hq
    rw [(PeerSet.unregister_mem hp).2.1, mem_without]
    exact ⟨hq, fun hid => hne (eq_of_id_eq h.wf.nodup hq hp hid)⟩
  | notConnected _ _ | noLoop _ _ _ | close _ _ _ | closed _ _ => exact ⟨h.wf, h.loop, h.registering⟩

/-! ## Loops and closed peers -/

/-- A peer is registered once, and not after it was closed; it is not closed
in the middle of its registration, nor before its loop has begun. -/
def Orderly (s : PeerLife) : Act → Prop
  | .register p => (∀ q ∈ s.ps.peers, q.id ≠ p.id) → s.loop p = .none ∧ p ∉ s.closed
  | .close p => s.registering ≠ .some p ∧ s.loop p ≠ .created
  | _ => True

structure LifeInv (s : PeerLife) : Prop extends SetInv s where
  running : ∀ p ∈ s.ps.peers, s.registering = .some p ∨ (s.loop p).running = true
  closed : ∀ p ∈ s.closed, p ∉ s.ps.peers
  closing : ∀ p ∈ s.closing, s.loop p ≠ .none ∧ s.loop p ≠ .created
  starting : ∀ p, s.registering = .some p → s.loop p = .none
  connected : ∀ p ∈ s.ps.peers, s.status p = .connected ∨ p ∈ s.closing
  looped : ∀ p, s.status p = .connected → s.loop p ≠ .none ∨ s.registering = .some p

namespace LifeInv

theorem new : LifeInv new where
  toSetInv := .new
  running p hp := by cases hp
  closed p hp := by cases hp
  closing p hp := by cases hp
  starting p hp := by cases hp
  connected p hp := by cases hp
  looped p hp := by cases hp

theorem pendings (h : LifeInv s) {ps : PeerSet} (hps : ps.peers = s.ps.peers) (hset : SetInv { s with ps }) :
    LifeInv { s with ps } where
  toSetInv := hset
  running := hps ▸ h.running
  closed := hps ▸ h.closed
  closing := h.closing
  starting := h.starting
  connected := hps ▸ h.connected
  looped := h.looped

theorem setLoop (h : LifeInv s) {l : SendingLoop} (hset : SetInv { s with loop := update s.loop p l })
    (hnow : (s.loop p).running = true) (hl : l.running = true) (hc : l ≠ .created) :
    LifeInv { s with loop := update s.loop p l } := by
  have hne : s.loop p ≠ .none := by
    intro h0
    rw [h0] at hnow
    cases hnow
  have hl0 : l ≠ .none := by
    rintro rfl
    cases hl
  refine ⟨hset, fun q hq => ?_, h.closed, fun q hq => ?_, fun q hq => ?_, h.connected, fun q hq => ?_⟩
  all_goals
    simp only [update_apply]
    split_ifs with heq
  · exact .inr hl
  · exact h.running q hq
  · exact ⟨hl0, hc⟩
  · exact h.closing q hq
  · subst heq
    exact absurd (h.starting q hq) hne
  · exact h.starting q hq
  · exact .inl hl0
  · exact h.looped q hq

theorem register (h : LifeInv s) (hnone : s.registering = .none) (hnew : ∀ q ∈ s.ps.peers, q.id ≠ p.id)
    (hfresh : s.loop p = .none ∧ p ∉ s.closed)
    (hset : SetInv { s with
      ps := (s.ps.register p).1
      status := update s.status p .connected
      registering := .some p }) :
    LifeInv { s with
      ps := (s.ps.register p).1
      status := update s.status p .connected
      registering := .some p } := by
  have hpeers : ∀ q, q ∈ (s.ps.register p).1.peers ↔ q ∈ s.ps.peers ∨ q = p := by
    rcases s.ps.register_cases p with ⟨q, hq, hid, -⟩ | ⟨-, -, -, heq, -⟩
    · exact absurd hid (hnew q hq)
    · intro q
      rw [heq, List.mem_append, List.mem_singleton]
  refine ⟨hset, fun q hq => ?_, fun q hq hin => ?_, h.closing, fun q hq => ?_, fun q hq => ?_, fun q hq => ?_⟩
  · rcases (hpeers q).1 hq with hq | rfl
    · rcases h.running q hq with hr | hr
      · rw [hnone] at hr
        cases hr
      · exact .inr hr
    · exact .inl rfl
  · rcases (hpeers q).1 hin with hin | rfl
    · exact h.closed q hq hin
    · exact hfresh.2 hq
  · cases hq
    exact hfresh.1
  · simp only [update_apply]
    split_ifs with heq
    · exact .inl rfl
    · rcases (hpeers q).1 hq with hq | rfl
      · exact h.connected q hq
      · exact absurd rfl heq
  · simp only [update_apply] at hq
    split_ifs at hq with heq
    · exact .inr (by rw [heq])
    · rcases h.looped q hq with hl | hl
      · exact .inl hl
      · rw [hnone] at hl
        cases hl

theorem start (h : LifeInv s) (hr : s.registering = .some p) (hc : p ∉ s.closing)
    (hset : SetInv { s with loop := update s.loop p .created, registering := .none }) :
    LifeInv { s with loop := update s.loop p .created, registering := .none } := by
  refine ⟨hset, fun q hq => ?_, h.closed, fun q hq => ?_, fun q hq => (by cases hq), h.connected, fun q hq => ?_⟩
  all_goals simp only [update_apply]
  · split_ifs with heq
    · exact .inr rfl
    · rcases h.running q hq with hr' | hr'
      · exact absurd (Option.some.inj (hr'.symm.trans hr)) heq
      · exact .inr hr'
  · have hne : q ≠ p := fun heq => hc (heq ▸ hq)
    rw [if_neg hne]
    exact h.closing q hq
  · split_ifs with heq
    · exact .inl (by decide)
    · rcases h.looped q hq with hl | hl
      · exact .inl hl
      · exact absurd (Option.some.inj (hl.symm.trans hr)) heq

theorem unregister (h : LifeInv s) (hr : s.registering = .none) (hp : p ∈ s.ps.peers)
    (hset : SetInv { s with ps := s.ps.unregister p, loop := update s.loop p .exited }) :
    LifeInv { s with ps := s.ps.unregister p, loop := update s.loop p .exited } := by
  have hpeers : ∀ q, q ∈ (s.ps.unregister p).peers ↔ q ∈ s.ps.peers ∧ q.id ≠ p.id := by
    intro q
    rw [(PeerSet.unregister_mem hp).2.1, mem_without]
  refine ⟨hset, fun q hq => ?_, fun q hq hin => h.closed q hq ((hpeers q).1 hin).1, fun q hq => ?_, fun q hq => ?_,
    fun q hq => h.connected q ((hpeers q).1 hq).1, fun q hq => ?_⟩
  · obtain ⟨hq, hid⟩ := (hpeers q).1 hq
    have hne : q ≠ p := fun heq => hid (by rw [heq])
    simp only [update_of_ne hne]
    exact h.running q hq
  · simp only [update_apply]
    split_ifs
    · decide
    · exact h.closing q hq
  · simp [hr] at hq
  · simp only [update_apply]
    split_ifs
    · exact .inl (by decide)
    · exact h.looped q hq

theorem close (h : LifeInv s) (hl : s.loop p ≠ .none ∧ s.loop p ≠ .created) (hset : SetInv { s with
      status := update s.status p .closed
      quit := update s.quit p true
      closing := p :: s.closing }) :
    LifeInv { s with
      status := update s.status p .closed
      quit := update s.quit p true
      closing := p :: s.closing } := by
  refine ⟨hset, h.running, h.closed, fun q hq => ?_, h.starting, fun q hq => ?_, fun q hq => ?_⟩
  · rcases List.mem_cons.1 hq with rfl | hq
    · exact hl
    · exact h.closing q hq
  · simp only [update_apply]
    split_ifs with heq
    · exact .inr (by rw [heq]; exact List.mem_cons_self)
    · rcases h.connected q hq with hq | hq
      · exact .inl hq
      · exact .inr (List.mem_cons_of_mem _ hq)
  · simp only [update_apply] at hq
    split_ifs at hq
    exact h.looped q hq

theorem not_registered (h : LifeInv s) (hc : p ∈ s.closing) (hl : s.loop p = .created ∨ s.loop p = .exited) :
    p ∉ s.ps.peers := by
  obtain ⟨hnone, hcreated⟩ := h.closing p hc
  have hexited : s.loop p = .exited := hl.resolve_left hcreated
  intro hp
  rcases h.running p hp with hr | hr
  · exact hnone (h.starting p hr)
  · rw [hexited] at hr
    cases hr

theorem step (h : LifeInv s) (hok : Orderly s a) (hstep : s.step a = .some s') : LifeInv s' := by
  have hset := h.toSetInv.step hstep
  cases step_cases hstep with
  | makenewpeer hr => exact h.pendings (PeerSet.makenewpeer_peers ..) hset
  | register hr hp hnew => exact h.register hr hnew (hok hnew) hset
  | known hr _ => exact h.pendings rfl hset
  | start hr hc _ => exact h.start hr hc hset
  | started hr _ hl => exact absurd (h.starting _ hr) hl
  | reject hr => exact h.pendings rfl hset
  | begin hl => exact h.setLoop hset (by rw [hl]; rfl) rfl (by decide)
  | leave hl => exact h.setLoop hset (by rw [hl]; rfl) rfl (by decide)
  | unregister hr hl => exact h.unregister hr (h.loop _ (by rw [hl]; rfl)) hset
  | @notConnected p hc hs =>
    refine ⟨hset, h.running, fun q hq => ?_, h.closing, h.starting, h.connected, h.looped⟩
    rcases List.mem_cons.1 hq with rfl | hq
    · intro hin
      rcases h.connected q hin with hq | hq
      · exact hs hq
      · exact hc hq
    · exact h.closed q hq
  | noLoop hc hs hl =>
    rcases h.looped _ hs with hl' | hr
    · exact absurd hl hl'
    · exact absurd hr hok.1
  | close hc hs hl => exact h.close ⟨hl, hok.2⟩ hset
  | @closed p hc hl =>
    have hout := h.not_registered hc hl
    refine ⟨hset, h.running, fun q hq => ?_, fun q hq => h.closing q (List.mem_filter.1 hq).1, h.starting, fun q hq => ?_,
      h.looped⟩
    · rcases List.mem_cons.1 hq with rfl | hq
      · exact hout
      · exact h.closed q hq
    · rcases h.connected q hq with hq' | hq'
      · exact .inl hq'
      · have hne : q ≠ p := fun heq => hout (heq ▸ hq)
        exact .inr (List.mem_filter.2 ⟨hq', by simpa using hne⟩)

end LifeInv

end PeerLife

open PeerLife

/-- **The life cycle of a peer**, if each one is registered at most once, not
after it was closed, and closed neither in the middle of its registration nor
before its loop has begun: beyond what holds in every run, a registered peer
has a running loop (or is being registered, under the lock of the set), and a
peer for which `close` has returned is not registered. -/
theorem peer_set_lifecycle {acts : List Act} {s : PeerLife} (hrun : Run PeerLife.step Orderly .new acts s) :
    (∀ p ∈ s.ps.peers, ∀ q ∈ s.ps.pendings, p.id ≠ q.id) ∧
      s.ps.numins = s.ps.count false ∧ s.ps.numouts = s.ps.count true ∧
      (∀ p ∈ s.ps.peers, s.registering = .some p ∨ (s.loop p).running = true) ∧ ∀ p ∈ s.closed, p ∉ s.ps.peers := by
  have h := hrun.invariant (fun _ _ _ h hok hstep => LifeInv.step h hok hstep) LifeInv.new
  exact ⟨h.wf.disjoint, h.wf.ins, h.wf.outs, h.running, h.closed⟩

/-! ## Two lives -/

instance (s : PeerLife) : ∀ a, Decidable (Orderly s a)
  | .register p => inferInstanceAs (Decidable ((∀ q ∈ s.ps.peers, q.id ≠ p.id) → s.loop p = .none ∧ p ∉ s.closed))
  | .close p => inferInstanceAs (Decidable (s.registering ≠ .some p ∧ s.loop p ≠ .created))
  | .makenewpeer _ _ _ | .startsendingloop | .reject _ | .begin _ | .leave _ | .unregister _ | .closed _ =>
    .isTrue trivial

def firstPeer : PeerPtr := ⟨0, "b", true, 1⟩

/-- The peer is registered and its loop runs. -/
def firstRegistered : List Act := [.makenewpeer "b" true 1, .register firstPeer, .startsendingloop, .begin firstPeer]

theorem peer_set_lifecycle_sample :
    ∃ s, Run PeerLife.step Orderly .new
        (firstRegistered ++ [.close firstPeer, .leave firstPeer, .unregister firstPeer, .closed firstPeer]) s ∧
      firstPeer ∈ s.closed ∧ firstPeer ∉ s.ps.peers := by
  have hexec : (Lib.exec PeerLife.step Orderly .new (firstRegistered ++
      [.close firstPeer, .leave firstPeer, .unregister firstPeer, .closed firstPeer])).map
      (fun s => decide (firstPeer ∈ s.closed)) = .some true := by
    decide +kernel
  obtain ⟨s, hs, hclosed⟩ := Option.map_eq_some_iff.1 hexec
  have hrun := Run.of_exec hs
  have hclosed := of_decide_eq_true hclosed
  exact ⟨s, hrun, hclosed, (peer_set_lifecycle hrun).2.2.2.2 firstPeer hclosed⟩

/-- A peer is registered by one handshake, its loop fails, and another
handshake, which still holds it, registers it again: it has no loop, and
`close` returns with the peer registered. -/
theorem registered_without_loop :
    ∃ s, Run PeerLife.step Lib.anyStep .new
        (firstRegistered ++ [.leave firstPeer, .unregister firstPeer, .register firstPeer, .startsendingloop,
          .close firstPeer, .closed firstPeer]) s ∧
      firstPeer ∈ s.ps.peers ∧ s.registering = .none ∧ (s.loop firstPeer).running = false ∧ firstPeer ∈ s.closed := by
  have hexec : (Lib.exec PeerLife.step Lib.anyStep .new (firstRegistered ++
      [.leave firstPeer, .unregister firstPeer, .register firstPeer, .startsendingloop, .close firstPeer,
        .closed firstPeer])).map
      (fun s => decide (firstPeer ∈ s.ps.peers ∧ s.registering = .none ∧ (s.loop firstPeer).running = false ∧
        firstPeer ∈ s.closed)) = .some true := by
    decide +kernel
  obtain ⟨s, hs, hend⟩ := Option.map_eq_some_iff.1 hexec
  exact ⟨s, Run.of_exec hs, of_decide_eq_true hend⟩

end NdnGeth.Eth
