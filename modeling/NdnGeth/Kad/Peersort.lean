/-
The lookup's neighbour buffer (`ndn/kad/peersort.go`): a heap of candidate
peers by distance to a target, with a map from identity to candidate.

A candidate (`*PqPeer`) is an object: `mark` writes its `queried` time
through whichever pointer the caller holds, in the heap or not. It is
modelled by a reference with the fields that never change; the `queried`
times of all objects are kept by reference. The target, one for the whole
buffer, is an index of the types.
-/
import Mathlib.Logic.Function.Basic
import NdnGeth.Lib.Heap
import NdnGeth.Kad.Common

namespace NdnGeth.Kad

open Lib

/-- `QUERY_GRANULARITY`, ten seconds in nanoseconds. -/
def QUERY_GRANULARITY : Int := 10000000000

/-- `*PqPeer`: the object `ref`, a candidate for a lookup of `target`. -/
structure PqPeer (target : ID) where
  ref : Nat
  p : Kadpeer
  deriving DecidableEq, Repr, Inhabited

variable {target : ID}

def PqPeer.id (qp : PqPeer target) : ID := qp.p.id

def less (a b : PqPeer target) : Bool := distCmp target a.id b.id ≤ 0

/-- `peersort`, with the objects made for it: their `queried` times and the
next unused reference. -/
structure Peersort (target : ID) where
  queue : List (PqPeer target)
  peers : ID → Option (PqPeer target)
  queried : Nat → Int
  fresh : Nat

namespace Peersort

def empty : Peersort target := { queue := [], peers := fun _ => none, queried := fun _ => 0, fresh := 0 }

def mark (ps : Peersort target) (qp : PqPeer target) (now : Int) : Peersort target :=
  { ps with queried := Function.update ps.queried qp.ref now }

/-- `PqPeer.recentlyqueried`, at time `now`. -/
def recentlyqueried (ps : Peersort target) (qp : PqPeer target) (now : Int) : Bool :=
  now - ps.queried qp.ref < QUERY_GRANULARITY

/-- The object `&PqPeer{p: p, target: target, queried: 0}`. -/
def item (ps : Peersort target) (p : Kadpeer) : PqPeer target := ⟨ps.fresh, p⟩

/-- The buffer once `item` is made and entered in the map; `queue` is the
heap with it. -/
def addItem (ps : Peersort target) (p : Kadpeer) (queue : List (PqPeer target)) : Peersort target :=
  { queue
    peers := Function.update ps.peers p.id (some (ps.item p))
    queried := Function.update ps.queried ps.fresh 0
    fresh := ps.fresh + 1 }

/-- `push`: a new candidate, unless its identity is in the buffer. -/
def push (ps : Peersort target) (p : Kadpeer) : Peersort target :=
  match ps.peers p.id with
  | some _ => ps
  | none => ps.addItem p (Heap.push less ps.queue (ps.item p))

def update (ps : Peersort target) (peers : List Kadpeer) : Peersort target := peers.foldl push ps

/-- `repush`: a candidate taken out earlier, unless its identity is in the
buffer again. -/
def repush (ps : Peersort target) (qp : PqPeer target) : Peersort target :=
  match ps.peers qp.id with
  | some _ => ps
  | none =>
    { ps with
      queue := Heap.push less ps.queue qp
      peers := Function.update ps.peers qp.id (some qp) }

/-- The filling loop of `newpeersort`. -/
def fill (ps : Peersort target) (p : Kadpeer) : Peersort target :=
  match ps.peers p.id with
  | some _ => ps
  | none => ps.addItem p (ps.queue ++ [ps.item p])

/-- `newpeersort`. The queue has a slot for every peer of the list; a
repeated identity leaves the last slots nil, and `heap.Init` dereferences
the last slot first: it panics (`none`). -/
def newpeersort (target : ID) (peers : List Kadpeer) : Option (Peersort target) :=
  let ps := peers.foldl fill (empty : Peersort target)
  if ps.queue.length < peers.length then none else some { ps with queue := Heap.init less ps.queue }

/-- `closest`: the `k` nearest candidates, taken out of the buffer. The
source panics for `k = 0` on a buffer that is not empty; its callers ask
for at least one. -/
def closest : Nat → Peersort target → List (PqPeer target) × Peersort target
  | 0, ps => ([], ps)
  | k + 1, ps =>
    match Heap.pop less ps.queue with
    | none => ([], ps)
    | some (item, queue) =>
      let (peers, ps') := closest k { ps with queue, peers := Function.update ps.peers item.id none }
      (item :: peers, ps')

/-! ## Well-formed buffers -/

/-- What the heap is ordered by. -/
def key (qp : PqPeer target) : Nat := dist target qp.id

theorem agrees : Heap.Agrees less (key : PqPeer target → Nat) where
  le_of_less h := by
    simp only [less, distCmp_le_zero, decide_eq_true_eq] at h
    exact h
  le_of_not_less h := by
    simp only [less, distCmp_le_zero, decide_eq_false_iff_not, not_le] at h
    exact h.le

theorem key_inj {a b : PqPeer target} (h : key a = key b) : a.id = b.id := dist_inj h

/-- The identities in the buffer. -/
def ids (ps : Peersort target) : List ID := ps.queue.map PqPeer.id

/-- The queued identities are distinct, and the map is their index. -/
structure Indexed (ps : Peersort target) : Prop where
  nodup : ps.ids.Nodup
  index : ∀ {i qp}, ps.peers i = some qp ↔ qp ∈ ps.queue ∧ qp.id = i

/-- A buffer between two operations: indexed, and a heap. -/
structure Wf (ps : Peersort target) : Prop extends Indexed ps where
  heap : Heap.IsHeap key ps.queue

variable {ps : Peersort target}

theorem Indexed.peers_eq_none (h : ps.Indexed) {i : ID} :
    ps.peers i = none ↔ i ∉ ps.ids := by
  simp only [ids, List.mem_map, not_exists, not_and]
  constructor
  · intro hn qp hqp hi
    have := h.index.mpr ⟨hqp, hi⟩
    rw [hn] at this
    cases this
  · intro hn
    cases hp : ps.peers i with
    | none => rfl
    | some qp => exact absurd (h.index.mp hp).2 (hn qp (h.index.mp hp).1)

theorem Indexed.mem_ids (h : ps.Indexed) {i : ID} {qp : PqPeer target}
    (hp : ps.peers i = some qp) : i ∈ ps.ids :=
  (h.index.mp hp).2 ▸ List.mem_map_of_mem (h.index.mp hp).1

theorem Indexed.enter (h : ps.Indexed) (ps' : Peersort target) (qp : PqPeer target)
    (hn : ps.peers qp.id = none) (hq : ps'.queue.Perm (qp :: ps.queue))
    (hp : ps'.peers = Function.update ps.peers qp.id (some qp)) : ps'.Indexed := by
  refine ⟨((hq.map PqPeer.id).nodup_iff).mpr ?_, fun {i q} => ?_⟩
  · rw [List.map_cons, List.nodup_cons]
    exact ⟨h.peers_eq_none.mp hn, h.nodup⟩
  · rw [hp, hq.mem_iff, List.mem_cons]
    by_cases hi : i = qp.id
    · subst hi
      rw [Function.update_self, Option.some.injEq]
      constructor
      · rintro rfl
        exact ⟨.inl rfl, rfl⟩
      · rintro ⟨rfl | hm, hid⟩
        · rfl
        · have := h.index.mpr ⟨hm, hid⟩
          rw [hn] at this
          cases this
    · rw [Function.update_of_ne hi, h.index]
      constructor
      · rintro ⟨hm, hid⟩
        exact ⟨.inr hm, hid⟩
      · rintro ⟨rfl | hm, hid⟩
        · exact absurd hid.symm hi
        · exact ⟨hm, hid⟩

theorem Indexed.remove (h : ps.Indexed) (ps' : Peersort target) (qp : PqPeer target)
    (hq : ps.queue.Perm (qp :: ps'.queue)) (hp : ps'.peers = Function.update ps.peers qp.id none) :
    ps'.Indexed := by
  have hnd := ((hq.map PqPeer.id).nodup_iff).mp h.nodup
  rw [List.map_cons, List.nodup_cons] at hnd
  refine ⟨hnd.2, fun {i q} => ?_⟩
  have hmem : q ∈ ps.queue ↔ q = qp ∨ q ∈ ps'.queue := by rw [hq.mem_iff, List.mem_cons]
  rw [hp]
  by_cases hi : i = qp.id
  · subst hi
    rw [Function.update_self]
    constructor
    · intro hc
      cases hc
    · rintro ⟨hm, hid⟩
      exact absurd (hid ▸ List.mem_map_of_mem hm) hnd.1
  · rw [Function.update_of_ne hi, h.index, hmem]
    constructor
    · rintro ⟨rfl | hm, hid⟩
      · exact absurd hid.symm hi
      · exact ⟨hm, hid⟩
    · rintro ⟨hm, hid⟩
      exact ⟨.inr hm, hid⟩

theorem ids_enter (ps ps' : Peersort target) (qp : PqPeer target) (hq : ps'.queue.Perm (qp :: ps.queue)) (i : ID) :
    i ∈ ps'.ids ↔ i ∈ ps.ids ∨ i = qp.id := by
  rw [ids, (hq.map PqPeer.id).mem_iff, List.map_cons, List.mem_cons, or_comm]
  rfl

/-! ## The operations -/

theorem Wf.mark (h : ps.Wf) (qp : PqPeer target) (now : Int) : (ps.mark qp now).Wf :=
  ⟨⟨h.nodup, h.index⟩, h.heap⟩

theorem push_spec (h : ps.Wf) (p : Kadpeer) :
    (ps.push p).Wf ∧ ∀ i, i ∈ (ps.push p).ids ↔ i ∈ ps.ids ∨ i = p.id := by
  unfold push
  split
  · next qp hqp =>
    refine ⟨h, fun i => ⟨.inl, ?_⟩⟩
    rintro (hi | rfl)
    · exact hi
    · exact h.mem_ids hqp
  · next hn =>
    obtain ⟨hperm, hheap⟩ := Heap.push_spec agrees h.heap (ps.item p)
    exact ⟨⟨h.enter _ (ps.item p) hn hperm rfl, hheap⟩, ids_enter ps _ (ps.item p) hperm⟩

theorem update_spec (h : ps.Wf) (peers : List Kadpeer) :
    (ps.update peers).Wf ∧ ∀ i, i ∈ (ps.update peers).ids ↔ i ∈ ps.ids ∨ i ∈ peers.map Kadpeer.id := by
  induction peers generalizing ps with
  | nil => exact ⟨h, by simp [update]⟩
  | cons p peers ih =>
    obtain ⟨hwf, hids⟩ := push_spec h p
    obtain ⟨hwf', hids'⟩ := ih hwf
    refine ⟨hwf', fun i => ?_⟩
    rw [update] at hids' ⊢
    rw [List.foldl_cons, hids', hids, List.map_cons, List.mem_cons, or_assoc]

theorem repush_spec (h : ps.Wf) (qp : PqPeer target) :
    (ps.repush qp).Wf ∧ ∀ i, i ∈ (ps.repush qp).ids ↔ i ∈ ps.ids ∨ i = qp.id := by
  unfold repush
  split
  · next q hq =>
    refine ⟨h, fun i => ⟨.inl, ?_⟩⟩
    rintro (hi | rfl)
    · exact hi
    · exact h.mem_ids hq
  · next hn =>
    obtain ⟨hperm, hheap⟩ := Heap.push_spec agrees h.heap qp
    exact ⟨⟨h.enter _ qp hn hperm rfl, hheap⟩, ids_enter ps _ qp hperm⟩

theorem foldl_repush_spec (l : List (PqPeer target)) (h : ps.Wf) (hnd : ((l ++ ps.queue).map PqPeer.id).Nodup) :
    (l.foldl repush ps).Wf ∧ (l.foldl repush ps).queue.Perm (l ++ ps.queue) := by
  induction l generalizing ps with
  | nil => exact ⟨h, .refl _⟩
  | cons qp l ih =>
    have hcons := hnd
    simp only [List.cons_append, List.map_cons, List.nodup_cons, List.map_append, List.mem_append, not_or] at hcons
    have hperm : (ps.repush qp).queue.Perm (qp :: ps.queue) := by
      simp only [repush, h.peers_eq_none.mpr hcons.1.2]
      exact (Heap.push_spec agrees h.heap qp).1
    have hmid : (l ++ (ps.repush qp).queue).Perm (qp :: l ++ ps.queue) :=
      (hperm.append_left l).trans List.perm_middle
    obtain ⟨hwf, hq⟩ := ih (repush_spec h qp).1 (((hmid.map PqPeer.id).nodup_iff).mpr hnd)
    exact ⟨hwf, hq.trans hmid⟩

theorem fill_spec (h : ps.Indexed) (p : Kadpeer) :
    (ps.fill p).Indexed ∧ ∀ i, i ∈ (ps.fill p).ids ↔ i ∈ ps.ids ∨ i = p.id := by
  unfold fill
  split
  · next q hq =>
    refine ⟨h, fun i => ⟨.inl, ?_⟩⟩
    rintro (hi | rfl)
    · exact hi
    · exact h.mem_ids hq
  · next hn =>
    have hperm : (ps.queue ++ [ps.item p]).Perm (ps.item p :: ps.queue) := List.perm_append_singleton _ _
    exact ⟨h.enter _ (ps.item p) hn hperm rfl, ids_enter ps _ (ps.item p) hperm⟩

theorem foldl_fill_spec (h : ps.Indexed) (peers : List Kadpeer) :
    (peers.foldl fill ps).Indexed ∧
      ∀ i, i ∈ (peers.foldl fill ps).ids ↔ i ∈ ps.ids ∨ i ∈ peers.map Kadpeer.id := by
  induction peers generalizing ps with
  | nil => exact ⟨h, by simp⟩
  | cons p peers ih =>
    obtain ⟨hwf, hids⟩ := fill_spec h p
    obtain ⟨hwf', hids'⟩ := ih hwf
    refine ⟨hwf', fun i => ?_⟩
    rw [List.foldl_cons, hids', hids, List.map_cons, List.mem_cons, or_assoc]

theorem newpeersort_spec {peers : List Kadpeer} (h : newpeersort target peers = some ps) :
    ps.Wf ∧ ∀ i, i ∈ ps.ids ↔ i ∈ peers.map Kadpeer.id := by
  have h0 : (empty : Peersort target).Indexed := ⟨by simp [ids, empty], by simp [empty]⟩
  obtain ⟨hidx, hids⟩ := foldl_fill_spec h0 peers
  simp only [newpeersort] at h
  split at h
  · cases h
  · cases h
    generalize peers.foldl fill (empty : Peersort target) = ps at hidx hids
    obtain ⟨hperm, hheap⟩ := Heap.init_spec agrees ps.queue
    have hp := hperm.map PqPeer.id
    refine ⟨⟨⟨hp.nodup_iff.mpr hidx.nodup, fun {i qp} => ?_⟩, hheap⟩, fun i => ?_⟩
    · rw [hperm.mem_iff]
      exact hidx.index
    · rw [ids, hp.mem_iff]
      simpa [ids, empty] using hids i

/-- What `closest` takes out: the nearest candidates in order, at most `k`
of them and less only where the buffer is exhausted. -/
structure Closest (k : Nat) (ps : Peersort target) (peers : List (PqPeer target)) (ps' : Peersort target) : Prop where
  wf : ps'.Wf
  perm : ps.queue.Perm (peers ++ ps'.queue)
  sorted : peers.Pairwise fun a b => key a < key b
  nearer : ∀ a ∈ peers, ∀ b ∈ ps'.queue, key a < key b
  length : peers.length = min k ps.queue.length

theorem closest_spec (h : ps.Wf) (k : Nat) :
    Closest k ps (closest k ps).1 (closest k ps).2 := by
  induction k generalizing ps with
  | zero => exact ⟨h, .refl _, .nil, by simp [closest], by simp [closest]⟩
  | succ k ih =>
    simp only [closest]
    by_cases hne : ps.queue = []
    · have hpop : Heap.pop less ps.queue = none := by simp [Heap.pop, hne]
      simp only [hpop]
      exact ⟨h, .refl _, .nil, by simp, by simp [hne]⟩
    · obtain ⟨item, queue, hpop, hperm, hheap, hle⟩ := Heap.pop_spec agrees h.heap hne
      simp only [hpop]
      have hnd := ((hperm.map PqPeer.id).nodup_iff).mp h.nodup
      rw [List.map_cons, List.nodup_cons] at hnd
      have hlt : ∀ b ∈ queue, key item < key b := fun b hb =>
        lt_of_le_of_ne (hle b (hperm.mem_iff.mpr (by simp [hb]))) fun he =>
          hnd.1 (key_inj he ▸ List.mem_map_of_mem hb)
      generalize hps : ({ ps with queue, peers := Function.update ps.peers item.id none } : Peersort target) = ps₁
      have hwf : ps₁.Wf := by
        subst hps
        exact ⟨h.remove _ item hperm rfl, hheap⟩
      have hq : ps₁.queue = queue := by rw [← hps]
      obtain ⟨hwf', hperm', hsorted, hnearer, hlen⟩ := ih hwf
      rw [hq] at hperm' hlen
      refine ⟨hwf', hperm.trans (by simpa using hperm'.cons item), ?_, ?_, ?_⟩
      · rw [List.pairwise_cons]
        exact ⟨fun b hb => hlt b (hperm'.mem_iff.mpr (by simp [hb])), hsorted⟩
      · intro a ha b hb
        rcases List.mem_cons.mp ha with rfl | ha
        · exact hlt b (hperm'.mem_iff.mpr (by simp [hb]))
        · exact hnearer a ha b hb
      · have := hperm.length_eq
        simp only [List.length_cons] at this ⊢
        omega

end Peersort

end NdnGeth.Kad
