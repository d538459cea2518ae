/-
The answer to a Findnode request: the peers of the routing table that are
nearest to a target (`rtable.closest`). All bucket peers go into a heap, and
the first `k` that come out go into a slice made with `k` places. The place
is written before `l` is compared with `k`: asked for none, by a remote
request, `closest` writes out of range.
-/
import NdnGeth.Kad.Peersort
import NdnGeth.Kad.Node

namespace NdnGeth.Kad

open Lib

theorem Peersort.exists_of_queue {target : ID} {queue : List (PqPeer target)} (hheap : Heap.IsHeap key queue)
    (hnd : (queue.map PqPeer.id).Nodup) : ∃ ps : Peersort target, ps.Wf ∧ ps.queue = queue := by
  refine ⟨⟨queue, fun i => queue.find? (·.id == i), fun _ => 0, 0⟩, ⟨⟨hnd, fun {i qp} => ⟨fun h => ?_, ?_⟩⟩, hheap⟩, rfl⟩
  · exact ⟨List.mem_of_find?_eq_some h, by simpa using List.find?_some h⟩
  · rintro ⟨hmem, rfl⟩
    obtain ⟨q, hq⟩ := Option.isSome_iff_exists.1 (List.find?_isSome.2 ⟨qp, hmem, by simp⟩ :
      (queue.find? (·.id == qp.id)).isSome)
    have heq := List.inj_on_of_nodup_map hnd (List.mem_of_find?_eq_some hq) hmem (by simpa using List.find?_some hq)
    exact hq.trans (congrArg some heq)

namespace RTable

variable {r : RTable} {target : ID} {k : Nat}

/-- The queue before `heap.Init`: the bucket peers, with their places. -/
def candidates (r : RTable) (target : ID) : List (PqPeer target) := r.peers.zipIdx.map fun p => ⟨p.2, p.1⟩

/-- The loop of `closest`, with the places of the slice that are written; it
ends with the queue. -/
def popLoop (k : Nat) : (fuel : Nat) → List (PqPeer target) → List Kadpeer → Option (List Kadpeer)
  | 0, _, peers => some peers
  | fuel + 1, queue, peers =>
    match Heap.pop less queue with
    | none => some peers
    | some (p, queue) =>
      -- `peers[l] = p.p`
      if k ≤ peers.length then none
      else if k ≤ peers.length + 1 then some (peers ++ [p.p])
      else popLoop k fuel queue (peers ++ [p.p])

/-- `closest`, or `none` for an index out of range. -/
def closest (r : RTable) (target : ID) (k : Nat) : Option (List Kadpeer) :=
  popLoop k (r.candidates target).length (Heap.init less (r.candidates target)) []

/-! ## What the loop takes out -/

theorem popLoop_eq (fuel : Nat) (ps : Peersort target) (peers : List Kadpeer) (hlt : peers.length < k)
    (hfuel : ps.queue.length ≤ fuel) :
    popLoop k fuel ps.queue peers = some (peers ++ (Peersort.closest (k - peers.length) ps).1.map PqPeer.p) := by
  induction fuel generalizing ps peers with
  | zero =>
    have hnil : ps.queue = [] := List.length_eq_zero_iff.1 (Nat.le_zero.1 hfuel)
    obtain ⟨m, hm⟩ : ∃ m, k - peers.length = m + 1 := ⟨k - peers.length - 1, by omega⟩
    simp [popLoop, hm, Peersort.closest, Heap.pop, hnil]
  | succ fuel ih =>
    obtain ⟨m, hm⟩ : ∃ m, k - peers.length = m + 1 := ⟨k - peers.length - 1, by omega⟩
    rw [popLoop, hm, Peersort.closest]
    cases hpop : Heap.pop less ps.queue with
    | none => simp
    | some next =>
      obtain ⟨item, queue⟩ := next
      simp only [if_neg (Nat.not_le.2 hlt)]
      split
      · have hm0 : m = 0 := by omega
        simp [hm0, Peersort.closest]
      · have hrest := Heap.length_of_pop hpop
        rw [ih { ps with queue, peers := Function.update ps.peers item.id none } (peers ++ [item.p]) (by simp; omega) (by simp; omega)]
        simp [show k - (peers.length + 1) = m by omega]

theorem candidates_p (r : RTable) (target : ID) : (r.candidates target).map PqPeer.p = r.peers := by
  rw [candidates, List.map_map]
  exact List.zipIdx_map_fst 0 r.peers

theorem WF.nodup_peers (h : r.WF) : (r.peers.map Kadpeer.id).Nodup := by
  refine h.nodup.sublist (List.Sublist.map _ ?_)
  exact List.Sublist.flatMap_right _ fun b _ => List.sublist_append_left _ _

/-! ## The nearest peers -/

/-- **The `k` nearest bucket peers**, nearest first. -/
structure IsClosest (r : RTable) (target : ID) (k : Nat) (res : List Kadpeer) : Prop where
  length : res.length = min k r.peers.length
  distinct : (res.map Kadpeer.id).Nodup
  peers : ∀ p ∈ res, p ∈ r.peers
  sorted : res.Pairwise fun p q => dist target p.id < dist target q.id
  nearest : ∀ p ∈ res, ∀ q ∈ r.peers, q ∉ res → dist target p.id < dist target q.id

theorem closest_isClosest (h : r.WF) (hk : 0 < k) : ∃ res, r.closest target k = some res ∧ r.IsClosest target k res := by
  obtain ⟨hperm, hheap⟩ := Heap.init_spec Peersort.agrees (r.candidates target)
  have hall : ((Heap.init less (r.candidates target)).map PqPeer.p).Perm r.peers :=
    r.candidates_p target ▸ hperm.map PqPeer.p
  have hnd : ((Heap.init less (r.candidates target)).map PqPeer.id).Nodup := by
    have := ((hall.map Kadpeer.id).nodup_iff).2 h.nodup_peers
    rwa [List.map_map] at this
  obtain ⟨ps, hwf, hq⟩ := Peersort.exists_of_queue hheap hnd
  obtain ⟨-, hsplit, hsorted, hnearer, hlen⟩ := Peersort.closest_spec hwf k
  have hres : r.closest target k = some ((Peersort.closest k ps).1.map PqPeer.p) := by
    have := popLoop_eq (r.candidates target).length ps [] hk (by rw [hq, hperm.length_eq])
    rwa [hq] at this
  generalize (Peersort.closest k ps).1 = taken at *
  generalize (Peersort.closest k ps).2 = ps' at *
  rw [hq] at hsplit hlen
  have hpeers : r.peers.Perm (taken.map PqPeer.p ++ ps'.queue.map PqPeer.p) :=
    hall.symm.trans (List.map_append ▸ hsplit.map PqPeer.p)
  refine ⟨_, hres, ?_, ?_, fun p hp => hpeers.mem_iff.2 (List.mem_append_left _ hp), ?_, fun p hp q hq hnot => ?_⟩
  · rw [List.length_map, hlen, ← hall.length_eq, List.length_map]
  · have := ((hpeers.map Kadpeer.id).nodup_iff).1 h.nodup_peers
    rw [List.map_append] at this
    exact (List.nodup_append.1 this).1
  · exact List.pairwise_map.2 hsorted
  · obtain ⟨a, ha, rfl⟩ := List.mem_map.1 hp
    obtain ⟨b, hb, rfl⟩ := List.mem_map.1 ((List.mem_append.1 (hpeers.mem_iff.1 hq)).resolve_left hnot)
    exact hnearer a ha b hb

theorem closest_zero (hne : r.peers ≠ []) (target : ID) : r.closest target 0 = none := by
  have hlen : 0 < (r.candidates target).length := by
    rw [← List.length_map PqPeer.p, candidates_p]
    exact List.length_pos_iff.2 hne
  obtain ⟨hperm, hheap⟩ := Heap.init_spec Peersort.agrees (r.candidates target)
  obtain ⟨p, queue, hpop, -⟩ := Heap.pop_spec Peersort.agrees hheap
    (List.length_pos_iff.1 (hperm.length_eq ▸ hlen))
  obtain ⟨n, hn⟩ : ∃ n, (r.candidates target).length = n + 1 := ⟨_, (Nat.succ_pred_eq_of_pos hlen).symm⟩
  rw [closest, hn, popLoop, hpop]
  rfl

theorem closest_of_nil (hnil : r.peers = []) (target : ID) (k : Nat) : r.closest target k = some [] := by
  have : r.candidates target = [] := by rw [candidates, hnil]; rfl
  rw [closest, this]
  rfl

theorem popLoop_isSome (fuel : Nat) (queue : List (PqPeer target)) (peers : List Kadpeer) (hlt : peers.length < k) :
    (popLoop k fuel queue peers).isSome := by
  induction fuel generalizing queue peers with
  | zero => rfl
  | succ fuel ih =>
    rw [popLoop]
    split
    · rfl
    · rw [if_neg (Nat.not_le.2 hlt)]
      split
      · rfl
      · exact ih _ _ (by simp; omega)

theorem closest_isSome (r : RTable) (target : ID) (k : Nat) : (r.closest target k).isSome = (k ≠ 0 || r.peers.isEmpty) := by
  by_cases hk : k = 0
  · subst hk
    cases hp : r.peers with
    | nil => rw [closest_of_nil hp]; rfl
    | cons p ps => rw [closest_zero (by simp [hp])]; rfl
  · rw [closest, popLoop_isSome _ _ _ (Nat.pos_of_ne_zero hk)]
    simp [hk]

/-! ## Every table -/

/-- The tables of a node: peers are seen and removed, and an entry gets a new
record. -/
inductive Reachable (self : Kadpeer) : RTable → Prop
  | new : Reachable self (newrtable self)
  | seen {r : RTable} (p : Kadpeer) : Reachable self r → Reachable self (r.seen p).1
  | remove {r : RTable} (id : ID) : Reachable self r → Reachable self (r.remove id).1
  | update {r : RTable} (id : ID) (rec : NdnNodeRecord) : Reachable self r → Reachable self (r.update id rec)

theorem Reachable.wf {self : Kadpeer} (h : Reachable self r) : r.WF := by
  induction h with
  | new => exact WF.newrtable self
  | seen p _ ih => exact ih.seen p
  | remove id _ ih => exact ih.remove id
  | update id rec _ ih => exact ih.update id rec

end RTable

/-- **The nearest peers are found** for every `k` of a request, unless it is
zero and there is a peer. -/
theorem closest_iff {self : Kadpeer} {r : RTable} (h : r.Reachable self) (target : ID) (k : UInt8) :
    (∃ res, r.closest target k.toNat = some res ∧ r.IsClosest target k.toNat res) ↔ k ≠ 0 ∨ r.peers = [] := by
  constructor
  · rintro ⟨res, hres, -⟩
    by_contra hnot
    obtain ⟨hk, hne⟩ := not_or.1 hnot
    rw [not_not.1 hk, UInt8.toNat_zero, RTable.closest_zero hne] at hres
    cases hres
  · intro hcases
    by_cases hk : k = 0
    · have hnil := hcases.resolve_left (not_not.2 hk)
      exact ⟨[], RTable.closest_of_nil hnil target _, by simp [hnil], by simp, by simp, .nil, by simp⟩
    · exact RTable.closest_isClosest h.wf (Nat.pos_of_ne_zero fun h0 => hk (UInt8.toNat_inj.1 h0))

/-- Four peers, of which two are asked for. -/
def fourPeers : RTable :=
  [1, 2, 3, 4].foldl (fun r i => (r.seen ⟨default, Vector.replicate _ i⟩).1) (RTable.newrtable default)

theorem closest_iff_two : ∃ res, fourPeers.closest (Vector.replicate _ 3) 2 = some res ∧
    fourPeers.IsClosest (Vector.replicate _ 3) 2 res :=
  (closest_iff (.seen _ (.seen _ (.seen _ (.seen _ .new)))) _ 2).2 (.inl (by decide))

theorem closest_none_out_of_range : (RTable.newrtable default).closest (Vector.replicate _ 0) 0 = none := by
  decide +kernel

end NdnGeth.Kad
