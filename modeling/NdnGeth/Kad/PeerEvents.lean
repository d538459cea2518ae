/-
The notifications of a node and the peers of its routing table. Every
identity that is added to or removed from the peers of a bucket is notified,
but for one: the replacement that moves up when a peer is removed. So the
identities whose last notification was "live" are those of the peers as long
as peers die only in buckets without replacements.
-/
import NdnGeth.Kad.Node
import NdnGeth.Lib.Run

namespace NdnGeth.Kad

open Lib (Run)

/-! ## The peers of the table -/

namespace RTable

variable {r : RTable} {id q : ID}

theorem bucket_setBucket_of (b : Bucket) :
    (r.setBucket id b).bucket q = if r.bucketIndex id = r.bucketIndex q then b else r.bucket q :=
  setBucket_getElem b (r.bucketIndex_lt q)

theorem WF.mem_peers (h : r.WF) : q ∈ r.peers.map Kadpeer.id ↔ q ∈ (r.bucket q).peers.map Kadpeer.id := by
  simp only [peers, List.mem_map, List.mem_flatMap, Vector.mem_toList_iff, Vector.mem_iff_getElem]
  constructor
  · rintro ⟨p, ⟨_, ⟨i, hi, rfl⟩, hp⟩, rfl⟩
    obtain rfl := h.placed i hi p (List.mem_append_left _ hp)
    exact ⟨p, hp, rfl⟩
  · rintro ⟨p, hp, hid⟩
    exact ⟨p, ⟨_, ⟨_, r.bucketIndex_lt q, rfl⟩, hp⟩, hid⟩

theorem WF.mem_peers_setBucket (h : r.WF) {b : Bucket} (hwf : (r.setBucket id b).WF) {P : Prop}
    (hin : r.bucketIndex id = r.bucketIndex q → (q ∈ b.peers.map Kadpeer.id ↔ P))
    (hout : r.bucketIndex id ≠ r.bucketIndex q → (q ∈ r.peers.map Kadpeer.id ↔ P)) :
    q ∈ (r.setBucket id b).peers.map Kadpeer.id ↔ P := by
  rw [hwf.mem_peers, bucket_setBucket_of]
  split_ifs with heq
  · exact hin heq
  · rw [← hout heq, h.mem_peers]

theorem bucket_congr (heq : r.bucketIndex id = r.bucketIndex q) : r.bucket id = r.bucket q := by
  simp only [bucket, heq]

theorem WF.mem_peers_seen (h : r.WF) (p : Kadpeer) :
    q ∈ (r.seen p).1.peers.map Kadpeer.id ↔ q ∈ r.peers.map Kadpeer.id ∨ (r.seen p).2.2 = true ∧ q = p.id := by
  have hwf := h.seen p
  rw [seen_eq] at hwf ⊢
  refine h.mem_peers_setBucket hwf (fun heq => ?_) (fun hne => ?_)
  · rw [h.mem_peers, ← bucket_congr heq]
    by_cases hp : p.id ∈ (r.bucket p.id).peers.map Kadpeer.id
    · rw [Bucket.add_known hp]
      simp
    · rcases Nat.lt_or_ge (r.bucket p.id).peers.length BUCKETSIZE with hroom | hfull
      · rw [Bucket.add_room hp hroom]
        simp [eq_comm]
      · obtain ⟨rs, hadd, -⟩ := Bucket.add_full hp hfull
        rw [hadd]
        simp
  · constructor
    · exact .inl
    · rintro (hq | ⟨-, rfl⟩)
      · exact hq
      · exact absurd rfl hne

theorem WF.remove_inbucket (h : r.WF) (id : ID) : (r.remove id).2.2 = true ↔ id ∈ r.peers.map Kadpeer.id := by
  rw [remove_eq, h.mem_peers]
  exact (Bucket.remove_spec (h.bucket_of id) id).inbucket

theorem WF.mem_peers_remove (h : r.WF) (id : ID) :
    q ∈ (r.remove id).1.peers.map Kadpeer.id ↔
      q ∈ r.peers.map Kadpeer.id ∧ q ≠ id ∨ q ∈ ((r.bucket id).promoted id).map Kadpeer.id := by
  have hwf := h.remove id
  rw [remove_eq] at hwf ⊢
  refine h.mem_peers_setBucket hwf (fun heq => ?_) (fun hne => ?_)
  · rw [h.mem_peers, ← bucket_congr heq, (Bucket.remove_spec (h.bucket_of id) id).peers]
    simp only [List.map_append, List.mem_append, List.mem_map, List.mem_filter, bne_iff_ne]
    constructor
    · rintro (⟨p, ⟨hp, hne⟩, rfl⟩ | hup)
      · exact .inl ⟨⟨p, hp, rfl⟩, hne⟩
      · exact .inr hup
    · rintro (⟨⟨p, hp, rfl⟩, hne⟩ | hup)
      · exact .inl ⟨p, ⟨hp, hne⟩, rfl⟩
      · exact .inr hup
  · constructor
    · exact fun hq => .inl ⟨hq, fun heq => hne (by rw [heq])⟩
    · rintro (⟨hq, -⟩ | hup)
      · exact hq
      · -- What moves up belongs to the bucket it was a replacement of.
        obtain ⟨p, hp, rfl⟩ := List.mem_map.1 hup
        have hmem : p ∈ (r.bucket id).entries := by
          simp only [Bucket.promoted] at hp
          split_ifs at hp
          · exact List.mem_append_right _ (List.mem_of_mem_take hp)
          · simp at hp
        exact absurd (h.placed_of id p hmem).symm hne

theorem WF.mem_peers_update (h : r.WF) (id : ID) (rec : NdnNodeRecord) :
    q ∈ (r.update id rec).peers.map Kadpeer.id ↔ q ∈ r.peers.map Kadpeer.id := by
  refine h.mem_peers_setBucket (h.update id rec) (fun heq => ?_) (fun _ => Iff.rfl)
  rw [((r.bucket id).ids_update id rec).1, h.mem_peers, ← bucket_congr heq]

end RTable

/-! ## Notifications -/

/-- Whether the last notification of an identity was "live". -/
def lastLive (events : List (Kadpeer × Bool)) (id : ID) : Bool :=
  match (events.filter fun e => e.1.id == id).getLast? with
  | some e => e.2
  | none => false

theorem lastLive_append (events : List (Kadpeer × Bool)) (p : Kadpeer) (live : Bool) (id : ID) :
    lastLive (events ++ [(p, live)]) id = if p.id = id then live else lastLive events id := by
  by_cases h : p.id = id
  · simp [lastLive, List.filter_append, h]
  · simp [lastLive, List.filter_append, h]

/-- What changes the table and is notified. -/
inductive PeerStep
  | seepeer (rec : NdnNodeRecord)
  | peerstatechange (p : Kadpeer) (live : Bool)

def Kadnode.peerStep (node : Kadnode) : PeerStep → Option Kadnode
  | .seepeer rec => some (node.seepeer rec)
  | .peerstatechange p live => some (node.peerstatechange p live)

/-- A peer that dies leaves no replacement behind to move up. -/
def NoReplacement (node : Kadnode) : PeerStep → Prop
  | .seepeer _ => True
  | .peerstatechange p live =>
    live = false → p.id ∈ (node.rtable.bucket p.id).peers.map Kadpeer.id → (node.rtable.bucket p.id).replacements = []

/-- The notifications agree with the table, up to the node's own identity. -/
structure EventInv (own : ID) (node : Kadnode) : Prop where
  wf : node.rtable.WF
  live : ∀ id, id ≠ own → (lastLive node.events id = true ↔ id ∈ node.rtable.peers.map Kadpeer.id)

namespace EventInv

variable {own : ID} {node : Kadnode}

theorem new (me : NdnNodeRecord) : EventInv me.id (.new me) := by
  refine ⟨RTable.WF.newrtable _, fun id hne => ?_⟩
  have hpeers : id ∈ (RTable.newrtable (peerFromRecord me)).peers.map Kadpeer.id ↔
      id ∈ (RTable.empty (peerFromRecord me)).peers.map Kadpeer.id ∨ _ ∧ id = me.id :=
    (RTable.WF.empty _).mem_peers_seen (peerFromRecord me)
  have hnone : id ∉ (RTable.empty (peerFromRecord me)).peers.map Kadpeer.id := by
    simp [RTable.peers, RTable.empty]
  simp only [Kadnode.new]
  rw [hpeers]
  simp [lastLive, hne, hnone]

theorem addpeer (h : EventInv own node) (p : Kadpeer) : EventInv own (node.addpeer p) := by
  refine ⟨h.wf.seen p, fun id hne => ?_⟩
  have hlive := h.live id hne
  simp only [Kadnode.addpeer]
  rw [h.wf.mem_peers_seen p]
  split_ifs with hadded
  · rw [lastLive_append]
    split_ifs with hid
    · simp [hadded, hid]
    · simp [hlive, Ne.symm hid]
  · simp [hlive, hadded]

theorem losepeer (h : EventInv own node) {p : Kadpeer} (hup : (node.rtable.bucket p.id).promoted p.id = []) :
    EventInv own (node.losepeer p) := by
  refine ⟨h.wf.remove p.id, fun id hne => ?_⟩
  have hin := h.wf.remove_inbucket p.id
  have hlive := h.live id hne
  simp only [Kadnode.losepeer]
  rw [h.wf.mem_peers_remove p.id, hup]
  split_ifs with hbucket
  · rw [lastLive_append]
    split_ifs with hid
    · simp [hid]
    · simp [hlive, Ne.symm hid]
  · -- The peer was not there, so no identity is lost.
    have hother : id ∈ node.rtable.peers.map Kadpeer.id → id ≠ p.id := fun hmem heq => hbucket (hin.2 (heq ▸ hmem))
    rw [hlive]
    simpa using hother

theorem step {node' : Kadnode} {a : PeerStep} (h : EventInv own node) (hok : NoReplacement node a)
    (hstep : node.peerStep a = some node') : EventInv own node' := by
  cases a with
  | seepeer rec =>
    cases hstep
    rcases node.seepeer_cases rec with heq | ⟨p, -, heq⟩
    · rw [heq]
      exact h.addpeer _
    · rw [heq]
      exact ⟨h.wf.update _ _, fun id hne => (h.live id hne).trans (h.wf.mem_peers_update _ _).symm⟩
  | peerstatechange p live =>
    cases hstep
    cases live with
    | true =>
      rw [Kadnode.peerstatechange_live]
      exact h.addpeer p
    | false =>
      rw [Kadnode.peerstatechange_dead]
      refine h.losepeer ?_
      simp only [Bucket.promoted]
      split_ifs with hin
      · rw [hok rfl hin]
        rfl
      · rfl

end EventInv

/-- **Peer events mirror the routing table**, if peers die only in buckets
without replacements: the identities whose last notification was "live" are
those among the peers of the buckets, the node's own aside. -/
theorem peer_events_mirror {me : NdnNodeRecord} {steps : List PeerStep} {node : Kadnode}
    (hrun : Run Kadnode.peerStep NoReplacement (.new me) steps node) (id : ID) (hid : id ≠ me.id) :
    lastLive node.events id = true ↔ id ∈ node.rtable.peers.map Kadpeer.id :=
  (hrun.invariant (fun _ _ _ h hok hstep => h.step hok hstep) (EventInv.new me)).live id hid

/-! ## Two runs -/

instance (node : Kadnode) : ∀ a, Decidable (NoReplacement node a)
  | .seepeer _ => .isTrue trivial
  | .peerstatechange p live =>
    inferInstanceAs (Decidable (live = false → p.id ∈ (node.rtable.bucket p.id).peers.map Kadpeer.id →
      (node.rtable.bucket p.id).replacements = []))

/-- Identities that differ from the node's own in the first bit. -/
def farID (n : UInt8) : ID := (Vector.replicate ADDRBYTES 0).set 0 0x80 |>.set 19 n

def farRecord (n : UInt8) : NdnNodeRecord := ⟨farID n, [], []⟩

def nearRecord : NdnNodeRecord := ⟨Vector.replicate ADDRBYTES 0, [], []⟩

theorem peer_events_mirror_sample :
    ∃ node, Run Kadnode.peerStep NoReplacement (.new nearRecord)
        [.seepeer (farRecord 0), .peerstatechange (peerFromRecord (farRecord 1)) true,
          .peerstatechange (peerFromRecord (farRecord 0)) false] node ∧
      farID 1 ∈ node.rtable.peers.map Kadpeer.id ∧ farID 0 ∉ node.rtable.peers.map Kadpeer.id := by
  have hexec : (Lib.exec Kadnode.peerStep NoReplacement (.new nearRecord)
      [.seepeer (farRecord 0), .peerstatechange (peerFromRecord (farRecord 1)) true,
        .peerstatechange (peerFromRecord (farRecord 0)) false]).map
      (fun node => (lastLive node.events (farID 1), lastLive node.events (farID 0))) = some (true, false) := by
    decide +kernel
  obtain ⟨node, hnode, hlive⟩ := Option.map_eq_some_iff.1 hexec
  obtain ⟨h1, h0⟩ := Prod.mk.inj hlive
  have hrun := Run.of_exec hnode
  refine ⟨node, hrun, (peer_events_mirror hrun (farID 1) (by decide +kernel)).1 h1, fun hin => ?_⟩
  have := (peer_events_mirror hrun (farID 0) (by decide +kernel)).2 hin
  rw [h0] at this
  cases this

/-- Eleven peers of one bucket answer, then the first one dies: the eleventh
moves up and is not notified. -/
theorem promotion_not_notified :
    ∃ node, Run Kadnode.peerStep Lib.anyStep (.new nearRecord)
        ([0, 1, 2, 3, 4, 5, 6, 7, 8, 9, 10].map (fun n => .peerstatechange (peerFromRecord (farRecord n)) true) ++
          [.peerstatechange (peerFromRecord (farRecord 0)) false]) node ∧
      farID 10 ≠ nearRecord.id ∧ farID 10 ∈ node.rtable.peers.map Kadpeer.id ∧ lastLive node.events (farID 10) = false := by
  have hexec : (Lib.exec Kadnode.peerStep Lib.anyStep (.new nearRecord)
      ([0, 1, 2, 3, 4, 5, 6, 7, 8, 9, 10].map (fun n => .peerstatechange (peerFromRecord (farRecord n)) true) ++
        [.peerstatechange (peerFromRecord (farRecord 0)) false])).map
      (fun node => (decide (farID 10 ∈ node.rtable.peers.map Kadpeer.id), lastLive node.events (farID 10))) =
      some (true, false) := by
    decide +kernel
  obtain ⟨node, hnode, hlive⟩ := Option.map_eq_some_iff.1 hexec
  obtain ⟨hin, hlast⟩ := Prod.mk.inj hlive
  exact ⟨node, Run.of_exec hnode, by decide +kernel, of_decide_eq_true hin, hlast⟩

end NdnGeth.Kad
