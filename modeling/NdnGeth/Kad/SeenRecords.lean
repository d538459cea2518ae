/-
Who enters the routing table through the RPC server. A request is decoded
and answered, and its sender is put on the list of seen peers and from there
into the table, all without a call of `Verify`. So the senders that enter are
authentic only if every request that is delivered is.
-/
import NdnGeth.Kad.Node
import NdnGeth.Kad.RpcReply
import NdnGeth.Lib.Run

namespace NdnGeth.Kad

open Lib (Run)
open Lib.Rlp (Bytes Codec)

variable {prims : Primitives} {srv : Server} {me : NdnNodeRecord} {L : List Kadnode.Act}

/-- The record is that of the sender of a request that was delivered and
whose signature verifies under the sender's own key; the identity is made
from that key and the prefix. -/
structure Authenticated (prims : Primitives) (L : List Kadnode.Act) (rec : NdnNodeRecord) : Prop where
  request : ∃ i req params pretty, .deliver i ∈ L ∧ decodeInterest i = some (.request req params) ∧
    req.verify prims params = some true ∧ prettyName (prims.parseName req.sender.pfx) = some pretty ∧
    rec = ⟨makeID prims req.sender.pub pretty, prims.parseName req.sender.pfx, req.sender.pub⟩

/-- Every request that is delivered to a running node verifies. -/
def SignedRequests (prims : Primitives) (node : Kadnode) : Kadnode.Act → Prop
  | .deliver i =>
    match decodeInterest i with
    | some (.request req params) => node.dead = false → req.verify prims params = some true
    | _ => True
  | _ => True

/-- How an entry got into the table: from the server, as the node itself, or
as a peer that answered. -/
def Entered (prims : Primitives) (me : NdnNodeRecord) (L : List Kadnode.Act) (p : Kadpeer) : Prop :=
  (Authenticated prims L p.record ∧ p.id = p.record.id) ∨ p = peerFromRecord me ∨ .peerstatechange p true ∈ L

structure SeenInv (prims : Primitives) (me : NdnNodeRecord) (L : List Kadnode.Act) (node : Kadnode) : Prop where
  wf : node.rtable.WF
  table : ∀ p ∈ node.rtable.entries, Entered prims me L p
  seenlist : ∀ rec ∈ node.seenlist, Authenticated prims L rec

namespace SeenInv

variable {node node' : Kadnode}

theorem new : SeenInv prims me L (.new me) := by
  refine ⟨RTable.WF.newrtable _, fun p hp => ?_, by simp [Kadnode.new]⟩
  rcases RTable.mem_seen hp with rfl | hp
  · exact .inr (.inl rfl)
  · simp [RTable.entries_empty] at hp

theorem congr (h : SeenInv prims me L node) (htable : node'.rtable = node.rtable) (hlist : node'.seenlist = node.seenlist) :
    SeenInv prims me L node' :=
  ⟨htable ▸ h.wf, htable ▸ h.table, hlist ▸ h.seenlist⟩

theorem seen (h : SeenInv prims me L node) {p : Kadpeer} (hp : Entered prims me L p)
    (htable : node'.rtable = (node.rtable.seen p).1) (hlist : node'.seenlist = node.seenlist) :
    SeenInv prims me L node' := by
  refine ⟨htable ▸ h.wf.seen p, fun q hq => ?_, hlist ▸ h.seenlist⟩
  rw [htable] at hq
  rcases RTable.mem_seen hq with rfl | hq
  · exact hp
  · exact h.table q hq

theorem remove (h : SeenInv prims me L node) {id : ID} (htable : node'.rtable = (node.rtable.remove id).1)
    (hlist : node'.seenlist = node.seenlist) : SeenInv prims me L node' := by
  refine ⟨htable ▸ h.wf.remove id, fun q hq => ?_, hlist ▸ h.seenlist⟩
  rw [htable, RTable.entries_remove h.wf] at hq
  exact h.table q (List.mem_filter.1 hq).1

theorem seepeer (h : SeenInv prims me L node) {rec : NdnNodeRecord} (hrec : Authenticated prims L rec) :
    SeenInv prims me L (node.seepeer rec) := by
  rcases node.seepeer_cases rec with heq | ⟨p, hget, heq⟩
  · rw [heq]
    exact h.seen (p := peerFromRecord rec) (.inl ⟨hrec, rfl⟩) rfl rfl
  · rw [heq]
    refine ⟨h.wf.update _ _, fun q hq => ?_, h.seenlist⟩
    rcases RTable.mem_update hq with rfl | hq
    · have hid : p.id = rec.id := RTable.id_of_get hget
      exact .inl ⟨hrec, hid⟩
    · exact h.table q hq

theorem markseenpeers (h : SeenInv prims me L node) : SeenInv prims me L node.markseenpeers := by
  have hloop : ∀ (l : List NdnNodeRecord) (node : Kadnode), (∀ rec ∈ l, Authenticated prims L rec) →
      SeenInv prims me L node → SeenInv prims me L (l.foldl Kadnode.seepeer node) := by
    intro l
    induction l with
    | nil => exact fun _ _ h => h
    | cons rec l ih =>
      intro node hl h
      exact ih _ (fun r hr => hl r (List.mem_cons_of_mem _ hr)) (h.seepeer (hl rec List.mem_cons_self))
  obtain ⟨hwf, htable, -⟩ := hloop node.seenlist node h.seenlist h
  exact ⟨hwf, htable, by simp [Kadnode.markseenpeers]⟩

theorem addSeenRecord (h : SeenInv prims me L node) {info : NdnNodeRecordInfo}
    (hinfo : node.dead = false → ∀ rec, ndnNodeRecordUnmarshaling prims info = some rec → Authenticated prims L rec)
    (hadd : node.addSeenRecord prims info = some node') : SeenInv prims me L node' := by
  simp only [Kadnode.addSeenRecord] at hadd
  split at hadd
  · cases hadd
    exact h
  · next hdead =>
    split at hadd
    · cases hadd
    · next rec hrec =>
      have hnew : ∀ r ∈ node.seenlist ++ [rec], Authenticated prims L r := by
        intro r hr
        rcases List.mem_append.1 hr with hr | hr
        · exact h.seenlist r hr
        · rw [List.mem_singleton.1 hr]
          exact hinfo (Bool.eq_false_iff.2 hdead) rec hrec
      split at hadd
      · cases hadd
        exact ⟨h.wf, h.table, hnew⟩
      · split at hadd
        · cases hadd
        · cases hadd
          exact ⟨h.wf, h.table, hnew⟩

end SeenInv

theorem Kadnode.getSegment_request {node : Kadnode} {req : KadRpcRequest} {params : Params}
    {r : Kadnode × Option KadRpcResponse} (h : node.getSegment prims srv (.request req params) = some r) :
    node.addSeenRecord prims req.sender = some r.1 ∧ r.2 = some (srv.response prims req.method (srv.answer params)) := by
  cases params with
  | ping p =>
    simp only [getSegment, apiPing, Option.map_map, Option.map_eq_some_iff] at h
    obtain ⟨node', hadd, rfl⟩ := h
    exact ⟨hadd, rfl⟩
  | findnode p =>
    simp only [getSegment, apiFindnode, Option.map_map, Option.map_eq_some_iff] at h
    obtain ⟨node', hadd, rfl⟩ := h
    exact ⟨hadd, rfl⟩

theorem SeenInv.deliver {node node' : Kadnode} {i : Interest} (h : SeenInv prims me L node) (hmem : .deliver i ∈ L)
    (hok : SignedRequests prims node (.deliver i)) (hstep : node.step prims srv (.deliver i) = some node') :
    SeenInv prims me L node' := by
  simp only [Kadnode.step] at hstep
  simp only [SignedRequests] at hok
  cases hdec : decodeInterest i with
  | none =>
    rw [hdec] at hstep
    cases hstep
    exact h
  | some query =>
    rw [hdec] at hstep
    obtain ⟨r, hget, rfl⟩ := Option.map_eq_some_iff.1 hstep
    cases query with
    | segment id segId =>
      cases hget
      exact h
    | request req params =>
      rw [hdec] at hok
      obtain ⟨hadd, -⟩ := Kadnode.getSegment_request hget
      refine h.addSeenRecord (fun hdead rec hrec => ?_) hadd
      simp only [ndnNodeRecordUnmarshaling] at hrec
      cases hpretty : prettyName (prims.parseName req.sender.pfx) with
      | none =>
        rw [hpretty] at hrec
        cases hrec
      | some pretty =>
        rw [hpretty] at hrec
        exact ⟨i, req, params, pretty, hmem, hdec, hok hdead, hpretty, (Option.some.inj hrec).symm⟩

theorem SeenInv.step {node node' : Kadnode} {a : Kadnode.Act} (h : SeenInv prims me L node) (hmem : a ∈ L)
    (hok : SignedRequests prims node a) (hstep : node.step prims srv a = some node') : SeenInv prims me L node' := by
  cases a with
  | deliver i => exact h.deliver hmem hok hstep
  | markseen =>
    simp only [Kadnode.step] at hstep
    split at hstep
    · cases hstep
      have h' : SeenInv prims me L { node with seench := false } := h.congr rfl rfl
      exact h'.markseenpeers
    · cases hstep
  | peerstatechange p live =>
    cases hstep
    cases live with
    | true =>
      rw [Kadnode.peerstatechange_live]
      exact h.seen (p := p) (.inr (.inr hmem)) rfl rfl
    | false =>
      rw [Kadnode.peerstatechange_dead]
      exact h.remove rfl rfl
  | droppeer id =>
    cases hstep
    exact h.remove rfl rfl
  | stop =>
    cases hstep
    exact h.congr rfl rfl

/-- **Only authenticated senders enter the routing table**, if every request
that is delivered verifies: each record on the list of seen peers comes from
such a request, and so does each entry of the table but the node itself and
the peers that answered it. -/
theorem only_authenticated_enter {acts : List Kadnode.Act} {node : Kadnode}
    (hrun : Run (Kadnode.step prims srv) (SignedRequests prims) (.new me) acts node) :
    (∀ rec ∈ node.seenlist, Authenticated prims acts rec) ∧
      ∀ p ∈ node.rtable.entries, (Authenticated prims acts p.record ∧ p.id = p.record.id) ∨
        p = peerFromRecord me ∨ .peerstatechange p true ∈ acts := by
  have h0 : SeenInv prims me acts (.new me) := SeenInv.new
  have h := Run.invariant (fun _ _ _ h hok hstep => SeenInv.step h hok.2 hok.1 hstep) (hrun.with_mem fun _ h => h) h0
  exact ⟨h.seenlist, h.table⟩

/-! ## Two pings -/

/-- A ping of `/m` at time 5 with this signature. -/
def pingOf (sig : Bytes) : KadRpcRequest where
  method := ttKadRpcPing
  sender := strangerInfo
  paramsW := PingParams.codec.encode ⟨5⟩
  nonce := 1
  sig := sig

/-- The signature that `/m` makes for it. -/
def pingSig : Bytes :=
  bytesOf 65 0x499b0bfa7be06077a190d06cebb35eeaa965bf0a73be4d658aff8b889d5d7d2c3a0f299fd34a455b431514169f834f39102c6f791cd04ab5e48063683f1503e400

/-- The library functions, with this signature too. -/
def pingPrims : Primitives where
  keccak256 := samplePrims.keccak256
  verifySignature pub hash sig :=
    (pub = strangerInfo.pub ∧ hash = hashOf 0xf8ff7f690c971a5483a372fff59dcdf1d62bb1017322509cf28dc2d87a7e0474 ∧
      sig = pingSig.dropLast) ∨
    samplePrims.verifySignature pub hash sig
  parseName := samplePrims.parseName

/-- The record of `/s`, the node of the samples. -/
def sampleMe : NdnNodeRecord := ⟨makeID pingPrims peerInfo.pub peerInfo.pfx, [⟨8, [115]⟩], peerInfo.pub⟩

def sampleServer : Server := ⟨peerInfo, 7, fun _ _ => [], fun _ => []⟩

def pingActs (sig : Bytes) : List Kadnode.Act :=
  [.deliver (.app ttRpcReq (KadRpcRequest.codec.encode (pingOf sig))), .markseen]

instance (prims : Primitives) (node : Kadnode) : ∀ a, Decidable (SignedRequests prims node a)
  | .deliver i =>
    match h : decodeInterest i with
    | some (.request req params) =>
      decidable_of_iff (node.dead = false → req.verify prims params = some true) (by simp [SignedRequests, h])
    | some (.segment _ _) => .isTrue (by simp [SignedRequests, h])
    | none => .isTrue (by simp [SignedRequests, h])
  | .markseen | .peerstatechange _ _ | .droppeer _ | .stop => .isTrue trivial

/-- The stranger is in the table. -/
def strangerIn (node : Kadnode) : Bool := node.rtable.entries.any fun p => p.record.pubkey == strangerInfo.pub

theorem only_authenticated_enter_ping :
    ∃ node, Run (Kadnode.step pingPrims sampleServer) (SignedRequests pingPrims) (.new sampleMe) (pingActs pingSig) node ∧
      ∃ p ∈ node.rtable.entries, p.record.pubkey = strangerInfo.pub ∧
        Authenticated pingPrims (pingActs pingSig) p.record ∧ p.id = p.record.id := by
  have hexec : (Lib.exec (Kadnode.step pingPrims sampleServer) (SignedRequests pingPrims) (.new sampleMe)
      (pingActs pingSig)).map strangerIn = some true := by
    decide +kernel
  obtain ⟨node, hnode, hin⟩ := Option.map_eq_some_iff.1 hexec
  have hrun := Run.of_exec hnode
  obtain ⟨p, hp, hpub⟩ := List.any_eq_true.1 hin
  have hpub : p.record.pubkey = strangerInfo.pub := by simpa using hpub
  refine ⟨node, hrun, p, hp, hpub, ?_⟩
  rcases (only_authenticated_enter hrun).2 p hp with hauth | rfl | hmem
  · exact hauth
  · have hne : peerInfo.pub ≠ strangerInfo.pub := by decide
    exact absurd hpub hne
  · simp [pingActs] at hmem

/-- A ping of `/m` without a signature puts it into the table. -/
theorem unauthenticated_enters :
    ∃ node, Run (Kadnode.step pingPrims sampleServer) Lib.anyStep (.new sampleMe) (pingActs [0]) node ∧
      ∃ p ∈ node.rtable.entries, p.record.pubkey = strangerInfo.pub ∧ p ≠ peerFromRecord sampleMe ∧
        ¬ Authenticated pingPrims (pingActs [0]) p.record := by
  have hexec : (Lib.exec (Kadnode.step pingPrims sampleServer) Lib.anyStep (.new sampleMe) (pingActs [0])).map strangerIn =
      some true := by
    decide +kernel
  obtain ⟨node, hnode, hin⟩ := Option.map_eq_some_iff.1 hexec
  obtain ⟨p, hp, hpub⟩ := List.any_eq_true.1 hin
  have hpub : p.record.pubkey = strangerInfo.pub := by simpa using hpub
  refine ⟨node, Run.of_exec hnode, p, hp, hpub, ?_, ?_⟩
  · rintro rfl
    have hne : peerInfo.pub ≠ strangerInfo.pub := by decide
    exact absurd hpub hne
  · intro hauth
    obtain ⟨i, req, params, -, hmem, hdec, hver, -, -⟩ := hauth.request
    have hi : i = .app ttRpcReq (KadRpcRequest.codec.encode (pingOf [0])) := by
      simpa [pingActs] using hmem
    have hdec' : decodeInterest (.app ttRpcReq (KadRpcRequest.codec.encode (pingOf [0]))) =
        some (.request (pingOf [0]) (.ping ⟨5⟩)) := by
      decide +kernel
    have hfalse : (pingOf [0]).verify pingPrims (.ping ⟨5⟩) = some false := by
      decide +kernel
    rw [hi, hdec'] at hdec
    obtain ⟨rfl, rfl⟩ := Query.request.inj (Option.some.inj hdec)
    rw [hfalse] at hver
    cases hver

end NdnGeth.Kad
