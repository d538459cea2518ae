/-
The node (`ndn/kad/node.go`, `ndn/kad/ndnpeer.go`) around its routing table:
what the RPC server hands to it, what the main loop does with the peers that
were seen, and the notifications it issues.

A peer is a pointer in the source; `p.update` is the change of the table
entry with its identity. Left out are the list of dead peers, which nothing
reads, the time a peer was last seen, and the orders of the table to ping.
A notification is the peer and whether it is live, at the moment it is
issued; the goroutine that delivers it may be late.
-/
import NdnGeth.Kad.RoutingTable
import NdnGeth.Kad.Rpc

namespace NdnGeth.Kad

open Lib.Rlp (Bytes Codec Fields)

/-! ## A peer's record in the table -/

/-- `p.update(rec)`, for the peer with this identity. -/
def Bucket.update (b : Bucket) (id : ID) (rec : NdnNodeRecord) : Bucket :=
  let set (p : Kadpeer) : Kadpeer := if p.id = id then { p with record := rec } else p
  ⟨b.peers.map set, b.replacements.map set⟩

def RTable.update (r : RTable) (id : ID) (rec : NdnNodeRecord) : RTable :=
  r.setBucket id ((r.bucket id).update id rec)

theorem Bucket.ids_update (b : Bucket) (id : ID) (rec : NdnNodeRecord) :
    (b.update id rec).peers.map Kadpeer.id = b.peers.map Kadpeer.id ∧
      (b.update id rec).replacements.map Kadpeer.id = b.replacements.map Kadpeer.id := by
  have hid : ∀ p : Kadpeer, (if p.id = id then { p with record := rec } else p).id = p.id := by
    intro p
    split_ifs <;> rfl
  simp only [update, List.map_map, Function.comp_def, hid, and_self]

theorem Bucket.mem_update {b : Bucket} {id : ID} {rec : NdnNodeRecord} {q : Kadpeer} (hq : q ∈ (b.update id rec).entries) :
    q = ⟨rec, id⟩ ∨ q ∈ b.entries := by
  simp only [entries, update, ← List.map_append, List.mem_map] at hq
  obtain ⟨p, hp, rfl⟩ := hq
  split_ifs with h
  · exact .inl (by rw [h])
  · exact .inr hp

theorem Bucket.WF.update {b : Bucket} (h : b.WF) (id : ID) (rec : NdnNodeRecord) : (b.update id rec).WF := by
  obtain ⟨hpeers, hreps⟩ := b.ids_update id rec
  have hpl := congrArg List.length hpeers
  have hrl := congrArg List.length hreps
  simp only [List.length_map] at hpl hrl
  refine ⟨?_, hpl ▸ h.peers_le, hrl ▸ h.replacements_le, fun hne => ?_⟩
  · have := h.nodup
    rw [entries, List.map_append] at this
    rwa [entries, List.map_append, hpeers, hreps]
  · rw [hpl]
    refine h.full fun hnil => hne ?_
    rw [hnil] at hrl
    exact List.length_eq_zero_iff.1 hrl

theorem RTable.WF.update {r : RTable} (h : r.WF) (id : ID) (rec : NdnNodeRecord) : (r.update id rec).WF := by
  refine h.setBucket ((h.bucket_of id).update id rec) fun q hq => ?_
  rcases Bucket.mem_update hq with rfl | hq
  · rfl
  · exact h.placed_of id q hq

theorem RTable.mem_update {r : RTable} {id : ID} {rec : NdnNodeRecord} {q : Kadpeer} (hq : q ∈ (r.update id rec).entries) :
    q = ⟨rec, id⟩ ∨ q ∈ r.entries := by
  rcases mem_setBucket hq with hq | hq
  · rcases Bucket.mem_update hq with hq | hq
    · exact .inl hq
    · exact .inr (mem_bucket hq)
  · exact .inr hq

theorem RTable.id_of_get {r : RTable} {id : ID} {onlybucket : Bool} {p : Kadpeer} (h : r.get id onlybucket = some p) :
    p.id = id := by
  simp only [get, Bucket.get] at h
  split at h
  · next q hq =>
    cases h
    simpa using List.find?_some hq
  · split at h
    · cases h
    · simpa using List.find?_some h

/-! ## Interests -/

def ttRpcReq : BitVec 32 := 100
def ttSegReq : BitVec 32 := 101

/-- What an Interest for the RPC server carries: a TLV element, or the name
of a segment. -/
inductive Interest
  | app (typ : BitVec 32) (value : Bytes)
  | name (id : Bytes) (segId : BitVec 16)
  deriving DecidableEq

/-- The query of a message: a request with its parameters, or the identity
and number of a segment. -/
inductive Query
  | request (req : KadRpcRequest) (params : Params)
  | segment (id : Bytes) (segId : BitVec 16)
  deriving DecidableEq

def KadRpcRequest.codec : Codec KadRpcRequest :=
  .struct <|
    (Fields.cons (.uint 2) <| .cons NdnNodeRecordInfo.codec <| .cons .bytes <| .cons (.uint 8) <| .last .bytes).map
      (fun p => ⟨p.1, p.2.1, p.2.2.1, p.2.2.2.1, p.2.2.2.2⟩) (fun r => (r.method, r.sender, r.paramsW, r.nonce, r.sig))
      fun _ => rfl

/-- `RpcSegmentReq`. -/
def rpcSegmentReqCodec : Codec (Bytes × BitVec 16) := .struct <| .cons .bytes <| .last (.uint 2)

/-- `DecodeInterest`, `UnmarshalTlv` and `ExtractQuery`; a message that holds
a segment has no query. -/
def decodeInterest : Interest → Option Query
  | .app typ value =>
    if typ = ttRpcReq then
      match KadRpcRequest.codec.decode value with
      | none => none
      | some req => req.decodeParams.map (.request req)
    else if typ = ttSegReq then
      (rpcSegmentReqCodec.decode value).map fun p => .segment p.1 p.2
    else none
  | .name id segId => some (.segment id segId)

/-- `crypto.Verify` of the content of a request under its sender's key. -/
def KadRpcRequest.verify (prims : Primitives) (req : KadRpcRequest) (params : Params) : Option Bool :=
  let paramsW := if req.paramsW.isEmpty then params.encode else req.paramsW
  if req.sig.isEmpty then none
  else some (prims.verifySignature req.sender.pub
    (prims.keccak256 (signedCodec.encode (req.method, req.sender, paramsW))) req.sig.dropLast)

/-! ## The node -/

/-- `kadnode`: its table, the records seen by the server, the signal to the
main loop (`seench`, of one place) and the notifications issued so far. -/
structure Kadnode where
  rtable : RTable
  seenlist : List NdnNodeRecord
  seensig : Bool
  seench : Bool
  dead : Bool
  events : List (Kadpeer × Bool)

namespace Kadnode

def new (me : NdnNodeRecord) : Kadnode := ⟨.newrtable (peerFromRecord me), [], false, false, false, []⟩

def notifypeerevent (node : Kadnode) (p : Kadpeer) (live : Bool) : Kadnode :=
  { node with events := node.events ++ [(p, live)] }

def seepeer (node : Kadnode) (rec : NdnNodeRecord) : Kadnode :=
  match node.rtable.get rec.id false with
  | none =>
    let p := peerFromRecord rec
    let (rtable, _, added) := node.rtable.seen p
    let node := { node with rtable }
    if added then node.notifypeerevent p true else node
  | some p => { node with rtable := node.rtable.update p.id rec }

def markseenpeers (node : Kadnode) : Kadnode :=
  { node.seenlist.foldl seepeer node with seenlist := [], seensig := false }

def peerstatechange (node : Kadnode) (p : Kadpeer) (live : Bool) : Kadnode :=
  if live then
    let (rtable, _, added) := node.rtable.seen p
    let node := { node with rtable }
    if added then node.notifypeerevent p live else node
  else
    let (rtable, _, inbucket) := node.rtable.remove p.id
    let node := { node with rtable }
    if inbucket then node.notifypeerevent p live else node

/-- `droppeer`; the peer leaves the lists of the pings too. -/
def droppeer (node : Kadnode) (id : ID) : Kadnode := { node with rtable := (node.rtable.remove id).1 }

/-- `AddSeenRecord`. It ends in a failure of `PrettyName`, and it would wait
for ever on a full channel. -/
def addSeenRecord (prims : Primitives) (node : Kadnode) (info : NdnNodeRecordInfo) : Option Kadnode :=
  if node.dead then some node
  else
    match ndnNodeRecordUnmarshaling prims info with
    | none => none
    | some rec =>
      let node := { node with seenlist := node.seenlist ++ [rec] }
      if node.seensig then some node
      else if node.seench then none
      else some { node with seensig := true, seench := true }

/-- `Api.Ping`. -/
def apiPing (prims : Primitives) (srv : Server) (node : Kadnode) (sender : NdnNodeRecordInfo) (_ : PingParams) :
    Option (Kadnode × PingResponse) :=
  (node.addSeenRecord prims sender).map fun node => (node, ⟨srv.now⟩)

/-- `Api.Findnode`. -/
def apiFindnode (prims : Primitives) (srv : Server) (node : Kadnode) (sender : NdnNodeRecordInfo) (params : FindnodeParams) :
    Option (Kadnode × FindnodeResponse) :=
  (node.addSeenRecord prims sender).map fun node => (node, ⟨srv.find params.target params.k⟩)

/-- `GetSegment`: the node, and the response to a request. -/
def getSegment (prims : Primitives) (srv : Server) (node : Kadnode) : Query → Option (Kadnode × Option KadRpcResponse)
  | .request req (.ping params) =>
    (node.apiPing prims srv req.sender params).map fun r => (r.1, some (srv.response prims req.method (.ping r.2)))
  | .request req (.findnode params) =>
    (node.apiFindnode prims srv req.sender params).map fun r => (r.1, some (srv.response prims req.method (.findnode r.2)))
  | .segment _ _ => some (node, none)

/-- What happens to a node. The main loop takes the signal and marks the
peers in one step: until it has, a further record raises no signal. -/
inductive Act
  | deliver (i : Interest)
  | markseen
  | peerstatechange (p : Kadpeer) (live : Bool)
  | droppeer (id : ID)
  | stop

def step (prims : Primitives) (srv : Server) (node : Kadnode) : Act → Option Kadnode
  | .deliver i =>
    match decodeInterest i with
    | none => some node
    | some query => (node.getSegment prims srv query).map Prod.fst
  | .markseen => if node.seench then some { node with seench := false }.markseenpeers else none
  | .peerstatechange p live => some (node.peerstatechange p live)
  | .droppeer id => some (node.droppeer id)
  | .stop => some { node with dead := true }

/-! ## One step -/

variable (node : Kadnode)

/-- A peer goes into the table, and is notified if it is among the peers. -/
def addpeer (p : Kadpeer) : Kadnode :=
  { node with
    rtable := (node.rtable.seen p).1
    events := if (node.rtable.seen p).2.2 then node.events ++ [(p, true)] else node.events }

/-- A peer leaves the table, and is notified if it was among the peers. -/
def losepeer (p : Kadpeer) : Kadnode :=
  { node with
    rtable := (node.rtable.remove p.id).1
    events := if (node.rtable.remove p.id).2.2 then node.events ++ [(p, false)] else node.events }

theorem seepeer_cases (rec : NdnNodeRecord) :
    node.seepeer rec = node.addpeer (peerFromRecord rec) ∨
      ∃ p, node.rtable.get rec.id false = some p ∧
        node.seepeer rec = { node with rtable := node.rtable.update p.id rec } := by
  simp only [seepeer]
  split
  · left
    simp only [addpeer, notifypeerevent]
    split_ifs <;> rfl
  · next p hget => exact .inr ⟨p, hget, rfl⟩

theorem peerstatechange_live (p : Kadpeer) : node.peerstatechange p true = node.addpeer p := by
  simp only [peerstatechange, addpeer, notifypeerevent, if_true]
  split_ifs <;> rfl

theorem peerstatechange_dead (p : Kadpeer) : node.peerstatechange p false = node.losepeer p := by
  simp only [peerstatechange, losepeer, notifypeerevent, Bool.false_eq_true, if_false]
  split_ifs <;> rfl

end Kadnode

end NdnGeth.Kad
