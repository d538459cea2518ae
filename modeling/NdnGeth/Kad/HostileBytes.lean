/-
What bytes from the network do to the program: an object that is fetched as
the reply to an RPC, and a request that is delivered to the server. `Verify`
slices the last byte off a signature that may be empty; `findnode` takes the
peers of a response that is nil where the reply was to a ping; a name with a
short digest component cannot be printed, and the identity of a record is made
from the printed name; and `closest` has no place for the first of no peers.
Nothing else goes wrong (`completes_iff`).
-/
import NdnGeth.Kad.Closest
import NdnGeth.Kad.SeenRecords
import NdnGeth.Utils.Cacher

namespace NdnGeth.Kad

open Lib (Run)
open Lib.Hex
open Lib.Rlp (Bytes)

variable {prims : Primitives} {srv : Server} {cli : Client} {node node' : Kadnode} {obj : Bytes}

/-! ## The node's side of the calls -/

def idFromHexString (s : Bytes) : Option ID := (hexDecode s).map fun b => .ofFn fun i => b.getD i.val 0

/-- `ID.String`. -/
def ID.hexString (id : ID) : Bytes := hexEncode id.toList

/-- `NdnNodeRecordMarshaling`; `none` where the name cannot be printed. -/
def ndnNodeRecordMarshaling (rec : NdnNodeRecord) : Option NdnNodeRecordInfo :=
  (prettyName rec.pfx).map fun pfx => ⟨pfx, rec.pubkey⟩

namespace Kadnode

/-- `Find`; `none` is a panic. -/
def find (node : Kadnode) (target : Bytes) (k : BitVec 8) : Option (List NdnNodeRecordInfo) :=
  if node.dead then some []
  else
    match idFromHexString target with
    | none => some []
    | some id => (node.rtable.closest id k.toNat).bind fun peers => peers.mapM fun p => ndnNodeRecordMarshaling p.record

/-- `GetSegment` over the node's own table. -/
def serve (prims : Primitives) (srv : Server) (node : Kadnode) : Query → Option (Kadnode × Option KadRpcResponse)
  | .request req (.findnode params) =>
    (node.find params.target params.k).bind fun infos =>
      node.getSegment prims { srv with find := fun _ _ => infos } (.request req (.findnode params))
  | query => node.getSegment prims srv query

def makepeers (prims : Primitives) (node : Kadnode) (infos : List NdnNodeRecordInfo) : Option (List Kadpeer) :=
  infos.mapM fun info =>
    (ndnNodeRecordUnmarshaling prims info).map fun rec => (node.rtable.get rec.id false).getD (peerFromRecord rec)

def NUM_FINDNODE_ATTEMPS : Nat := 2

/-- What `findnode` returns. -/
inductive Found
  | peers (l : List Kadpeer)
  | jobAborted
  | err (e : Option RpcError)
  deriving DecidableEq

def findnodeTry (prims : Primitives) (cli : Client) (node : Kadnode) (params : FindnodeParams) (p : Kadpeer) (net : Network)
    (nonce : BitVec 64) : Option (Except RpcError (List Kadpeer)) :=
  match cli.findnode prims net nonce params p with
  | .error .crash => none
  | .error (.err e) => some (.error e)
  -- `response.Peers` of a nil response
  | .ok (none, _) => none
  | .ok (some response, _) => (node.makepeers prims response.peers).map .ok

/-- The loop of `findnode`, with so many tries left; each finds the abort
signal, or a network. -/
def findnodeLoop (prims : Primitives) (cli : Client) (node : Kadnode) (params : FindnodeParams) (p : Kadpeer)
    (tries : Nat → Option (Network × BitVec 64)) : Nat → Option RpcError → Option Found
  | 0, err => some (.err err)
  | n + 1, _ =>
    match tries n with
    | none => some .jobAborted
    | some (net, nonce) =>
      match node.findnodeTry prims cli params p net nonce with
      | none => none
      | some (.error e) => findnodeLoop prims cli node params p tries n (some e)
      | some (.ok l) => some (.peers l)

/-- `findnode`; `none` is a panic. -/
def findnode (prims : Primitives) (cli : Client) (node : Kadnode) (target : ID) (k : Nat) (p : Kadpeer)
    (tries : Nat → Option (Network × BitVec 64)) : Option Found :=
  if node.rtable.self.id = p.id then (node.rtable.closest target k).map .peers
  else node.findnodeLoop prims cli ⟨target.hexString, .ofNat 8 k⟩ p tries NUM_FINDNODE_ATTEMPS none

end Kadnode

/-! ## Bytes that do no harm -/

/-- The digest components of the name have two bytes or more. -/
def printableName (name : Name) : Bool := name.all fun c => (c.typ ≠ 1 ∧ c.typ ≠ 2) ∨ 2 ≤ c.value.length

/-- The record of this sender has an identity. -/
def printable (prims : Primitives) (info : NdnNodeRecordInfo) : Bool := printableName (prims.parseName info.pfx)

/-- A reply to a ping: with a signature, and from a printable sender where it is
accepted. -/
def safeReply (prims : Primitives) (obj : Bytes) : Bool :=
  match KadRpcResponse.codec.decode obj with
  | none => true
  | some resp =>
    match resp.decodeResults with
    | .error _ => true
    | .ok results =>
      !resp.sig.isEmpty && (resp.verify prims results = some false || !resp.err.isEmpty || printable prims resp.sender)

/-- The results in a reply that is accepted. -/
def accepted (prims : Primitives) (obj : Bytes) : Option Results :=
  match KadRpcResponse.codec.decode obj with
  | none => none
  | some resp =>
    match resp.decodeResults with
    | .error _ => none
    | .ok results =>
      match resp.verify prims results, resp.err.isEmpty with
      | some true, true => some results
      | _, _ => none

/-- A reply to a Findnode request: besides, it is one to such a request, with
printable peers. -/
def safeFindnodeReply (prims : Primitives) (obj : Bytes) : Bool :=
  safeReply prims obj &&
    match accepted prims obj with
    | none => true
    | some (.ping _) => false
    | some (.findnode r) => r.peers.all (printable prims)

/-- What is asked for can be answered: at least one peer, unless there is
none, and printable ones. -/
def answerable (node : Kadnode) : Params → Bool
  | .ping _ => true
  | .findnode params =>
    match idFromHexString params.target with
    | none => true
    | some id =>
      (params.k ≠ 0 || node.rtable.peers.isEmpty) &&
        ((node.rtable.closest id params.k.toNat).getD []).all fun p => printableName p.record.pfx

/-- A request: with a signature, and while the node runs from a printable
sender and answerable. -/
def safeRequest (prims : Primitives) (node : Kadnode) (obj : Bytes) : Bool :=
  match decodeInterest (.app ttRpcReq obj) with
  | some (.request req params) => !req.sig.isEmpty && (node.dead || (printable prims req.sender && answerable node params))
  | _ => true

/-- **The bytes do no harm**: as the reply to a ping, as that to every try of
`findnode`, and as a request that is served and verified. A segment of a
cached response is sliced in range. -/
structure Completes (prims : Primitives) (srv : Server) (cli : Client) (node : Kadnode) (obj : Bytes) : Prop where
  ping : ∀ nonce params peer, cli.ping prims (fun _ _ => some obj) nonce params peer ≠ .error .crash
  findnode : ∀ target k p, node.rtable.self.id ≠ p.id →
    node.findnode prims cli target k p (fun n => some (fun _ _ => some obj, .ofNat 64 n)) ≠ none
  request : ∀ query, decodeInterest (.app ttRpcReq obj) = some query → node.serve prims srv query ≠ none
  verify : ∀ req params, decodeInterest (.app ttRpcReq obj) = some (.request req params) → req.verify prims params ≠ none
  segment : ∀ (c : Utils.SimpleCacher) wire segId, segId < c.num wire → segId * c.ssize ≤ min wire.length ((segId + 1) * c.ssize)

/-! ## Replies -/

theorem prettyName_isSome (name : Name) : (prettyName name).isSome = printableName name := by
  induction name with
  | nil => rfl
  | cons c name ih =>
    rw [printableName, List.all_cons, ← printableName, ← ih, prettyName, prettyNameComponent]
    by_cases hdig : c.typ = 1 ∨ c.typ = 2
    · have hnot : ¬(c.typ ≠ 1 ∧ c.typ ≠ 2) := fun h => hdig.elim h.1 h.2
      by_cases hlen : c.value.length < 2
      · simp [hdig, hnot, hlen]
      · simp only [hdig, hnot, hlen, if_true, if_false, false_or, Nat.not_lt.1 hlen, decide_true, Bool.true_and]
        cases prettyName name <;> rfl
    · rw [not_or] at hdig
      simp only [hdig, or_self, if_false, ne_eq, not_false_iff, and_self, true_or, decide_true, Bool.true_and]
      cases prettyName name <;> rfl

theorem unmarshaling_isSome (info : NdnNodeRecordInfo) :
    (ndnNodeRecordUnmarshaling prims info).isSome = printable prims info := by
  unfold ndnNodeRecordUnmarshaling printable
  rw [← prettyName_isSome]
  cases prettyName (prims.parseName info.pfx) <;> rfl

theorem receive_cases (prims : Primitives) (peer : Kadpeer) (obj : Bytes) :
    (safeReply prims obj = false ∧ Client.receive prims peer obj = .error .crash) ∨
      safeReply prims obj = true ∧
        ((accepted prims obj = none ∧ ∃ e, Client.receive prims peer obj = .error (.err e)) ∨
          ∃ results peer', accepted prims obj = some results ∧ Client.receive prims peer obj = .ok (results, peer')) := by
  unfold safeReply accepted Client.receive
  cases KadRpcResponse.codec.decode obj with
  | none => exact .inr ⟨rfl, .inl ⟨rfl, _, rfl⟩⟩
  | some resp =>
    simp only
    cases resp.decodeResults with
    | error e => cases e <;> exact .inr ⟨rfl, .inl ⟨rfl, _, rfl⟩⟩
    | ok results =>
      have hsig : resp.verify prims results = none ↔ resp.sig.isEmpty = true := by
        unfold KadRpcResponse.verify
        split <;> simp_all
      simp only
      cases hver : resp.verify prims results with
      | none =>
        rw [hsig.1 hver]
        exact .inl ⟨rfl, rfl⟩
      | some valid =>
        have hne : resp.sig.isEmpty = false := by
          cases he : resp.sig.isEmpty with
          | false => rfl
          | true => cases hver.symm.trans (hsig.2 he)
        rw [hne]
        cases valid with
        | false => exact .inr ⟨rfl, .inl ⟨rfl, _, rfl⟩⟩
        | true =>
          cases resp.err.isEmpty with
          | false => exact .inr ⟨rfl, .inl ⟨rfl, _, rfl⟩⟩
          | true =>
            rw [← unmarshaling_isSome]
            simp only [Kadpeer.updateNodeRecord]
            cases ndnNodeRecordUnmarshaling prims resp.sender with
            | none => exact .inl ⟨rfl, rfl⟩
            | some rec =>
              refine .inr ⟨rfl, .inr ⟨results, ?_⟩⟩
              dsimp only
              split_ifs <;> exact ⟨_, rfl, rfl⟩

theorem mapM_isSome {α β : Type} (f : α → Option β) (l : List α) : (l.mapM f).isSome = l.all fun a => (f a).isSome := by
  induction l with
  | nil => rfl
  | cons a l ih =>
    rw [List.mapM_cons, List.all_cons, ← ih]
    cases f a <;> cases l.mapM f <;> rfl

theorem ping_iff : (∀ nonce params peer, cli.ping prims (fun _ _ => some obj) nonce params peer ≠ .error .crash) ↔
    safeReply prims obj = true := by
  have hping (nonce : BitVec 64) (params : PingParams) (peer : Kadpeer) :
      cli.ping prims (fun _ _ => some obj) nonce params peer ≠ .error .crash ↔ safeReply prims obj = true := by
    simp only [Client.ping, Client.request]
    rcases receive_cases prims peer obj with ⟨hs, hr⟩ | ⟨hs, ⟨-, e, hr⟩ | ⟨results, peer', -, hr⟩⟩
    · simp [hs, hr]
    · simp [hs, hr]
    · cases results <;> simp [hs, hr]
  exact ⟨fun h => (hping 0 ⟨0⟩ default).1 (h 0 ⟨0⟩ default), fun h nonce params peer => (hping nonce params peer).2 h⟩

theorem findnodeTry_isSome (prims : Primitives) (cli : Client) (node : Kadnode) (obj : Bytes) (params : FindnodeParams)
    (p : Kadpeer) (nonce : BitVec 64) :
    (node.findnodeTry prims cli params p (fun _ _ => some obj) nonce).isSome = safeFindnodeReply prims obj := by
  simp only [Kadnode.findnodeTry, Client.findnode, Client.request, safeFindnodeReply]
  rcases receive_cases prims p obj with ⟨hs, hr⟩ | ⟨hs, ⟨ha, e, hr⟩ | ⟨results, p', ha, hr⟩⟩
  · rw [hs, hr]
    rfl
  · rw [hs, ha, hr]
    rfl
  · rw [hs, ha, hr]
    cases results with
    | ping r => rfl
    | findnode r =>
      simp only [Kadnode.makepeers, Option.isSome_map, mapM_isSome, unmarshaling_isSome, Bool.true_and]

theorem findnode_iff : (∀ target k p, node.rtable.self.id ≠ p.id →
    node.findnode prims cli target k p (fun n => some (fun _ _ => some obj, .ofNat 64 n)) ≠ none) ↔
      safeFindnodeReply prims obj = true := by
  have htry := findnodeTry_isSome prims cli node obj
  constructor
  · intro h
    have hne : ∃ p : Kadpeer, node.rtable.self.id ≠ p.id := by
      by_cases h0 : node.rtable.self.id = Vector.replicate _ 0
      · exact ⟨⟨default, Vector.replicate _ 1⟩, by rw [h0]; decide⟩
      · exact ⟨⟨default, Vector.replicate _ 0⟩, h0⟩
    obtain ⟨p, hp⟩ := hne
    rw [← htry ⟨(default : ID).hexString, .ofNat 8 1⟩ p (.ofNat 64 1), Option.isSome_iff_ne_none]
    intro hnone
    refine h default 1 p hp ?_
    rw [Kadnode.findnode, if_neg hp, Kadnode.NUM_FINDNODE_ATTEMPS, Kadnode.findnodeLoop]
    simp only [hnone]
  · intro hs target k p hp
    rw [Kadnode.findnode, if_neg hp]
    generalize Kadnode.NUM_FINDNODE_ATTEMPS = n
    generalize (none : Option RpcError) = err
    induction n generalizing err with
    | zero => exact Option.some_ne_none _
    | succ n ih =>
      rw [Kadnode.findnodeLoop]
      obtain ⟨res, hres⟩ := Option.isSome_iff_exists.1 ((htry ⟨target.hexString, .ofNat 8 k⟩ p (.ofNat 64 n)).trans hs)
      simp only [hres]
      cases res with
      | error e => exact ih _
      | ok l => exact Option.some_ne_none _

/-! ## Requests -/

/-- The channel to the main loop is empty where no signal was given. -/
def Kadnode.Ready (node : Kadnode) : Prop := node.seench = true → node.seensig = true

theorem foldl_seepeer_seench (l : List NdnNodeRecord) (node : Kadnode) : (l.foldl Kadnode.seepeer node).seench = node.seench := by
  induction l generalizing node with
  | nil => rfl
  | cons rec l ih =>
    rw [List.foldl_cons, ih]
    rcases node.seepeer_cases rec with heq | ⟨p, -, heq⟩
    · rw [heq]
      rfl
    · rw [heq]

theorem Kadnode.Ready.addSeenRecord {info : NdnNodeRecordInfo} (h : node.Ready)
    (hadd : node.addSeenRecord prims info = some node') : node'.Ready := by
  simp only [Kadnode.addSeenRecord] at hadd
  split at hadd
  · cases hadd
    exact h
  · split at hadd
    · cases hadd
    · split at hadd
      · cases hadd
        exact h
      · split at hadd
        · cases hadd
        · cases hadd
          exact fun _ => rfl

theorem Kadnode.Ready.step {a : Kadnode.Act} (h : node.Ready) (hstep : node.step prims srv a = some node') : node'.Ready := by
  cases a with
  | deliver i =>
    simp only [Kadnode.step] at hstep
    cases hdec : decodeInterest i with
    | none =>
      rw [hdec] at hstep
      cases hstep
      exact h
    | some query =>
      rw [hdec] at hstep
      obtain ⟨r, hget, rfl⟩ := Option.map_eq_some_iff.1 hstep
      cases query with
      | segment id segId =>
        cases hget
        exact h
      | request req params => exact h.addSeenRecord (Kadnode.getSegment_request hget).1
  | markseen =>
    simp only [Kadnode.step, Option.ite_none_right_eq_some, Option.some.injEq] at hstep
    obtain ⟨-, rfl⟩ := hstep
    intro hch
    rw [Kadnode.markseenpeers, foldl_seepeer_seench] at hch
    cases hch
  | peerstatechange p live =>
    cases hstep
    cases live with
    | true => rw [Kadnode.peerstatechange_live]; exact h
    | false => rw [Kadnode.peerstatechange_dead]; exact h
  | droppeer id =>
    cases hstep
    exact h
  | stop =>
    cases hstep
    exact h

theorem addSeenRecord_isSome (prims : Primitives) (h : node.Ready) (info : NdnNodeRecordInfo) :
    (node.addSeenRecord prims info).isSome = (node.dead || printable prims info) := by
  unfold Kadnode.addSeenRecord
  rw [← unmarshaling_isSome]
  cases node.dead with
  | true => rfl
  | false =>
    cases ndnNodeRecordUnmarshaling prims info with
    | none => rfl
    | some rec =>
      cases hs : node.seensig with
      | true => simp
      | false =>
        have hch : node.seench = false := by simpa [Kadnode.Ready, hs] using h
        simp [hch]

theorem find_isSome (node : Kadnode) (params : FindnodeParams) :
    (node.find params.target params.k).isSome = (node.dead || answerable node (.findnode params)) := by
  unfold Kadnode.find answerable
  cases node.dead with
  | true => rfl
  | false =>
    simp only [Bool.false_eq_true, if_false, Bool.false_or]
    cases idFromHexString params.target with
    | none => rfl
    | some id =>
      have hk : (decide (params.k ≠ 0) || node.rtable.peers.isEmpty) = (node.rtable.closest id params.k.toNat).isSome := by
        rw [RTable.closest_isSome]
        simp [← BitVec.toNat_inj]
      dsimp only
      rw [hk]
      cases node.rtable.closest id params.k.toNat with
      | none => rfl
      | some peers =>
        rw [Option.bind_some, mapM_isSome]
        simp only [ndnNodeRecordMarshaling, Option.isSome_map, prettyName_isSome, Option.isSome_some, Bool.true_and, Option.getD_some]

theorem serve_isSome (prims : Primitives) (srv : Server) (h : node.Ready) (req : KadRpcRequest) (params : Params) :
    (node.serve prims srv (.request req params)).isSome =
      (node.dead || (printable prims req.sender && answerable node params)) := by
  have hadd := addSeenRecord_isSome prims h req.sender
  cases params with
  | ping p =>
    simp only [Kadnode.serve, Kadnode.getSegment, Kadnode.apiPing, Option.isSome_map, hadd, answerable, Bool.and_true]
  | findnode p =>
    have hfind := find_isSome node p
    simp only [Kadnode.serve]
    cases hf : node.find p.target p.k with
    | none =>
      rw [hf] at hfind
      cases hd : node.dead <;> simp_all
    | some infos =>
      rw [hf] at hfind
      simp only [Option.bind_some, Kadnode.getSegment, Kadnode.apiFindnode, Option.isSome_map, hadd]
      cases hd : node.dead <;> simp_all

theorem request_iff (h : node.Ready) :
    ((∀ query, decodeInterest (.app ttRpcReq obj) = some query → node.serve prims srv query ≠ none) ∧
      ∀ req params, decodeInterest (.app ttRpcReq obj) = some (.request req params) → req.verify prims params ≠ none) ↔
        safeRequest prims node obj = true := by
  unfold safeRequest
  cases hdec : decodeInterest (.app ttRpcReq obj) with
  | none => simp
  | some query =>
    cases query with
    | segment id segId => simp [Kadnode.serve, Kadnode.getSegment]
    | request req params =>
      have hserve := serve_isSome prims srv h req params
      have hverify : (req.verify prims params).isSome = !req.sig.isEmpty := by
        unfold KadRpcRequest.verify
        cases req.sig <;> rfl
      simp only [Option.some.injEq, forall_eq', Query.request.injEq, and_imp, ← Option.isSome_iff_ne_none, hserve,
        Bool.and_eq_true]
      constructor
      · rintro ⟨h1, h2⟩
        exact ⟨hverify.symm.trans (h2 _ _ rfl rfl), h1⟩
      · rintro ⟨h1, h2⟩
        refine ⟨h2, ?_⟩
        rintro _ _ rfl rfl
        exact hverify.trans h1

/-! ## All bytes -/

/-- **The bytes do no harm** exactly if they are a safe reply to either RPC
and a safe request. -/
theorem completes_iff {me : NdnNodeRecord} {acts : List Kadnode.Act} (hrun : Run (Kadnode.step prims srv) Lib.anyStep (.new me) acts node)
    (cli : Client) (obj : Bytes) :
    Completes prims srv cli node obj ↔ safeFindnodeReply prims obj = true ∧ safeRequest prims node obj = true := by
  have hready : node.Ready := hrun.invariant (fun _ _ _ h _ hstep => Kadnode.Ready.step h hstep) (by simp [Kadnode.Ready, Kadnode.new])
  constructor
  · intro h
    exact ⟨findnode_iff.1 h.findnode, (request_iff hready).1 ⟨h.request, h.verify⟩⟩
  · rintro ⟨hreply, hreq⟩
    obtain ⟨hrequest, hverify⟩ := (request_iff hready).2 hreq
    have hping : safeReply prims obj = true := by
      rw [safeFindnodeReply, Bool.and_eq_true] at hreply
      exact hreply.1
    refine ⟨ping_iff.2 hping, findnode_iff.2 hreply, hrequest, hverify, fun c wire segId hlt => le_min ?_ ?_⟩
    · exact (Lib.mul_lt_of_lt_countPieces (by simp) (by simp) hlt).le
    · exact Nat.mul_le_mul_right _ (Nat.le_succ _)

/-- The stranger's reply, which is to a Findnode request, harms neither RPC of a
node that has seen the stranger. -/
theorem completes_iff_stranger : ∃ node, Run (Kadnode.step pingPrims sampleServer) Lib.anyStep (.new sampleMe) (pingActs pingSig) node ∧
    strangerIn node = true ∧ Completes pingPrims sampleServer sampleClient node (KadRpcResponse.codec.encode strangerReply) := by
  have hexec : (Lib.exec (Kadnode.step pingPrims sampleServer) Lib.anyStep (.new sampleMe) (pingActs pingSig)).map
      (fun node => (strangerIn node, safeRequest pingPrims node (KadRpcResponse.codec.encode strangerReply))) =
      some (true, true) := by
    decide +kernel
  obtain ⟨node, hnode, hin⟩ := Option.map_eq_some_iff.1 hexec
  obtain ⟨hin, hreq⟩ := Prod.mk.inj hin
  exact ⟨node, .of_exec hnode, hin, (completes_iff (.of_exec hnode) sampleClient _).2 ⟨by decide +kernel, hreq⟩⟩

/-- A reply without a signature, the reply of a ping to a Findnode request, and
a request for no peer. -/
theorem hostile_bytes_crash :
    sampleClient.ping samplePrims (returns { peerReply with sig := [] }) 1 ⟨0⟩ samplePeer = .error .crash ∧
      (Kadnode.new sampleMe).findnode samplePrims sampleClient default 1 ⟨default, Vector.replicate _ 1⟩
        (fun _ => some (returns peerReply, 1)) = none ∧
      (Kadnode.new sampleMe).serve samplePrims sampleServer
        (.request { pingOf [0] with method := ttKadRpcFindnode } (.findnode ⟨[48, 48], 0⟩)) = none := by
  have hping : (match sampleClient.ping samplePrims (returns { peerReply with sig := [] }) 1 ⟨0⟩ samplePeer with
      | .error .crash => true
      | _ => false) = true := by
    decide +kernel
  refine ⟨?_, Option.isNone_iff_eq_none.1 (by decide +kernel), Option.isNone_iff_eq_none.1 (by decide +kernel)⟩
  split at hping
  · next h => exact h
  · cases hping

end NdnGeth.Kad
