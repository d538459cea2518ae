/-
The messages of the Kademlia RPC as Interests (`ndn/kad/rpc/rpc.go`). A
request travels as a TLV element in the parameters of an Interest. Further
segments of the reply are asked for by name: the route, the id of the request
and the number of the segment.

The id is the digest of the request's encoding. The client takes it of the
bytes it has sent, which marshalling leaves in the request, and keeps it; the
server takes it of its own encoding of what it has decoded. Once a request is
written, whatever the client does with it keeps the id of those bytes
(`RpcRequest.Written.run`).

A `KadRpcMsg` that holds a segment is not sent in an Interest and is left out.
-/
import NdnGeth.Lib.Run
import NdnGeth.Ndnsuit.Packet
import NdnGeth.Kad.Node

namespace NdnGeth.Kad

open Lib
open Lib.Hex
open Lib.Rlp (Bytes Codec)

/-- `KadRpcRequest`, with the fields that are not sent. -/
structure RpcRequest extends KadRpcRequest where
  params : Option Params
  wire : Bytes
  id : Bytes

namespace RpcRequest

/-- A request as `rlp.DecodeBytes` leaves it. -/
def ofWire (req : KadRpcRequest) : RpcRequest := ⟨req, none, [], []⟩

/-- A request that has been made and not used yet. -/
def made (req : KadRpcRequest) (params : Params) : RpcRequest := ⟨req, some params, [], []⟩

/-- `encodeParams`; without parameters the encoder panics. -/
def encodeParams (req : RpcRequest) : Option RpcRequest :=
  if req.paramsW = [] then
    match req.params with
    | some params => some { req with paramsW := params.encode }
    | none => none
  else some req

section

variable (sha256 : Bytes → Vector UInt8 32)

/-- `hex.EncodeToString` of the digest. -/
def idOf (wire : Bytes) : Bytes := hexEncode (sha256 wire).toList

/-- `getId`, which keeps what it computes. -/
def getId (req : RpcRequest) : RpcRequest × Bytes :=
  if req.id ≠ [] then (req, req.id)
  else
    let wire := if req.wire = [] then KadRpcRequest.codec.encode req.toKadRpcRequest else req.wire
    let id := idOf sha256 wire
    ({ req with wire := wire, id := id }, id)

end

end RpcRequest

inductive KadRpcMsg
  | request (req : RpcRequest)
  | segreq (id : Bytes) (segId : BitVec 16)

namespace KadRpcMsg

/-- `MarshalTlv`; the request keeps the bytes. -/
def marshalTlv : KadRpcMsg → Option (KadRpcMsg × BitVec 32 × Bytes)
  | .request req =>
    match req.encodeParams with
    | none => none
    | some req =>
      let value := KadRpcRequest.codec.encode req.toKadRpcRequest
      some (.request { req with wire := value }, ttRpcReq, value)
  | .segreq id segId => some (.segreq id segId, ttSegReq, rpcSegmentReqCodec.encode (id, segId))

def toName (ndn : Ndn.Library) (pfx : Name) (id : Bytes) (segId : BitVec 16) : Name :=
  Ndn.buildName [pfx, ndn.parseName (Ndn.path [id, Decimal.format segId.toNat])]

/-- `WriteInterest`, with the message afterwards. -/
def writeInterest (ndn : Ndn.Library) (route : RouteInfo) (msg : KadRpcMsg) : Option (KadRpcMsg × Ndn.Interest) :=
  match msg with
  | .request _ =>
    match msg.marshalTlv with
    | none => none
    | some (msg, typ, value) =>
      some (msg, ndn.updateParamsDigest ⟨Ndn.buildName [route.pfx, route.producer], ndn.tlvEncode typ value, []⟩)
  | .segreq id segId => some (msg, ⟨toName ndn (Ndn.buildName [route.pfx, route.producer]) id segId, [], []⟩)

end KadRpcMsg

inductive ReadError | panic | tlv | number | message
  deriving DecidableEq, Repr

/-- The first half of `DecodeInterest`: the TLV element, or the last two
components of the name. -/
def readInterest (ndn : Ndn.Library) (i : Ndn.Interest) : Except ReadError Interest :=
  if i.appParameters ≠ [] then
    match ndn.tlvDecode i.appParameters with
    | some (typ, value) => .ok (.app typ value)
    | none => .error .tlv
  else
    let l := i.name.length
    match i.name[l - 2]?, i.name[l - 1]? with
    | some dataId, some seg =>
      if l < 2 then .error .panic
      else
        match Decimal.parseInt 16 seg.value with
        | some segId => .ok (.name dataId.value (BitVec.ofInt 16 segId))
        | none => .error .number
    | _, _ => .error .panic

/-- `DecodeInterest`, up to the query. -/
def receiveInterest (ndn : Ndn.Library) (i : Ndn.Interest) : Except ReadError Query :=
  match readInterest ndn i with
  | .error e => .error e
  | .ok i =>
    match decodeInterest i with
    | some query => .ok query
    | none => .error .message

/-- The id that `GetSegment` looks the object up by, and caches it under. -/
def Query.id (sha256 : Bytes → Vector UInt8 32) : Query → Bytes
  | .request req params => ((RpcRequest.made req params).getId sha256).2
  | .segment id _ => id

def Query.segId : Query → BitVec 16
  | .request _ _ => 0
  | .segment _ segId => segId

/-! ## Segments -/

theorem ofInt_toNat (v : BitVec 16) : BitVec.ofInt 16 (v.toNat : Int) = v := by
  rw [BitVec.ofInt_natCast, BitVec.ofNat_toNat, BitVec.setWidth_eq]

theorem readInterest_path (ndn : Ndn.Library) {pfx : Name} {id : Bytes} (hid : Ndn.Plain id) (segId : BitVec 16) :
    readInterest ndn ⟨KadRpcMsg.toName ndn pfx id segId, [], []⟩ =
      match Decimal.parseInt 16 (Decimal.format segId.toNat) with
      | some n => .ok (.name id (BitVec.ofInt 16 n))
      | none => .error .number := by
  have hname : KadRpcMsg.toName ndn pfx id segId = pfx ++ [Ndn.generic id, Ndn.generic (Decimal.format segId.toNat)] := by
    unfold KadRpcMsg.toName
    rw [ndn.parseName_path]
    · simp [Ndn.buildName]
    · intro t ht
      simp only [List.mem_cons, List.not_mem_nil, or_false] at ht
      rcases ht with rfl | rfl
      · exact hid
      · exact Ndn.Plain.format _
  unfold readInterest
  rw [if_neg (fun h => h rfl), hname]
  have hlen : (pfx ++ [Ndn.generic id, Ndn.generic (Decimal.format segId.toNat)]).length = pfx.length + 2 := by simp
  simp only [hlen, Nat.add_sub_cancel, List.getElem?_append_right (Nat.le_refl _),
    List.getElem?_append_right (by omega : pfx.length ≤ pfx.length + 2 - 1), Nat.sub_self,
    (by omega : pfx.length + 2 - 1 - pfx.length = 1), List.getElem?_cons_zero, List.getElem?_cons_succ,
    if_neg (by omega : ¬pfx.length + 2 < 2)]
  rfl

theorem receiveInterest_segreq (ndn : Ndn.Library) {pfx : Name} {id : Bytes} (hid : Ndn.Plain id) (segId : BitVec 16) :
    receiveInterest ndn ⟨KadRpcMsg.toName ndn pfx id segId, [], []⟩ =
      if segId.toNat < 2 ^ 15 then .ok (.segment id segId) else .error .number := by
  unfold receiveInterest
  rw [readInterest_path ndn hid, Decimal.parseInt_format]
  by_cases hseg : segId.toNat < 2 ^ 15
  · simp only [if_pos hseg, ofInt_toNat]
    rfl
  · simp only [if_neg hseg]

/-! ## The id of a request -/

section

variable {sha256 : Bytes → Vector UInt8 32}

theorem RpcRequest.idOf_ne_nil (wire : Bytes) : idOf sha256 wire ≠ [] := by
  intro h
  have := congrArg List.length h
  simp [idOf, hexEncode_length] at this

/-- What the client may do with a request. -/
inductive ClientOp
  /-- `WriteInterest` of the whole request. -/
  | write
  /-- `WriteRequest` for a further segment. -/
  | getId
  deriving DecidableEq

def RpcRequest.step (sha256 : Bytes → Vector UInt8 32) (req : RpcRequest) : ClientOp → Option RpcRequest
  | .write =>
    match (KadRpcMsg.request req).marshalTlv with
    | some (.request req, _) => some req
    | _ => none
  | .getId => some (req.getId sha256).1

/-- The request has been written as these bytes. -/
structure RpcRequest.Written (sha256 : Bytes → Vector UInt8 32) (wire : Bytes) (req : RpcRequest) : Prop where
  wire_eq : req.wire = wire
  encode_eq : KadRpcRequest.codec.encode req.toKadRpcRequest = wire
  paramsW_ne : req.paramsW ≠ []
  id_eq : req.id = [] ∨ req.id = idOf sha256 wire

namespace RpcRequest.Written

variable {wire : Bytes} {req req' : RpcRequest}

theorem getId_eq (h : Written sha256 wire req) : (req.getId sha256).2 = idOf sha256 wire := by
  unfold getId
  rcases h.id_eq with hid | hid
  · have hne : wire ≠ [] := h.encode_eq ▸ Codec.encode_ne_nil _ _
    rw [if_neg (fun hn => hn hid), h.wire_eq, if_neg hne]
  · rw [if_pos (hid ▸ idOf_ne_nil wire)]
    exact hid

theorem getId (h : Written sha256 wire req) : Written sha256 wire (req.getId sha256).1 := by
  have hne : wire ≠ [] := h.encode_eq ▸ Codec.encode_ne_nil _ _
  unfold RpcRequest.getId
  split
  · exact h
  · simp only [h.wire_eq, if_neg hne]
    exact ⟨rfl, h.encode_eq, h.paramsW_ne, .inr rfl⟩

theorem write (h : Written sha256 wire req) (hs : req.step sha256 .write = some req') : Written sha256 wire req' := by
  have hm : (KadRpcMsg.request req).marshalTlv =
      some (.request { req with wire := KadRpcRequest.codec.encode req.toKadRpcRequest }, ttRpcReq,
        KadRpcRequest.codec.encode req.toKadRpcRequest) := by
    simp only [KadRpcMsg.marshalTlv, encodeParams, if_neg h.paramsW_ne]
  simp only [RpcRequest.step, hm, Option.some.injEq] at hs
  subst hs
  exact ⟨h.encode_eq, h.encode_eq, h.paramsW_ne, h.id_eq⟩

theorem run {ops : List ClientOp} (h : Written sha256 wire req) (hrun : Run (RpcRequest.step sha256) anyStep req ops req') :
    Written sha256 wire req' := by
  refine hrun.invariant (I := Written sha256 wire) (fun r op r' hr _ hs => ?_) h
  cases op with
  | write => exact hr.write hs
  | getId =>
    cases hs
    exact hr.getId

end RpcRequest.Written

/-- The bytes that a request is sent as: with its parameters encoded, unless
there are bytes for them already. -/
def KadRpcRequest.sent (req : KadRpcRequest) (params : Params) : KadRpcRequest :=
  if req.paramsW = [] then { req with paramsW := params.encode } else req

theorem Params.encode_ne_nil (params : Params) : params.encode ≠ [] := by
  cases params with
  | ping p => exact Codec.encode_ne_nil _ _
  | findnode p => exact Codec.encode_ne_nil _ _

theorem marshalTlv_made (sha256 : Bytes → Vector UInt8 32) (req : KadRpcRequest) (params : Params) :
    ∃ req', (KadRpcMsg.request (.made req params)).marshalTlv =
        some (.request req', ttRpcReq, KadRpcRequest.codec.encode (req.sent params)) ∧
      req'.Written sha256 (KadRpcRequest.codec.encode (req.sent params)) := by
  by_cases hw : req.paramsW = []
  · have hsent : req.sent params = { req with paramsW := params.encode } := if_pos hw
    rw [hsent]
    generalize hr : ({ req with paramsW := params.encode } : KadRpcRequest) = r
    refine ⟨⟨r, some params, KadRpcRequest.codec.encode r, []⟩, ?_, ⟨rfl, rfl, ?_, .inl rfl⟩⟩
    · simp only [KadRpcMsg.marshalTlv, RpcRequest.encodeParams, RpcRequest.made, hw, if_true, hr]
    · exact hr ▸ Params.encode_ne_nil params
  · have hsent : req.sent params = req := if_neg hw
    rw [hsent]
    refine ⟨⟨req, some params, KadRpcRequest.codec.encode req, []⟩, ?_, ⟨rfl, rfl, hw, .inl rfl⟩⟩
    simp only [KadRpcMsg.marshalTlv, RpcRequest.encodeParams, RpcRequest.made, hw, if_false]

theorem decodeParams_sent {req : KadRpcRequest} {params : Params} (hmethod : req.method = params.method)
    (hw : req.paramsW = []) (hfit : params.encode.length < 2 ^ 64) : (req.sent params).decodeParams = some params := by
  unfold KadRpcRequest.sent
  rw [if_pos hw]
  cases params with
  | ping p =>
    have hm : req.method = ttKadRpcPing := hmethod
    simp only [KadRpcRequest.decodeParams, hm, if_true, Params.encode, PingParams.codec.decode_encode hfit, Option.map_some]
  | findnode p =>
    have hm : req.method = ttKadRpcFindnode := hmethod
    have hne : ttKadRpcFindnode ≠ ttKadRpcPing := by decide
    simp only [KadRpcRequest.decodeParams, hm, if_neg hne, if_true, Params.encode, FindnodeParams.codec.decode_encode hfit,
      Option.map_some]

theorem length_paramsW_le (req : KadRpcRequest) : req.paramsW.length ≤ (KadRpcRequest.codec.encode req).length := by
  have hin : Rlp.Item.bytes req.paramsW ∈ [(Codec.uint 2).toItem req.method, NdnNodeRecordInfo.codec.toItem req.sender,
      .bytes req.paramsW, (Codec.uint 8).toItem req.nonce, .bytes req.sig] := by simp
  exact Nat.le_trans (Rlp.length_le_encode_bytes _) (Rlp.encode_length_of_mem hin)

theorem writeInterest_made (sha256 : Bytes → Vector UInt8 32) (ndn : Ndn.Library) (req : KadRpcRequest) (params : Params)
    (route : RouteInfo) (hroute : ∀ c ∈ route.pfx ++ route.producer, c.typ ≠ Ndn.ttParametersSha256DigestComponent)
    (hfit : (KadRpcRequest.codec.encode (req.sent params)).length < 2 ^ 64) :
    ∃ req' i, (KadRpcMsg.request (.made req params)).writeInterest ndn route = some (.request req', i) ∧
      readInterest ndn i = .ok (.app ttRpcReq (KadRpcRequest.codec.encode (req.sent params))) ∧
      req'.Written sha256 (KadRpcRequest.codec.encode (req.sent params)) := by
  obtain ⟨req', hm, hw⟩ := marshalTlv_made sha256 req params
  generalize KadRpcRequest.codec.encode (req.sent params) = wire at hm hw hfit
  obtain ⟨digest, hd⟩ := ndn.updateParamsDigest_eq
    ⟨Ndn.buildName [route.pfx, route.producer], ndn.tlvEncode ttRpcReq wire, []⟩ (by simpa [Ndn.buildName] using hroute)
  refine ⟨req', ndn.updateParamsDigest ⟨Ndn.buildName [route.pfx, route.producer], ndn.tlvEncode ttRpcReq wire, []⟩, ?_, ?_, hw⟩
  · simp only [KadRpcMsg.writeInterest, hm]
  · unfold readInterest
    simp only [hd, ne_eq, ndn.tlvEncode_ne_nil, not_false_iff, if_true,
      ndn.tlvDecode_tlvEncode ttRpcReq wire (by decide) hfit]

theorem receiveInterest_eq_ok {ndn : Ndn.Library} {i : Ndn.Interest} {wire : Bytes} {dec : KadRpcRequest} {query : Query}
    (hread : readInterest ndn i = .ok (.app ttRpcReq wire)) (hdec : KadRpcRequest.codec.decode wire = some dec) :
    receiveInterest ndn i = .ok query ↔ ∃ params, dec.decodeParams = some params ∧ query = .request dec params := by
  simp only [receiveInterest, hread, decodeInterest, if_true, hdec]
  cases dec.decodeParams with
  | none => simp
  | some params => simp [eq_comm]

theorem getId_ofWire (req : KadRpcRequest) :
    ((RpcRequest.ofWire req).getId sha256).2 = RpcRequest.idOf sha256 (KadRpcRequest.codec.encode req) := rfl

end

end NdnGeth.Kad
