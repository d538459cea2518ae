/-
Data requests as Interests (`ndn/eth/ethmsg.go`). The first segment of what a
query asks for is requested with the query itself, as a TLV element in the
parameters. Any other segment, and everything that is asked for by an id, is
requested by a name: the route, `req`, the id of the query and the number of
the segment in decimal. The route goes to the peer by its own name, or by the
common one with a forwarding hint; the producer takes both.

* `request_ids_agree`: the id that a producer computes of a query it has
  decoded is the one the consumer puts into the names, for the queries of the
  eth protocol and the requests of the Kademlia RPC.
* `data_requests_survive`: a request arrives with its id and its segment
  exactly if the number of the segment is below 2 ^ 15. Both decoders read the
  number as a signed one of sixteen bits, and refuse the others.
-/
import NdnGeth.Eth.EthMsg
import NdnGeth.Lib.Keccak

namespace NdnGeth.Eth.Wire

open Lib
open Lib.Hex
open Lib.Rlp (Bytes)
open Core (Hash)
open Kad (NameComponent)

def reqStr : Bytes := [114, 101, 113]

def ethStr : Bytes := [101, 116, 104]

def reqNdnName : NameComponent := Ndn.generic reqStr

def ethNdnName : NameComponent := Ndn.generic ethStr

/-- The `WriteRequest` of the queries: any segment but the first is asked for by id. -/
def Query.writeRequest (sha256 : Bytes → Vector UInt8 32) (q : Query) (segId : BitVec 16) : EthMsg :=
  match q with
  | .generic id => .dataReq ⟨qtGenericQuery, segId, .generic id⟩
  | _ =>
    if segId = 0 then .dataReq ⟨q.qtype, 0, q⟩
    else .dataReq ⟨qtGenericQuery, segId, .generic (q.getId sha256)⟩

structure PeerRouteInfo where
  peername : Kad.Name
  usehint : Bool
  appname : Kad.Name

namespace EthMsg

/-- The name of a generic query, `/req/queryid/segid`; empty for other messages. -/
def queryname (ndn : Ndn.Library) (sha256 : Bytes → Vector UInt8 32) : EthMsg → Kad.Name
  | .dataReq req =>
    if req.qtype = qtGenericQuery then
      ndn.parseName (Ndn.path [reqStr, req.query.getId sha256, Decimal.format req.segment.toNat])
    else []
  | _ => []

def writeInterest (ndn : Ndn.Library) (sha256 : Bytes → Vector UInt8 32) (route : PeerRouteInfo) (msg : EthMsg) : Ndn.Interest :=
  let queryname := msg.queryname ndn sha256
  let routename := Ndn.buildName [route.appname, [ethNdnName]]
  let wire := if queryname = [] then ndn.tlvEncode msg.marshalTlv.1 msg.marshalTlv.2 else []
  let i : Ndn.Interest :=
    if route.usehint then
      let hintname := Ndn.buildName [route.peername, route.appname]
      if queryname = [] then ⟨routename, wire, [(0, hintname)]⟩
      else ⟨Ndn.buildName [routename, queryname], [], [(0, hintname)]⟩
    else
      if queryname = [] then ⟨Ndn.buildName [route.peername, routename], wire, []⟩
      else ⟨Ndn.buildName [route.peername, routename, queryname], [], []⟩
  if wire = [] then i else ndn.updateParamsDigest i

end EthMsg

inductive InterestError
  | unexpected
  | number
  | tlv
  | message (e : Error)
  deriving DecidableEq, Repr

structure EthMsgRequestDecoder where
  prvPfx : Kad.Name
  pubPfx : Kad.Name

namespace EthMsgRequestDecoder

/-- The length of the first prefix that the name goes on from. -/
def matched (enc : EthMsgRequestDecoder) (name : Kad.Name) : Option Nat :=
  if enc.prvPfx <+: name ∧ enc.prvPfx.length < name.length then some enc.prvPfx.length
  else if enc.pubPfx <+: name ∧ enc.pubPfx.length < name.length then some enc.pubPfx.length
  else none

def decodeInterest (ndn : Ndn.Library) (keccak256 : Bytes → Hash) (enc : EthMsgRequestDecoder) (i : Ndn.Interest) :
    Except InterestError EthMsg :=
  match enc.matched i.name with
  | none => .error .unexpected
  | some n =>
    match i.name.drop n with
    | c :: rest =>
      if c = reqNdnName then
        match rest with
        | [queryid, segstr] =>
          match Decimal.parseInt 16 segstr.value with
          | some segment => .ok (.dataReq ⟨qtGenericQuery, BitVec.ofInt 16 segment, .generic queryid.value⟩)
          | none => .error .number
        -- the length of the name is not correct
        | _ => .error .unexpected
      else
        match ndn.tlvDecode i.appParameters with
        | none => .error .tlv
        | some (typ, value) =>
          match EthMsg.unmarshalTlv keccak256 typ value with
          | .ok msg => .ok msg
          | .error e => .error (.message e)
    | [] => .error .unexpected

end EthMsgRequestDecoder

/-- The decoder that the peer registers (`registerProducers`). -/
def PeerRouteInfo.decoder (route : PeerRouteInfo) : EthMsgRequestDecoder where
  prvPfx := Ndn.buildName [Ndn.buildName [route.peername, route.appname], [ethNdnName]]
  pubPfx := Ndn.buildName [route.appname, [ethNdnName]]

/-! ## Ids -/

/-- A digit of base sixteen, or the letter of `0x`. -/
def hexByte (c : UInt8) : Bool :=
  (48 ≤ c.toNat && c.toNat ≤ 57) || (97 ≤ c.toNat && c.toNat ≤ 102) || (65 ≤ c.toNat && c.toNat ≤ 70) || c.toNat == 120

/-- An id in base sixteen, perhaps with `0x` before it. -/
structure HexId (id : Bytes) : Prop where
  ne_nil : id ≠ []
  digits : ∀ c ∈ id, hexByte c = true

theorem HexId.of_all {id : Bytes} (hne : id ≠ []) (h : id.all hexByte = true) : HexId id := ⟨hne, List.all_eq_true.1 h⟩

theorem HexId.plain {id : Bytes} (h : HexId id) : Ndn.Plain id where
  ne_nil := h.ne_nil
  alphanumeric c hc := by
    have := h.digits c hc
    simp only [hexByte, Ndn.alphanumeric, Bool.or_eq_true, Bool.and_eq_true, decide_eq_true_eq, beq_iff_eq] at this ⊢
    omega

theorem HexId.ne_ethStr {id : Bytes} (h : HexId id) : id ≠ ethStr := fun heq =>
  absurd (h.digits 116 (heq ▸ List.mem_cons_of_mem _ List.mem_cons_self)) (by decide)

theorem hexByte_hexEncode {b : Bytes} {c : UInt8} (h : c ∈ hexEncode b) : hexByte c = true := by
  obtain ⟨d, hlt, rfl⟩ := mem_hexEncode h
  exact (by decide : ∀ d < 16, hexByte (hexDigit 97 d) = true) d hlt

theorem hexId_digest (digest : Vector UInt8 32) : HexId (hexEncode digest.toList) where
  ne_nil h := by
    have := congrArg List.length h
    simp [hexEncode_length] at this
  digits _ := hexByte_hexEncode

theorem Query.qtype_ne_generic (q : Query) (h : q.isSpecific = true) : q.qtype ≠ qtGenericQuery := by
  cases q with
  | headers q => exact (by decide : qtHeadersQuery ≠ qtGenericQuery)
  | tx hash => exact (by decide : qtTxQuery ≠ qtGenericQuery)
  | block q => exact (by decide : qtBlockQuery ≠ qtGenericQuery)
  | generic id => cases h

theorem Query.hexId_getId (sha256 : Bytes → Vector UInt8 32) {q : Query} (h : q.isSpecific = true) : HexId (q.getId sha256) := by
  cases q with
  | headers q => exact hexId_digest _
  | tx hash =>
    refine ⟨List.cons_ne_nil _ _, fun c hc => ?_⟩
    rcases List.mem_cons.1 hc with rfl | hc
    · rfl
    · rcases List.mem_cons.1 hc with rfl | hc
      · rfl
      · exact hexByte_hexEncode hc
  | block q => exact hexId_digest _
  | generic id => cases h

/-! ## Routes -/

/-- Where the Interests of a route lead: what stands before the query. -/
def PeerRouteInfo.routePfx (route : PeerRouteInfo) : Kad.Name :=
  if route.usehint then route.appname ++ [ethNdnName] else route.peername ++ route.appname ++ [ethNdnName]

theorem not_private_of_public {peername appname rest : Kad.Name} (hp : peername ≠ []) (h : ethNdnName ∉ rest) :
    ¬(peername ++ appname ++ [ethNdnName] <+: appname ++ [ethNdnName] ++ rest ∧
      (peername ++ appname ++ [ethNdnName]).length < (appname ++ [ethNdnName] ++ rest).length) := by
  rintro ⟨⟨tail, htail⟩, -⟩
  -- the private prefix ends in `eth`, at a place that belongs to `rest`
  have hlen : (peername ++ appname).length < (peername ++ appname ++ [ethNdnName] ++ tail).length := by simp
  have hat : (peername ++ appname ++ [ethNdnName] ++ tail)[(peername ++ appname).length]? = some ethNdnName := by
    rw [List.append_assoc, List.getElem?_append_right (Nat.le_refl _), Nat.sub_self]
    rfl
  have hpos := List.length_pos_iff.2 hp
  rw [htail, List.getElem?_append_right (by simp only [List.length_append, List.length_singleton]; omega)] at hat
  exact h (List.mem_of_getElem? hat)

theorem PeerRouteInfo.matched_routePfx (route : PeerRouteInfo) {rest : Kad.Name} (hne : rest ≠ []) (h : ethNdnName ∉ rest) :
    route.decoder.matched (route.routePfx ++ rest) = some route.routePfx.length := by
  have hpos := List.length_pos_iff.2 hne
  have hprv : route.decoder.prvPfx = route.peername ++ route.appname ++ [ethNdnName] := by simp [decoder, Ndn.buildName]
  have hpub : route.decoder.pubPfx = route.appname ++ [ethNdnName] := by simp [decoder, Ndn.buildName]
  have hgoes : ∀ pfx : Kad.Name, pfx <+: pfx ++ rest ∧ pfx.length < (pfx ++ rest).length := fun pfx =>
    ⟨List.prefix_append .., by rw [List.length_append]; omega⟩
  unfold EthMsgRequestDecoder.matched routePfx
  rw [hprv, hpub]
  cases route.usehint with
  | false => exact if_pos (hgoes _)
  | true =>
    simp only [if_true]
    by_cases hp : route.peername = []
    · simp only [hp, List.nil_append]
      exact if_pos (hgoes _)
    · rw [if_neg (not_private_of_public hp h)]
      exact if_pos (hgoes _)

/-! ## The two ways of a request -/

section

variable (ndn : Ndn.Library) (keccak256 : Bytes → Hash) (sha256 : Bytes → Vector UInt8 32) (route : PeerRouteInfo)

theorem queryname_generic {id : Bytes} (hid : HexId id) (segId : BitVec 16) :
    (EthMsg.dataReq ⟨qtGenericQuery, segId, .generic id⟩).queryname ndn sha256 =
      [reqNdnName, Ndn.generic id, Ndn.generic (Decimal.format segId.toNat)] := by
  unfold EthMsg.queryname
  simp only [if_true]
  refine (ndn.parseName_path _ fun t ht => ?_).trans rfl
  simp only [List.mem_cons, List.not_mem_nil, or_false] at ht
  rcases ht with rfl | rfl | rfl
  · exact ⟨List.cons_ne_nil _ _, List.all_eq_true.1 (by decide)⟩
  · exact hid.plain
  · exact Ndn.Plain.format _

theorem writeInterest_generic {id : Bytes} (hid : HexId id) (segId : BitVec 16) :
    ∃ hint, (EthMsg.dataReq ⟨qtGenericQuery, segId, .generic id⟩).writeInterest ndn sha256 route =
      ⟨route.routePfx ++ [reqNdnName, Ndn.generic id, Ndn.generic (Decimal.format segId.toNat)], [], hint⟩ := by
  unfold EthMsg.writeInterest
  simp only [queryname_generic ndn sha256 hid, List.cons_ne_nil, if_false, if_true]
  unfold PeerRouteInfo.routePfx
  cases route.usehint with
  | false => exact ⟨[], by simp [Ndn.buildName]⟩
  | true => exact ⟨[(0, _)], by simp [Ndn.buildName]; rfl⟩

theorem decodeInterest_generic {id : Bytes} (hid : HexId id) (segId : BitVec 16) :
    route.decoder.decodeInterest ndn keccak256
        ((EthMsg.dataReq ⟨qtGenericQuery, segId, .generic id⟩).writeInterest ndn sha256 route) =
      match Decimal.parseInt 16 (Decimal.format segId.toNat) with
      | some n => .ok (.dataReq ⟨qtGenericQuery, BitVec.ofInt 16 n, .generic id⟩)
      | none => .error .number := by
  obtain ⟨hint, hi⟩ := writeInterest_generic ndn sha256 route hid segId
  have heth : ethNdnName ∉ [reqNdnName, Ndn.generic id, Ndn.generic (Decimal.format segId.toNat)] := by
    simp only [List.mem_cons, List.not_mem_nil, or_false, not_or]
    refine ⟨by decide, fun h => hid.ne_ethStr (NameComponent.mk.inj h).2.symm, fun h => ?_⟩
    have hmem : (116 : UInt8) ∈ Decimal.format segId.toNat := (NameComponent.mk.inj h).2 ▸ (by decide : (116 : UInt8) ∈ ethStr)
    exact absurd (Decimal.mem_format hmem).2 (by decide)
  rw [hi]
  unfold EthMsgRequestDecoder.decodeInterest
  simp only [route.matched_routePfx (List.cons_ne_nil _ _) heth, List.drop_left, if_true]
  rfl

theorem decodeInterest_specific {q : Query} (hq : q.isSpecific = true)
    (hroute : ∀ c ∈ route.routePfx, c.typ ≠ Ndn.ttParametersSha256DigestComponent) :
    route.decoder.decodeInterest ndn keccak256 ((EthMsg.dataReq ⟨q.qtype, 0, q⟩).writeInterest ndn sha256 route) =
      .ok (.dataReq ⟨q.qtype, 0, q⟩) := by
  have hqt := q.qtype_ne_generic hq
  have hname : (EthMsg.dataReq ⟨q.qtype, 0, q⟩).queryname ndn sha256 = [] := by
    unfold EthMsg.queryname
    exact if_neg hqt
  have hwire := ndn.tlvEncode_ne_nil ttDataReq (EthDataReqMsg.encode ⟨q.qtype, 0, q⟩)
  have hi : ∃ hint, (EthMsg.dataReq ⟨q.qtype, 0, q⟩).writeInterest ndn sha256 route =
      ndn.updateParamsDigest ⟨route.routePfx, ndn.tlvEncode ttDataReq (EthDataReqMsg.encode ⟨q.qtype, 0, q⟩), hint⟩ := by
    unfold EthMsg.writeInterest
    simp only [hname, if_true, EthMsg.marshalTlv, if_neg hwire]
    unfold PeerRouteInfo.routePfx
    cases route.usehint with
    | false => exact ⟨[], by simp [Ndn.buildName]⟩
    | true => exact ⟨[(0, _)], by simp [Ndn.buildName]; rfl⟩
  obtain ⟨hint, hi⟩ := hi
  obtain ⟨digest, hd⟩ := ndn.updateParamsDigest_eq
    ⟨route.routePfx, ndn.tlvEncode ttDataReq (EthDataReqMsg.encode ⟨q.qtype, 0, q⟩), hint⟩ hroute
  have heth : ethNdnName ∉ [(⟨Ndn.ttParametersSha256DigestComponent, digest⟩ : NameComponent)] := fun h =>
    absurd (NameComponent.mk.inj (List.mem_singleton.1 h)).1 (by decide)
  have hreq : (⟨Ndn.ttParametersSha256DigestComponent, digest⟩ : NameComponent) ≠ reqNdnName := fun h =>
    absurd (NameComponent.mk.inj h).1 (by decide)
  have hmsg : EthMsg.unmarshalTlv keccak256 ttDataReq (EthDataReqMsg.encode ⟨q.qtype, 0, q⟩) = .ok (.dataReq ⟨q.qtype, 0, q⟩) :=
    EthMsg.unmarshalTlv_marshalTlv keccak256 (.dataReq ⟨q.qtype, 0, q⟩) ⟨rfl, hq⟩ (EthDataReqMsg.length_encode_lt hq 0)
  rw [hi, hd]
  unfold EthMsgRequestDecoder.decodeInterest
  simp only [route.matched_routePfx (List.cons_ne_nil _ _) heth, List.drop_left, if_neg hreq,
    ndn.tlvDecode_tlvEncode ttDataReq _ (by decide) (EthDataReqMsg.length_encode_lt hq 0), hmsg]

end

/-! ## Requests arrive -/

def EthMsg.extractQuery : EthMsg → Except Error (Query × BitVec 16)
  | .dataReq req => .ok (req.query, req.segment)
  | _ => .error .unexpected

/-- The id and the segment that the producer finds in an Interest. -/
def PeerRouteInfo.arrives (ndn : Ndn.Library) (keccak256 : Bytes → Hash) (sha256 : Bytes → Vector UInt8 32)
    (route : PeerRouteInfo) (i : Ndn.Interest) : Option (Bytes × BitVec 16) :=
  match route.decoder.decodeInterest ndn keccak256 i with
  | .error _ => none
  | .ok msg =>
    match msg.extractQuery with
    | .ok (query, segId) => some (query.getId sha256, segId)
    | .error _ => none

/-- The same for an Interest of the Kademlia RPC. -/
def rpcArrives (ndn : Ndn.Library) (sha256 : Bytes → Vector UInt8 32) (i : Ndn.Interest) : Option (Bytes × BitVec 16) :=
  match Kad.receiveInterest ndn i with
  | .ok query => some (query.id sha256, query.segId)
  | .error _ => none

section

variable (ndn : Ndn.Library) (keccak256 : Bytes → Hash) (sha256 : Bytes → Vector UInt8 32)

theorem arrives_generic (route : PeerRouteInfo) {id : Bytes} (hid : HexId id) (segId : BitVec 16) :
    route.arrives ndn keccak256 sha256
        ((EthMsg.dataReq ⟨qtGenericQuery, segId, .generic id⟩).writeInterest ndn sha256 route) =
      if segId.toNat < 2 ^ 15 then some (id, segId) else none := by
  unfold PeerRouteInfo.arrives
  rw [decodeInterest_generic ndn keccak256 sha256 route hid, Decimal.parseInt_format]
  by_cases hseg : segId.toNat < 2 ^ 15
  · simp only [if_pos hseg, Kad.ofInt_toNat]
    rfl
  · simp only [if_neg hseg]

theorem arrives_writeRequest (route : PeerRouteInfo)
    (hroute : ∀ c ∈ route.routePfx, c.typ ≠ Ndn.ttParametersSha256DigestComponent) {q : Query}
    (hid : ∀ id, q = .generic id → HexId id) (segId : BitVec 16) :
    route.arrives ndn keccak256 sha256 ((q.writeRequest sha256 segId).writeInterest ndn sha256 route) =
      if segId.toNat < 2 ^ 15 then some (q.getId sha256, segId) else none := by
  by_cases hq : q.isSpecific = true
  · have hreq : q.writeRequest sha256 segId =
        if segId = 0 then .dataReq ⟨q.qtype, 0, q⟩ else .dataReq ⟨qtGenericQuery, segId, .generic (q.getId sha256)⟩ := by
      cases q with
      | generic id => cases hq
      | headers q => rfl
      | tx hash => rfl
      | block q => rfl
    rw [hreq]
    split
    · next h0 =>
      unfold PeerRouteInfo.arrives
      rw [decodeInterest_specific ndn keccak256 sha256 route hq hroute, h0]
      rfl
    · exact arrives_generic ndn keccak256 sha256 route (Query.hexId_getId sha256 hq) segId
  · cases q with
    | generic id => exact arrives_generic ndn keccak256 sha256 route (hid id rfl) segId
    | headers q => exact absurd rfl hq
    | tx hash => exact absurd rfl hq
    | block q => exact absurd rfl hq

end

/-- For every query and every segment, by both routes, the producer finds in the
Interest the id of the query and the segment exactly if the segment is below 2 ^
15; and so does the server of the Kademlia RPC for every segment request. Ids are
in base sixteen, and the names of a route have no component for the digest of
parameters. -/
theorem data_requests_survive (ndn : Ndn.Library) (keccak256 : Bytes → Hash) (sha256 : Bytes → Vector UInt8 32)
    (segId : BitVec 16) :
    (∀ (route : PeerRouteInfo) (q : Query), (∀ c ∈ route.routePfx, c.typ ≠ Ndn.ttParametersSha256DigestComponent) →
      (∀ id, q = .generic id → HexId id) →
      (route.arrives ndn keccak256 sha256 ((q.writeRequest sha256 segId).writeInterest ndn sha256 route) =
        some (q.getId sha256, segId) ↔ segId.toNat < 2 ^ 15)) ∧
    ∀ (route : Kad.RouteInfo) (id : Bytes), HexId id →
      (((Kad.KadRpcMsg.segreq id segId).writeInterest ndn route).bind (fun r => rpcArrives ndn sha256 r.2) =
        some (id, segId) ↔ segId.toNat < 2 ^ 15) := by
  refine ⟨fun route q hroute hid => ?_, fun route id hid => ?_⟩
  · rw [arrives_writeRequest ndn keccak256 sha256 route hroute hid]
    split
    · next hseg => exact iff_of_true rfl hseg
    · next hseg => exact iff_of_false (by simp) hseg
  · show rpcArrives ndn sha256 _ = _ ↔ _
    unfold rpcArrives
    rw [Kad.receiveInterest_segreq ndn hid.plain]
    by_cases hseg : segId.toNat < 2 ^ 15
    · rw [if_pos hseg]
      exact iff_of_true rfl hseg
    · rw [if_neg hseg]
      exact iff_of_false (by simp) hseg

/-- The library, with Keccak-256 for the digests. -/
def sampleNdn : Ndn.Library := .standard Keccak.digest

/-- Segment 3 of the headers from block 1, by both routes, and of an RPC reply. -/
theorem data_requests_survive_three :
    (∀ usehint, (PeerRouteInfo.mk [Ndn.generic [97]] usehint [Ndn.generic [98]]).arrives sampleNdn (fun _ => 0) Keccak.digest
        (((Query.headers ⟨1, 2, 0, 7⟩).writeRequest Keccak.digest 3).writeInterest sampleNdn Keccak.digest
          ⟨[Ndn.generic [97]], usehint, [Ndn.generic [98]]⟩) =
      some ((Query.headers ⟨1, 2, 0, 7⟩).getId Keccak.digest, 3)) ∧
    ((Kad.KadRpcMsg.segreq [97, 49] 3).writeInterest sampleNdn ⟨[], []⟩).bind
        (fun r => rpcArrives sampleNdn Keccak.digest r.2) = some ([97, 49], 3) := by
  have h := data_requests_survive sampleNdn (fun _ => 0) Keccak.digest 3
  refine ⟨fun usehint => (h.1 _ _ (fun c hc => ?_) fun _ h => (by cases h)).2 (by decide),
    (h.2 _ _ (.of_all (List.cons_ne_nil _ _) (by decide))).2 (by decide)⟩
  cases usehint <;> revert c <;> decide

/-- Segment 2 ^ 15 of what a generic query or an RPC reply has: the producer's
decoder fails on its number. -/
theorem segment_refused :
    (PeerRouteInfo.mk [] false [Ndn.generic [98]]).decoder.decodeInterest sampleNdn (fun _ => 0)
        (((Query.generic [97, 49]).writeRequest Keccak.digest 0x8000).writeInterest sampleNdn
          Keccak.digest ⟨[], false, [Ndn.generic [98]]⟩) = .error .number ∧
    ((Kad.KadRpcMsg.segreq [97, 49] 0x8000).writeInterest sampleNdn ⟨[], []⟩).map (fun r => Kad.receiveInterest sampleNdn r.2) =
      some (.error .number) := by
  have hid : HexId [97, 49] := .of_all (List.cons_ne_nil _ _) (by decide)
  constructor
  · show EthMsgRequestDecoder.decodeInterest sampleNdn _ _
      ((EthMsg.dataReq ⟨qtGenericQuery, 0x8000, .generic [97, 49]⟩).writeInterest _ _ _) = _
    rw [decodeInterest_generic _ _ _ _ hid, Decimal.parseInt_format]
    rfl
  · show Option.some (Kad.receiveInterest sampleNdn _) = _
    rw [Kad.receiveInterest_segreq _ hid.plain]
    rfl

/-! ## Ids agree -/

/-- The id of a request, after the client has written it into an Interest and
whatever it does with it from then on, is the one that the server computes of
the request it decodes from the Interest, which it can do if the method is the
parameters' own. For the queries of the eth protocol, the query that is
decoded has the id of the query that was encoded. A request is a byte string,
shorter than 2 ^ 64. -/
theorem request_ids_agree (ndn : Ndn.Library) (keccak256 : Bytes → Hash) (sha256 : Bytes → Vector UInt8 32) :
    (∀ (req : Kad.KadRpcRequest) (params : Kad.Params) (route : Kad.RouteInfo),
      (∀ c ∈ route.pfx ++ route.producer, c.typ ≠ Ndn.ttParametersSha256DigestComponent) →
      (Kad.KadRpcRequest.codec.encode (req.sent params)).length < 2 ^ 64 →
      ∃ req' i wire dec, (Kad.KadRpcMsg.request (.made req params)).writeInterest ndn route = some (.request req', i) ∧
        Kad.readInterest ndn i = .ok (.app Kad.ttRpcReq wire) ∧ Kad.KadRpcRequest.codec.decode wire = some dec ∧
        (∀ ops req'', Run (Kad.RpcRequest.step sha256) anyStep req' ops req'' →
          (req''.getId sha256).2 = ((Kad.RpcRequest.ofWire dec).getId sha256).2) ∧
        (∀ query, Kad.receiveInterest ndn i = .ok query → query.id sha256 = ((Kad.RpcRequest.ofWire dec).getId sha256).2) ∧
        (req.method = params.method → req.paramsW = [] → Kad.receiveInterest ndn i = .ok (.request dec params))) ∧
    (∀ q : Query, q.isSpecific = true → ∃ req,
      EthMsg.unmarshalTlv keccak256 (EthMsg.dataReq ⟨q.qtype, 0, q⟩).marshalTlv.1 (EthMsg.dataReq ⟨q.qtype, 0, q⟩).marshalTlv.2 =
        .ok (.dataReq req) ∧ req.query.getId sha256 = q.getId sha256) := by
  refine ⟨fun req params route hroute hfit => ?_, fun q hq => ?_⟩
  · obtain ⟨req', i, hi, hread, hw⟩ := Kad.writeInterest_made sha256 ndn req params route hroute hfit
    have hdec := Kad.KadRpcRequest.codec.decode_encode hfit
    refine ⟨req', i, _, req.sent params, hi, hread, hdec, fun ops req'' hrun => ?_, fun query hq => ?_, fun hmethod hw => ?_⟩
    · rw [(hw.run hrun).getId_eq, Kad.getId_ofWire]
    · obtain ⟨params', _, rfl⟩ := (Kad.receiveInterest_eq_ok hread hdec).1 hq
      rfl
    · have hsent : (req.sent params).paramsW = params.encode := by
        unfold Kad.KadRpcRequest.sent
        rw [if_pos hw]
      have hlen : params.encode.length < 2 ^ 64 := hsent ▸ Nat.lt_of_le_of_lt (Kad.length_paramsW_le _) hfit
      exact (Kad.receiveInterest_eq_ok hread hdec).2 ⟨params, Kad.decodeParams_sent hmethod hw hlen, rfl⟩
  · exact ⟨_, EthMsg.unmarshalTlv_marshalTlv keccak256 (.dataReq ⟨q.qtype, 0, q⟩) ⟨rfl, hq⟩
      (EthDataReqMsg.length_encode_lt hq 0), rfl⟩

/-- A ping, with its third segment asked for by the id under which the server keeps the reply. -/
theorem request_ids_agree_ping :
    let req : Kad.KadRpcRequest := ⟨Kad.ttKadRpcPing, ⟨[47, 97], [1]⟩, [], 5, [9]⟩
    let params : Kad.Params := .ping ⟨3⟩
    ∃ req' i query, (Kad.KadRpcMsg.request (.made req params)).writeInterest sampleNdn ⟨[], []⟩ = some (.request req', i) ∧
      Kad.receiveInterest sampleNdn i = .ok query ∧
      (req'.getId Keccak.digest).2 = query.id Keccak.digest := by
  intro req params
  have hfit : (Kad.KadRpcRequest.codec.encode (req.sent params)).length < 2 ^ 64 := by decide +kernel
  obtain ⟨req', i, wire, dec, hi, _, _, hops, hquery, hreceive⟩ :=
    (request_ids_agree sampleNdn (fun _ => 0) Keccak.digest).1 req params ⟨[], []⟩ nofun hfit
  have hq := hreceive rfl rfl
  exact ⟨req', i, _, hi, hq, (hops [] req' .nil).trans (hquery _ hq).symm⟩

end NdnGeth.Eth.Wire
