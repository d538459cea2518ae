/-
The messages of the eth protocol and their encoding (`ndn/eth/ethmsg.go`,
`ndn/eth/push.go`). The content of a message is RLP inside a TLV element of
the message's type. Two of them nest an encoding in a byte string: a data
request its query, and a push message each of its items.

* `unmarshalTlv_marshalTlv`: every message but a generic query, which travels
  in a name, is read as it was written.
* `push_verifies`: a push message that was signed, written and read has the
  items it had, and verifies. The receiver keeps no bytes of what it has
  read: it encodes the items again.

Hashing and the HMAC are parameters. A `*big.Int` is a natural number, a
string its bytes. What a `FetchedBlock` says of its own fetching is not sent
and is left out; so is the empty message.
-/
import NdnGeth.Core.Encoding
import NdnGeth.Kad.RpcMsg
import NdnGeth.Eth.PeerAnnounce

namespace NdnGeth.Eth.Wire

open Lib.Rlp
open Core (Hash)
open Types (Header Transaction Block hashCodec)

def ttStatus : BitVec 32 := 200
def ttBye : BitVec 32 := 201
def ttPush : BitVec 32 := 202
def ttDataReq : BitVec 32 := 203
def ttDataSegment : BitVec 32 := 204

def qtHeadersQuery : BitVec 8 := 1
def qtTxQuery : BitVec 8 := 2
def qtBlockQuery : BitVec 8 := 3
def qtGenericQuery : BitVec 8 := 4

def iTypeTx : BitVec 8 := 1
def iTypeTxHash : BitVec 8 := 2
def iTypeBlock : BitVec 8 := 3
def iTypeBlockHeader : BitVec 8 := 4
def iTypeBlockHash : BitVec 8 := 5

/-- An encoding that cannot be read, and `ErrUnexpected`. -/
inductive Error | rlp | unexpected
  deriving DecidableEq, Repr

def decodeBytes {α : Type} (c : Codec α) (wire : Bytes) : Except Error α :=
  match c.decode wire with
  | some a => .ok a
  | none => .error .rlp

theorem decodeBytes_encode {α : Type} (c : Codec α) {a : α} (h : (c.encode a).length < 2 ^ 64) :
    decodeBytes c (c.encode a) = .ok a := by
  unfold decodeBytes
  rw [c.decode_encode h]

/-! ## Push messages -/

structure FetchedBlock where
  block : Block
  td : Nat
  deriving DecidableEq, Repr

structure BlockHashItem where
  hash : Hash
  number : BitVec 64
  numSegments : BitVec 16
  deriving DecidableEq, Repr

structure BlockHeaderItem where
  header : Header
  td : Nat
  holder : Bytes
  numSegments : BitVec 16
  deriving DecidableEq, Repr

def FetchedBlock.codec : Codec FetchedBlock :=
  .struct <| (Fields.cons Block.codec (.last .nat)).map (fun p => ⟨p.1, p.2⟩) (fun b => (b.block, b.td)) fun _ => rfl

def BlockHashItem.codec : Codec BlockHashItem :=
  .struct <| (Fields.cons hashCodec <| .cons (.uint 8) <| .last (.uint 2)).map (fun p => ⟨p.1, p.2.1, p.2.2⟩)
    (fun a => (a.hash, a.number, a.numSegments)) fun _ => rfl

def BlockHeaderItem.codec : Codec BlockHeaderItem :=
  .struct <| (Fields.cons Header.codec <| .cons .nat <| .cons .bytes <| .last (.uint 2)).map
    (fun p => ⟨p.1, p.2.1, p.2.2.1, p.2.2.2⟩) (fun h => (h.header, h.td, h.holder, h.numSegments)) fun _ => rfl

/-- The `content` of an item, which goes with its type. -/
inductive Content
  | tx (tx : Transaction)
  | txHash (h : Hash)
  | block (fblock : FetchedBlock)
  | blockHeader (headeritem : BlockHeaderItem)
  | blockHash (ann : BlockHashItem)
  deriving DecidableEq, Repr

namespace Content

def itype : Content → BitVec 8
  | .tx _ => iTypeTx
  | .txHash _ => iTypeTxHash
  | .block _ => iTypeBlock
  | .blockHeader _ => iTypeBlockHeader
  | .blockHash _ => iTypeBlockHash

def encode : Content → Bytes
  | .tx t => Transaction.codec.encode t
  | .txHash h => hashCodec.encode h
  | .block fblock => FetchedBlock.codec.encode fblock
  | .blockHeader headeritem => BlockHeaderItem.codec.encode headeritem
  | .blockHash ann => BlockHashItem.codec.encode ann

/-- The switch of `PushItem.DecodeRLP`. -/
def decode (itype : BitVec 8) (wire : Bytes) : Except Error Content :=
  if itype = iTypeTx then (decodeBytes Transaction.codec wire).map .tx
  else if itype = iTypeTxHash then (decodeBytes hashCodec wire).map .txHash
  else if itype = iTypeBlock then (decodeBytes FetchedBlock.codec wire).map .block
  else if itype = iTypeBlockHeader then (decodeBytes BlockHeaderItem.codec wire).map .blockHeader
  else if itype = iTypeBlockHash then (decodeBytes BlockHashItem.codec wire).map .blockHash
  else .error .unexpected

def hash (keccak256 : Bytes → Hash) : Content → Hash
  | .tx t => t.hash keccak256
  | .txHash h => h
  | .block fblock => fblock.block.hash keccak256
  | .blockHeader headeritem => headeritem.header.hash keccak256
  | .blockHash ann => ann.hash

theorem decode_encode {c : Content} (h : c.encode.length < 2 ^ 64) : decode c.itype c.encode = .ok c := by
  cases c with
  | tx t =>
    show decode iTypeTx (Transaction.codec.encode t) = _
    unfold decode
    rw [if_pos rfl, decodeBytes_encode _ h]
    rfl
  | txHash t =>
    show decode iTypeTxHash (hashCodec.encode t) = _
    unfold decode
    rw [if_neg (by decide), if_pos rfl, decodeBytes_encode _ h]
    rfl
  | block fblock =>
    show decode iTypeBlock (FetchedBlock.codec.encode fblock) = _
    unfold decode
    rw [if_neg (by decide), if_neg (by decide), if_pos rfl, decodeBytes_encode _ h]
    rfl
  | blockHeader headeritem =>
    show decode iTypeBlockHeader (BlockHeaderItem.codec.encode headeritem) = _
    unfold decode
    rw [if_neg (by decide), if_neg (by decide), if_neg (by decide), if_pos rfl, decodeBytes_encode _ h]
    rfl
  | blockHash ann =>
    show decode iTypeBlockHash (BlockHashItem.codec.encode ann) = _
    unfold decode
    rw [if_neg (by decide), if_neg (by decide), if_neg (by decide), if_neg (by decide), if_pos rfl, decodeBytes_encode _ h]
    rfl

end Content

structure PushItem where
  wire : Bytes
  hash : Hash
  content : Content
  deriving DecidableEq, Repr

namespace PushItem

def itype (item : PushItem) : BitVec 8 := item.content.itype

def make (keccak256 : Bytes → Hash) (content : Content) : PushItem := ⟨[], content.hash keccak256, content⟩

/-- `EncodeRLP` leaves the encoding in the item. -/
def encoded (item : PushItem) : PushItem := { item with wire := item.content.encode }

/-- What `EncodeRLP` writes: `[IType, Wire]`. -/
def fields (item : PushItem) : BitVec 8 × Bytes := (item.itype, item.content.encode)

def fieldsCodec : Codec (BitVec 8 × Bytes) := .struct <| .cons (.uint 1) <| .last .bytes

/-- `DecodeRLP`, after the two fields. -/
def ofFields (keccak256 : Bytes → Hash) (obj : BitVec 8 × Bytes) : Except Error PushItem :=
  match Content.decode obj.1 obj.2 with
  | .ok content => .ok ⟨obj.2, content.hash keccak256, content⟩
  | .error e => .error e

theorem ofFields_fields (keccak256 : Bytes → Hash) {item : PushItem} (h : item.content.encode.length < 2 ^ 64) :
    ofFields keccak256 item.fields = .ok ⟨item.content.encode, item.content.hash keccak256, item.content⟩ := by
  unfold ofFields fields itype
  rw [Content.decode_encode h]

end PushItem

structure PushMsg where
  nodeId : Bytes
  items : List PushItem
  nonce : BitVec 64
  sig : Bytes
  deriving DecidableEq, Repr

/-- The loop over the items, up to the first error. -/
def decodeItems (keccak256 : Bytes → Hash) : List (BitVec 8 × Bytes) → Except Error (List PushItem)
  | [] => .ok []
  | obj :: objs =>
    match PushItem.ofFields keccak256 obj with
    | .error e => .error e
    | .ok item =>
      match decodeItems keccak256 objs with
      | .error e => .error e
      | .ok items => .ok (item :: items)

/-- An item as it is read: its encoding is the one on the wire, its hash is computed. -/
def PushItem.received (keccak256 : Bytes → Hash) (item : PushItem) : PushItem :=
  ⟨item.content.encode, item.content.hash keccak256, item.content⟩

theorem decodeItems_fields (keccak256 : Bytes → Hash) : ∀ {items : List PushItem},
    (∀ item ∈ items, item.content.encode.length < 2 ^ 64) →
    decodeItems keccak256 (items.map PushItem.fields) = .ok (items.map (PushItem.received keccak256))
  | [], _ => rfl
  | item :: items, h => by
    simp only [List.map_cons, decodeItems, PushItem.ofFields_fields keccak256 (h item List.mem_cons_self),
      decodeItems_fields keccak256 fun i hi => h i (List.mem_cons_of_mem _ hi), PushItem.received]

namespace PushMsg

/-- `[NodeId, Items, Nonce]`. -/
def signedCodec : Codec (Bytes × List (BitVec 8 × Bytes) × BitVec 64) :=
  .struct <| .cons .bytes <| .cons (.list PushItem.fieldsCodec) <| .last (.uint 8)

def codec : Codec (Bytes × List (BitVec 8 × Bytes) × BitVec 64 × Bytes) :=
  .struct <| .cons .bytes <| .cons (.list PushItem.fieldsCodec) <| .cons (.uint 8) <| .last .bytes

def signedpart (msg : PushMsg) : Bytes := signedCodec.encode (msg.nodeId, msg.items.map PushItem.fields, msg.nonce)

/-- `Sign`; `signedpart` encodes the items. -/
def sign (hmac : (key message : Bytes) → Bytes) (key : Bytes) (msg : PushMsg) : PushMsg :=
  { msg with items := msg.items.map PushItem.encoded, sig := hmac key msg.signedpart }

/-- `Verify`: `ValidateHmac256` signs the message again. -/
def verify (hmac : (key message : Bytes) → Bytes) (key : Bytes) (msg : PushMsg) : Bool :=
  msg.sig = hmac key msg.signedpart

def encode (msg : PushMsg) : Bytes := codec.encode (msg.nodeId, msg.items.map PushItem.fields, msg.nonce, msg.sig)

def decode (keccak256 : Bytes → Hash) (value : Bytes) : Except Error PushMsg :=
  match decodeBytes codec value with
  | .error e => .error e
  | .ok (nodeId, objs, nonce, sig) => (decodeItems keccak256 objs).map fun items => ⟨nodeId, items, nonce, sig⟩

def received (keccak256 : Bytes → Hash) (msg : PushMsg) : PushMsg :=
  { msg with items := msg.items.map (PushItem.received keccak256) }

theorem length_le_encode {msg : PushMsg} {item : PushItem} (h : item ∈ msg.items) :
    item.content.encode.length ≤ msg.encode.length := by
  let fields := PushItem.fieldsCodec.toItem item.fields
  have hin : Item.bytes item.content.encode ∈ [Item.bytes (toBytes item.itype.toNat), .bytes item.content.encode] := by simp
  calc item.content.encode.length
      ≤ (Lib.Rlp.encode (.bytes item.content.encode)).length := length_le_encode_bytes _
    _ ≤ (Lib.Rlp.encode fields).length := encode_length_of_mem hin
    _ ≤ (Lib.Rlp.encode (.list ((msg.items.map PushItem.fields).map PushItem.fieldsCodec.toItem))).length :=
        encode_length_of_mem (List.mem_map_of_mem (List.mem_map_of_mem h))
    _ ≤ msg.encode.length := encode_length_of_mem (List.mem_cons_of_mem _ List.mem_cons_self)

theorem decode_encode (keccak256 : Bytes → Hash) {msg : PushMsg} (hfit : msg.encode.length < 2 ^ 64) :
    decode keccak256 msg.encode = .ok (msg.received keccak256) := by
  have hitems : ∀ item ∈ msg.items, item.content.encode.length < 2 ^ 64 := fun item hi =>
    Nat.lt_of_le_of_lt (length_le_encode hi) hfit
  unfold decode encode
  rw [decodeBytes_encode codec hfit]
  show (decodeItems keccak256 (msg.items.map PushItem.fields)).map _ = _
  rw [decodeItems_fields keccak256 hitems]
  rfl

theorem signedpart_received (keccak256 : Bytes → Hash) (msg : PushMsg) :
    (msg.received keccak256).signedpart = msg.signedpart := by
  unfold signedpart received
  rw [List.map_map]
  rfl

theorem signedpart_sign (hmac : (key message : Bytes) → Bytes) (key : Bytes) (msg : PushMsg) :
    (msg.sign hmac key).signedpart = msg.signedpart := by
  unfold signedpart sign
  rw [List.map_map]
  rfl

end PushMsg

/-! ## Queries -/

structure EthHeadersQuery where
  from_ : BitVec 64
  count : BitVec 16
  skip : BitVec 16
  nonce : BitVec 64
  deriving DecidableEq, Repr

structure EthBlockQuery where
  part : BitVec 8
  hash : Hash
  number : BitVec 64
  deriving DecidableEq, Repr

def EthHeadersQuery.codec : Codec EthHeadersQuery :=
  .struct <| (Fields.cons (.uint 8) <| .cons (.uint 2) <| .cons (.uint 2) <| .last (.uint 8)).map
    (fun p => ⟨p.1, p.2.1, p.2.2.1, p.2.2.2⟩) (fun q => (q.from_, q.count, q.skip, q.nonce)) fun _ => rfl

def EthBlockQuery.codec : Codec EthBlockQuery :=
  .struct <| (Fields.cons (.uint 1) <| .cons hashCodec <| .last (.uint 8)).map (fun p => ⟨p.1, p.2.1, p.2.2⟩)
    (fun q => (q.part, q.hash, q.number)) fun _ => rfl

/-- `EthGenericQuery`. -/
def genericQueryCodec : Codec Bytes := .struct (.last .bytes)

/-- The queries: `EthHeadersQuery`, `EthTxQuery`, `EthBlockQuery` and `EthGenericQuery`. -/
inductive Query
  | headers (q : EthHeadersQuery)
  | tx (hash : Hash)
  | block (q : EthBlockQuery)
  | generic (id : Bytes)
  deriving DecidableEq, Repr

namespace Query

def qtype : Query → BitVec 8
  | .headers _ => qtHeadersQuery
  | .tx _ => qtTxQuery
  | .block _ => qtBlockQuery
  | .generic _ => qtGenericQuery

def encode : Query → Bytes
  | .headers q => EthHeadersQuery.codec.encode q
  | .tx hash => hashCodec.encode hash
  | .block q => EthBlockQuery.codec.encode q
  | .generic id => genericQueryCodec.encode id

/-- The switch of `EthDataReqMsg.DecodeRLP`. -/
def decode (qtype : BitVec 8) (wire : Bytes) : Except Error Query :=
  if qtype = qtHeadersQuery then (decodeBytes EthHeadersQuery.codec wire).map .headers
  else if qtype = qtTxQuery then (decodeBytes hashCodec wire).map .tx
  else if qtype = qtBlockQuery then (decodeBytes EthBlockQuery.codec wire).map .block
  else .error .unexpected

/-- `GetId`; a hash is written with `0x` before it. -/
def getId (sha256 : Bytes → Vector UInt8 32) : Query → Bytes
  | .headers q => Lib.Hex.hexEncode (sha256 (EthHeadersQuery.codec.encode q)).toList
  | .tx hash => 48 :: 120 :: Lib.Hex.hexEncode (toBytesN 32 hash.toNat)
  | .block q => Lib.Hex.hexEncode (sha256 (EthBlockQuery.codec.encode q)).toList
  | .generic id => id

/-- Not an `EthGenericQuery`. -/
def isSpecific : Query → Bool
  | .generic _ => false
  | _ => true

theorem length_encode_lt {q : Query} (h : q.isSpecific = true) : q.encode.length < 2 ^ 32 := by
  have h8 := Codec.uint_within 8 (by decide)
  have h2 := Codec.uint_within 2 (by decide)
  have hhash : hashCodec.Within 41 := Codec.fixed_within 32 (by decide)
  cases q with
  | headers q =>
    have hw : EthHeadersQuery.codec.Within 65 :=
      .struct (.map (.cons h8 <| .cons h2 <| .cons h2 <| .last h8) _ _ _) (by decide)
    exact Nat.lt_of_le_of_lt (hw q) (by decide)
  | tx hash => exact Nat.lt_of_le_of_lt (hhash hash) (by decide)
  | block q =>
    have hw : EthBlockQuery.codec.Within 77 :=
      .struct (.map (.cons (Codec.uint_within 1 (by decide)) <| .cons hhash <| .last h8) _ _ _) (by decide)
    exact Nat.lt_of_le_of_lt (hw q) (by decide)
  | generic id => cases h

theorem decode_encode {q : Query} (h : q.isSpecific = true) : decode q.qtype q.encode = .ok q := by
  have hlen : q.encode.length < 2 ^ 64 := Nat.lt_trans (length_encode_lt h) (by decide)
  cases q with
  | headers q =>
    show decode qtHeadersQuery (EthHeadersQuery.codec.encode q) = _
    unfold decode
    rw [if_pos rfl, decodeBytes_encode _ hlen]
    rfl
  | tx hash =>
    show decode qtTxQuery (hashCodec.encode hash) = _
    unfold decode
    rw [if_neg (by decide), if_pos rfl, decodeBytes_encode _ hlen]
    rfl
  | block q =>
    show decode qtBlockQuery (EthBlockQuery.codec.encode q) = _
    unfold decode
    rw [if_neg (by decide), if_neg (by decide), if_pos rfl, decodeBytes_encode _ hlen]
    rfl
  | generic id => cases h

end Query

structure EthDataReqMsg where
  qtype : BitVec 8
  segment : BitVec 16
  query : Query
  deriving DecidableEq, Repr

namespace EthDataReqMsg

def codec : Codec (BitVec 8 × BitVec 16 × Bytes) := .struct <| .cons (.uint 1) <| .cons (.uint 2) <| .last .bytes

def encode (msg : EthDataReqMsg) : Bytes := codec.encode (msg.qtype, msg.segment, msg.query.encode)

def decode (value : Bytes) : Except Error EthDataReqMsg :=
  match decodeBytes codec value with
  | .error e => .error e
  | .ok (qtype, segment, wire) => (Query.decode qtype wire).map fun query => ⟨qtype, segment, query⟩

theorem length_encode_lt {q : Query} (h : q.isSpecific = true) (segment : BitVec 16) :
    (encode ⟨q.qtype, segment, q⟩).length < 2 ^ 64 := by
  have hq := Query.length_encode_lt h
  have hbytes := encode_bytes_length_le (Nat.lt_trans hq (by decide))
  have hitems := encodeMany_cons_length_le (Codec.uint_within 1 (by decide) q.qtype) <|
    encodeMany_cons_length_le (Codec.uint_within 2 (by decide) segment) <|
    encodeMany_cons_length_le hbytes (show (encodeMany []).length ≤ 0 from Nat.le_refl 0)
  exact Nat.lt_of_le_of_lt (encode_list_length_le hitems (by omega)) (by omega)

theorem decode_encode {q : Query} (h : q.isSpecific = true) (segment : BitVec 16) :
    decode (encode ⟨q.qtype, segment, q⟩) = .ok ⟨q.qtype, segment, q⟩ := by
  unfold decode
  rw [encode, decodeBytes_encode codec (length_encode_lt h segment)]
  show (Query.decode q.qtype q.encode).map _ = _
  rw [Query.decode_encode h]
  rfl

end EthDataReqMsg

/-! ## Messages -/

structure StatusMsg where
  pub : Bytes
  dhPub : Bytes
  pfx : Bytes
  networkId : BitVec 64
  td : Nat
  head : Hash
  bnum : BitVec 64
  genesis : Hash
  accept : Bool
  nonce : BitVec 64
  sig : Bytes
  deriving DecidableEq, Repr

structure ByeMsg where
  pub : Bytes
  pfx : Bytes
  nonce : BitVec 64
  sig : Bytes
  deriving DecidableEq, Repr

/-- `SimpleSegment`, as it is sent. -/
structure DataSegment where
  wire : Bytes
  total : BitVec 16
  id : BitVec 16
  deriving DecidableEq, Repr

def StatusMsg.codec : Codec StatusMsg :=
  .struct <|
    (Fields.cons .bytes <| .cons .bytes <| .cons .bytes <| .cons (.uint 8) <| .cons .nat <| .cons hashCodec <|
      .cons (.uint 8) <| .cons hashCodec <| .cons .bool <| .cons (.uint 8) <| .last .bytes).map
      (fun (pub, dhPub, pfx, networkId, td, head, bnum, genesis, accept, nonce, sig) =>
        ⟨pub, dhPub, pfx, networkId, td, head, bnum, genesis, accept, nonce, sig⟩)
      (fun m => (m.pub, m.dhPub, m.pfx, m.networkId, m.td, m.head, m.bnum, m.genesis, m.accept, m.nonce, m.sig))
      fun _ => rfl

def ByeMsg.codec : Codec ByeMsg :=
  .struct <| (Fields.cons .bytes <| .cons .bytes <| .cons (.uint 8) <| .last .bytes).map
    (fun p => ⟨p.1, p.2.1, p.2.2.1, p.2.2.2⟩) (fun m => (m.pub, m.pfx, m.nonce, m.sig)) fun _ => rfl

def DataSegment.codec : Codec DataSegment :=
  .struct <| (Fields.cons .bytes <| .cons (.uint 2) <| .last (.uint 2)).map (fun p => ⟨p.1, p.2.1, p.2.2⟩)
    (fun s => (s.wire, s.total, s.id)) fun _ => rfl

/-- `EthMsg`: the content, which goes with the type. -/
inductive EthMsg
  | status (content : StatusMsg)
  | bye (content : ByeMsg)
  | push (content : PushMsg)
  | dataReq (content : EthDataReqMsg)
  | dataSegment (content : DataSegment)
  deriving DecidableEq, Repr

namespace EthMsg

def marshalTlv : EthMsg → BitVec 32 × Bytes
  | .status content => (ttStatus, StatusMsg.codec.encode content)
  | .bye content => (ttBye, ByeMsg.codec.encode content)
  | .push content => (ttPush, content.encode)
  | .dataReq content => (ttDataReq, content.encode)
  | .dataSegment content => (ttDataSegment, DataSegment.codec.encode content)

def unmarshalTlv (keccak256 : Bytes → Hash) (typ : BitVec 32) (value : Bytes) : Except Error EthMsg :=
  if typ = ttStatus then (decodeBytes StatusMsg.codec value).map .status
  else if typ = ttBye then (decodeBytes ByeMsg.codec value).map .bye
  else if typ = ttPush then (PushMsg.decode keccak256 value).map .push
  else if typ = ttDataReq then (EthDataReqMsg.decode value).map .dataReq
  else if typ = ttDataSegment then (decodeBytes DataSegment.codec value).map .dataSegment
  else .error .unexpected

/-- The message as it is read: the items of a push message are made anew. -/
def received (keccak256 : Bytes → Hash) : EthMsg → EthMsg
  | .push content => .push (content.received keccak256)
  | msg => msg

/-- Not a generic query, and the type of a query is its own. -/
def Specific : EthMsg → Prop
  | .dataReq content => content.qtype = content.query.qtype ∧ content.query.isSpecific = true
  | _ => True

theorem unmarshalTlv_marshalTlv (keccak256 : Bytes → Hash) (msg : EthMsg) (hs : msg.Specific)
    (hfit : msg.marshalTlv.2.length < 2 ^ 64) :
    unmarshalTlv keccak256 msg.marshalTlv.1 msg.marshalTlv.2 = .ok (msg.received keccak256) := by
  cases msg with
  | status content =>
    show unmarshalTlv keccak256 ttStatus (StatusMsg.codec.encode content) = _
    unfold unmarshalTlv
    rw [if_pos rfl, decodeBytes_encode _ hfit]
    rfl
  | bye content =>
    show unmarshalTlv keccak256 ttBye (ByeMsg.codec.encode content) = _
    unfold unmarshalTlv
    rw [if_neg (by decide), if_pos rfl, decodeBytes_encode _ hfit]
    rfl
  | push content =>
    show unmarshalTlv keccak256 ttPush content.encode = _
    unfold unmarshalTlv
    rw [if_neg (by decide), if_neg (by decide), if_pos rfl, PushMsg.decode_encode keccak256 hfit]
    rfl
  | dataReq content =>
    obtain ⟨qtype, segment, query⟩ := content
    obtain ⟨hqt : qtype = query.qtype, hq : query.isSpecific = true⟩ := hs
    subst hqt
    show unmarshalTlv keccak256 ttDataReq (EthDataReqMsg.encode ⟨query.qtype, segment, query⟩) = _
    unfold unmarshalTlv
    rw [if_neg (by decide), if_neg (by decide), if_neg (by decide), if_pos rfl, EthDataReqMsg.decode_encode hq]
    rfl
  | dataSegment content =>
    show unmarshalTlv keccak256 ttDataSegment (DataSegment.codec.encode content) = _
    unfold unmarshalTlv
    rw [if_neg (by decide), if_neg (by decide), if_neg (by decide), if_neg (by decide), if_pos rfl,
      decodeBytes_encode _ hfit]
    rfl

end EthMsg

/-- For every node id, nonce, key and list of items of the five kinds, a push
message that is signed, written and read has items of the same types, contents
and hashes, and verifies under the key; as long as it is a byte string at all
(shorter than 2 ^ 64). -/
theorem push_verifies (keccak256 : Bytes → Hash) (hmac : (key message : Bytes) → Bytes) (key nodeId sig : Bytes)
    (contents : List Content) (nonce : BitVec 64) :
    let msg := PushMsg.sign hmac key ⟨nodeId, contents.map (PushItem.make keccak256), nonce, sig⟩
    msg.encode.length < 2 ^ 64 →
    ∃ msg', EthMsg.unmarshalTlv keccak256 (EthMsg.push msg).marshalTlv.1 (EthMsg.push msg).marshalTlv.2 = .ok (.push msg') ∧
      msg'.items.map (fun item => (item.itype, item.content, item.hash)) =
        (contents.map (PushItem.make keccak256)).map (fun item => (item.itype, item.content, item.hash)) ∧
      msg'.nodeId = nodeId ∧ msg'.nonce = nonce ∧ msg'.verify hmac key = true := by
  intro msg hfit
  refine ⟨msg.received keccak256, EthMsg.unmarshalTlv_marshalTlv keccak256 (.push msg) trivial hfit, ?_, rfl, rfl, ?_⟩
  · simp only [msg, PushMsg.received, PushMsg.sign, List.map_map]
    rfl
  · unfold PushMsg.verify
    rw [PushMsg.signedpart_received, PushMsg.signedpart_sign]
    exact decide_eq_true rfl

/-- A message with an item of each kind. -/
theorem push_verifies_five :
    let items := [.tx default, .txHash 7, .block ⟨default, 9⟩, .blockHeader ⟨default, 9, [1], 2⟩, .blockHash ⟨7, 3, 2⟩]
    let msg := PushMsg.sign (· ++ ·) [5] ⟨[1, 2], items.map (PushItem.make fun _ => 0), 1, []⟩
    msg.encode.length < 2 ^ 64 ∧
      ∃ msg', EthMsg.unmarshalTlv (fun _ => 0) (EthMsg.push msg).marshalTlv.1 (EthMsg.push msg).marshalTlv.2 =
          .ok (.push msg') ∧ msg'.items.map PushItem.content = items ∧ msg'.verify (· ++ ·) [5] = true := by
  intro items msg
  have hfit : msg.encode.length < 2 ^ 64 := by decide +kernel
  obtain ⟨msg', hmsg, hitems, _, _, hverify⟩ := push_verifies (fun _ => 0) (· ++ ·) [5] [1, 2] [] items 1 hfit
  refine ⟨hfit, msg', hmsg, ?_, hverify⟩
  have := congrArg (List.map fun p => p.2.1) hitems
  simpa [List.map_map, Function.comp_def, PushItem.make] using this

end NdnGeth.Eth.Wire
