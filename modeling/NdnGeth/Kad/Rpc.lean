/-
The Kademlia RPC (`ndn/kad/rpc`): its messages, the client and the server.
The client signs a request, has the network fetch the reply to it, decodes
and verifies the reply and updates the peer's record from its sender; the
server decodes the parameters of a request, answers it and signs the reply.

Hashing, the check of a signature, `ndn.ParseName` and the two parties'
signing are parameters. So is the network: whatever it returns for a request
and a route. Left out are the segments of a reply and the cache they are
served from, and the list of peers that the server has seen. A string of the
source is a string of bytes. `Verify` takes the last byte off a signature,
and the pretty form of a digest component the first four digits of its
value: each brings the program down where there is nothing to take.
-/
import NdnGeth.Lib.Hex
import NdnGeth.Lib.Rlp
import NdnGeth.Kad.Common

namespace NdnGeth.Kad

open Lib.Hex
open Lib.Rlp (Bytes Codec Fields)

/-- The library functions that the messages and records depend on. -/
structure Primitives where
  keccak256 : Bytes → Vector UInt8 32
  verifySignature : (pub : Bytes) → (hash : Vector UInt8 32) → (sig : Bytes) → Bool
  parseName : Bytes → Name

/-! ## Records -/

structure NdnNodeRecordInfo where
  pfx : Bytes
  pub : Bytes
  deriving DecidableEq, Repr

/-- Letters, digits and `-`, `_`, `.`, `~`. -/
def unreserved (c : Nat) : Bool :=
  (97 ≤ c && c ≤ 122) || (65 ≤ c && c ≤ 90) || (48 ≤ c && c ≤ 57) || c == 45 || c == 95 || c == 46 || c == 126

def queryEscape (b : Bytes) : Bytes :=
  b.flatMap fun c =>
    if unreserved c.toNat then [c]
    else if c = 32 then [43]
    else [37, hexDigit 65 (c.toNat / 16), hexDigit 65 (c.toNat % 16)]

/-- `PrettyNameComponent`; types 1 and 2 are the digest components. -/
def prettyNameComponent (c : NameComponent) : Option Bytes :=
  if c.typ = 1 ∨ c.typ = 2 then
    if c.value.length < 2 then none else some ((hexEncode c.value).take 4 ++ [46, 46, 46])
  else some (queryEscape c.value)

def prettyName : Name → Option Bytes
  | [] => some []
  | c :: cs =>
    match prettyNameComponent c, prettyName cs with
    | some s, some t => some (47 :: s ++ t)
    | _, _ => none

def makeID (prims : Primitives) (pub pfx : Bytes) : ID :=
  let hash := prims.keccak256 (pub ++ pfx)
  Vector.ofFn fun i => hash.get (Fin.castLE (by decide) i)

def ndnNodeRecordUnmarshaling (prims : Primitives) (info : NdnNodeRecordInfo) : Option NdnNodeRecord :=
  match prettyName (prims.parseName info.pfx) with
  | some pretty => some ⟨makeID prims info.pub pretty, prims.parseName info.pfx, info.pub⟩
  | none => none

/-- `untrusted`: a boot node's record, which has no public key. -/
def NdnNodeRecord.untrusted (r : NdnNodeRecord) : Bool := r.pubkey.isEmpty

inductive UpdateError | invalidIdentity
  deriving DecidableEq, Repr

/-- `UpdateNodeRecord`: the record of a boot node is completed, if the new
one is of the same identity. -/
def Kadpeer.updateNodeRecord (prims : Primitives) (p : Kadpeer) (info : NdnNodeRecordInfo) :
    Option (Kadpeer × Option UpdateError) :=
  match ndnNodeRecordUnmarshaling prims info with
  | none => none
  | some newrec =>
    if newrec.id ≠ p.record.id then some (p, some .invalidIdentity)
    else if p.record.untrusted then some ({ p with record := newrec }, none)
    else some (p, none)

/-! ## Messages -/

def ttKadRpcPing : BitVec 16 := 1
def ttKadRpcFindnode : BitVec 16 := 2

structure PingParams where
  time : BitVec 64
  deriving DecidableEq, Repr

structure FindnodeParams where
  target : Bytes
  k : BitVec 8
  deriving DecidableEq, Repr

structure PingResponse where
  time : BitVec 64
  deriving DecidableEq, Repr

structure FindnodeResponse where
  peers : List NdnNodeRecordInfo
  deriving DecidableEq, Repr

/-- The `params` of a request. -/
inductive Params
  | ping (p : PingParams)
  | findnode (p : FindnodeParams)
  deriving DecidableEq, Repr

/-- The `results` of a response. -/
inductive Results
  | ping (r : PingResponse)
  | findnode (r : FindnodeResponse)
  deriving DecidableEq, Repr

/-- `KadRpcRequest`, as it is sent. -/
structure KadRpcRequest where
  method : BitVec 16
  sender : NdnNodeRecordInfo
  paramsW : Bytes
  nonce : BitVec 64
  sig : Bytes
  deriving DecidableEq, Repr

/-- `KadRpcResponse`, as it is sent. -/
structure KadRpcResponse where
  method : BitVec 16
  sender : NdnNodeRecordInfo
  resultsW : Bytes
  err : Bytes
  sig : Bytes
  deriving DecidableEq, Repr

def NdnNodeRecordInfo.codec : Codec NdnNodeRecordInfo :=
  .struct <| (Fields.cons .bytes (.last .bytes)).map (fun p => ⟨p.1, p.2⟩) (fun i => (i.pfx, i.pub)) fun _ => rfl

def PingParams.codec : Codec PingParams :=
  .struct <| (Fields.last (.uint 8)).map (fun t => ⟨t⟩) (fun p => p.time) fun _ => rfl

def FindnodeParams.codec : Codec FindnodeParams :=
  .struct <| (Fields.cons .bytes (.last (.uint 1))).map (fun p => ⟨p.1, p.2⟩) (fun p => (p.target, p.k)) fun _ => rfl

def PingResponse.codec : Codec PingResponse :=
  .struct <| (Fields.last (.uint 8)).map (fun t => ⟨t⟩) (fun r => r.time) fun _ => rfl

def FindnodeResponse.codec : Codec FindnodeResponse :=
  .struct <| (Fields.last (.list NdnNodeRecordInfo.codec)).map (fun l => ⟨l⟩) (fun r => r.peers) fun _ => rfl

def KadRpcResponse.codec : Codec KadRpcResponse :=
  .struct <|
    (Fields.cons (.uint 2) <| .cons NdnNodeRecordInfo.codec <| .cons .bytes <| .cons .bytes <| .last .bytes).map
      (fun p => ⟨p.1, p.2.1, p.2.2.1, p.2.2.2.1, p.2.2.2.2⟩) (fun r => (r.method, r.sender, r.resultsW, r.err, r.sig))
      fun _ => rfl

/-- What is signed of a request: `[Method, Sender, ParamsW]`. -/
def KadRpcRequest.signedCodec : Codec (BitVec 16 × NdnNodeRecordInfo × Bytes) :=
  .struct <| .cons (.uint 2) <| .cons NdnNodeRecordInfo.codec <| .last .bytes

/-- What is signed of a response: `[Method, Sender, ResultsW, Err]`. -/
def KadRpcResponse.signedCodec : Codec (BitVec 16 × NdnNodeRecordInfo × Bytes × Bytes) :=
  .struct <| .cons (.uint 2) <| .cons NdnNodeRecordInfo.codec <| .cons .bytes <| .last .bytes

def Params.method : Params → BitVec 16
  | .ping _ => ttKadRpcPing
  | .findnode _ => ttKadRpcFindnode

def Params.encode : Params → Bytes
  | .ping p => PingParams.codec.encode p
  | .findnode p => FindnodeParams.codec.encode p

def Results.method : Results → BitVec 16
  | .ping _ => ttKadRpcPing
  | .findnode _ => ttKadRpcFindnode

def Results.encode : Results → Bytes
  | .ping r => PingResponse.codec.encode r
  | .findnode r => FindnodeResponse.codec.encode r

/-- The request for these parameters, signed: `crypto.Sign` of the hash. -/
def KadRpcRequest.new (prims : Primitives) (sign : Vector UInt8 32 → Bytes) (sender : NdnNodeRecordInfo) (nonce : BitVec 64)
    (params : Params) : KadRpcRequest where
  method := params.method
  sender := sender
  paramsW := params.encode
  nonce := nonce
  sig := sign (prims.keccak256 (signedCodec.encode (params.method, sender, params.encode)))

def KadRpcRequest.decodeParams (req : KadRpcRequest) : Option Params :=
  if req.method = ttKadRpcPing then (PingParams.codec.decode req.paramsW).map .ping
  else if req.method = ttKadRpcFindnode then (FindnodeParams.codec.decode req.paramsW).map .findnode
  else none

namespace KadRpcResponse

inductive Error | rlp | unexpected
  deriving DecidableEq, Repr

def decodeResults (resp : KadRpcResponse) : Except Error Results :=
  if resp.method = ttKadRpcPing then
    match PingResponse.codec.decode resp.resultsW with
    | some r => .ok (.ping r)
    | none => .error .rlp
  else if resp.method = ttKadRpcFindnode then
    match FindnodeResponse.codec.decode resp.resultsW with
    | some r => .ok (.findnode r)
    | none => .error .rlp
  else .error .unexpected

/-- The content that `Verify` and `Sign` make, with the results encoded if
there are no bytes for them. -/
def signedContent (resp : KadRpcResponse) (results : Results) : Bytes :=
  let resultsW := if resp.resultsW.isEmpty then results.encode else resp.resultsW
  signedCodec.encode (resp.method, resp.sender, resultsW, resp.err)

/-- `crypto.Verify` of the content under the sender's key. -/
def verify (prims : Primitives) (resp : KadRpcResponse) (results : Results) : Option Bool :=
  if resp.sig.isEmpty then none
  else some (prims.verifySignature resp.sender.pub (prims.keccak256 (resp.signedContent results)) resp.sig.dropLast)

end KadRpcResponse

/-! ## The client -/

structure RouteInfo where
  pfx : Name
  producer : Name

/-- `FetchObject`: what the network returns for a request, if anything. -/
abbrev Network := KadRpcRequest → RouteInfo → Option Bytes

/-- The errors of `request`; `remote` is the text of the reply's own. -/
inductive RpcError
  | fetch
  | rlp
  | unexpected
  | invalidSignature
  | remote (text : Bytes)
  deriving DecidableEq, Repr

/-- A call fails, or brings the program down. -/
inductive Failure
  | crash
  | err (e : RpcError)
  deriving DecidableEq, Repr

/-- `Client`, with the signing of its key. -/
structure Client where
  kadprefix : Name
  me : NdnNodeRecordInfo
  sign : Vector UInt8 32 → Bytes

namespace Client

/-- What `request` makes of the object that was fetched. -/
def receive (prims : Primitives) (peer : Kadpeer) (obj : Bytes) : Except Failure (Results × Kadpeer) :=
  match KadRpcResponse.codec.decode obj with
  | none => .error (.err .rlp)
  | some resp =>
    match resp.decodeResults with
    | .error .rlp => .error (.err .rlp)
    | .error .unexpected => .error (.err .unexpected)
    | .ok results =>
      match resp.verify prims results with
      | none => .error .crash
      | some false => .error (.err .invalidSignature)
      | some true =>
        if resp.err.isEmpty then
          match peer.updateNodeRecord prims resp.sender with
          | none => .error .crash
          -- The error of `UpdateNodeRecord` is discarded.
          | some (peer', _) => .ok (results, peer')
        else .error (.err (.remote resp.err))

/-- `request`: the results and the peer afterwards. -/
def request (prims : Primitives) (cli : Client) (net : Network) (nonce : BitVec 64) (params : Params) (peer : Kadpeer) :
    Except Failure (Results × Kadpeer) :=
  match net (.new prims cli.sign cli.me nonce params) ⟨peer.record.pfx, cli.kadprefix⟩ with
  | none => .error (.err .fetch)
  | some obj => receive prims peer obj

/-- `Ping`; the response is nil if the results are of another kind. -/
def ping (prims : Primitives) (cli : Client) (net : Network) (nonce : BitVec 64) (params : PingParams) (peer : Kadpeer) :
    Except Failure (Option PingResponse × Kadpeer) :=
  match cli.request prims net nonce (.ping params) peer with
  | .error e => .error e
  | .ok (.ping r, peer') => .ok (some r, peer')
  | .ok (.findnode _, peer') => .ok (none, peer')

def findnode (prims : Primitives) (cli : Client) (net : Network) (nonce : BitVec 64) (params : FindnodeParams) (peer : Kadpeer) :
    Except Failure (Option FindnodeResponse × Kadpeer) :=
  match cli.request prims net nonce (.findnode params) peer with
  | .error e => .error e
  | .ok (.findnode r, peer') => .ok (some r, peer')
  | .ok (.ping _, peer') => .ok (none, peer')

end Client

/-! ## The server -/

/-- `server`, with its backend: its record, the clock and its routing table. -/
structure Server where
  record : NdnNodeRecordInfo
  now : BitVec 64
  find : Bytes → BitVec 8 → List NdnNodeRecordInfo
  sign : Vector UInt8 32 → Bytes

namespace Server

/-- `Api.Ping` and `Api.Findnode`. -/
def answer (srv : Server) : Params → Results
  | .ping _ => .ping ⟨srv.now⟩
  | .findnode p => .findnode ⟨srv.find p.target p.k⟩

/-- The signed response with these results. -/
def response (prims : Primitives) (srv : Server) (method : BitVec 16) (results : Results) : KadRpcResponse where
  method := method
  sender := srv.record
  resultsW := results.encode
  err := []
  sig := srv.sign (prims.keccak256 (KadRpcResponse.signedCodec.encode (method, srv.record, results.encode, [])))

end Server

end NdnGeth.Kad
