/-
What a reply to a Kademlia RPC proves. The client checks its signature, with
the key that the reply itself brings; it does not look at the method of the
reply, and it discards the error with which `UpdateNodeRecord` answers a
sender of another identity. So a nil error means a reply of the queried peer
to this request only if the network returns no other. The record of the peer
is safe in any case.
-/
import NdnGeth.Kad.Rpc
import NdnGeth.Lib.Keccak

namespace NdnGeth.Kad

open Lib.Rlp (Bytes Codec)

variable {prims : Primitives} {peer peer' : Kadpeer} {results : Results}

/-! ## The steps of `request` -/

theorem KadRpcResponse.decodeResults_method {resp : KadRpcResponse} (h : resp.decodeResults = .ok results) :
    results.method = resp.method := by
  simp only [decodeResults] at h
  split at h
  · next hm =>
    split at h
    · cases h
      exact hm.symm
    · cases h
  · split at h
    · next hm =>
      split at h
      · cases h
        exact hm.symm
      · cases h
    · cases h

theorem Kadpeer.updateNodeRecord_eq {info : NdnNodeRecordInfo} {e : Option UpdateError}
    (h : peer.updateNodeRecord prims info = some (peer', e)) :
    peer'.record.id = peer.record.id ∧
      ∃ pretty, prettyName (prims.parseName info.pfx) = some pretty ∧
        (e = none ↔ makeID prims info.pub pretty = peer.record.id) := by
  simp only [updateNodeRecord, ndnNodeRecordUnmarshaling] at h
  cases hpretty : prettyName (prims.parseName info.pfx) with
  | none =>
    rw [hpretty] at h
    cases h
  | some pretty =>
    simp only [hpretty] at h
    split at h
    · next hne =>
      obtain ⟨rfl, rfl⟩ := Prod.mk.inj (Option.some.inj h)
      exact ⟨rfl, pretty, rfl, fun h => (by cases h), fun h => absurd h hne⟩
    · next heq =>
      have heq := not_not.1 heq
      split at h
      · obtain ⟨rfl, rfl⟩ := Prod.mk.inj (Option.some.inj h)
        exact ⟨heq, pretty, rfl, fun _ => heq, fun _ => rfl⟩
      · obtain ⟨rfl, rfl⟩ := Prod.mk.inj (Option.some.inj h)
        exact ⟨rfl, pretty, rfl, fun _ => heq, fun _ => rfl⟩

/-- The object is a reply that the client accepts: it decodes, and its results
do, the signature is valid under the key it brings, and it reports no error. -/
structure Accepted (prims : Primitives) (obj : Bytes) (resp : KadRpcResponse) (results : Results) : Prop where
  response : KadRpcResponse.codec.decode obj = some resp
  decoded : resp.decodeResults = .ok results
  verified : resp.verify prims results = some true
  noError : resp.err = []

theorem Client.receive_eq_ok {obj : Bytes} : receive prims peer obj = .ok (results, peer') ↔
    ∃ resp e, Accepted prims obj resp results ∧ peer.updateNodeRecord prims resp.sender = some (peer', e) := by
  constructor
  · intro h
    simp only [receive] at h
    split at h
    · cases h
    · next resp hdec =>
      split at h
      · cases h
      · cases h
      · next results' hres =>
        split at h
        · cases h
        · cases h
        · next hver =>
          split at h
          · next herr =>
            split at h
            · cases h
            · next p e hupd =>
              cases h
              exact ⟨resp, e, ⟨hdec, hres, hver, List.isEmpty_iff.1 herr⟩, hupd⟩
          · cases h
  · rintro ⟨resp, e, hacc, hupd⟩
    simp [receive, hacc.response, hacc.decoded, hacc.verified, hacc.noError, hupd]

/-! ## Every reply -/

/-- The reply is signed with its sender's key, the sender is the queried
peer, and it answers this method. The identity is made from the sender's
prefix in its pretty form, which for a prefix in that form is itself. -/
structure Authentic (prims : Primitives) (method : BitVec 16) (peer : Kadpeer) (resp : KadRpcResponse) (results : Results) :
    Prop where
  decoded : resp.decodeResults = .ok results
  signed : prims.verifySignature resp.sender.pub (prims.keccak256 (resp.signedContent results)) resp.sig.dropLast = true
  identity : ∃ pretty, prettyName (prims.parseName resp.sender.pfx) = some pretty ∧
    makeID prims resp.sender.pub pretty = peer.record.id
  exactIdentity : prettyName (prims.parseName resp.sender.pfx) = some resp.sender.pfx →
    makeID prims resp.sender.pub resp.sender.pfx = peer.record.id
  method : resp.method = method

/-- If the client accepts the object and comes through `UpdateNodeRecord`, it is
a reply to this method, from a sender that `UpdateNodeRecord` does not refuse. -/
def Expected (prims : Primitives) (method : BitVec 16) (peer : Kadpeer) (obj : Bytes) : Prop :=
  ∀ resp results, Accepted prims obj resp results → ∀ u ∈ peer.updateNodeRecord prims resp.sender,
    resp.method = method ∧ u.2 = none

theorem Accepted.authentic_iff {obj : Bytes} {method : BitVec 16} {resp : KadRpcResponse} {e : Option UpdateError}
    (h : Accepted prims obj resp results) (hupd : peer.updateNodeRecord prims resp.sender = some (peer', e)) :
    Authentic prims method peer resp results ↔ resp.method = method ∧ e = none := by
  obtain ⟨-, pretty, hpretty, hid⟩ := Kadpeer.updateNodeRecord_eq hupd
  constructor
  · intro hauth
    obtain ⟨pretty', hpretty', hid'⟩ := hauth.identity
    cases hpretty.symm.trans hpretty'
    exact ⟨hauth.method, hid.2 hid'⟩
  · rintro ⟨hmethod, he⟩
    refine ⟨h.decoded, ?_, ⟨pretty, hpretty, hid.1 he⟩, fun hexact => ?_, hmethod⟩
    · have hver := h.verified
      simp only [KadRpcResponse.verify] at hver
      split at hver
      · cases hver
      · exact Option.some.inj hver
    · cases hpretty.symm.trans hexact
      exact hid.1 he

/-- **RPC replies are authenticated** exactly if the network returns no reply
that the client accepts and that is to another method or from another sender:
whenever `request` returns without an error, the object it was given is a reply
of the queried peer to this request, and `Ping` and `Findnode` return results of
their kind. -/
theorem reply_authenticated (prims : Primitives) (cli : Client) (net : Network) (nonce : BitVec 64) (params : Params) (peer : Kadpeer) :
    (∀ results peer', cli.request prims net nonce params peer = .ok (results, peer') →
      (∃ obj resp, net (.new prims cli.sign cli.me nonce params) ⟨peer.record.pfx, cli.kadprefix⟩ = some obj ∧
        KadRpcResponse.codec.decode obj = some resp ∧ Authentic prims params.method peer resp results) ∧
      (∀ p, params = .ping p → ∃ r, cli.ping prims net nonce p peer = .ok (some r, peer') ∧ results = .ping r) ∧
      (∀ p, params = .findnode p → ∃ r, cli.findnode prims net nonce p peer = .ok (some r, peer') ∧ results = .findnode r)) ↔
    ∀ obj ∈ net (.new prims cli.sign cli.me nonce params) ⟨peer.record.pfx, cli.kadprefix⟩,
      Expected prims params.method peer obj := by
  constructor
  · rintro h obj hobj resp results hacc ⟨peer', e⟩ hupd
    have hreq : cli.request prims net nonce params peer = .ok (results, peer') := by
      simp only [Client.request, Option.mem_def.1 hobj]
      exact Client.receive_eq_ok.2 ⟨resp, e, hacc, hupd⟩
    obtain ⟨⟨obj', resp', hobj', hdec, hauth⟩, -⟩ := h results peer' hreq
    cases hobj.symm.trans hobj'
    cases hacc.response.symm.trans hdec
    exact (hacc.authentic_iff hupd).1 hauth
  · intro hexp results peer' h
    obtain ⟨obj, resp, hobj, hdec, hauth⟩ : ∃ obj resp,
        net (.new prims cli.sign cli.me nonce params) ⟨peer.record.pfx, cli.kadprefix⟩ = some obj ∧
        KadRpcResponse.codec.decode obj = some resp ∧ Authentic prims params.method peer resp results := by
      have h' := h
      simp only [Client.request] at h'
      split at h'
      · cases h'
      · next obj hobj =>
        obtain ⟨resp, e, hacc, hupd⟩ := Client.receive_eq_ok.1 h'
        exact ⟨obj, resp, hobj, hacc.response, (hacc.authentic_iff hupd).2 (hexp obj hobj resp results hacc _ hupd)⟩
    have hkind : results.method = params.method :=
      (KadRpcResponse.decodeResults_method hauth.decoded).trans hauth.method
    refine ⟨⟨obj, resp, hobj, hdec, hauth⟩, fun p hp => ?_, fun p hp => ?_⟩
    · subst hp
      cases results with
      | ping r => exact ⟨r, by simp only [Client.ping, h], rfl⟩
      | findnode r =>
        have hne : ttKadRpcFindnode ≠ ttKadRpcPing := by decide
        exact absurd hkind hne
    · subst hp
      cases results with
      | findnode r => exact ⟨r, by simp only [Client.findnode, h], rfl⟩
      | ping r =>
        have hne : ttKadRpcPing ≠ ttKadRpcFindnode := by decide
        exact absurd hkind hne

/-! ## The reply of a stranger -/

/-- The bytes of a number, the most significant first. -/
def bytesOf (len n : Nat) : Bytes := (List.range len).map fun i => UInt8.ofNat (n / 256 ^ (len - 1 - i))

def hashOf (n : Nat) : Vector UInt8 32 := Vector.ofFn fun i => UInt8.ofNat (n / 256 ^ (31 - i.val))

/-- The queried peer `/s` and a stranger `/m`, with the public keys of the
secret keys 2 and 3. -/
def peerInfo : NdnNodeRecordInfo where
  pfx := [47, 115]
  pub := bytesOf 65 0x04c6047f9441ed7d6d3045406e95c07cd85c778e4b8cef3ca7abac09b95c709ee51ae168fea63dc339a3c58419466ceaeef7f632653266d0e1236431a950cfe52a

def strangerInfo : NdnNodeRecordInfo where
  pfx := [47, 109]
  pub := bytesOf 65 0x04f9308a019258c31049344f85f89d5229b531c845836f99b08601f113bce036f9388f7b0f632de8140fe337e62a37f3566500a99934c2231b6cb9fd7584b8e672

/-- The reply of `/s` to a ping at time 5, with the signature of its content. -/
def peerReply : KadRpcResponse where
  method := ttKadRpcPing
  sender := peerInfo
  resultsW := PingResponse.codec.encode ⟨5⟩
  err := []
  sig := bytesOf 65 0x4f1cb48cd3f87c9eedbf04abcd6aabfbfedc692577d0dbae36943921fc1f9ac470ed3a7faf3f8c36f74e6c0c7db27eac5f72d64ad7ccebda46014d19d9f8fc3e00

/-- A reply of `/m` to a findnode request, in which it names no peer, with
the signature of its content. -/
def strangerReply : KadRpcResponse where
  method := ttKadRpcFindnode
  sender := strangerInfo
  resultsW := FindnodeResponse.codec.encode ⟨[]⟩
  err := []
  sig := bytesOf 65 0x1c6ba9faf16f07f8f2f748fe1eebbd5441719b5afc11139767bb169319560d182a14da00cae17c1c8c697cd1e53af3494aafb71d0bca6cdf0e7d3dfb5e30ce0400

/-- The library functions: the signatures that are made here, and names of one
plain component. -/
def samplePrims : Primitives where
  keccak256 := Lib.Keccak.digest
  verifySignature pub hash sig :=
    (pub = peerInfo.pub ∧ hash = hashOf 0xf50786cb9a82598f9e30383a34b81bb447168ac9cbabba8a7f21596929f05a20 ∧ sig = peerReply.sig.dropLast) ∨
    (pub = strangerInfo.pub ∧ hash = hashOf 0xfeeb6ca62efb149a8d389018beb8c337b023feb7e62c7dea879b67366ab5e146 ∧ sig = strangerReply.sig.dropLast)
  parseName b := [⟨8, b.drop 1⟩]

def sampleClient : Client := ⟨[⟨8, [107]⟩], ⟨[47, 99], []⟩, fun _ => []⟩

/-- `/s` as a boot node: its identity is known, its key is not. -/
def samplePeer : Kadpeer := peerFromRecord ⟨makeID samplePrims peerInfo.pub peerInfo.pfx, [⟨8, [115]⟩], []⟩

def returns (resp : KadRpcResponse) : Network := fun _ _ => some (KadRpcResponse.codec.encode resp)

/-- The network returns the stranger's reply to a ping of `/s`. `Ping` returns
no error and no response; the reply is of another method, and its sender of
another identity. -/
theorem reply_of_stranger_accepted :
    ∃ peer', sampleClient.ping samplePrims (returns strangerReply) 1 ⟨0⟩ samplePeer = .ok (none, peer') ∧
      KadRpcResponse.codec.decode (KadRpcResponse.codec.encode strangerReply) = some strangerReply ∧
      strangerReply.method ≠ ttKadRpcPing ∧
      makeID samplePrims strangerInfo.pub strangerInfo.pfx ≠ samplePeer.record.id := by
  have hrun : (match sampleClient.ping samplePrims (returns strangerReply) 1 ⟨0⟩ samplePeer with
      | .ok (none, _) => true
      | _ => false) = true := by
    decide +kernel
  split at hrun
  · next peer' hping =>
    refine ⟨peer', hping, ?_, ?_, ?_⟩
    · decide +kernel
    · decide +kernel
    · decide +kernel
  · cases hrun

end NdnGeth.Kad
