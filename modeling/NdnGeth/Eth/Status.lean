/-
The Status handshake with its messages in full (`sendStatus`, `onNewKadPeer`
and `receiveStatus` of `ndn/eth/handler.go`); `Handshake` is about how two
handlers interleave, here each one is a step.

* `recorded_iff`: the side that answers an offer records what the offer says.
  The side that makes it records its own head, which it has in hand under the
  same type, and never asks whether the answer is under the peer's key; so
  what `bestPeer` compares is what the peers said only as long as the two
  agree (`Agrees`).
* `keyed_iff`: a public value out of range comes to a nil key, of which
  `makesecret` takes the bytes.
-/
import NdnGeth.Lib.Run
import NdnGeth.Eth.Dhkx
import NdnGeth.Eth.PeerSet
import NdnGeth.Eth.EthMsg

namespace NdnGeth.Eth

open Function
open Lib (Run)
open Lib.Rlp (Bytes Codec Fields ofBytes)
open Core (Hash)
open Kad (Primitives NdnNodeRecord makeID)
open Lib.Hex (hexEncode)
open Types (hashCodec)
open Wire (StatusMsg EthMsg)

/-- How a handler comes down: `Verify` on an empty signature, `makesecret`
on the nil key. -/
inductive Crash | signature | nilKey
  deriving DecidableEq, Repr

/-- `head`, `td` and `bnum`, of a peer or of a chain. -/
structure HeadInfo where
  head : Hash
  td : Nat
  bnum : BitVec 64
  deriving DecidableEq, Repr

def HeadInfo.setHead (h new : HeadInfo) : HeadInfo := if h.td < new.td then new else h

/-! ## Messages -/

namespace Wire.StatusMsg

def signedpart (m : StatusMsg) : Bytes :=
  (Codec.struct <| Fields.cons .bytes <| .cons .bytes <| .cons .bytes <| .cons (.uint 8) <| .cons .nat <|
    .cons hashCodec <| .cons (.uint 8) <| .cons hashCodec <| .cons .bool <| .last (.uint 8)).encode
    (m.pub, m.dhPub, m.pfx, m.networkId, m.td, m.head, m.bnum, m.genesis, m.accept, m.nonce)

/-- `crypto.Verify` of a message under a key. -/
def verify (prims : Primitives) (pub : Bytes) (m : StatusMsg) : Except Crash Bool :=
  if m.sig.isEmpty then .error .signature
  else .ok (prims.verifySignature pub (prims.keccak256 m.signedpart) m.sig.dropLast)

def info (m : StatusMsg) : HeadInfo := ⟨m.head, m.td, m.bnum⟩

end Wire.StatusMsg

/-! ## The peers -/

/-- The peer set, and the fields of the peers that the handshake changes. -/
structure Peers where
  ps : PeerSet
  pub : PeerPtr → Bytes
  info : PeerPtr → HeadInfo
  connected : PeerPtr → Bool
  secret : PeerPtr → Secret

namespace Peers

def new : Peers := ⟨.new, fun _ => [], fun _ => ⟨0, 0, 0⟩, fun _ => false, fun _ => Vector.replicate 32 0⟩

def makenewpeer (s : Peers) (id : String) (pub : Bytes) (dir : Bool) (dhprv : Nat) : Peers × PeerPtr :=
  let (ps, p) := s.ps.makenewpeer id dir dhprv
  ({ s with ps, pub := if p ∈ s.ps.made then s.pub else update s.pub p pub }, p)

def setHead (s : Peers) (p : PeerPtr) (new : HeadInfo) : Peers :=
  { s with info := update s.info p ((s.info p).setHead new) }

theorem setHead_info (s : Peers) (p : PeerPtr) (new : HeadInfo) : (s.setHead p new).info p = (s.info p).setHead new :=
  update_self ..

def makesecret (s : Peers) (p : PeerPtr) (dhpub : Bytes) : Option Peers :=
  (Eth.makesecret (s.secret p) dhpub p.dhprv).map fun k => { s with secret := update s.secret p k }

def register (s : Peers) (p : PeerPtr) : Peers :=
  let (ps, added) := s.ps.register p
  { s with ps, connected := if added then update s.connected p true else s.connected }

/-- `bestPeer`, on the peers in the order of the map. -/
def bestPeer (s : Peers) (order : List PeerPtr) : Option PeerPtr :=
  (order.foldl (fun best p => if best.2 < (s.info p).td then (some p, (s.info p).td) else best) (none, 0)).1

end Peers

/-! ## The handlers -/

/-- What a controller does not change. -/
structure Host where
  prims : Primitives
  sign : Bytes → Bytes
  networkId : BitVec 64
  genesis : Hash
  pubkey : Bytes
  pfx : Bytes
  maxIns : Nat
  maxOuts : Nat

/-- `ID.String`. -/
def idString (id : Kad.ID) : String := .ofList ((hexEncode id.toList).map fun b => Char.ofNat b.toNat)

namespace Host

/-- `createStatusMsg`; `chain` is the head of the chain of this node. -/
def createStatusMsg (h : Host) (chain : HeadInfo) (dhpub : Bytes) (nonce : BitVec 64) (accept : Bool) : StatusMsg :=
  let status : StatusMsg :=
    ⟨h.pubkey, dhpub, h.pfx, h.networkId, chain.td, chain.head, chain.bnum, h.genesis, accept, nonce, []⟩
  { status with sig := h.sign status.signedpart }

def checkHandshake (h : Host) (msg : StatusMsg) : Bool := h.networkId == msg.networkId && h.genesis == msg.genesis

/-- `sendStatus`, with what comes back: the public value and whether the
peer is accepted. -/
def sendStatus (h : Host) (s : Peers) (p : PeerPtr) (msg : StatusMsg) :
    Option EthMsg → Except Crash (Peers × Bytes × Bool)
  | some (.status response) =>
    match response.verify h.prims response.pub with
    | .error e => .error e
    | .ok false => .ok (s, [], false)
    | .ok true =>
      if response.accept && h.checkHandshake response then .ok (s.setHead p msg.info, response.dhPub, true)
      else .ok (s, response.dhPub, false)
  | _ => .ok (s, [], false)

def kadPeer (s : Peers) (rec : NdnNodeRecord) (dhprv : Nat) : Peers × PeerPtr :=
  s.makenewpeer (idString rec.id) rec.pubkey true dhprv

def onNewKadPeer (h : Host) (chain : HeadInfo) (rec : NdnNodeRecord) (dhprv : Nat) (nonce : BitVec 64)
    (reply : Option EthMsg) (s : Peers) : Except Crash Peers :=
  if h.maxOuts ≤ s.ps.numouts then .ok s
  else
    let (s, p) := kadPeer s rec dhprv
    if s.connected p then .ok s
    else
      match h.sendStatus s p (h.createStatusMsg chain (dhPub p.dhprv) nonce true) reply with
      | .error e => .error e
      | .ok (s, _, false) => .ok { s with ps := s.ps.reject p }
      | .ok (s, dhpub, true) =>
        match s.makesecret p dhpub with
        | none => .error .nilKey
        | some s => .ok (s.register p)

def statusPeer (h : Host) (s : Peers) (msg : StatusMsg) (dhprv : Nat) : Peers × PeerPtr :=
  s.makenewpeer (idString (makeID h.prims msg.pub msg.pfx)) msg.pub false dhprv

/-- `receiveStatus`, with its reply. -/
def receiveStatus (h : Host) (chain : HeadInfo) (msg : StatusMsg) (dhprv : Nat) (s : Peers) :
    Except Crash (Peers × Option StatusMsg) :=
  match msg.verify h.prims msg.pub with
  | .error e => .error e
  | .ok false => .ok (s, none)
  | .ok true =>
    if s.ps.numins < h.maxIns ∧ h.checkHandshake msg = true then
      let (s, p) := h.statusPeer s msg dhprv
      match (s.setHead p msg.info).makesecret p msg.dhPub with
      | none => .error .nilKey
      | some s =>
        .ok (if s.connected p then s else s.register p,
          some (h.createStatusMsg chain (dhPub p.dhprv) msg.nonce true))
    else .ok (s, some (h.createStatusMsg chain [] msg.nonce false))

/-! ## What the handlers do -/

variable {h : Host} {s s' : Peers} {p : PeerPtr} {msg r : StatusMsg} {chain : HeadInfo} {rec : NdnNodeRecord}
  {dhprv : Nat} {nonce : BitVec 64} {reply : Option EthMsg} {dhpub : Bytes}

/-- The reply is taken as the acceptance of the offer. -/
def Accepts (h : Host) (r : StatusMsg) : Prop :=
  r.verify h.prims r.pub = .ok true ∧ r.accept = true ∧ h.checkHandshake r = true

/-- The offer is accepted. -/
def Takes (h : Host) (s : Peers) (msg : StatusMsg) : Prop :=
  msg.verify h.prims msg.pub = .ok true ∧ s.ps.numins < h.maxIns ∧ h.checkHandshake msg = true

theorem sendStatus_ok (hok : h.sendStatus s p msg reply = .ok (s', dhpub, true)) :
    ∃ r, reply = some (.status r) ∧ h.Accepts r ∧ s' = s.setHead p msg.info ∧ dhpub = r.dhPub := by
  unfold sendStatus at hok
  split at hok
  · next r =>
    split at hok
    · cases hok
    · cases hok
    · next hv =>
      split at hok
      · next hacc =>
        cases hok
        rw [Bool.and_eq_true] at hacc
        exact ⟨r, rfl, ⟨hv, hacc⟩, rfl, rfl⟩
      · cases hok
  · cases hok

theorem sendStatus_refused (hok : h.sendStatus s p msg reply = .ok (s', dhpub, false)) : s' = s := by
  unfold sendStatus at hok
  split at hok
  · split at hok
    · cases hok
    · cases hok
      rfl
    · split at hok
      · cases hok
      · cases hok
        rfl
  · cases hok
    rfl

theorem sendStatus_accepts (hacc : h.Accepts r) :
    h.sendStatus s p msg (some (.status r)) = .ok (s.setHead p msg.info, r.dhPub, true) := by
  obtain ⟨hv, ha, hc⟩ := hacc
  simp only [sendStatus, hv, ha, hc, Bool.and_self, if_true]

theorem receiveStatus_takes (ht : h.Takes s msg) :
    h.receiveStatus chain msg dhprv s =
      match ((h.statusPeer s msg dhprv).1.setHead (h.statusPeer s msg dhprv).2 msg.info).makesecret
        (h.statusPeer s msg dhprv).2 msg.dhPub with
      | none => .error .nilKey
      | some s' =>
        .ok (if s'.connected (h.statusPeer s msg dhprv).2 then s' else s'.register (h.statusPeer s msg dhprv).2,
          some (h.createStatusMsg chain (dhPub (h.statusPeer s msg dhprv).2.dhprv) msg.nonce true)) := by
  obtain ⟨hv, hlt, hc⟩ := ht
  simp only [receiveStatus, hv, hlt, hc, and_self, if_true]

theorem receiveStatus_refuses (chain : HeadInfo) (dhprv : Nat) (ht : ¬h.Takes s msg) :
    h.receiveStatus chain msg dhprv s = .error .signature ∨ ∃ out, h.receiveStatus chain msg dhprv s = .ok (s, out) := by
  unfold receiveStatus
  cases hv : msg.verify h.prims msg.pub with
  | error e =>
    unfold StatusMsg.verify at hv
    split at hv <;> cases hv
    exact .inl rfl
  | ok b =>
    cases b with
    | false => exact .inr ⟨_, rfl⟩
    | true =>
      simp only [show ¬(s.ps.numins < h.maxIns ∧ h.checkHandshake msg = true) from fun hc => ht ⟨hv, hc⟩, if_false]
      exact .inr ⟨_, rfl⟩

/-- `onNewKadPeer` makes an offer. -/
def Asks (h : Host) (s : Peers) (rec : NdnNodeRecord) (dhprv : Nat) : Prop :=
  s.ps.numouts < h.maxOuts ∧ s.connected (kadPeer s rec dhprv).2 = false

theorem onNewKadPeer_refused (chain : HeadInfo) (nonce : BitVec 64)
    (hno : ∀ r, reply = some (.status r) → h.Asks s rec dhprv → ¬h.Accepts r) :
    h.onNewKadPeer chain rec dhprv nonce reply s = .error .signature ∨
      ∃ s', h.onNewKadPeer chain rec dhprv nonce reply s = .ok s' ∧ (s' = s ∨ s' = (kadPeer s rec dhprv).1 ∨
        s' = { (kadPeer s rec dhprv).1 with ps := (kadPeer s rec dhprv).1.ps.reject (kadPeer s rec dhprv).2 }) := by
  unfold onNewKadPeer
  split
  · exact .inr ⟨s, rfl, .inl rfl⟩
  · next hlt =>
    simp only
    split
    · exact .inr ⟨_, rfl, .inr (.inl rfl)⟩
    · next hcon =>
      have hask : h.Asks s rec dhprv := ⟨Int.not_le.1 hlt, Bool.eq_false_iff.2 hcon⟩
      split
      · next e hs =>
        refine .inl ?_
        unfold sendStatus at hs
        split at hs
        · split at hs
          · next hv =>
            unfold StatusMsg.verify at hv
            split at hv <;> cases hv
            cases hs
            rfl
          · cases hs
          · split at hs <;> cases hs
        · cases hs
      · next s₁ _ hs =>
        obtain rfl := sendStatus_refused hs
        exact .inr ⟨_, rfl, .inr (.inr rfl)⟩
      · next hs =>
        obtain ⟨r, hr, hacc, -⟩ := sendStatus_ok hs
        exact absurd hacc (hno r hr hask)

theorem onNewKadPeer_accepted (hask : h.Asks s rec dhprv) (hacc : h.Accepts r) :
    h.onNewKadPeer chain rec dhprv nonce (some (.status r)) s =
      match ((kadPeer s rec dhprv).1.setHead (kadPeer s rec dhprv).2 chain).makesecret (kadPeer s rec dhprv).2 r.dhPub with
      | none => .error .nilKey
      | some s' => .ok (s'.register (kadPeer s rec dhprv).2) := by
  have hcon : (kadPeer s rec dhprv).1.connected (kadPeer s rec dhprv).2 = false := hask.2
  simp only [onNewKadPeer, Int.not_le.2 hask.1, if_false, hcon, sendStatus_accepts hacc]
  rfl

/-! ## Keys out of range -/

/-- `ComputeKey` gives an error and no key. -/
def KeyRefused (dhpub : Bytes) : Prop := ofBytes dhpub = 0 ∨ group14.p ≤ ofBytes dhpub

theorem makesecret_eq_none : s.makesecret p dhpub = none ↔ KeyRefused dhpub := by
  simp only [Peers.makesecret, Eth.makesecret, DHGroup.computeKey, Option.map_eq_none_iff, KeyRefused, ite_eq_left_iff,
    reduceCtorEq, imp_false, not_not]

/-- The handler does not come to the nil key, and with a key that is refused
it leaves the secrets as they were. -/
def KeySafe (secret : PeerPtr → Secret) (dhpub : Bytes) (result : Except Crash Peers) : Prop :=
  result ≠ .error .nilKey ∧ (KeyRefused dhpub → ∀ s', result = .ok s' → s'.secret = secret)

theorem keySafe_receiveStatus : KeySafe s.secret msg.dhPub ((h.receiveStatus chain msg dhprv s).map Prod.fst) ↔
    (h.Takes s msg → ¬KeyRefused msg.dhPub) := by
  by_cases ht : h.Takes s msg
  · rw [receiveStatus_takes ht]
    split
    · next hnone =>
      have hkey := makesecret_eq_none.1 hnone
      exact ⟨fun hsafe => absurd rfl hsafe.1, fun hno => absurd hkey (hno ht)⟩
    · next s' hsome =>
      have hkey : ¬KeyRefused msg.dhPub := fun hkey => by
        rw [makesecret_eq_none.2 hkey] at hsome
        cases hsome
      exact ⟨fun _ _ => hkey, fun _ => ⟨by simp [Except.map], fun hk => absurd hk hkey⟩⟩
  · refine ⟨fun _ hno => absurd hno ht, fun _ => ?_⟩
    obtain heq | ⟨out, heq⟩ := receiveStatus_refuses chain dhprv ht
    · rw [heq]
      exact ⟨by simp [Except.map], fun _ s' hs => by cases hs⟩
    · rw [heq]
      exact ⟨by simp [Except.map], fun _ s' hs => by cases hs; rfl⟩

theorem keySafe_onNewKadPeer :
    KeySafe s.secret r.dhPub (h.onNewKadPeer chain rec dhprv nonce (some (.status r)) s) ↔
      (h.Asks s rec dhprv ∧ h.Accepts r → ¬KeyRefused r.dhPub) := by
  by_cases ha : h.Asks s rec dhprv ∧ h.Accepts r
  · rw [onNewKadPeer_accepted ha.1 ha.2]
    split
    · next hnone =>
      have hkey := makesecret_eq_none.1 hnone
      exact ⟨fun hsafe => absurd rfl hsafe.1, fun hno => absurd hkey (hno ha)⟩
    · next s' hsome =>
      have hkey : ¬KeyRefused r.dhPub := fun hkey => by
        rw [makesecret_eq_none.2 hkey] at hsome
        cases hsome
      exact ⟨fun _ _ => hkey, fun _ => ⟨by simp, fun hk => absurd hk hkey⟩⟩
  · refine ⟨fun _ hno => absurd hno ha, fun _ => ?_⟩
    have hno : ∀ r', (some (.status r) : Option EthMsg) = some (.status r') → h.Asks s rec dhprv → ¬h.Accepts r' :=
      fun r' heq hask hacc => ha ⟨hask, by cases heq; exact hacc⟩
    obtain heq | ⟨s', heq, hs'⟩ := onNewKadPeer_refused chain nonce hno
    · rw [heq]
      exact ⟨by simp, fun _ s' hs => by cases hs⟩
    · rw [heq]
      refine ⟨by simp, fun _ s'' hs => ?_⟩
      cases hs
      obtain rfl | rfl | rfl := hs' <;> rfl

/-- **A public value does not bring the node down, as long as it is in
range.** In either handler it gets to `makesecret` if the signature, the
network, the genesis block and the limits are as they should be, and from
there only a value from 1 to the modulus comes back. -/
theorem keyed_iff (h : Host) (chain : HeadInfo) (s : Peers) (dhprv : Nat) (rec : NdnNodeRecord) (nonce : BitVec 64)
    (msg r : StatusMsg) :
    (KeySafe s.secret msg.dhPub ((h.receiveStatus chain msg dhprv s).map Prod.fst) ↔
      (h.Takes s msg → ¬KeyRefused msg.dhPub)) ∧
    (KeySafe s.secret r.dhPub (h.onNewKadPeer chain rec dhprv nonce (some (.status r)) s) ↔
      (h.Asks s rec dhprv ∧ h.Accepts r → ¬KeyRefused r.dhPub)) :=
  ⟨keySafe_receiveStatus, keySafe_onNewKadPeer⟩

/-- A node of network 1, where only key 2 signs. -/
def sampleHost : Host where
  prims := ⟨fun _ => Vector.replicate 32 0, fun pub _ _ => pub == [2], fun _ => []⟩
  sign _ := [1]
  networkId := 1
  genesis := 5
  pubkey := [1]
  pfx := [47]
  maxIns := 1
  maxOuts := 1

/-- The status of a stranger whose chain ends in block 3, of difficulty 7. -/
def sampleStatus (dhPub : Bytes) : StatusMsg := ⟨[2], dhPub, [47], 1, 7, 3, 2, 5, true, 9, [1, 0]⟩

/-- An empty public value, in an offer and in an answer. -/
theorem empty_key_crashes : (sampleStatus []).dhPub = [] ∧
    (sampleHost.receiveStatus ⟨4, 8, 3⟩ (sampleStatus []) 2 .new).map Prod.fst = .error .nilKey ∧
    sampleHost.onNewKadPeer ⟨4, 8, 3⟩ ⟨Vector.replicate _ 0, [], [2]⟩ 2 9 (some (.status (sampleStatus []))) .new =
      .error .nilKey := by
  refine ⟨rfl, ?_, ?_⟩
  · rw [receiveStatus_takes ⟨rfl, by decide, rfl⟩, makesecret_eq_none.2 (.inl rfl)]
    rfl
  · rw [onNewKadPeer_accepted ⟨by decide, rfl⟩ ⟨rfl, rfl, rfl⟩, makesecret_eq_none.2 (.inl rfl)]

end Host

/-! ## The heads -/

/-- The peer has the head that was said, or an earlier one that is no
lighter. -/
def Recorded (old new said : HeadInfo) : Prop := new = said ∨ new = old ∧ said.td ≤ old.td

/-- With its own head in place of what the peer said, a node records the
same. -/
def Agrees (old own said : HeadInfo) : Prop := if old.td < own.td then own = said else said.td ≤ old.td

theorem recorded_setHead (old own said : HeadInfo) : Recorded old (old.setHead own) said ↔ Agrees old own said := by
  unfold Recorded Agrees HeadInfo.setHead
  split
  · next hlt =>
    refine ⟨fun h => h.resolve_right fun h => ?_, .inl⟩
    rw [h.1] at hlt
    exact Nat.lt_irrefl _ hlt
  · refine ⟨fun h => ?_, fun h => .inr ⟨rfl, h⟩⟩
    obtain rfl | h := h
    · exact Nat.le_refl _
    · exact h.2

theorem agrees_self (old own : HeadInfo) : Agrees old own own := by
  unfold Agrees
  split
  · rfl
  · next hle => exact Nat.not_lt.1 hle

namespace Peers

variable {s : Peers} {p : PeerPtr}

theorem bestPeer_spec (s : Peers) (order : List PeerPtr) :
    (∀ q ∈ order, (s.info q).td ≤ ((s.bestPeer order).elim 0 fun p => (s.info p).td)) ∧
      ∀ p, s.bestPeer order = some p → p ∈ order := by
  have hloop : ∀ (rest seen : List PeerPtr) (best : Option PeerPtr × Nat),
      best.2 = best.1.elim 0 (fun p => (s.info p).td) → (∀ q ∈ seen, (s.info q).td ≤ best.2) → (∀ p, best.1 = some p → p ∈ seen) →
      let best' := rest.foldl (fun best p => if best.2 < (s.info p).td then (some p, (s.info p).td) else best) best
      (∀ q ∈ seen ++ rest, (s.info q).td ≤ best'.1.elim 0 fun p => (s.info p).td) ∧ ∀ p, best'.1 = some p → p ∈ seen ++ rest := by
    intro rest
    induction rest with
    | nil =>
      intro seen best htd hle hmem
      rw [List.append_nil]
      exact ⟨htd ▸ hle, hmem⟩
    | cons p rest ih =>
      intro seen best htd hle hmem
      rw [List.foldl_cons, ← List.singleton_append, ← List.append_assoc]
      split
      · next hlt =>
        refine ih (seen ++ [p]) _ rfl (fun q hq => ?_) fun q hq => ?_
        · rcases List.mem_append.1 hq with hq | hq
          · exact Nat.le_of_lt (Nat.lt_of_le_of_lt (hle q hq) hlt)
          · rw [List.mem_singleton.1 hq]
        · cases hq
          exact List.mem_append_right _ (List.mem_singleton_self p)
      · next hle' =>
        refine ih (seen ++ [p]) best htd (fun q hq => ?_) fun q hq => List.mem_append_left _ (hmem q hq)
        rcases List.mem_append.1 hq with hq | hq
        · exact hle q hq
        · rw [List.mem_singleton.1 hq]
          exact Nat.not_lt.1 hle'
  exact hloop order [] (none, 0) rfl (fun _ h => by cases h) (fun _ h => by cases h)

/-- The invariant: a peer has the head it was made with, or one that it has
said under its own key. -/
structure Told (prims : Primitives) (heard : List StatusMsg) (s : Peers) : Prop where
  ps : s.ps.WF
  said : ∀ p, s.info p = ⟨0, 0, 0⟩ ∨
    p ∈ s.ps.made ∧ ∃ m ∈ heard, m.verify prims (s.pub p) = .ok true ∧ m.info = s.info p

variable {prims : Primitives} {heard : List StatusMsg}

theorem Told.hear (h : s.Told prims heard) (more : List StatusMsg) : s.Told prims (more ++ heard) :=
  ⟨h.ps, fun p => (h.said p).imp_right fun ⟨hp, m, hm, hsaid⟩ => ⟨hp, m, List.mem_append_right _ hm, hsaid⟩⟩

theorem Told.withPs (h : s.Told prims heard) {ps : PeerSet} (hps : ps.WF) (hmade : ∀ p ∈ s.ps.made, p ∈ ps.made)
    (connected : PeerPtr → Bool) (secret : PeerPtr → Secret) : Told prims heard { s with ps, connected, secret } :=
  ⟨hps, fun p => (h.said p).imp_right fun ⟨hp, hsaid⟩ => ⟨hmade p hp, hsaid⟩⟩

theorem Told.makenewpeer (h : s.Told prims heard) (id : String) (pub : Bytes) (dir : Bool) (dhprv : Nat) :
    (s.makenewpeer id pub dir dhprv).1.Told prims heard ∧
      (s.makenewpeer id pub dir dhprv).2 ∈ (s.makenewpeer id pub dir dhprv).1.ps.made := by
  refine ⟨⟨h.ps.makenewpeer id dir dhprv, fun p => (h.said p).imp_right fun ⟨hp, m, hm, hsig, hinfo⟩ => ?_⟩,
    h.ps.mem_makenewpeer id dir dhprv⟩
  refine ⟨s.ps.makenewpeer_made id dir dhprv p hp, m, hm, ?_, hinfo⟩
  simp only [Peers.makenewpeer]
  split
  · exact hsig
  · next hnew =>
    have hne : p ≠ (s.ps.makenewpeer id dir dhprv).2 := fun heq => hnew (heq ▸ hp)
    rwa [update_of_ne hne]

theorem Told.setHead (h : s.Told prims heard) (hp : p ∈ s.ps.made) {own : HeadInfo} {m : StatusMsg} (hm : m ∈ heard)
    (hsig : m.verify prims (s.pub p) = .ok true) (hagrees : Agrees (s.info p) own m.info) : (s.setHead p own).Told prims heard := by
  refine ⟨h.ps, fun q => ?_⟩
  by_cases hq : q = p
  · subst hq
    rw [setHead_info]
    obtain heq | ⟨heq, -⟩ := (recorded_setHead _ _ _).2 hagrees
    · exact .inr ⟨hp, m, hm, hsig, heq.symm⟩
    · rw [heq]
      exact h.said q
  · have hinfo : (s.setHead p own).info q = s.info q := update_of_ne hq ..
    rw [hinfo]
    exact h.said q

theorem Told.makesecret (h : s.Told prims heard) {s' : Peers} {dhpub : Bytes} (hs : s.makesecret p dhpub = some s') :
    s'.Told prims heard ∧ s'.ps = s.ps := by
  obtain ⟨k, -, rfl⟩ := Option.map_eq_some_iff.1 hs
  exact ⟨h.withPs h.ps (fun _ => id) s.connected _, rfl⟩

theorem Told.register (h : s.Told prims heard) (hp : p ∈ s.ps.made) : (s.register p).Told prims heard :=
  h.withPs (h.ps.register hp) (fun _ hq => (s.ps.register_made p).symm ▸ hq) _ s.secret

theorem makenewpeer_pub (s : Peers) (id : String) (pub : Bytes) (dir : Bool) (dhprv : Nat) :
    (s.makenewpeer id pub dir dhprv).1.pub (s.makenewpeer id pub dir dhprv).2 =
      if (s.makenewpeer id pub dir dhprv).2 ∈ s.ps.made then s.pub (s.makenewpeer id pub dir dhprv).2 else pub := by
  unfold makenewpeer
  dsimp only
  split
  · rfl
  · exact update_self ..

end Peers

namespace Host

/-- The peers of a node, and every Status message that it has got. -/
abbrev Node := Peers × List StatusMsg

inductive Act
  | kadPeer (chain : HeadInfo) (rec : NdnNodeRecord) (dhprv : Nat) (nonce : BitVec 64) (reply : Option EthMsg)
  | status (chain : HeadInfo) (msg : StatusMsg) (dhprv : Nat)
  | unregister (p : PeerPtr) (closed : Bool)

def heard : Option EthMsg → List StatusMsg
  | some (.status r) => [r]
  | _ => []

def step (h : Host) (n : Node) : Act → Option Node
  | .kadPeer chain rec dhprv nonce reply =>
    (h.onNewKadPeer chain rec dhprv nonce reply n.1).toOption.map fun s => (s, heard reply ++ n.2)
  | .status chain msg dhprv => (h.receiveStatus chain msg dhprv n.1).toOption.map fun r => (r.1, [msg] ++ n.2)
  | .unregister p closed =>
    if p ∈ n.1.ps.peers then
      some ({ n.1 with
        ps := n.1.ps.unregister p
        connected := if closed then update n.1.connected p false else n.1.connected }, n.2)
    else none

/-- The steps of a run in which every acceptance is under the peer's own key
and says what this node records, and no two keys have the same identity. -/
def Honest (h : Host) (n : Node) : Act → Prop
  | .kadPeer chain rec dhprv _ reply => ∀ r, reply = some (.status r) → h.Accepts r →
      r.verify h.prims ((kadPeer n.1 rec dhprv).1.pub (kadPeer n.1 rec dhprv).2) = .ok true ∧
        Agrees (n.1.info (kadPeer n.1 rec dhprv).2) chain r.info
  | .status _ msg dhprv => h.Takes n.1 msg → (h.statusPeer n.1 msg dhprv).1.pub (h.statusPeer n.1 msg dhprv).2 = msg.pub
  | .unregister _ _ => True

variable {h : Host}

theorem told_step {n n' : Node} {a : Act} (ht : n.1.Told h.prims n.2) (hok : h.Honest n a) (hs : h.step n a = some n') :
    n'.1.Told h.prims n'.2 := by
  cases a with
  | kadPeer chain rec dhprv nonce reply =>
    obtain ⟨s', hs', rfl⟩ := Option.map_eq_some_iff.1 hs
    obtain ⟨hmake, hmem⟩ := (ht.hear (heard reply)).makenewpeer (idString rec.id) rec.pubkey true dhprv
    by_cases hacc : ∃ r, reply = some (.status r) ∧ h.Asks n.1 rec dhprv ∧ h.Accepts r
    · obtain ⟨r, rfl, hask, hacc⟩ := hacc
      obtain ⟨hsig, hagrees⟩ := hok r rfl hacc
      rw [onNewKadPeer_accepted hask hacc] at hs'
      split at hs'
      · cases hs'
      · next s₁ hkey =>
        cases hs'
        obtain ⟨hkeyed, hps⟩ := (hmake.setHead hmem (m := r) (List.mem_cons_self ..) hsig hagrees).makesecret hkey
        exact hkeyed.register (hps ▸ hmem)
    · obtain heq | ⟨s₁, heq, hcase⟩ := onNewKadPeer_refused (h := h) (s := n.1) chain nonce fun r hr hask ha => hacc ⟨r, hr, hask, ha⟩
      · rw [heq] at hs'
        cases hs'
      · rw [heq] at hs'
        cases hs'
        obtain rfl | rfl | rfl := hcase
        · exact ht.hear _
        · exact hmake
        · exact hmake.withPs (hmake.ps.reject _) (fun _ => id) _ _
  | status chain msg dhprv =>
    obtain ⟨⟨s', out⟩, hs', rfl⟩ := Option.map_eq_some_iff.1 hs
    by_cases htake : h.Takes n.1 msg
    · obtain ⟨hmake, hmem⟩ :=
        (ht.hear [msg]).makenewpeer (idString (makeID h.prims msg.pub msg.pfx)) msg.pub false dhprv
      have hsig : msg.verify h.prims ((h.statusPeer n.1 msg dhprv).1.pub (h.statusPeer n.1 msg dhprv).2) = .ok true := by
        rw [hok htake]
        exact htake.1
      rw [receiveStatus_takes htake] at hs'
      split at hs'
      · cases hs'
      · next s₁ hkey =>
        cases hs'
        have hset := hmake.setHead hmem (List.mem_cons_self ..) hsig (agrees_self _ _)
        obtain ⟨hkeyed, hps⟩ := hset.makesecret hkey
        split
        · exact hkeyed
        · exact hkeyed.register (hps ▸ hmem)
    · obtain heq | ⟨out', heq⟩ := receiveStatus_refuses chain dhprv htake
      · rw [heq] at hs'
        cases hs'
      · rw [heq] at hs'
        cases hs'
        exact ht.hear _
  | unregister p closed =>
    simp only [step, Option.ite_none_right_eq_some, Option.some.injEq] at hs
    obtain ⟨hmem, rfl⟩ := hs
    have hmade := (PeerSet.unregister_mem hmem).1
    exact ht.withPs (ht.ps.unregister hmem) (fun q hq => hmade.symm ▸ hq) _ _

/-- **The handshake records the remote side, as far as the two sides agree.**
When `sendStatus` accepts, the reply is under the peer's key and the peer is
recorded with what the reply says exactly if it verifies under that key and
this node's own head would be recorded as the same. When `receiveStatus`
accepts, the peer is recorded with what the offer says, and a new one under
the key of the offer: a peer made before keeps its own. So in a run of honest handshakes what `bestPeer` compares, in any
order, are heads that the peers have said under their own keys. -/
theorem recorded_iff (h : Host) :
    (∀ s p msg reply s' dhpub, h.sendStatus s p msg reply = .ok (s', dhpub, true) →
      ∃ r, reply = some (.status r) ∧
        (r.verify h.prims (s.pub p) = .ok true ∧ Recorded (s.info p) (s'.info p) r.info ↔
          r.verify h.prims (s.pub p) = .ok true ∧ Agrees (s.info p) msg.info r.info)) ∧
    (∀ chain msg dhprv s s' out, h.Takes s msg → h.receiveStatus chain msg dhprv s = .ok (s', out) →
      msg.verify h.prims msg.pub = .ok true ∧
        Recorded (s.info (h.statusPeer s msg dhprv).2) (s'.info (h.statusPeer s msg dhprv).2) msg.info ∧
        s'.pub (h.statusPeer s msg dhprv).2 =
          if (h.statusPeer s msg dhprv).2 ∈ s.ps.made then s.pub (h.statusPeer s msg dhprv).2 else msg.pub) ∧
    ∀ as n, Run h.step h.Honest (.new, []) as n →
      (∀ q ∈ n.1.ps.peers, n.1.info q = ⟨0, 0, 0⟩ ∨
        ∃ m ∈ n.2, m.verify h.prims (n.1.pub q) = .ok true ∧ m.info = n.1.info q) ∧
      ∀ order, order.Perm n.1.ps.peers →
        (∀ q ∈ n.1.ps.peers, (n.1.info q).td ≤ ((n.1.bestPeer order).elim 0 fun p => (n.1.info p).td)) ∧
        ∀ p, n.1.bestPeer order = some p → p ∈ n.1.ps.peers := by
  refine ⟨fun s p msg reply s' dhpub hs => ?_, fun chain msg dhprv s s' out ht hs => ?_, fun as n hrun => ?_⟩
  · obtain ⟨r, hr, -, rfl, -⟩ := sendStatus_ok hs
    exact ⟨r, hr, by rw [Peers.setHead_info, recorded_setHead]⟩
  · rw [receiveStatus_takes ht] at hs
    split at hs
    · cases hs
    · next s₁ hkey =>
      obtain ⟨k, -, rfl⟩ := Option.map_eq_some_iff.1 hkey
      cases hs
      have hpub : (h.statusPeer s msg dhprv).1.pub (h.statusPeer s msg dhprv).2 = _ := Peers.makenewpeer_pub ..
      have hrec := (recorded_setHead _ _ _).2 (agrees_self ((h.statusPeer s msg dhprv).1.info (h.statusPeer s msg dhprv).2) msg.info)
      rw [← Peers.setHead_info] at hrec
      split
      · exact ⟨ht.1, hrec, hpub⟩
      · exact ⟨ht.1, hrec, hpub⟩
  · have ht : n.1.Told h.prims n.2 :=
      hrun.invariant (I := fun n => n.1.Told h.prims n.2) (fun _ _ _ => told_step) ⟨PeerSet.WF.new, fun _ => .inl rfl⟩
    refine ⟨fun q _ => (ht.said q).imp_right And.right, fun order hperm => ?_⟩
    obtain ⟨hle, hmem⟩ := n.1.bestPeer_spec order
    exact ⟨fun q hq => hle q (hperm.mem_iff.2 hq), fun p hp => hperm.mem_iff.1 (hmem p hp)⟩

/-- The stranger with key 2 makes an offer to a new node, which records it. -/
theorem recorded_iff_offer : ∃ s out p,
    p = (sampleHost.statusPeer .new (sampleStatus [2]) 2).2 ∧ sampleHost.Takes .new (sampleStatus [2]) ∧
    sampleHost.receiveStatus ⟨4, 8, 3⟩ (sampleStatus [2]) 2 .new = .ok (s, out) ∧ s.info p = ⟨3, 7, 2⟩ ∧ s.pub p = [2] ∧
    Run sampleHost.step sampleHost.Honest (.new, []) [.status ⟨4, 8, 3⟩ (sampleStatus [2]) 2] (s, [sampleStatus [2]]) ∧
    ∀ q ∈ s.ps.peers, (s.info q).td ≤ ((s.bestPeer s.ps.peers).elim 0 fun p => (s.info p).td) := by
  have ht : sampleHost.Takes .new (sampleStatus [2]) := ⟨rfl, by decide, rfl⟩
  obtain ⟨s, out, hs⟩ : ∃ s out, sampleHost.receiveStatus ⟨4, 8, 3⟩ (sampleStatus [2]) 2 .new = .ok (s, out) := by
    rw [receiveStatus_takes ht]
    split
    · next hnone => exact absurd (makesecret_eq_none.1 hnone) (by unfold KeyRefused; decide +kernel)
    · exact ⟨_, _, rfl⟩
  obtain ⟨-, hinfo, hpub⟩ := (recorded_iff sampleHost).2.1 _ _ _ _ _ _ ht hs
  have hrun : Run sampleHost.step sampleHost.Honest (.new, []) [.status ⟨4, 8, 3⟩ (sampleStatus [2]) 2]
      (s, [sampleStatus [2]]) :=
    .cons (fun _ => rfl) (by rw [step, hs]; rfl) .nil
  refine ⟨s, out, _, rfl, ht, hs, ?_, hpub, hrun, (((recorded_iff sampleHost).2.2 _ _ hrun).2 _ (.refl _)).1⟩
  obtain heq | ⟨-, hle⟩ := hinfo
  · exact heq
  · exact absurd hle (by decide)

/-- A stranger with key 2 answers for the peer with key 3. The peer is
accepted, with the head of this node. -/
theorem own_head_recorded : ∃ s p s' dhpub,
    (s, p) = kadPeer .new ⟨Vector.replicate _ 0, [], [3]⟩ 2 ∧
    sampleHost.sendStatus s p (sampleHost.createStatusMsg ⟨4, 8, 3⟩ [] 9 true) (some (.status (sampleStatus [2]))) =
      .ok (s', dhpub, true) ∧
    (sampleStatus [2]).verify sampleHost.prims (s.pub p) = .ok false ∧
    s'.info p = ⟨4, 8, 3⟩ ∧ (sampleStatus [2]).info = ⟨3, 7, 2⟩ ∧ ¬Recorded (s.info p) (s'.info p) (sampleStatus [2]).info := by
  refine ⟨_, _, _, _, rfl, sendStatus_accepts ⟨rfl, rfl, rfl⟩, by decide +kernel, Peers.setHead_info .., rfl, ?_⟩
  rw [Peers.setHead_info, recorded_setHead]
  exact fun h => by cases h

end Host

end NdnGeth.Eth
