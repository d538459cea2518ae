/-
The Status handshake of a controller (`ndn/eth/handler.go`): the handlers
`onNewKadPeer`, which offers a connection, and `receiveStatus`, which answers
an offer, run concurrently over one set of peers. A step is what a handler
does between two moments at which another one can come in: it reads a
counter, makes or looks up a peer, asks for its status, makes its secret,
sends, registers or rejects it.

Of a Status message there is what the handshake uses: the public value and
whether the offer is accepted; its signature verifies. A response is matched
with the call that waits for it by a token, as an NDN Data packet is with its
Interest. The end of a peer's sending loop is a step of its own
(`unregister`), after a `close` or without.
-/
import NdnGeth.Eth.Dhkx
import NdnGeth.Eth.PeerSet

namespace NdnGeth.Eth

open Function
open Lib.Rlp (Bytes)

/-- Where a handler is, and the peer it holds. -/
inductive CallPc
  | checked
  | made (p : PeerPtr)
  | sent (p : PeerPtr)
  | replied (p : PeerPtr)
  | keyed (p : PeerPtr)
  | served (p : PeerPtr)
  | registering (p : PeerPtr)
  deriving DecidableEq, Repr

def CallPc.peer : CallPc → Option PeerPtr
  | .checked => none
  | .made p | .sent p | .replied p | .keyed p | .served p | .registering p => some p

/-- A running call: of `onNewKadPeer` if `dir` holds, of `receiveStatus`
otherwise. `read` is the counter that it compared with the limit, `dhpub`
the public value of the other side, `token` the request that it answers. -/
structure Call where
  num : Nat
  dir : Bool
  id : String
  read : Int
  dhpub : Option Bytes
  token : Nat
  pc : CallPc
  deriving DecidableEq, Repr

/-- A Status message, or the answer to one; a refusal has no public value. -/
inductive Packet
  | request (token : Nat) (dhpub : Bytes)
  | response (token : Nat) (dhpub : Option Bytes)
  deriving DecidableEq, Repr

structure Controller where
  maxIns : Nat
  maxOuts : Nat
  ps : PeerSet
  connected : PeerPtr → Bool
  secret : PeerPtr → Secret
  handlers : List Call
  next : Nat

namespace Controller

def new (maxIns maxOuts : Nat) : Controller :=
  ⟨maxIns, maxOuts, .new, fun _ => false, fun _ => Vector.replicate 32 0, [], 0⟩

inductive Act
  | kadPeer (id : String)
  /-- `receiveStatus` is called; `ok` is the result of `checkHandshake`. -/
  | status (id : String) (token : Nat) (dhpub : Bytes) (ok : Bool)
  /-- A handler goes on; a peer that it makes has this private key. -/
  | advance (hd : Call) (dhprv : Nat)
  /-- The response to the request of a handler arrives. -/
  | response (token : Nat) (dhpub : Option Bytes)
  | fail (hd : Call)
  /-- The sending loop of a peer ends. -/
  | unregister (p : PeerPtr) (closed : Bool)
  deriving DecidableEq

variable (c : Controller)

def put (hd hd' : Call) : Controller := { c with handlers := c.handlers.map fun h => if h = hd then hd' else h }

def goto (hd : Call) (pc : CallPc) : Controller := c.put hd { hd with pc }

def finish (hd : Call) : Controller := { c with handlers := c.handlers.filter (· ≠ hd) }

/-- `c.peers.makenewpeer`. -/
def make (hd : Call) (dhprv : Nat) : Controller :=
  let (ps, p) := c.ps.makenewpeer hd.id hd.dir dhprv
  { c with ps }.goto hd (.made p)

/-- `p.makesecret(dhpub)`. -/
def key (hd : Call) (p : PeerPtr) : Option Controller :=
  match hd.dhpub with
  | none => none
  | some v =>
    match makesecret (c.secret p) v p.dhprv with
    | none => none
    | some k => some ({ c with secret := update c.secret p k }.goto hd (.keyed p))

/-- `c.peers.register`, after which the handler returns. -/
def register (hd : Call) (p : PeerPtr) : Controller :=
  let (ps, added) := c.ps.register p
  let connected := if added then update c.connected p true else c.connected
  { c with ps, connected }.finish hd

/-- `c.peers.reject`, after which the handler returns. -/
def reject (hd : Call) (p : PeerPtr) : Controller := { c with ps := c.ps.reject p }.finish hd

def advance (hd : Call) (dhprv : Nat) : Option (Controller × Option Packet) :=
  match hd.dir, hd.pc with
  | _, .checked => some (c.make hd dhprv, none)
  | true, .made p =>
    if c.connected p then some (c.finish hd, none)
    else some (c.goto hd (.sent p), some (.request hd.num (dhPub p.dhprv)))
  | true, .replied p => (c.key hd p).map fun c => (c, none)
  | true, .keyed p => some (c.register hd p, none)
  | false, .made p => (c.key hd p).map fun c => (c, none)
  | false, .keyed p => some (c.goto hd (.served p), some (.response hd.token (some (dhPub p.dhprv))))
  | false, .served p => some (if c.connected p then c.finish hd else c.goto hd (.registering p), none)
  | false, .registering p => some (c.register hd p, none)
  | _, _ => none

/-- The handler that waits for the response to this request. -/
def waiting (token : Nat) : Option (Call × PeerPtr) :=
  c.handlers.findSome? fun hd =>
    match hd.pc with
    | .sent p => if hd.num = token then some (hd, p) else none
    | _ => none

def step : Act → Option (Controller × Option Packet)
  | .kadPeer id =>
    if c.maxOuts ≤ c.ps.numouts then some (c, none)
    else
      some ({ c with
        handlers := c.handlers ++ [⟨c.next, true, id, c.ps.numouts, none, 0, .checked⟩]
        next := c.next + 1 }, none)
  | .status id token dhpub ok =>
    if c.ps.numins < c.maxIns ∧ ok = true then
      some ({ c with
        handlers := c.handlers ++ [⟨c.next, false, id, c.ps.numins, some dhpub, token, .checked⟩]
        next := c.next + 1 }, none)
    else some (c, some (.response token none))
  | .advance hd dhprv => if hd ∈ c.handlers then c.advance hd dhprv else none
  | .response token dhpub =>
    match c.waiting token with
    | none => some (c, none)
    | some (hd, p) =>
      match dhpub with
      | none => some (c.reject hd p, none)
      | some v => some (c.put hd { hd with dhpub := some v, pc := .replied p }, none)
  | .fail hd =>
    match hd.pc with
    | .sent p => if hd ∈ c.handlers then some (c.reject hd p, none) else none
    | _ => none
  | .unregister p closed =>
    if p ∈ c.ps.peers then
      some ({ c with
        ps := c.ps.unregister p
        connected := if closed then update c.connected p false else c.connected }, none)
    else none

/-! ## What a step does -/

inductive Step : Act → Controller → Option Packet → Prop
  | busy {id} : Step (.kadPeer id) c none
  | kadPeer {id} : c.ps.numouts < c.maxOuts →
      Step (.kadPeer id) { c with
        handlers := c.handlers ++ [⟨c.next, true, id, c.ps.numouts, none, 0, .checked⟩]
        next := c.next + 1 } none
  | refuse {id t v ok} : Step (.status id t v ok) c (some (.response t none))
  | status {id t v} : c.ps.numins < c.maxIns →
      Step (.status id t v true) { c with
        handlers := c.handlers ++ [⟨c.next, false, id, c.ps.numins, some v, t, .checked⟩]
        next := c.next + 1 } none
  | make {hd x} : hd ∈ c.handlers → hd.pc = .checked → Step (.advance hd x)
      ({ c with ps := (c.ps.makenewpeer hd.id hd.dir x).1 }.goto hd (.made (c.ps.makenewpeer hd.id hd.dir x).2)) none
  | skip {hd x p} : hd ∈ c.handlers → hd.pc = .made p ∨ hd.pc = .served p → Step (.advance hd x) (c.finish hd) none
  | send {hd x p} : hd ∈ c.handlers → hd.dir = true → hd.pc = .made p → c.connected p = false →
      Step (.advance hd x) (c.goto hd (.sent p)) (some (.request hd.num (dhPub p.dhprv)))
  | key {hd x p v k} : hd ∈ c.handlers → hd.dir = true ∧ hd.pc = .replied p ∨ hd.dir = false ∧ hd.pc = .made p →
      hd.dhpub = some v → makesecret (c.secret p) v p.dhprv = some k →
      Step (.advance hd x) ({ c with secret := update c.secret p k }.goto hd (.keyed p)) none
  | serve {hd x p} : hd ∈ c.handlers → hd.dir = false → hd.pc = .keyed p →
      Step (.advance hd x) (c.goto hd (.served p)) (some (.response hd.token (some (dhPub p.dhprv))))
  | check {hd x p} : hd ∈ c.handlers → hd.dir = false → hd.pc = .served p →
      Step (.advance hd x) (c.goto hd (.registering p)) none
  | register {hd x p} : hd ∈ c.handlers → hd.dir = true ∧ hd.pc = .keyed p ∨ hd.dir = false ∧ hd.pc = .registering p →
      Step (.advance hd x) (c.register hd p) none
  | late {t v} : Step (.response t v) c none
  | reply {hd t p v} : hd ∈ c.handlers → hd.pc = .sent p →
      Step (.response t (some v)) (c.put hd { hd with dhpub := some v, pc := .replied p }) none
  | refused {hd t p} : hd ∈ c.handlers → hd.pc = .sent p → Step (.response t none) (c.reject hd p) none
  | fail {hd p} : hd ∈ c.handlers → hd.pc = .sent p → Step (.fail hd) (c.reject hd p) none
  | unregister {p closed} : p ∈ c.ps.peers →
      Step (.unregister p closed) { c with
        ps := c.ps.unregister p
        connected := if closed then update c.connected p false else c.connected } none

variable {c} {c' : Controller} {a : Act} {out : Option Packet}

theorem waiting_some {t : Nat} {hd : Call} {p : PeerPtr} (h : c.waiting t = some (hd, p)) :
    hd ∈ c.handlers ∧ hd.pc = .sent p := by
  obtain ⟨h', hmem, heq⟩ := List.exists_of_findSome?_eq_some h
  split at heq
  · next q hq =>
    split at heq
    · cases heq
      exact ⟨hmem, hq⟩
    · cases heq
  · cases heq

theorem key_some {hd : Call} {p : PeerPtr} (h : c.key hd p = some c') :
    ∃ v k, hd.dhpub = some v ∧ makesecret (c.secret p) v p.dhprv = some k ∧
      c' = { c with secret := update c.secret p k }.goto hd (.keyed p) := by
  simp only [key] at h
  split at h
  · cases h
  · next v hv =>
    split at h
    · cases h
    · next k hk =>
      cases h
      exact ⟨v, k, hv, hk, rfl⟩

theorem advance_cases {hd : Call} {x : Nat} (hmem : hd ∈ c.handlers) (h : c.advance hd x = some (c', out)) :
    Step c (.advance hd x) c' out := by
  simp only [advance] at h
  split at h
  · next hpc =>
    cases h
    exact .make hmem hpc
  · next p hdir hpc =>
    split at h
    · cases h
      exact .skip hmem (.inl hpc)
    · next hcon =>
      cases h
      exact .send hmem hdir hpc (Bool.eq_false_iff.2 hcon)
  · next p hdir hpc =>
    obtain ⟨c'', hkey, heq⟩ := Option.map_eq_some_iff.1 h
    cases heq
    obtain ⟨v, k, hv, hk, rfl⟩ := key_some hkey
    exact .key hmem (.inl ⟨hdir, hpc⟩) hv hk
  · next p hdir hpc =>
    cases h
    exact .register hmem (.inl ⟨hdir, hpc⟩)
  · next p hdir hpc =>
    obtain ⟨c'', hkey, heq⟩ := Option.map_eq_some_iff.1 h
    cases heq
    obtain ⟨v, k, hv, hk, rfl⟩ := key_some hkey
    exact .key hmem (.inr ⟨hdir, hpc⟩) hv hk
  · next p hdir hpc =>
    cases h
    exact .serve hmem hdir hpc
  · next p hdir hpc =>
    split at h
    · cases h
      exact .skip hmem (.inr hpc)
    · cases h
      exact .check hmem hdir hpc
  · next p hdir hpc =>
    cases h
    exact .register hmem (.inr ⟨hdir, hpc⟩)
  · cases h

theorem step_cases (h : c.step a = some (c', out)) : Step c a c' out := by
  cases a with
  | kadPeer id =>
    simp only [step] at h
    split at h
    · cases h
      exact .busy
    · next hlt =>
      cases h
      exact .kadPeer (by omega)
  | status id t v ok =>
    simp only [step] at h
    split at h
    · next hok =>
      cases h
      obtain ⟨hlt, rfl⟩ := hok
      exact .status hlt
    · cases h
      exact .refuse
  | advance hd x =>
    simp only [step, Option.ite_none_right_eq_some] at h
    exact advance_cases h.1 h.2
  | response t v =>
    simp only [step] at h
    split at h
    · cases h
      exact .late
    · next hd p hw =>
      obtain ⟨hmem, hpc⟩ := waiting_some hw
      split at h
      · cases h
        exact .refused hmem hpc
      · cases h
        exact .reply hmem hpc
  | fail hd =>
    simp only [step] at h
    split at h
    · next p hpc =>
      simp only [Option.ite_none_right_eq_some, Option.some.injEq, Prod.mk.injEq] at h
      obtain ⟨hmem, rfl, rfl⟩ := h
      exact .fail hmem hpc
    · cases h
  | unregister p closed =>
    simp only [step, Option.ite_none_right_eq_some, Option.some.injEq, Prod.mk.injEq] at h
    obtain ⟨hmem, rfl, rfl⟩ := h
    exact .unregister hmem

/-! ## The handlers -/

variable {hd h : Call} {pc : CallPc}

theorem mem_put {hd' : Call} (hmem : h ∈ (c.put hd hd').handlers) : h ∈ c.handlers ∨ h = hd' := by
  obtain ⟨h', hh', rfl⟩ := List.mem_map.1 hmem
  split_ifs
  · exact .inr rfl
  · exact .inl hh'

theorem mem_finish (hmem : h ∈ (c.finish hd).handlers) : h ∈ c.handlers := (List.mem_filter.1 hmem).1

/-- The set is right, and the peers of the handlers have been made. -/
structure WF (c : Controller) : Prop where
  ps : c.ps.WF
  held : ∀ hd ∈ c.handlers, ∀ p, hd.pc.peer = some p → p ∈ c.ps.made

namespace WF

theorem new (maxIns maxOuts : Nat) : WF (new maxIns maxOuts) := ⟨PeerSet.WF.new, by simp [Controller.new]⟩

theorem call (hc : c.WF) (hpc : hd.pc = .checked) : WF { c with handlers := c.handlers ++ [hd], next := c.next + 1 } := by
  refine ⟨hc.ps, fun h hh p hp => ?_⟩
  rcases List.mem_append.1 hh with hh | hh
  · exact hc.held h hh p hp
  · rw [List.mem_singleton.1 hh, hpc] at hp
    cases hp

theorem put (hc : c.WF) {hd' : Call} (hpeer : ∀ p, hd'.pc.peer = some p → p ∈ c.ps.made) : (c.put hd hd').WF := by
  refine ⟨hc.ps, fun h hh p hp => ?_⟩
  rcases mem_put hh with hh | rfl
  · exact hc.held h hh p hp
  · exact hpeer p hp

theorem go (hc : c.WF) (hmem : hd ∈ c.handlers) {hd' : Call} (hpeer : hd'.pc.peer = hd.pc.peer) : (c.put hd hd').WF :=
  hc.put fun p hp => hc.held hd hmem p (hpeer ▸ hp)

theorem finish (hc : c.WF) : (c.finish hd).WF := ⟨hc.ps, fun h hh p hp => hc.held h (mem_finish hh) p hp⟩

theorem withPs (hc : c.WF) {ps : PeerSet} (hps : ps.WF) (hmade : ∀ p ∈ c.ps.made, p ∈ ps.made)
    {connected : PeerPtr → Bool} : WF { c with ps, connected } :=
  ⟨hps, fun h hh p hp => hmade p (hc.held h hh p hp)⟩

theorem reject (hc : c.WF) {p : PeerPtr} : (c.reject hd p).WF :=
  (hc.withPs (hc.ps.reject p) fun _ h => h).finish

end WF

theorem WF.step (hc : c.WF) (hstep : c.step a = some (c', out)) : c'.WF := by
  cases step_cases hstep with
  | busy => exact hc
  | kadPeer _ => exact hc.call rfl
  | refuse => exact hc
  | status _ => exact hc.call rfl
  | make hmem hpc =>
    refine (hc.withPs (hc.ps.makenewpeer _ _ _) (c.ps.makenewpeer_made _ _ _)).put fun p hp => ?_
    cases hp
    exact hc.ps.mem_makenewpeer _ _ _
  | skip hmem hpc => exact hc.finish
  | send hmem _ hpc _ => exact hc.go hmem (by rw [hpc]; rfl)
  | @key hd _ p _ k hmem hpc _ _ =>
    have hc' : WF { c with secret := update c.secret p k } := ⟨hc.ps, hc.held⟩
    refine hc'.go hmem ?_
    rcases hpc with ⟨-, hpc⟩ | ⟨-, hpc⟩ <;> rw [hpc] <;> rfl
  | serve hmem _ hpc => exact hc.go hmem (by rw [hpc]; rfl)
  | check hmem _ hpc => exact hc.go hmem (by rw [hpc]; rfl)
  | @register hd _ p hmem hpc =>
    have hp : p ∈ c.ps.made := by
      rcases hpc with ⟨-, hpc⟩ | ⟨-, hpc⟩ <;> exact hc.held hd hmem p (by rw [hpc]; rfl)
    exact (hc.withPs (hc.ps.register hp) fun q hq => (c.ps.register_made p).symm ▸ hq).finish
  | late => exact hc
  | reply hmem hpc => exact hc.go hmem (by rw [hpc]; rfl)
  | refused hmem hpc => exact hc.reject
  | fail hmem hpc => exact hc.reject
  | unregister hmem =>
    have hmade := (PeerSet.unregister_mem hmem).1
    exact hc.withPs (hc.ps.unregister hmem) fun q hq => hmade.symm ▸ hq

end Controller

end NdnGeth.Eth
