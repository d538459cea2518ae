/-
The limits on the peers of each direction. A handler compares a counter with
its limit before the handshake and registers the peer after it; in between
others register theirs. And a peer that waits for the answer to an offer is
registered, as an offered one, by the handler that answers the other side's
offer, which has compared the other counter.
-/
import NdnGeth.Eth.Handshake
import NdnGeth.Lib.Run

namespace NdnGeth.Eth

open Lib (Run)
open Lib.Rlp (Bytes)

/-- The peer that a handler is about to register. -/
def Call.registers (hd : Call) : Option PeerPtr :=
  match hd.dir, hd.pc with
  | true, .keyed p => some p
  | false, .registering p => some p
  | _, _ => none

namespace PeerSet

def counter (ps : PeerSet) (dir : Bool) : Int := if dir then ps.numouts else ps.numins

theorem counter_makenewpeer (ps : PeerSet) (id : String) (d : Bool) (x : Nat) (dir : Bool) :
    (ps.makenewpeer id d x).1.counter dir = ps.counter dir := by
  rcases ps.makenewpeer_cases id d x with ⟨p, heq, -⟩ | ⟨-, -, heq⟩
  · rw [heq]
  · rw [heq]
    rfl

theorem counter_unregister {ps : PeerSet} {p : PeerPtr} (hp : p ∈ ps.peers) (dir : Bool) :
    (ps.unregister p).counter dir ≤ ps.counter dir := by
  obtain ⟨-, -, -, hins, houts⟩ := unregister_mem hp
  cases dir with
  | true =>
    show (ps.unregister p).numouts ≤ ps.numouts
    rw [houts]
    split_ifs <;> omega
  | false =>
    show (ps.unregister p).numins ≤ ps.numins
    rw [hins]
    split_ifs <;> omega

theorem counter_register {ps : PeerSet} {p : PeerPtr} (hnew : ∀ q ∈ ps.peers, q.id ≠ p.id) (dir : Bool) :
    (ps.register p).1.counter dir = ps.counter dir + if p.dir = dir then 1 else 0 := by
  rcases ps.register_cases p with ⟨q, hq, hid, -⟩ | ⟨-, -, -, -, -, hins, houts⟩
  · exact absurd hid (hnew q hq)
  · cases dir with
    | true => exact houts
    | false =>
      show (ps.register p).1.numins = _
      rw [hins]
      cases p.dir <;> rfl

end PeerSet

namespace Controller

variable {c c' : Controller} {a : Act} {out : Option Packet}

def limit (c : Controller) (dir : Bool) : Nat := if dir then c.maxOuts else c.maxIns

/-- A handler that adds a peer adds one of its own direction, and the counter
of that direction is not above what the handler has compared with the limit. -/
def Unchanged (c : Controller) : Act → Prop
  | .advance hd _ =>
    ∀ p ∈ hd.registers, (∀ q ∈ c.ps.peers, q.id ≠ p.id) → p.dir = hd.dir ∧ c.ps.counter hd.dir ≤ hd.read
  | _ => True

structure LimitInv (c : Controller) : Prop where
  counter : ∀ dir, c.ps.counter dir ≤ c.limit dir
  read : ∀ hd ∈ c.handlers, hd.read < c.limit hd.dir

namespace LimitInv

theorem new (maxIns maxOuts : Nat) : LimitInv (new maxIns maxOuts) := by
  constructor
  · intro dir
    cases dir <;> exact Int.natCast_nonneg _
  · intro hd hmem
    cases hmem

variable {hd : Call}

theorem call (hc : c.LimitInv) (hlt : hd.read < c.limit hd.dir) :
    LimitInv { c with handlers := c.handlers ++ [hd], next := c.next + 1 } := by
  refine ⟨hc.counter, fun h hh => ?_⟩
  rcases List.mem_append.1 hh with hh | hh
  · exact hc.read h hh
  · rw [List.mem_singleton.1 hh]
    exact hlt

theorem put (hc : c.LimitInv) {hd hd' : Call} (hmem : hd ∈ c.handlers) (hread : hd'.read = hd.read) (hdir : hd'.dir = hd.dir) :
    (c.put hd hd').LimitInv := by
  refine ⟨hc.counter, fun h hh => ?_⟩
  rcases mem_put hh with hh | rfl
  · exact hc.read h hh
  · rw [hread, hdir]
    exact hc.read hd hmem

theorem finish (hc : c.LimitInv) : (c.finish hd).LimitInv :=
  ⟨hc.counter, fun h hh => hc.read h (mem_finish hh)⟩

theorem withPs (hc : c.LimitInv) {ps : PeerSet} {connected : PeerPtr → Bool}
    (hps : ∀ dir, ps.counter dir ≤ c.limit dir) : LimitInv { c with ps, connected } := ⟨hps, hc.read⟩

theorem reject (hc : c.LimitInv) {p : PeerPtr} : (c.reject hd p).LimitInv := by
  have h : LimitInv { c with ps := c.ps.reject p } := hc.withPs hc.counter
  exact h.finish

theorem register (hc : c.LimitInv) {p : PeerPtr} (hmem : hd ∈ c.handlers)
    (hok : (∀ q ∈ c.ps.peers, q.id ≠ p.id) → p.dir = hd.dir ∧ c.ps.counter hd.dir ≤ hd.read) :
    (c.register hd p).LimitInv := by
  refine finish (c := { c with ps := (c.ps.register p).1, connected := _ }) (hc.withPs fun dir => ?_)
  rcases c.ps.register_cases p with ⟨-, -, -, heq⟩ | ⟨hnew, -⟩
  · rw [heq]
    exact hc.counter dir
  · obtain ⟨hdir, hle⟩ := hok hnew
    have hlt := hc.read hd hmem
    have hcount := hc.counter dir
    rw [PeerSet.counter_register hnew]
    split_ifs with heq
    · rw [← heq, hdir]
      omega
    · omega

theorem step (hc : c.LimitInv) (hok : Unchanged c a) (hstep : c.step a = some (c', out)) : c'.LimitInv := by
  cases step_cases hstep with
  | busy => exact hc
  | kadPeer hlt => exact hc.call hlt
  | refuse => exact hc
  | status hlt => exact hc.call hlt
  | @make hd x hmem hpc =>
    have h : LimitInv { c with ps := (c.ps.makenewpeer hd.id hd.dir x).1 } :=
      hc.withPs fun dir => (PeerSet.counter_makenewpeer ..).symm ▸ hc.counter dir
    exact h.put hmem rfl rfl
  | skip hmem hpc => exact hc.finish
  | send hmem _ hpc _ => exact hc.put hmem rfl rfl
  | @key hd _ p _ k hmem hpc _ _ =>
    have h : LimitInv { c with secret := Function.update c.secret p k } := ⟨hc.counter, hc.read⟩
    exact h.put hmem rfl rfl
  | serve hmem _ hpc => exact hc.put hmem rfl rfl
  | check hmem _ hpc => exact hc.put hmem rfl rfl
  | register hmem hpc =>
    refine hc.register hmem (hok _ ?_)
    rcases hpc with ⟨hdir, hpc⟩ | ⟨hdir, hpc⟩ <;> simp [Call.registers, hdir, hpc]
  | late => exact hc
  | reply hmem hpc => exact hc.put hmem rfl rfl
  | refused hmem hpc => exact hc.reject
  | fail hmem hpc => exact hc.reject
  | unregister hmem => exact hc.withPs fun dir => (PeerSet.counter_unregister hmem dir).trans (hc.counter dir)

end LimitInv

theorem limit_step (hstep : c.step a = some (c', out)) : c'.limit = c.limit := by
  cases step_cases hstep <;> rfl

def move (c : Controller) (a : Act) : Option Controller := (c.step a).map Prod.fst

theorem move_some (h : c.move a = some c') : ∃ out, c.step a = some (c', out) := by
  obtain ⟨⟨c'', out⟩, hstep, rfl⟩ := Option.map_eq_some_iff.1 h
  exact ⟨out, hstep⟩

end Controller

open Controller

/-- **Peer limits hold**, if between the check of a handler and its
registration the counter has not grown, and the peer is of the direction that
the handler has checked. -/
theorem peer_limits {maxIns maxOuts : Nat} {acts : List Act} {c : Controller}
    (hrun : Run move Unchanged (.new maxIns maxOuts) acts c) : c.ps.count false ≤ maxIns ∧ c.ps.count true ≤ maxOuts := by
  have hinv : c.WF ∧ c.LimitInv ∧ c.limit = (new maxIns maxOuts).limit := by
    refine hrun.invariant (I := fun c => c.WF ∧ c.LimitInv ∧ c.limit = (new maxIns maxOuts).limit)
      (fun c a c' h hok hmove => ?_) ⟨WF.new maxIns maxOuts, LimitInv.new maxIns maxOuts, rfl⟩
    obtain ⟨out, hstep⟩ := move_some hmove
    exact ⟨h.1.step hstep, h.2.1.step hok hstep, (limit_step hstep).trans h.2.2⟩
  obtain ⟨hwf, hlim, hlimit⟩ := hinv
  have hins : c.ps.numins ≤ c.limit false := hlim.counter false
  have houts : c.ps.numouts ≤ c.limit true := hlim.counter true
  rw [hwf.ps.ins, hlimit] at hins
  rw [hwf.ps.outs, hlimit] at houts
  exact ⟨Int.ofNat_le.1 hins, Int.ofNat_le.1 houts⟩

/-! ## Two offers -/

instance (c : Controller) : ∀ a, Decidable (Unchanged c a)
  | .advance hd _ => inferInstanceAs (Decidable (∀ p ∈ hd.registers, (∀ q ∈ c.ps.peers, q.id ≠ p.id) →
      p.dir = hd.dir ∧ c.ps.counter hd.dir ≤ hd.read))
  | .kadPeer _ | .status _ _ _ _ | .response _ _ | .fail _ | .unregister _ _ => .isTrue trivial

/-- A node with one place for an incoming peer answers the offer of `id`. -/
def offerCall (num : Nat) (id : String) (pc : CallPc) : Call := ⟨num, false, id, 0, some (dhPub 3), num, pc⟩

def offerPeer (num : Nat) (id : String) : PeerPtr := ⟨num, id, false, 5⟩

/-- What the handler of an offer does after its check. -/
def answered (num : Nat) (id : String) : List Act :=
  [.checked, .made (offerPeer num id), .keyed (offerPeer num id), .served (offerPeer num id),
    .registering (offerPeer num id)].map fun pc => .advance (offerCall num id pc) 5

theorem peer_limits_sample :
    ∃ c, Run move Unchanged (.new 1 1) (.status "b" 0 (dhPub 3) true :: answered 0 "b") c ∧
      c.ps.count false = 1 ∧ c.ps.count false ≤ 1 := by
  have hexec : (Lib.exec move Unchanged (.new 1 1) (.status "b" 0 (dhPub 3) true :: answered 0 "b")).map
      (fun c => c.ps.count false) = some 1 := by
    decide +kernel
  obtain ⟨c, hc, hcount⟩ := Option.map_eq_some_iff.1 hexec
  have hrun := Run.of_exec hc
  exact ⟨c, hrun, hcount, (peer_limits hrun).1⟩

/-- Two offers arrive, and both are checked before one is registered: the
node that may have one incoming peer has two. -/
theorem peer_limit_exceeded :
    ∃ c, Run move Lib.anyStep (.new 1 1)
        (.status "b" 0 (dhPub 3) true :: .status "c" 1 (dhPub 3) true :: (answered 0 "b" ++ answered 1 "c")) c ∧
      c.ps.count false = 2 := by
  have hexec : (Lib.exec move Lib.anyStep (.new 1 1)
      (.status "b" 0 (dhPub 3) true :: .status "c" 1 (dhPub 3) true :: (answered 0 "b" ++ answered 1 "c"))).map
      (fun c => c.ps.count false) = some 2 := by
    decide +kernel
  obtain ⟨c, hc, hcount⟩ := Option.map_eq_some_iff.1 hexec
  exact ⟨c, Run.of_exec hc, hcount⟩

end NdnGeth.Eth
