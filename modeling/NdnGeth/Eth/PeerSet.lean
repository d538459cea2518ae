/-
The set of peers (`ndn/eth/peerlist.go`): the registered and the handshaking
peers of a node by their identities, and how many of the registered ones are
of each direction.

A `*peer` is a number with what never changes of the object: its identity,
its direction and the private key it was made with. The maps are lists of
such pointers, since each one is kept under its own identity.
-/
import Mathlib.Data.List.Nodup

namespace NdnGeth.Eth

/-- `*peer`. -/
structure PeerPtr where
  num : Nat
  id : String
  /-- Whether this node has offered the connection. -/
  dir : Bool
  dhprv : Nat
  deriving DecidableEq, Repr

/-- `peerSet`, with every peer that has been made. -/
structure PeerSet where
  made : List PeerPtr
  peers : List PeerPtr
  pendings : List PeerPtr
  numins : Int
  numouts : Int
  deriving DecidableEq, Repr

/-- Looked up in one of the maps. -/
def lookup (l : List PeerPtr) (id : String) : Option PeerPtr := l.find? (·.id == id)

/-- Deleted from one of the maps. -/
def without (l : List PeerPtr) (id : String) : List PeerPtr := l.filter (·.id != id)

namespace PeerSet

def new : PeerSet := ⟨[], [], [], 0, 0⟩

/-- `makenewpeer`. The private key is that of the peer, if a new one is made. -/
def makenewpeer (ps : PeerSet) (id : String) (dir : Bool) (dhprv : Nat) : PeerSet × PeerPtr :=
  match lookup ps.peers id with
  | some p => (ps, p)
  | none =>
    match lookup ps.pendings id with
    | some p => (ps, p)
    | none =>
      let p : PeerPtr := ⟨ps.made.length, id, dir, dhprv⟩
      ({ ps with made := ps.made ++ [p], pendings := ps.pendings ++ [p] }, p)

/-- `register`: the set, and whether the peer was added to it. -/
def register (ps : PeerSet) (p : PeerPtr) : PeerSet × Bool :=
  let ps := { ps with pendings := without ps.pendings p.id }
  match lookup ps.peers p.id with
  | some _ => (ps, false)
  | none =>
    let ps := { ps with peers := ps.peers ++ [p] }
    (if p.dir then { ps with numouts := ps.numouts + 1 } else { ps with numins := ps.numins + 1 }, true)

def unregister (ps : PeerSet) (p : PeerPtr) : PeerSet :=
  match lookup ps.peers p.id with
  | none => ps
  | some _ =>
    let ps := if p.dir then { ps with numouts := ps.numouts - 1 } else { ps with numins := ps.numins - 1 }
    { ps with peers := without ps.peers p.id }

def reject (ps : PeerSet) (p : PeerPtr) : PeerSet := { ps with pendings := without ps.pendings p.id }

end PeerSet

/-! ## The maps -/

section Maps

variable {l : List PeerPtr} {id : String} {p q : PeerPtr}

theorem lookup_some (h : lookup l id = some p) : p ∈ l ∧ p.id = id :=
  ⟨List.mem_of_find?_eq_some h, by simpa using List.find?_some h⟩

theorem lookup_none : lookup l id = none ↔ ∀ p ∈ l, p.id ≠ id := by
  simp [lookup, List.find?_eq_none]

theorem mem_without : p ∈ without l id ↔ p ∈ l ∧ p.id ≠ id := by
  simp [without, List.mem_filter]

theorem without_sublist : (without l id).Sublist l := List.filter_sublist

theorem eq_of_id_eq (hnd : (l.map PeerPtr.id).Nodup) (hp : p ∈ l) (hq : q ∈ l) (h : p.id = q.id) : p = q :=
  List.inj_on_of_nodup_map hnd hp hq h

theorem nodup_append_of_lookup (hnd : (l.map PeerPtr.id).Nodup) (h : lookup l p.id = none) :
    ((l ++ [p]).map PeerPtr.id).Nodup := by
  have hnew : p.id ∉ l.map PeerPtr.id := fun hmem => by
    obtain ⟨q, hq, heq⟩ := List.mem_map.1 hmem
    exact lookup_none.1 h q hq heq
  simpa only [List.map_append, List.map_cons, List.map_nil, List.concat_eq_append] using hnd.concat hnew

theorem countP_without {f : PeerPtr → Bool} (hnd : (l.map PeerPtr.id).Nodup) (hp : p ∈ l) :
    (without l p.id).countP f + (if f p then 1 else 0) = l.countP f := by
  induction l with
  | nil => cases hp
  | cons q l ih =>
    rw [List.map_cons, List.nodup_cons] at hnd
    rcases List.mem_cons.1 hp with rfl | hp
    · have hrest : without l p.id = l := List.filter_eq_self.2 fun r hr => by
        have : r.id ≠ p.id := fun h => hnd.1 (List.mem_map.2 ⟨r, hr, h⟩)
        simpa using this
      have hcons : without (p :: l) p.id = without l p.id := by simp [without]
      rw [hcons, hrest, List.countP_cons]
    · have hne : q.id ≠ p.id := fun h => hnd.1 (List.mem_map.2 ⟨p, hp, h.symm⟩)
      have hcons : without (q :: l) p.id = q :: without l p.id := by simp [without, hne]
      have := ih hnd.2 hp
      rw [hcons, List.countP_cons, List.countP_cons]
      omega

end Maps

/-! ## The operations -/

namespace PeerSet

variable {ps : PeerSet} {p q : PeerPtr} {id : String} {dir : Bool} {x : Nat}

def count (ps : PeerSet) (dir : Bool) : Nat := ps.peers.countP (·.dir == dir)

/-- The maps hold one peer an identity, no identity is in both, and the
counters count. -/
structure WF (ps : PeerSet) : Prop where
  nodup : (ps.peers.map PeerPtr.id).Nodup
  disjoint : ∀ p ∈ ps.peers, ∀ q ∈ ps.pendings, p.id ≠ q.id
  ins : ps.numins = ps.count false
  outs : ps.numouts = ps.count true
  peers_made : ∀ p ∈ ps.peers, p ∈ ps.made
  pendings_made : ∀ p ∈ ps.pendings, p ∈ ps.made
  nums : ∀ p ∈ ps.made, p.num < ps.made.length

theorem WF.new : WF new := by
  constructor <;> simp [PeerSet.new, count]

theorem makenewpeer_cases (ps : PeerSet) (id : String) (dir : Bool) (x : Nat) :
    (∃ p, ps.makenewpeer id dir x = (ps, p) ∧ p.id = id ∧ (p ∈ ps.peers ∨ p ∈ ps.pendings)) ∨
      (∀ p ∈ ps.peers, p.id ≠ id) ∧ (∀ p ∈ ps.pendings, p.id ≠ id) ∧
        ps.makenewpeer id dir x =
          ({ ps with made := ps.made ++ [⟨ps.made.length, id, dir, x⟩],
                     pendings := ps.pendings ++ [⟨ps.made.length, id, dir, x⟩] }, ⟨ps.made.length, id, dir, x⟩) := by
  simp only [makenewpeer]
  cases hpeer : lookup ps.peers id with
  | some p =>
    obtain ⟨hmem, hid⟩ := lookup_some hpeer
    exact .inl ⟨p, rfl, hid, .inl hmem⟩
  | none =>
    cases hpending : lookup ps.pendings id with
    | some p =>
      obtain ⟨hmem, hid⟩ := lookup_some hpending
      exact .inl ⟨p, rfl, hid, .inr hmem⟩
    | none => exact .inr ⟨lookup_none.1 hpeer, lookup_none.1 hpending, rfl⟩

theorem makenewpeer_peers (ps : PeerSet) (id : String) (dir : Bool) (x : Nat) :
    (ps.makenewpeer id dir x).1.peers = ps.peers := by
  rcases ps.makenewpeer_cases id dir x with ⟨p, heq, -⟩ | ⟨-, -, heq⟩ <;> rw [heq]

theorem register_cases (ps : PeerSet) (p : PeerPtr) :
    (∃ q ∈ ps.peers, q.id = p.id ∧ ps.register p = (ps.reject p, false)) ∨
      (∀ q ∈ ps.peers, q.id ≠ p.id) ∧ (ps.register p).2 = true ∧ (ps.register p).1.made = ps.made ∧
        (ps.register p).1.peers = ps.peers ++ [p] ∧ (ps.register p).1.pendings = without ps.pendings p.id ∧
        (ps.register p).1.numins = ps.numins + (if p.dir then 0 else 1) ∧
        (ps.register p).1.numouts = ps.numouts + (if p.dir then 1 else 0) := by
  simp only [register]
  cases hpeer : lookup ps.peers p.id with
  | some q =>
    obtain ⟨hmem, hid⟩ := lookup_some hpeer
    exact .inl ⟨q, hmem, hid, rfl⟩
  | none =>
    refine .inr ⟨lookup_none.1 hpeer, rfl, ?_⟩
    split_ifs <;> simp

theorem unregister_mem (hp : p ∈ ps.peers) :
    (ps.unregister p).made = ps.made ∧ (ps.unregister p).peers = without ps.peers p.id ∧
      (ps.unregister p).pendings = ps.pendings ∧
      (ps.unregister p).numins = ps.numins - (if p.dir then 0 else 1) ∧
      (ps.unregister p).numouts = ps.numouts - (if p.dir then 1 else 0) := by
  simp only [unregister]
  cases hpeer : lookup ps.peers p.id with
  | some q => split_ifs <;> simp
  | none => exact absurd rfl (lookup_none.1 hpeer p hp)

theorem WF.makenewpeer (h : ps.WF) (id : String) (dir : Bool) (x : Nat) : (ps.makenewpeer id dir x).1.WF := by
  rcases ps.makenewpeer_cases id dir x with ⟨p, heq, -, -⟩ | ⟨hpeers, -, heq⟩
  · rw [heq]
    exact h
  · rw [heq]
    refine ⟨h.nodup, fun p hp q hq => ?_, h.ins, h.outs, fun p hp => List.mem_append_left _ (h.peers_made p hp),
      fun q hq => ?_, fun q hq => ?_⟩
    · rcases List.mem_append.1 hq with hq | hq
      · exact h.disjoint p hp q hq
      · rw [List.mem_singleton.1 hq]
        exact hpeers p hp
    · rcases List.mem_append.1 hq with hq | hq
      · exact List.mem_append_left _ (h.pendings_made q hq)
      · exact List.mem_append_right _ hq
    · rw [List.length_append, List.length_singleton]
      rcases List.mem_append.1 hq with hq | hq
      · exact Nat.lt_succ_of_lt (h.nums q hq)
      · rw [List.mem_singleton.1 hq]
        exact Nat.lt_succ_self _

theorem makenewpeer_made (ps : PeerSet) (id : String) (dir : Bool) (x : Nat) :
    ∀ p ∈ ps.made, p ∈ (ps.makenewpeer id dir x).1.made := by
  intro p hp
  rcases ps.makenewpeer_cases id dir x with ⟨q, heq, -⟩ | ⟨-, -, heq⟩
  · rw [heq]
    exact hp
  · rw [heq]
    exact List.mem_append_left _ hp

theorem WF.mem_makenewpeer (h : ps.WF) (id : String) (dir : Bool) (x : Nat) :
    (ps.makenewpeer id dir x).2 ∈ (ps.makenewpeer id dir x).1.made := by
  rcases ps.makenewpeer_cases id dir x with ⟨p, heq, -, hp | hp⟩ | ⟨-, -, heq⟩
  · rw [heq]
    exact h.peers_made p hp
  · rw [heq]
    exact h.pendings_made p hp
  · rw [heq]
    exact List.mem_append_right _ (List.mem_singleton_self _)

theorem register_made (ps : PeerSet) (p : PeerPtr) : (ps.register p).1.made = ps.made := by
  rcases ps.register_cases p with ⟨-, -, -, heq⟩ | ⟨-, -, hmade, -⟩
  · rw [heq]
    rfl
  · exact hmade

theorem WF.reject (h : ps.WF) (p : PeerPtr) : (ps.reject p).WF :=
  ⟨h.nodup, fun q hq r hr => h.disjoint q hq r (mem_without.1 hr).1, h.ins, h.outs, h.peers_made,
    fun q hq => h.pendings_made q (mem_without.1 hq).1, h.nums⟩

theorem WF.register (h : ps.WF) (hp : p ∈ ps.made) : (ps.register p).1.WF := by
  rcases ps.register_cases p with ⟨-, -, -, heq⟩ | ⟨hnew, -, hmade, hpeers, hpendings, hins, houts⟩
  · rw [heq]
    exact h.reject p
  · refine ⟨?_, fun q hq r hr => ?_, ?_, ?_, fun q hq => ?_, fun q hq => ?_, by rw [hmade]; exact h.nums⟩
    · rw [hpeers]
      exact nodup_append_of_lookup h.nodup (lookup_none.2 hnew)
    · rw [hpeers] at hq
      rw [hpendings, mem_without] at hr
      rcases List.mem_append.1 hq with hq | hq
      · exact h.disjoint q hq r hr.1
      · rw [List.mem_singleton.1 hq]
        exact hr.2.symm
    · rw [hins, count, hpeers, List.countP_append, h.ins, count]
      cases hd : p.dir <;> simp [hd]
    · rw [houts, count, hpeers, List.countP_append, h.outs, count]
      cases hd : p.dir <;> simp [hd]
    · rw [hmade]
      rw [hpeers] at hq
      rcases List.mem_append.1 hq with hq | hq
      · exact h.peers_made q hq
      · rwa [List.mem_singleton.1 hq]
    · rw [hmade]
      rw [hpendings, mem_without] at hq
      exact h.pendings_made q hq.1

theorem WF.unregister (h : ps.WF) (hp : p ∈ ps.peers) : (ps.unregister p).WF := by
  obtain ⟨hmade, hpeers, hpendings, hins, houts⟩ := unregister_mem hp
  have hcount := fun f => countP_without (f := f) h.nodup hp
  refine ⟨?_, fun q hq r hr => ?_, ?_, ?_, fun q hq => ?_, by rw [hmade, hpendings]; exact h.pendings_made,
    by rw [hmade]; exact h.nums⟩
  · rw [hpeers]
    exact h.nodup.sublist (without_sublist.map _)
  · rw [hpeers, mem_without] at hq
    rw [hpendings] at hr
    exact h.disjoint q hq.1 r hr
  · rw [hins, count, hpeers, h.ins, count, ← hcount]
    cases p.dir <;> simp
  · rw [houts, count, hpeers, h.outs, count, ← hcount]
    cases p.dir <;> simp
  · rw [hmade]
    rw [hpeers, mem_without] at hq
    exact h.peers_made q hq.1

end PeerSet

end NdnGeth.Eth
