/-
The routing table (`ndn/kad/routingtable.go`): buckets by the logarithm of
the distance from the node itself, each with its peers and, once it is full,
a few replacements.

`bucket.add` looks for a duplicate among the replacements only where the
peers are full, so that no identity is stored twice rests on the buckets
having replacements only then. The sequence "peers, then replacements" of a
bucket (`entries`) is what `remove` acts on: a replacement that moves up
leaves the sequence as it is.
-/
import Mathlib.Data.List.Nodup
import NdnGeth.Kad.Common

namespace NdnGeth.Kad

def ADDRBITS : Nat := ADDRBYTES * 8
def BUCKETSIZE : Nat := 10
def REPSIZE : Nat := 5
def NUMBUCKETS : Nat := ADDRBITS / 15
def BUCKETMINDISTANCE : Nat := ADDRBITS - NUMBUCKETS

/-! ## The logarithm of a distance -/

def leadingZeros8 (x : UInt8) : Nat := if x = 0 then 8 else 7 - x.toNat.log2

/-- The loop of `LogDist`, over the remaining bytes. -/
def leadingZeros : (a b : List UInt8) → Nat
  | a :: as, b :: bs =>
    let x := a ^^^ b
    if x = 0 then 8 + leadingZeros as bs else leadingZeros8 x
  | _, _ => 0

def logDist (a b : ID) : Nat := ADDRBITS - leadingZeros a.toList b.toList

theorem logDist_le (a b : ID) : logDist a b ≤ ADDRBITS := Nat.sub_le _ _

/-! ## The loops of a bucket -/

section Loops

variable {α β : Type*}

/-- `for i := found; i < l-1; i++ { s[i] = s[i+1] }`, with `n` rounds to go. -/
def shiftLoop (s : List α) (i : Nat) : Nat → List α
  | 0 => s
  | n + 1 => shiftLoop (match s[i + 1]? with | some x => s.set i x | none => s) (i + 1) n

/-- The loop, and the element that then takes the last place. -/
def shiftIn (s : List α) (found : Nat) (x : α) : List α :=
  (shiftLoop s found (s.length - 1 - found)).set (s.length - 1) x

theorem shiftLoop_append : ∀ (front : List α) (y : α) (back : List α),
    ∃ z, shiftLoop (front ++ y :: back) front.length back.length = front ++ back ++ [z]
  | front, y, [] => ⟨y, by simp [shiftLoop]⟩
  | front, y, x :: back => by
    obtain ⟨z, hz⟩ := shiftLoop_append (front ++ [x]) x back
    refine ⟨z, ?_⟩
    have hget : (front ++ y :: x :: back)[front.length + 1]? = some x := by simp
    have hset : (front ++ y :: x :: back).set front.length x = front ++ [x] ++ x :: back := by simp
    rw [List.length_cons, shiftLoop, hget]
    simp only [hset]
    rw [List.length_append, List.length_singleton] at hz
    rw [hz]
    simp

theorem shiftIn_eq {s : List α} {found : Nat} (h : found < s.length) (x : α) :
    shiftIn s found x = s.take found ++ s.drop (found + 1) ++ [x] := by
  have hs : s = s.take found ++ s[found] :: s.drop (found + 1) := by simp
  have hfound : (s.take found).length = found := by simp; omega
  have hback : (s.drop (found + 1)).length = s.length - 1 - found := by simp; omega
  obtain ⟨z, hz⟩ := shiftLoop_append (s.take found) s[found] (s.drop (found + 1))
  rw [← hs, hfound, hback] at hz
  have hlen : s.length - 1 = (s.take found ++ s.drop (found + 1)).length := by
    rw [List.length_append, hfound, hback]
    omega
  rw [shiftIn, hz, hlen, List.set_append_right _ _ (Nat.le_refl _)]
  simp

theorem take_append_drop_eq_filter [BEq β] [LawfulBEq β] (f : α → β) (b : β) : ∀ {l : List α} {i : Nat},
    (l.map f).Nodup → l.findIdx? (f · == b) = some i → l.take i ++ l.drop (i + 1) = l.filter (f · != b)
  | x :: xs, i, hnd, hi => by
    rw [List.map_cons, List.nodup_cons] at hnd
    rw [List.findIdx?_cons] at hi
    by_cases hx : f x = b
    · have hxs : ∀ y ∈ xs, f y ≠ b := fun y hy h => hnd.1 (List.mem_map.2 ⟨y, hy, h.trans hx.symm⟩)
      simp only [hx, BEq.rfl, if_true, Option.some.injEq] at hi
      subst hi
      have hfilter : xs.filter (f · != b) = xs := List.filter_eq_self.2 fun y hy => by simpa using hxs y hy
      simp [hx, hfilter]
    · simp only [beq_eq_false_iff_ne.2 hx, Bool.false_eq_true, if_false, Option.map_eq_some_iff] at hi
      obtain ⟨j, hj, rfl⟩ := hi
      have ih := take_append_drop_eq_filter f b hnd.2 hj
      simp [hx, ← ih]

end Loops

/-! ## Buckets -/

structure Bucket where
  peers : List Kadpeer
  replacements : List Kadpeer
  deriving DecidableEq, Repr, Inhabited

namespace Bucket

variable {b : Bucket} {id : ID}

/-- `get`: from the replacements too, unless only the bucket is asked for. -/
def get (b : Bucket) (id : ID) (onlybucket : Bool) : Option Kadpeer :=
  match b.peers.find? (·.id == id) with
  | some p => some p
  | none => if onlybucket then none else b.replacements.find? (·.id == id)

/-- `add`: the bucket, the peer to be pinged, and whether the peer was added
to the peers of the bucket. -/
def add (b : Bucket) (peer : Kadpeer) : Bucket × Option Kadpeer × Bool :=
  if b.peers.any (·.id == peer.id) then (b, none, false)
  else if BUCKETSIZE ≤ b.peers.length then
    if b.replacements.any (·.id == peer.id) then (b, b.peers.head?, false)
    else if REPSIZE ≤ b.replacements.length then
      ({ b with replacements := shiftIn b.replacements 0 peer }, b.peers.head?, false)
    else ({ b with replacements := b.replacements ++ [peer] }, b.peers.head?, false)
  else ({ b with peers := b.peers ++ [peer] }, none, true)

/-- `remove`: the bucket, the peer removed, and whether it was one of the
peers of the bucket. -/
def remove (b : Bucket) (id : ID) : Bucket × Option Kadpeer × Bool :=
  match b.peers.findIdx? (·.id == id) with
  | some found =>
    match b.replacements with
    | r :: rs => (⟨shiftIn b.peers found r, rs⟩, b.peers[found]?, true)
    | [] => (⟨b.peers.take found ++ b.peers.drop (found + 1), []⟩, b.peers[found]?, true)
  | none =>
    match b.replacements.findIdx? (·.id == id) with
    | some found =>
      ({ b with replacements := b.replacements.take found ++ b.replacements.drop (found + 1) },
        b.replacements[found]?, false)
    | none => (b, none, false)

def entries (b : Bucket) : List Kadpeer := b.peers ++ b.replacements

structure WF (b : Bucket) : Prop where
  nodup : (b.entries.map Kadpeer.id).Nodup
  peers_le : b.peers.length ≤ BUCKETSIZE
  replacements_le : b.replacements.length ≤ REPSIZE
  full : b.replacements ≠ [] → b.peers.length = BUCKETSIZE

theorem WF.empty : WF ⟨[], []⟩ :=
  ⟨by simp [entries], by simp, by simp, by simp⟩

theorem WF.nodup_peers (h : b.WF) : (b.peers.map Kadpeer.id).Nodup := by
  have := h.nodup
  rw [entries, List.map_append] at this
  exact this.of_append_left

theorem WF.nodup_replacements (h : b.WF) : (b.replacements.map Kadpeer.id).Nodup := by
  have := h.nodup
  rw [entries, List.map_append] at this
  exact this.of_append_right

theorem add_full {p : Kadpeer} (hp : p.id ∉ b.peers.map Kadpeer.id) (hfull : BUCKETSIZE ≤ b.peers.length) :
    ∃ rs, b.add p = (⟨b.peers, rs⟩, b.peers.head?, false) ∧
      (rs = b.replacements ∨ p.id ∉ b.replacements.map Kadpeer.id ∧
        ∃ kept, kept <:+ b.replacements ∧ rs = kept ++ [p] ∧
          (b.replacements.length ≤ REPSIZE → rs.length ≤ REPSIZE)) := by
  have hany : ¬ (b.peers.any (·.id == p.id)) = true := by simpa [List.any_eq_true] using hp
  rw [add, if_neg hany, if_pos hfull]
  split_ifs with hdup hrep
  · exact ⟨_, rfl, .inl rfl⟩
  · have hdup' : p.id ∉ b.replacements.map Kadpeer.id := by simpa [List.any_eq_true] using hdup
    have hpos : 0 < b.replacements.length := Nat.lt_of_lt_of_le (by decide) hrep
    refine ⟨_, rfl, .inr ⟨hdup', b.replacements.drop 1, List.drop_suffix _ _, ?_, ?_⟩⟩
    · rw [shiftIn_eq hpos]
      simp
    · intro hle
      rw [shiftIn_eq hpos]
      simp
      omega
  · have hdup' : p.id ∉ b.replacements.map Kadpeer.id := by simpa [List.any_eq_true] using hdup
    refine ⟨_, rfl, .inr ⟨hdup', b.replacements, List.suffix_refl _, rfl, ?_⟩⟩
    intro _
    rw [List.length_append, List.length_singleton]
    omega

theorem add_known {p : Kadpeer} (hp : p.id ∈ b.peers.map Kadpeer.id) : b.add p = (b, none, false) := by
  have hany : (b.peers.any (·.id == p.id)) = true := by simpa [List.any_eq_true] using hp
  rw [add, if_pos hany]

theorem add_room {p : Kadpeer} (hp : p.id ∉ b.peers.map Kadpeer.id) (hroom : b.peers.length < BUCKETSIZE) :
    b.add p = (⟨b.peers ++ [p], b.replacements⟩, none, true) := by
  have hany : ¬ (b.peers.any (·.id == p.id)) = true := by simpa [List.any_eq_true] using hp
  rw [add, if_neg hany, if_neg (by omega)]

theorem mem_add {p q : Kadpeer} (hq : q ∈ (b.add p).1.entries) : q = p ∨ q ∈ b.entries := by
  by_cases hp : p.id ∈ b.peers.map Kadpeer.id
  · rw [add_known hp] at hq
    exact .inr hq
  · rcases Nat.lt_or_ge b.peers.length BUCKETSIZE with hroom | hfull
    · rw [add_room hp hroom] at hq
      simp only [entries, List.mem_append, List.mem_singleton] at hq ⊢
      tauto
    · obtain ⟨rs, hadd, hrs⟩ := add_full hp hfull
      rw [hadd] at hq
      simp only [entries, List.mem_append] at hq ⊢
      rcases hrs with rfl | ⟨-, kept, hkept, rfl, -⟩
      · exact .inr hq
      · rcases hq with hq | hq
        · exact .inr (.inl hq)
        · rcases List.mem_append.1 hq with hq | hq
          · exact .inr (.inr (hkept.mem hq))
          · exact .inl (List.mem_singleton.1 hq)

theorem WF.add (h : b.WF) (p : Kadpeer) : (b.add p).1.WF := by
  by_cases hp : p.id ∈ b.peers.map Kadpeer.id
  · rw [add_known hp]
    exact h
  · rcases Nat.lt_or_ge b.peers.length BUCKETSIZE with hroom | hfull
    · rw [add_room hp hroom]
      -- There are no replacements, so the peer is not among them either.
      have hnone : b.replacements = [] := by
        by_contra hne
        have := h.full hne
        omega
      refine ⟨?_, ?_, by simp [hnone], fun hne => absurd hnone hne⟩
      · have := h.nodup_peers
        simp only [entries, hnone, List.append_nil, List.map_append, List.map_cons, List.map_nil]
        simpa only [List.concat_eq_append] using this.concat hp
      · simp only [List.length_append, List.length_singleton]
        omega
    · obtain ⟨rs, hadd, hrs⟩ := add_full hp hfull
      rw [hadd]
      have hfull' : b.peers.length = BUCKETSIZE := Nat.le_antisymm h.peers_le hfull
      rcases hrs with rfl | ⟨hdup, kept, hkept, rfl, hle⟩
      · exact h
      · refine ⟨?_, h.peers_le, hle h.replacements_le, fun _ => hfull'⟩
        have hsub : ((b.peers ++ kept).map Kadpeer.id).Sublist (b.entries.map Kadpeer.id) :=
          (List.Sublist.append_left hkept.sublist _).map _
        have hnd := h.nodup.sublist hsub
        have hnew : p.id ∉ (b.peers ++ kept).map Kadpeer.id := by
          rw [List.map_append, List.mem_append]
          rintro (hm | hm)
          · exact hp hm
          · exact hdup ((hkept.sublist.map _).mem hm)
        rw [entries, ← List.append_assoc, List.map_append]
        simpa only [List.concat_eq_append, List.map_cons, List.map_nil] using hnd.concat hnew

/-- The replacement that moves up when an identity is removed. -/
def promoted (b : Bucket) (id : ID) : List Kadpeer :=
  if id ∈ b.peers.map Kadpeer.id then b.replacements.take 1 else []

structure Removed (b : Bucket) (id : ID) (res : Bucket × Option Kadpeer × Bool) : Prop where
  peers : res.1.peers = b.peers.filter (·.id != id) ++ b.promoted id
  replacements : b.promoted id ++ res.1.replacements = b.replacements.filter (·.id != id)
  removed : res.2.1 = b.entries.find? (·.id == id)
  inbucket : res.2.2 = true ↔ id ∈ b.peers.map Kadpeer.id

theorem Removed.entries {res : Bucket × Option Kadpeer × Bool} (h : Removed b id res) :
    res.1.entries = b.entries.filter (·.id != id) := by
  rw [Bucket.entries, Bucket.entries, h.peers, List.append_assoc, h.replacements, List.filter_append]

theorem getElem?_findIdx? {α : Type*} {p : α → Bool} : ∀ {l : List α} {i : Nat},
    l.findIdx? p = some i → l[i]? = l.find? p ∧ i < l.length
  | x :: xs, i, h => by
    rw [List.findIdx?_cons] at h
    cases hx : p x with
    | true =>
      simp only [hx, if_true, Option.some.injEq] at h
      subst h
      simp [hx]
    | false =>
      simp only [hx, Bool.false_eq_true, if_false, Option.map_eq_some_iff] at h
      obtain ⟨j, hj, rfl⟩ := h
      obtain ⟨hget, hlt⟩ := getElem?_findIdx? hj
      rw [List.getElem?_cons_succ, List.find?_cons_of_neg (by simp [hx])]
      exact ⟨hget, Nat.succ_lt_succ hlt⟩

variable {l : List Kadpeer}

theorem filter_ne_of_notMem (h : id ∉ l.map Kadpeer.id) : l.filter (·.id != id) = l :=
  List.filter_eq_self.2 fun p hp => by simpa using fun heq => h (List.mem_map.2 ⟨p, hp, heq⟩)

theorem find?_of_notMem (h : id ∉ l.map Kadpeer.id) : l.find? (·.id == id) = none := by
  rw [List.find?_eq_none]
  intro p hp heq
  exact h (List.mem_map.2 ⟨p, hp, by simpa using heq⟩)

theorem notMem_of_findIdx? (h : l.findIdx? (·.id == id) = none) : id ∉ l.map Kadpeer.id := by
  intro hin
  obtain ⟨p, hp, heq⟩ := List.mem_map.1 hin
  have := List.findIdx?_eq_none_iff.1 h p hp
  simp [heq] at this

theorem mem_of_findIdx? {found : Nat} (h : l.findIdx? (·.id == id) = some found) :
    id ∈ l.map Kadpeer.id := by
  by_contra hnot
  obtain ⟨hget, hlt⟩ := getElem?_findIdx? h
  rw [find?_of_notMem hnot, List.getElem?_eq_none_iff] at hget
  omega

theorem remove_peer (h : b.WF) {found : Nat} (hpeer : b.peers.findIdx? (·.id == id) = some found) :
    Removed b id (b.remove id) := by
  have hdrop := take_append_drop_eq_filter Kadpeer.id id h.nodup_peers hpeer
  obtain ⟨hget, hlt⟩ := getElem?_findIdx? hpeer
  have hin := mem_of_findIdx? hpeer
  -- The identity is one of the peers, so none of the replacements has it.
  have hreps : b.replacements.filter (·.id != id) = b.replacements := by
    refine filter_ne_of_notMem fun hr => ?_
    have := h.nodup
    rw [Bucket.entries, List.map_append, List.nodup_append] at this
    exact this.2.2 id hin id hr rfl
  have hfind : b.entries.find? (·.id == id) = b.peers[found]? := by
    rw [Bucket.entries, List.find?_append, ← hget]
    cases hp : b.peers[found]? with
    | some p => rfl
    | none => exact absurd (List.getElem?_eq_none_iff.1 hp) (by omega)
  cases hr : b.replacements with
  | nil =>
    have hrem : b.remove id = (⟨b.peers.filter (·.id != id), []⟩, b.peers[found]?, true) := by
      rw [remove, hpeer, hr, ← hdrop]
    rw [hrem]
    exact ⟨by simp [promoted, hr], by simp [promoted, hr], hfind.symm, by simp [hin]⟩
  | cons r rs =>
    have hrem : b.remove id = (⟨b.peers.filter (·.id != id) ++ [r], rs⟩, b.peers[found]?, true) := by
      rw [remove, hpeer, hr, ← hdrop, ← shiftIn_eq hlt]
    rw [hrem]
    have hup : b.promoted id = [r] := by rw [promoted, if_pos hin, hr]; rfl
    exact ⟨by rw [hup], by rw [hup, hreps, hr]; rfl, hfind.symm, by simp [hin]⟩

theorem remove_replacement (h : b.WF) (hpeer : b.peers.findIdx? (·.id == id) = none) :
    Removed b id (b.remove id) := by
  have hnot := notMem_of_findIdx? hpeer
  have hrem : ∀ x, b.remove id = (⟨b.peers, b.replacements.filter (·.id != id)⟩, x, false) →
      x = b.replacements.find? (·.id == id) → Removed b id (b.remove id) := by
    intro x hx hfound
    have hup : b.promoted id = [] := if_neg hnot
    rw [hx]
    refine ⟨by rw [hup, filter_ne_of_notMem hnot, List.append_nil], by rw [hup]; rfl, ?_, by simp [hnot]⟩
    rw [hfound, Bucket.entries, List.find?_append, find?_of_notMem hnot, Option.none_or]
  cases hrep : b.replacements.findIdx? (·.id == id) with
  | some found =>
    have hdrop := take_append_drop_eq_filter Kadpeer.id id h.nodup_replacements hrep
    exact hrem _ (by rw [remove, hpeer, hrep, ← hdrop]) (getElem?_findIdx? hrep).1
  | none =>
    have hnone := notMem_of_findIdx? hrep
    exact hrem _ (by rw [remove, hpeer, hrep, filter_ne_of_notMem hnone]) (find?_of_notMem hnone).symm

theorem remove_spec (h : b.WF) (id : ID) : Removed b id (b.remove id) := by
  cases hpeer : b.peers.findIdx? (·.id == id) with
  | some found => exact remove_peer h hpeer
  | none => exact remove_replacement h hpeer

theorem length_filter_ne (hnd : (l.map Kadpeer.id).Nodup) (hin : id ∈ l.map Kadpeer.id) :
    (l.filter (·.id != id)).length + 1 = l.length := by
  have hone : l.countP (·.id == id) = 1 := by
    have := List.count_eq_one_of_mem hnd hin
    rwa [List.count, List.countP_map] at this
  have hsplit := List.length_eq_countP_add_countP (·.id == id) (l := l)
  rw [← List.countP_eq_length_filter, hsplit, hone, Nat.add_comm]
  exact congrArg (1 + ·) (List.countP_congr fun p _ => by simp)

theorem length_peers_remove (h : b.WF) (id : ID) :
    (b.remove id).1.peers.length ≤ b.peers.length ∧
      (b.replacements ≠ [] → (b.remove id).1.peers.length = b.peers.length) := by
  rw [(remove_spec h id).peers, List.length_append, promoted]
  by_cases hin : id ∈ b.peers.map Kadpeer.id
  · have hlen := length_filter_ne h.nodup_peers hin
    rw [if_pos hin, List.length_take]
    refine ⟨by omega, fun hne => ?_⟩
    have := List.length_pos_iff.2 hne
    omega
  · rw [if_neg hin, filter_ne_of_notMem hin]
    simp

theorem WF.remove (h : b.WF) (id : ID) : (b.remove id).1.WF := by
  have hrem := remove_spec h id
  obtain ⟨hle, hfull⟩ := length_peers_remove h id
  have hsuffix : (b.remove id).1.replacements.length ≤ b.replacements.length := by
    have hreps := congrArg List.length hrem.replacements
    have hfilter := List.length_filter_le (·.id != id) b.replacements
    rw [List.length_append] at hreps
    omega
  refine ⟨?_, hle.trans h.peers_le, hsuffix.trans h.replacements_le, ?_⟩
  · rw [hrem.entries]
    exact h.nodup.sublist (List.filter_sublist.map _)
  · intro hne
    have hpos := List.length_pos_iff.2 hne
    have hne' : b.replacements ≠ [] := List.length_pos_iff.1 (by omega)
    rw [hfull hne', h.full hne']

end Bucket

/-! ## The table -/

/-- `rtable`, without the function that it orders pings with. -/
structure RTable where
  self : Kadpeer
  buckets : Vector Bucket NUMBUCKETS

namespace RTable

variable {r : RTable} {id : ID}

/-- The index that `bucket` computes. -/
def bucketIndex (r : RTable) (id : ID) : Nat :=
  let kid := logDist id r.self.id
  if kid ≤ BUCKETMINDISTANCE then 0 else kid - BUCKETMINDISTANCE - 1

theorem bucketIndex_lt (r : RTable) (id : ID) : r.bucketIndex id < NUMBUCKETS := by
  have hle := logDist_le id r.self.id
  have hnum : NUMBUCKETS = 10 := rfl
  have hmin : BUCKETMINDISTANCE = 150 := rfl
  have hbits : ADDRBITS = 160 := rfl
  simp only [bucketIndex]
  split_ifs <;> omega

def bucket (r : RTable) (id : ID) : Bucket := r.buckets.get ⟨r.bucketIndex id, r.bucketIndex_lt id⟩

def setBucket (r : RTable) (id : ID) (b : Bucket) : RTable :=
  { r with buckets := r.buckets.set (r.bucketIndex id) b (r.bucketIndex_lt id) }

def get (r : RTable) (id : ID) (onlybucket : Bool) : Option Kadpeer := (r.bucket id).get id onlybucket

/-- `seen`: the table, the peer whose ping is ordered, and whether the peer
was added to the peers of its bucket. -/
def seen (r : RTable) (p : Kadpeer) : RTable × Option Kadpeer × Bool :=
  let (b, first, added) := (r.bucket p.id).add p
  (r.setBucket p.id b, first, added)

def remove (r : RTable) (id : ID) : RTable × Option Kadpeer × Bool :=
  let (b, removed, inbucket) := (r.bucket id).remove id
  (r.setBucket id b, removed, inbucket)

theorem seen_eq (r : RTable) (p : Kadpeer) :
    r.seen p = (r.setBucket p.id ((r.bucket p.id).add p).1, ((r.bucket p.id).add p).2) := rfl

theorem remove_eq (r : RTable) (id : ID) :
    r.remove id = (r.setBucket id ((r.bucket id).remove id).1, ((r.bucket id).remove id).2) := rfl

def empty (self : Kadpeer) : RTable := ⟨self, Vector.replicate _ ⟨[], []⟩⟩

def newrtable (self : Kadpeer) : RTable := ((empty self).seen self).1

def entries (r : RTable) : List Kadpeer := r.buckets.toList.flatMap Bucket.entries

def peers (r : RTable) : List Kadpeer := r.buckets.toList.flatMap Bucket.peers

structure WF (r : RTable) : Prop where
  bucket : ∀ i (_ : i < NUMBUCKETS), r.buckets[i].WF
  placed : ∀ i (_ : i < NUMBUCKETS), ∀ p ∈ r.buckets[i].entries, r.bucketIndex p.id = i

theorem WF.bucket_of (h : r.WF) (id : ID) : (r.bucket id).WF := h.bucket _ (r.bucketIndex_lt id)

theorem WF.placed_of (h : r.WF) (id : ID) : ∀ p ∈ (r.bucket id).entries, r.bucketIndex p.id = r.bucketIndex id :=
  h.placed _ (r.bucketIndex_lt id)

theorem setBucket_getElem (b : Bucket) {i : Nat} (hi : i < NUMBUCKETS) :
    (r.setBucket id b).buckets[i] = if r.bucketIndex id = i then b else r.buckets[i] :=
  Vector.getElem_set (r.bucketIndex_lt id) hi

theorem bucket_setBucket (r : RTable) (id : ID) (b : Bucket) : (r.setBucket id b).bucket id = b :=
  (setBucket_getElem b (r.bucketIndex_lt id)).trans (if_pos rfl)

theorem mem_entries {p : Kadpeer} : p ∈ r.entries ↔ ∃ i, ∃ _ : i < NUMBUCKETS, p ∈ r.buckets[i].entries := by
  simp only [entries, List.mem_flatMap, Vector.mem_toList_iff, Vector.mem_iff_getElem]
  constructor
  · intro h
    obtain ⟨_, ⟨i, hi, rfl⟩, hp⟩ := h
    exact ⟨i, hi, hp⟩
  · intro h
    obtain ⟨i, hi, hp⟩ := h
    exact ⟨_, ⟨i, hi, rfl⟩, hp⟩

theorem mem_setBucket {b : Bucket} {p : Kadpeer} (hp : p ∈ (r.setBucket id b).entries) : p ∈ b.entries ∨ p ∈ r.entries := by
  obtain ⟨i, hi, hp⟩ := mem_entries.1 hp
  rw [setBucket_getElem b hi] at hp
  split_ifs at hp
  · exact .inl hp
  · exact .inr (mem_entries.2 ⟨i, hi, hp⟩)

theorem mem_bucket {p : Kadpeer} (hp : p ∈ (r.bucket id).entries) : p ∈ r.entries :=
  mem_entries.2 ⟨_, r.bucketIndex_lt id, hp⟩

theorem mem_seen {p q : Kadpeer} (hq : q ∈ (r.seen p).1.entries) : q = p ∨ q ∈ r.entries := by
  rw [seen_eq] at hq
  rcases mem_setBucket hq with hq | hq
  · rcases Bucket.mem_add hq with hq | hq
    · exact .inl hq
    · exact .inr (mem_bucket hq)
  · exact .inr hq

theorem WF.setBucket (h : r.WF) {b : Bucket} (hb : b.WF)
    (hplaced : ∀ p ∈ b.entries, r.bucketIndex p.id = r.bucketIndex id) : (r.setBucket id b).WF := by
  constructor
  · intro i hi
    rw [setBucket_getElem b hi]
    split_ifs
    · exact hb
    · exact h.bucket i hi
  · intro i hi p hp
    rw [setBucket_getElem b hi] at hp
    split_ifs at hp with heq
    · exact (hplaced p hp).trans heq
    · exact h.placed i hi p hp

theorem WF.seen (h : r.WF) (p : Kadpeer) : (r.seen p).1.WF := by
  rw [seen_eq]
  refine h.setBucket ((h.bucket_of p.id).add p) fun q hq => ?_
  rcases Bucket.mem_add hq with rfl | hq
  · rfl
  · exact h.placed_of p.id q hq

theorem WF.remove (h : r.WF) (id : ID) : (r.remove id).1.WF := by
  rw [remove_eq]
  refine h.setBucket ((h.bucket_of id).remove id) fun q hq => ?_
  rw [(Bucket.remove_spec (h.bucket_of id) id).entries] at hq
  exact h.placed_of id q (List.mem_filter.1 hq).1

theorem entries_empty (self : Kadpeer) : (empty self).entries = [] := by
  simp [entries, empty, Bucket.entries]

theorem WF.empty (self : Kadpeer) : (empty self).WF := by
  constructor
  · intro i hi
    simp only [RTable.empty, Vector.getElem_replicate]
    exact .empty
  · intro i hi p hp
    simp [RTable.empty, Bucket.entries] at hp

theorem WF.newrtable (self : Kadpeer) : (newrtable self).WF := (WF.empty self).seen self

theorem WF.nodup (h : r.WF) : (r.entries.map Kadpeer.id).Nodup := by
  rw [entries, List.map_flatMap, List.nodup_flatMap]
  constructor
  · intro b hb
    obtain ⟨i, hi, rfl⟩ := List.getElem_of_mem hb
    rw [Vector.length_toList] at hi
    exact (h.bucket i hi).nodup
  · rw [List.pairwise_iff_getElem]
    intro i j hi hj hij id hid hid'
    rw [Vector.length_toList] at hi hj
    obtain ⟨p, hp, rfl⟩ := List.mem_map.1 hid
    obtain ⟨q, hq, heq⟩ := List.mem_map.1 hid'
    have hpi := h.placed i hi p hp
    have hqj := h.placed j hj q hq
    rw [heq] at hqj
    omega

theorem entries_remove (h : r.WF) (id : ID) : (r.remove id).1.entries = r.entries.filter (·.id != id) := by
  rw [entries, entries, List.filter_flatMap, List.flatMap_def, List.flatMap_def]
  congr 1
  refine List.ext_getElem (by simp) fun i hi hi' => ?_
  have hlt : i < NUMBUCKETS := by simpa using hi
  simp only [List.getElem_map, Vector.getElem_toList, remove_eq]
  rw [setBucket_getElem _ hlt]
  split_ifs with heq
  · subst heq
    exact (Bucket.remove_spec (h.bucket_of id) id).entries
  · -- An entry with the identity would be in its own bucket.
    refine (Bucket.filter_ne_of_notMem fun hin => ?_).symm
    obtain ⟨p, hp, rfl⟩ := List.mem_map.1 hin
    exact heq (h.placed i hlt p hp)

/-! ## Runs -/

/-- The operations of a table. -/
inductive Op
  | seen (p : Kadpeer)
  | remove (id : ID)

def apply (r : RTable) : Op → RTable
  | .seen p => (r.seen p).1
  | .remove id => (r.remove id).1

theorem WF.apply (h : r.WF) : ∀ op, (r.apply op).WF
  | .seen p => h.seen p
  | .remove id => h.remove id

theorem self_apply (r : RTable) : ∀ op, (r.apply op).self = r.self
  | .seen _ => rfl
  | .remove _ => rfl

theorem WF.run (h : r.WF) (ops : List Op) : (ops.foldl RTable.apply r).WF := by
  induction ops generalizing r with
  | nil => exact h
  | cons op ops ih => exact ih (h.apply op)

theorem self_run (r : RTable) (ops : List Op) : (ops.foldl RTable.apply r).self = r.self := by
  induction ops generalizing r with
  | nil => rfl
  | cons op ops ih => exact (ih _).trans (self_apply r op)

/-! ## Old peers -/

/-- The operation does not remove the peer. -/
def Op.keeps (p : Kadpeer) : Op → Bool
  | .seen _ => true
  | .remove id => p.id != id

theorem peers_add (b : Bucket) (p : Kadpeer) : b.peers <+: (b.add p).1.peers := by
  by_cases hp : p.id ∈ b.peers.map Kadpeer.id
  · exact ⟨[], by rw [Bucket.add_known hp, List.append_nil]⟩
  · rcases Nat.lt_or_ge b.peers.length BUCKETSIZE with hroom | hfull
    · rw [Bucket.add_room hp hroom]
      exact List.prefix_append ..
    · obtain ⟨rs, hadd, -⟩ := Bucket.add_full hp hfull
      exact ⟨[], by rw [hadd, List.append_nil]⟩

theorem WF.peers_apply (h : r.WF) (op : Op) (id : ID) :
    (r.bucket id).peers.filter (Op.keeps · op) <+: ((r.apply op).bucket id).peers := by
  have hbucket : ∀ (id' : ID) (b : Bucket), (r.setBucket id' b).bucket id = if r.bucketIndex id' = r.bucketIndex id then b else r.bucket id :=
    fun id' b => setBucket_getElem b (r.bucketIndex_lt id)
  have hsame : ∀ {id' : ID}, r.bucketIndex id' = r.bucketIndex id → r.bucket id = r.bucket id' := fun heq => by
    simp only [RTable.bucket, heq]
  cases op with
  | seen p =>
    rw [RTable.apply, seen_eq, hbucket]
    refine (List.filter_eq_self.2 fun _ _ => rfl) ▸ ?_
    split
    · next heq =>
      rw [hsame heq]
      exact peers_add ..
    · exact List.prefix_refl _
  | remove id' =>
    rw [RTable.apply, remove_eq, hbucket]
    show (r.bucket id).peers.filter (·.id != id') <+: _
    split
    · next heq =>
      rw [hsame heq, (Bucket.remove_spec (h.bucket_of id') id').peers]
      exact List.prefix_append ..
    · next hne =>
      have hnot : id' ∉ (r.bucket id).peers.map Kadpeer.id := by
        intro hin
        obtain ⟨p, hp, rfl⟩ := List.mem_map.1 hin
        exact hne (h.placed_of id p (List.mem_append_left _ hp))
      exact ⟨[], by rw [Bucket.filter_ne_of_notMem hnot, List.append_nil]⟩

theorem WF.peers_run (h : r.WF) (ops : List Op) (id : ID) :
    (r.bucket id).peers.filter (fun p => ops.all (Op.keeps p)) <+: ((ops.foldl RTable.apply r).bucket id).peers := by
  induction ops generalizing r with
  | nil => simp
  | cons op ops ih =>
    have hstep := (h.peers_apply op id).filter fun p => ops.all (Op.keeps p)
    rw [List.filter_filter] at hstep
    simp only [List.all_cons, Bool.and_comm (Op.keeps _ op)]
    exact hstep.trans (ih (h.apply op))

/-- **Old peers keep their places**: those of a bucket that are not removed stay, in
the same order and before all newcomers, whatever else is seen or removed. -/
theorem old_peers_stay (self : Kadpeer) (ops ops' : List Op) (id : ID) :
    let r := ops.foldl RTable.apply (newrtable self)
    (r.bucket id).peers.filter (fun p => ops'.all (Op.keeps p)) <+: ((ops'.foldl RTable.apply r).bucket id).peers :=
  ((WF.newrtable self).run ops).peers_run ops' id

end RTable

open RTable

/-- **The routing table is well-formed** after any sequence of `seen` and
`remove`, and `remove` deletes the entry of its identity and nothing else. -/
theorem routing_table_invariant (self : Kadpeer) (ops : List RTable.Op) :
    let r := ops.foldl RTable.apply (newrtable self)
    r.self = self ∧ (r.entries.map Kadpeer.id).Nodup ∧ (∀ id, r.bucketIndex id < NUMBUCKETS) ∧
      (∀ i (_ : i < NUMBUCKETS), (∀ p ∈ r.buckets[i].entries, r.bucketIndex p.id = i) ∧
        r.buckets[i].peers.length ≤ BUCKETSIZE ∧ r.buckets[i].replacements.length ≤ REPSIZE ∧
        (r.buckets[i].replacements ≠ [] → r.buckets[i].peers.length = BUCKETSIZE)) ∧
      ∀ id, (r.remove id).1.entries = r.entries.filter (·.id != id) ∧
        (∀ i (_ : i < NUMBUCKETS), i ≠ r.bucketIndex id → (r.remove id).1.buckets[i] = r.buckets[i]) ∧
        Bucket.Removed (r.bucket id) id ((r.remove id).1.bucket id, (r.remove id).2) := by
  intro r
  have hwf : r.WF := (WF.newrtable self).run ops
  refine ⟨self_run _ ops, hwf.nodup, r.bucketIndex_lt, fun i hi => ?_, fun id => ?_⟩
  · have hb := hwf.bucket i hi
    exact ⟨hwf.placed i hi, hb.peers_le, hb.replacements_le, hb.full⟩
  · refine ⟨entries_remove hwf id, fun i hi hne => ?_, ?_⟩
    · simp only [remove_eq]
      rw [setBucket_getElem _ hi, if_neg hne.symm]
    · rw [remove_eq, bucket_setBucket]
      exact Bucket.remove_spec (hwf.bucket_of id) id

end NdnGeth.Kad
