/-
The cache of the objects that are sent in segments (`ndn/utils/cacher.go`):
a map from ids to objects and a ring of as many slots as there may be
objects. A new object takes the next slot and drives out the one that was
there. The server of the routing RPC answers a request with the first segment
that `Cache` returns, and every other one from `GetSegment`.

An object smaller than a segment is not cached. An id that is already there
keeps its object, while `Cache` returns the first segment of the one it was
given: the two need not be the same, and then what is fetched is a mixture.

A segment size of zero makes `Cache` loop and a ring without slots makes it
panic; the program makes caches of 1000 or 800 bytes and 100 slots.
-/
import NdnGeth.Lib.Run
import NdnGeth.Lib.Rlp
import NdnGeth.Lib.Segments
import Mathlib.Logic.Function.Basic
import Mathlib.Data.List.ReduceOption

namespace NdnGeth.Utils

open Function
open Lib
open Lib.Rlp (Bytes)

structure CacheObj where
  wire : Bytes
  id : String
  deriving DecidableEq, Repr

structure SimpleCacher where
  ssize : Nat
  imax : Nat
  objlist : List (Option CacheObj)
  objmap : String → Option CacheObj
  next : Nat

namespace SimpleCacher

def new (segmentsize maxitems : Nat) : SimpleCacher where
  ssize := segmentsize
  imax := maxitems
  objlist := List.replicate maxitems none
  objmap := fun _ => none
  next := 0

/-- The number of segments, a `uint16`. -/
def num (c : SimpleCacher) (wire : Bytes) : Nat := countPieces c.ssize wire.length wire.length 0 0

/-- `segment`; `none` is `ErrObjNotFound`. -/
def segment (c : SimpleCacher) (wire : Bytes) (segId : Nat) : Option Bytes :=
  if segId < c.num wire then some ((wire.take (min wire.length ((segId + 1) * c.ssize))).drop (segId * c.ssize)) else none

/-- The object takes the next slot of the ring. -/
def insert (c : SimpleCacher) (obj : CacheObj) : SimpleCacher :=
  let objmap := update c.objmap obj.id (some obj)
  { c with
    objmap :=
      match c.objlist[c.next]? with
      | some (some old) => update objmap old.id none
      | _ => objmap
    objlist := c.objlist.set c.next (some obj)
    next := if c.imax ≤ c.next + 1 then 0 else c.next + 1 }

/-- An id that is there keeps its object. -/
def store (c : SimpleCacher) (id : String) (wire : Bytes) : SimpleCacher :=
  if (c.objmap id).isSome then c else c.insert ⟨wire, id⟩

/-- `Cache`, with the first segment and the number of segments. -/
def cache (c : SimpleCacher) (id : String) (wire : Bytes) : SimpleCacher × Bytes × Nat :=
  if wire.length < c.ssize then (c, wire, 1) else (c.store id wire, (c.segment wire 0).getD [], c.num wire)

/-- `GetSegment`, with the number of segments; `none` is `ErrObjNotFound`. -/
def getSegment (c : SimpleCacher) (id : String) (segId : Nat) : Option (Bytes × Nat) :=
  match c.objmap id with
  | some obj => (c.segment obj.wire segId).map fun seg => (seg, c.num obj.wire)
  | none => none

def objects (c : SimpleCacher) : List CacheObj := c.objlist.reduceOption

/-! ## The map and the ring -/

/-- The map and the ring hold the same objects, each under its own id, and no
more than there are slots. -/
structure Same (c : SimpleCacher) : Prop where
  bound : c.objects.length ≤ c.imax
  distinct : (c.objects.map CacheObj.id).Nodup
  same : ∀ id obj, c.objmap id = some obj ↔ obj ∈ c.objects ∧ obj.id = id

/-- The same, with the shape of the ring. -/
structure Inv (c : SimpleCacher) : Prop where
  slots : c.objlist.length = c.imax
  next : c.next < c.imax
  distinct : (c.objects.map CacheObj.id).Nodup
  same : ∀ id obj, c.objmap id = some obj ↔ obj ∈ c.objects ∧ obj.id = id

variable {c : SimpleCacher} {wire : Bytes} {id : String}

theorem Inv.toSame (h : c.Inv) : c.Same :=
  ⟨(List.reduceOption_length_le c.objlist).trans h.slots.le, h.distinct, h.same⟩

theorem new_inv {ssize imax : Nat} (hi : 0 < imax) : (new ssize imax).Inv where
  slots := List.length_replicate
  next := hi
  distinct := by simp [objects, new, List.reduceOption_replicate_none]
  same := by simp [objects, new, List.reduceOption_replicate_none]

theorem Inv.split (h : c.Inv) : ∃ before slot after, c.objlist = before ++ slot :: after ∧
    before.length = c.next ∧ c.objlist[c.next]? = some slot := by
  have hlt : c.next < c.objlist.length := h.slots ▸ h.next
  refine ⟨c.objlist.take c.next, c.objlist[c.next], c.objlist.drop (c.next + 1), ?_, ?_, List.getElem?_eq_getElem hlt⟩
  · rw [List.getElem_cons_drop, List.take_append_drop]
  · rw [List.length_take]
    omega

theorem Inv.objects (h : c.Inv) (obj : CacheObj) : ∃ l₁ slot l₂, c.objlist[c.next]? = some slot ∧
    c.objects = l₁ ++ slot.toList ++ l₂ ∧ (c.insert obj).objects = l₁ ++ obj :: l₂ := by
  obtain ⟨before, slot, after, hlist, hlen, hget⟩ := h.split
  have hset : (c.insert obj).objlist = before ++ some obj :: after := by
    show c.objlist.set c.next (some obj) = _
    rw [hlist, ← hlen, List.set_append_right _ _ (Nat.le_refl _), Nat.sub_self, List.set_cons_zero]
  refine ⟨before.reduceOption, slot, after.reduceOption, hget, ?_, ?_⟩
  · unfold SimpleCacher.objects
    rw [hlist, List.reduceOption_append]
    cases slot with
    | none => simp [List.reduceOption_cons_of_none]
    | some old => simp [List.reduceOption_cons_of_some]
  · unfold SimpleCacher.objects
    rw [hset, List.reduceOption_append, List.reduceOption_cons_of_some]

theorem insert_objmap {obj : CacheObj} {slot : Option CacheObj} (hget : c.objlist[c.next]? = some slot)
    (id : String) : (c.insert obj).objmap id =
      if ∃ old, slot = some old ∧ old.id = id then none else if id = obj.id then some obj else c.objmap id := by
  unfold insert
  simp only [hget]
  cases slot with
  | none => simp [update_apply]
  | some old => simp [update_apply, eq_comm]

theorem insert_inv (h : c.Inv) {obj : CacheObj} (hnew : c.objmap obj.id = none) : (c.insert obj).Inv := by
  obtain ⟨l₁, slot, l₂, hget, hold, hobjects⟩ := h.objects obj
  have hnext := h.next
  -- the new id is nobody's, and that of the object driven out is no other's
  have hfresh : ∀ o ∈ c.objects, o.id ≠ obj.id := by
    intro o ho heq
    rw [(h.same obj.id o).2 ⟨ho, heq⟩] at hnew
    cases hnew
  have hkeep : ∀ o, o ∈ l₁ ++ l₂ → o ∈ c.objects := by
    intro o ho
    rw [hold]
    simp only [List.mem_append] at ho ⊢
    tauto
  have hdistinct := h.distinct
  rw [hold, List.map_append, List.map_append] at hdistinct
  have hdrop : ∀ old, slot = some old → ∀ o ∈ l₁ ++ l₂, o.id ≠ old.id := by
    rintro old rfl o ho
    simp only [Option.toList_some, List.map_cons, List.map_nil, List.nodup_append, List.mem_append, List.mem_map] at hdistinct
    obtain ⟨⟨_, _, h1⟩, _, h2⟩ := hdistinct
    rcases List.mem_append.1 ho with ho | ho
    · exact h1 _ ⟨o, ho, rfl⟩ _ List.mem_cons_self
    · exact (h2 _ (.inr List.mem_cons_self) _ ⟨o, ho, rfl⟩).symm
  refine ⟨?_, ?_, ?_, ?_⟩
  · show (c.objlist.set c.next (some obj)).length = c.imax
    rw [List.length_set, h.slots]
  · show (if c.imax ≤ c.next + 1 then 0 else c.next + 1) < c.imax
    split <;> omega
  · rw [hobjects, List.map_append, List.map_cons, List.nodup_middle, List.nodup_cons, ← List.map_append]
    constructor
    · intro hmem
      obtain ⟨o, ho, heq⟩ := List.mem_map.1 hmem
      exact hfresh o (hkeep o ho) heq
    · refine h.distinct.sublist (List.Sublist.map _ ?_)
      rw [hold]
      exact (List.sublist_append_left ..).append (List.Sublist.refl _)
  · intro id o
    rw [insert_objmap hget, hobjects, List.mem_append, List.mem_cons]
    split
    · next hout =>
      obtain ⟨old, rfl, rfl⟩ := hout
      have hmem : old ∈ c.objects := by simp [hold]
      simp only [reduceCtorEq, false_iff, not_and]
      rintro (ho | rfl | ho)
      · exact hdrop old rfl o (List.mem_append_left _ ho)
      · exact (hfresh old hmem).symm
      · exact hdrop old rfl o (List.mem_append_right _ ho)
    · next hout =>
      split
      · next hid =>
        subst hid
        constructor
        · intro heq
          cases heq
          exact ⟨.inr (.inl rfl), rfl⟩
        · rintro ⟨ho | rfl | ho, heq⟩
          · exact absurd heq (hfresh o (hkeep o (List.mem_append_left _ ho)))
          · rfl
          · exact absurd heq (hfresh o (hkeep o (List.mem_append_right _ ho)))
      · next hid =>
        rw [h.same, hold]
        simp only [List.mem_append]
        constructor
        · rintro ⟨(ho | ho) | ho, heq⟩
          · exact ⟨.inl ho, heq⟩
          · exact absurd ⟨o, Option.mem_toList.1 ho, heq⟩ hout
          · exact ⟨.inr (.inr ho), heq⟩
        · rintro ⟨ho | rfl | ho, heq⟩
          · exact ⟨.inl (.inl ho), heq⟩
          · exact absurd heq.symm hid
          · exact ⟨.inr ho, heq⟩

theorem store_inv (h : c.Inv) (id : String) (wire : Bytes) : (c.store id wire).Inv := by
  unfold store
  split
  · exact h
  · next hnone => exact insert_inv h (by simpa using hnone)

theorem cache_small (h : wire.length < c.ssize) : c.cache id wire = (c, wire, 1) :=
  if_pos h

theorem cache_large (h : c.ssize ≤ wire.length) :
    c.cache id wire = (c.store id wire, (c.segment wire 0).getD [], c.num wire) :=
  if_neg (Nat.not_lt.2 h)

theorem cache_inv (h : c.Inv) (id : String) (wire : Bytes) : (c.cache id wire).1.Inv := by
  unfold cache
  split
  · exact h
  · exact store_inv h id wire

/-! ## What is fetched -/

/-- What a call of `Cache` was given and returned. -/
structure Returned where
  id : String
  wire : Bytes
  segment : Bytes
  num : Nat
  deriving DecidableEq, Repr

/-- The segment that was returned, and all others as `GetSegment` gives them. -/
def refetch (c : SimpleCacher) (r : Returned) : Option Bytes :=
  ((List.range (r.num - 1)).mapM fun i => (c.getSegment r.id (i + 1)).map Prod.fst).map fun segs => r.segment ++ segs.flatten

theorem num_eq (hs : 0 < c.ssize) (hlen : wire.length ≤ 65535 * c.ssize) :
    c.num wire = (wire.length + (c.ssize - 1)) / c.ssize := countPieces_of_le hs hlen

theorem segment_eq {k : Nat} (h : k < c.num wire) : c.segment wire k = some (piece c.ssize wire k) := by
  unfold segment piece
  rw [if_pos h, Nat.min_comm, ← List.take_take, List.take_length, List.drop_take, Nat.succ_mul, Nat.add_sub_cancel_left,
    Nat.mul_comm k]

/-- The object is cached as it was given, or it is its only segment. -/
structure Served (c : SimpleCacher) (r : Returned) : Prop where
  small : r.wire.length < c.ssize → r.segment = r.wire ∧ r.num = 1
  large : c.ssize ≤ r.wire.length → r.wire.length ≤ 65535 * c.ssize ∧ r.segment = piece c.ssize r.wire 0 ∧
    r.num = c.num r.wire ∧ c.objmap r.id = some ⟨r.wire, r.id⟩

theorem mapM_eq_some {α β : Type} {f : α → Option β} {g : α → β} {l : List α} (h : ∀ a ∈ l, f a = some (g a)) :
    l.mapM f = some (l.map g) := by
  induction l with
  | nil => rfl
  | cons a l ih =>
    rw [List.mapM_cons, h a List.mem_cons_self, ih fun b hb => h b (List.mem_cons_of_mem _ hb)]
    rfl

theorem Served.refetch {r : Returned} (hs : 0 < c.ssize) (h : c.Served r) : c.refetch r = some r.wire := by
  unfold SimpleCacher.refetch
  rcases Nat.lt_or_ge r.wire.length c.ssize with hlt | hge
  · obtain ⟨hseg, hnum⟩ := h.small hlt
    rw [hseg, hnum]
    exact congrArg Option.some (List.append_nil _)
  · obtain ⟨hlen, hseg, hnum, hobj⟩ := h.large hge
    have hcount := num_eq hs hlen
    have hpos : 0 < c.num r.wire := by
      rw [hcount]
      exact Nat.div_pos (by omega) hs
    have hget : ∀ i ∈ List.range (r.num - 1), (c.getSegment r.id (i + 1)).map Prod.fst = some (piece c.ssize r.wire (i + 1)) := by
      intro i hi
      rw [List.mem_range, hnum] at hi
      unfold getSegment
      simp only [hobj]
      rw [segment_eq (by omega)]
      rfl
    have hrange : List.range (c.num r.wire) = 0 :: (List.range (c.num r.wire - 1)).map Nat.succ := by
      rw [← List.range_succ_eq_map, Nat.sub_add_cancel hpos]
    have hall : (List.range (c.num r.wire)).flatMap (piece c.ssize r.wire) = r.wire := by
      rw [hcount]
      exact flatMap_piece_all hs r.wire
    rw [mapM_eq_some hget, Option.map_some, hseg, hnum]
    rw [hrange, List.flatMap_cons, List.flatMap_map] at hall
    exact congrArg Option.some hall

theorem insert_objmap_eq (h : c.Inv) {obj o : CacheObj} (hnew : c.objmap obj.id = none)
    (hid : c.objmap id = some o) (hstays : ((c.insert obj).objmap id).isSome) : (c.insert obj).objmap id = some o := by
  obtain ⟨_, slot, _, _, _, hget⟩ := h.split
  rw [insert_objmap hget] at hstays ⊢
  split at hstays
  · cases hstays
  · next hout =>
    rw [if_neg hout]
    rw [if_neg (fun heq => by rw [heq, hnew] at hid; cases hid), hid]

theorem cache_objmap_eq (h : c.Inv) {id id' : String} {o : CacheObj} (hid : c.objmap id = some o)
    (hstays : ((c.cache id' wire).1.objmap id).isSome) : (c.cache id' wire).1.objmap id = some o := by
  rcases Nat.lt_or_ge wire.length c.ssize with hlt | hge
  · rwa [cache_small hlt]
  · rw [cache_large hge] at hstays ⊢
    unfold store at hstays ⊢
    split at hstays
    · next hsome => rwa [if_pos hsome]
    · next hsome =>
      rw [if_neg hsome]
      exact insert_objmap_eq h (by simpa using hsome) hid hstays

theorem cache_ssize (c : SimpleCacher) (id : String) (wire : Bytes) : (c.cache id wire).1.ssize = c.ssize := by
  unfold cache store
  split
  · rfl
  · split <;> rfl

theorem Served.cache (h : c.Inv) {r : Returned} (hr : c.Served r)
    (hstays : ¬((c.objmap r.id).isSome ∧ ((c.cache id wire).1.objmap r.id).isNone)) : (c.cache id wire).1.Served r := by
  have hnum : (c.cache id wire).1.num r.wire = c.num r.wire := by
    unfold num
    rw [cache_ssize]
  constructor
  · rw [cache_ssize]
    exact hr.small
  · rw [cache_ssize, hnum]
    intro hge
    obtain ⟨hlen, hseg, hn, hobj⟩ := hr.large hge
    refine ⟨hlen, hseg, hn, cache_objmap_eq h hobj ?_⟩
    rw [hobj] at hstays
    simpa [Option.isSome_iff_ne_none] using hstays

/-- An object is new or too small to be cached, or the one that is cached
under its id, and its segments can be counted. -/
def Agrees (c : SimpleCacher) (id : String) (wire : Bytes) : Prop :=
  wire.length < c.ssize ∨ wire.length ≤ 65535 * c.ssize ∧ ∀ obj, c.objmap id = some obj → obj.wire = wire

theorem store_objmap (h : c.Inv)
    (hsame : ∀ obj, c.objmap id = some obj → obj.wire = wire) : (c.store id wire).objmap id = some ⟨wire, id⟩ := by
  unfold store
  split
  · next hsome =>
    obtain ⟨obj, hobj⟩ := Option.isSome_iff_exists.1 hsome
    rw [hobj, ← hsame obj hobj, ← ((h.same id obj).1 hobj).2]
  · next hnone =>
    have hnew : c.objmap id = none := by simpa using hnone
    obtain ⟨_, slot, _, hget, hold, _⟩ := h.objects ⟨wire, id⟩
    rw [insert_objmap hget, if_neg, if_pos rfl]
    rintro ⟨old, rfl, heq⟩
    have hmem : old ∈ c.objects := by simp [hold]
    rw [(h.same id old).2 ⟨hmem, heq⟩] at hnew
    cases hnew

theorem served_cache (hs : 0 < c.ssize) (h : c.Inv) (hagrees : c.Agrees id wire) :
    (c.cache id wire).1.Served ⟨id, wire, (c.cache id wire).2.1, (c.cache id wire).2.2⟩ := by
  rcases Nat.lt_or_ge wire.length c.ssize with hlt | hge
  · rw [cache_small hlt]
    exact ⟨fun _ => ⟨rfl, rfl⟩, fun hge => absurd hlt (Nat.not_lt.2 hge)⟩
  · obtain ⟨hlen, hsame⟩ := hagrees.resolve_left (Nat.not_lt.2 hge)
    have hpos : 0 < c.num wire := by
      rw [num_eq hs hlen]
      exact Nat.div_pos (by omega) hs
    have hsize : (c.store id wire).ssize = c.ssize := by
      rw [← cache_ssize c id wire, cache_large hge]
    have hnum : (c.store id wire).num wire = c.num wire := by
      unfold num
      rw [hsize]
    rw [cache_large hge, segment_eq hpos]
    refine ⟨fun hlt => absurd hge (Nat.not_le.2 (hsize ▸ hlt)), fun _ => ?_⟩
    rw [hsize, hnum]
    exact ⟨hlen, rfl, rfl, store_objmap h hsame⟩

/-! ## Histories -/

/-- The cache, and what the calls of `Cache` returned whose ids have not been
driven out since. -/
structure History where
  cacher : SimpleCacher
  returned : List Returned

inductive Act
  | cache (id : String) (wire : Bytes)
  | getSegment (id : String) (segId : Nat)

namespace History

def start (segmentsize maxitems : Nat) : History := ⟨.new segmentsize maxitems, []⟩

def step (s : History) : Act → Option History
  | .cache id wire =>
    let r := s.cacher.cache id wire
    some {
      cacher := r.1
      returned := ⟨id, wire, r.2.1, r.2.2⟩ ::
        s.returned.filter fun e => ¬((s.cacher.objmap e.id).isSome ∧ (r.1.objmap e.id).isNone) }
  | .getSegment _ _ => some s

def Agrees (s : History) : Act → Prop
  | .cache id wire => s.cacher.Agrees id wire
  | .getSegment _ _ => True

theorem step_inv {s s' : History} {a : Act} (h : s.cacher.Inv) (hstep : s.step a = some s') : s'.cacher.Inv := by
  cases a with
  | cache id wire =>
    cases hstep
    exact cache_inv h id wire
  | getSegment id segId =>
    cases hstep
    exact h

theorem step_served {s s' : History} {a : Act} (h : s.cacher.Inv) (hs : 0 < s.cacher.ssize) (hserved : ∀ r ∈ s.returned, s.cacher.Served r)
    (hagrees : s.Agrees a) (hstep : s.step a = some s') : 0 < s'.cacher.ssize ∧ ∀ r ∈ s'.returned, s'.cacher.Served r := by
  cases a with
  | cache id wire =>
    cases hstep
    refine ⟨by rw [cache_ssize]; exact hs, ?_⟩
    rintro r (_ | ⟨_, hr⟩)
    · exact served_cache hs h hagrees
    · obtain ⟨hmem, hstays⟩ := List.mem_filter.1 hr
      exact (hserved r hmem).cache h (of_decide_eq_true hstays)
  | getSegment id segId =>
    cases hstep
    exact ⟨hs, hserved⟩

/-- In every history of calls the map and the ring hold the same objects, no
more than there are slots. If no call of `Cache` comes with another object
under an id that is cached, or with one of more than 65535 segments, then
what a call returned and `GetSegment` gives for the rest is the object it
came with, as long as the id is not driven out. -/
theorem segments_consistent {ssize imax : Nat} (hs : 0 < ssize) (hi : 0 < imax) {as : List Act} {s : History}
    (hrun : Run step anyStep (start ssize imax) as s) :
    s.cacher.Same ∧ (Run step Agrees (start ssize imax) as s → ∀ r ∈ s.returned, s.cacher.refetch r = some r.wire) := by
  constructor
  · exact (hrun.invariant (I := fun s : History => s.cacher.Inv) (fun _ _ _ h _ hstep => step_inv h hstep) (new_inv hi)).toSame
  · intro hrun
    have h := hrun.invariant (I := fun s : History => s.cacher.Inv ∧ 0 < s.cacher.ssize ∧ ∀ r ∈ s.returned, s.cacher.Served r)
      (fun _ _ _ h hagrees hstep => ⟨step_inv h.1 hstep, step_served h.1 h.2.1 h.2.2 hagrees hstep⟩)
      ⟨new_inv hi, hs, fun _ hr => absurd hr List.not_mem_nil⟩
    exact fun r hr => (h.2.2 r hr).refetch h.2.1

theorem segments_consistent_one : ∃ s, Run step Agrees (start 1000 100) [.cache "a" (List.replicate 1500 7)] s ∧
    ∀ r ∈ s.returned, s.cacher.refetch r = some r.wire := by
  have hagrees : Agrees (start 1000 100) (.cache "a" (List.replicate 1500 7)) := by
    refine .inr ⟨?_, fun _ h => by cases h⟩
    rw [List.length_replicate]
    decide
  have hrun : Run step Agrees (start 1000 100) [.cache "a" (List.replicate 1500 7)] _ := .cons hagrees rfl .nil
  exact ⟨_, hrun, (segments_consistent (by decide) (by decide) (hrun.mono fun _ _ _ => trivial)).2 hrun⟩

/-- Two answers of 1500 bytes under one id: the first segment that is returned
is of the second answer, the second one that is fetched is of the first. -/
theorem segments_mixed : ∃ s, Run step anyStep (start 1000 100)
      [.cache "a" (List.replicate 1500 1), .cache "a" (List.replicate 1500 2)] s ∧
    ∃ r ∈ s.returned, (s.cacher.objmap r.id).isSome ∧ r.wire = List.replicate 1500 2 ∧
      s.cacher.refetch r = some (List.replicate 1000 2 ++ List.replicate 500 1) := by
  have hexec : (exec step anyStep (start 1000 100)
      [.cache "a" (List.replicate 1500 1), .cache "a" (List.replicate 1500 2)]).map (fun s => decide (∃ r ∈ s.returned,
        (s.cacher.objmap r.id).isSome ∧ r.wire = List.replicate 1500 2 ∧
          s.cacher.refetch r = some (List.replicate 1000 2 ++ List.replicate 500 1))) = some true := by
    decide +kernel
  obtain ⟨s, hs, hval⟩ := Option.map_eq_some_iff.1 hexec
  exact ⟨s, Run.of_exec hs, of_decide_eq_true hval⟩

end History

end SimpleCacher

end NdnGeth.Utils
