/-
The announcements that wait for one peer (`ndn/eth/peerannounce.go`): the
block items, the transaction items, the items accumulated for the next
message, and the map `all` that lists them by hash, with the three
operations of the sending loop and the peer's sets of known hashes
(`ndn/eth/peer.go`).

`announcement_queue_invariant`: the map lists what is queued and nothing
else, no hash is queued twice, the queues are bounded, and an item leaves
them for one of three reasons. It holds while the transaction queue is not
overloaded. When it is, `addItems` keeps the last `MAX_QUEUED_TXS` items but
deletes from the map all but the last `MAX_QUEUED_BLKS` (`overload_unlists`).

An item's `content` is what `rlp.EncodeToBytes` makes of it. A set of known
hashes is the list of its members; which one `Pop` takes is an input.
-/
import Mathlib.Data.List.Dedup
import Mathlib.Data.List.Perm.Subperm
import Mathlib.Logic.Function.Basic
import NdnGeth.Lib.Run
import NdnGeth.Lib.Rlp
import NdnGeth.Core.Types

namespace NdnGeth.Eth

open Function
open Lib (Run)
open Lib.Rlp (Bytes)
open Core (Hash)
open scoped List

def MAX_KNOWN_TXS : Nat := 4096
def MAX_KNOWN_BLKS : Nat := 256
def MAX_QUEUED_TXS : Nat := 4096
def MAX_QUEUED_BLKS : Nat := 256
def MAX_PUSH_CONTENT_SIZE : Nat := 1000

inductive IType | tx | txHash | block | blockHeader | blockHash
  deriving DecidableEq, Repr

structure PushItem where
  itype : IType
  wire : Bytes
  hash : Hash
  content : Bytes
  deriving DecidableEq, Repr

namespace PushItem

def size (item : PushItem) : Nat := item.wire.length + 1

def encodeWire (item : PushItem) : PushItem := { item with wire := item.content }

def forBlock (item : PushItem) : Bool :=
  match item.itype with
  | .block | .blockHash | .blockHeader => true
  | .tx | .txHash => false

end PushItem

/-! ## The known sets -/

/-- The sets `kblks` and `ktxs` of a `peer`. -/
structure Known where
  kblks : List Hash
  ktxs : List Hash

namespace Known

def hasitem (p : Known) (item : PushItem) : Bool :=
  if item.forBlock then p.kblks.contains item.hash else p.ktxs.contains item.hash

/-- `Pop` while there are `max` hashes; each turn uses up one of the count. -/
def pops (pick : List Hash → Nat) (max : Nat) : Nat → List Hash → List Hash
  | 0, set => set
  | n + 1, set => if max ≤ set.length then pops pick max n (set.eraseIdx (pick set % set.length)) else set

def addHash (pick : List Hash → Nat) (max : Nat) (set : List Hash) (hash : Hash) : List Hash :=
  (pops pick max set.length set).insert hash

def markitem (pick : Hash → List Hash → Nat) (p : Known) (item : PushItem) : Known :=
  if item.forBlock then { p with kblks := addHash (pick item.hash) MAX_KNOWN_BLKS p.kblks item.hash }
  else { p with ktxs := addHash (pick item.hash) MAX_KNOWN_TXS p.ktxs item.hash }

def markitems (pick : Hash → List Hash → Nat) (p : Known) (items : List PushItem) : Known :=
  items.foldl (markitem pick) p

end Known

/-! ## The sending loop -/

/-- The map from hashes to the items that are queued. -/
abbrev ItemMap := Hash → Option PushItem

namespace ItemMap

def delete (all : ItemMap) (hash : Hash) : ItemMap := update all hash none

def set (all : ItemMap) (item : PushItem) : ItemMap := update all item.hash (some item)

/-- `delete` for each of the items. -/
def forget (all : ItemMap) (items : List PushItem) : ItemMap := items.foldl (fun all item => all.delete item.hash) all

theorem forget_cons (all : ItemMap) (item : PushItem) (items : List PushItem) :
    all.forget (item :: items) = (all.delete item.hash).forget items := rfl

theorem delete_isSome (all : ItemMap) (hash hash' : Hash) :
    (all.delete hash' hash).isSome ↔ (all hash).isSome ∧ hash ≠ hash' := by
  by_cases heq : hash = hash'
  · simp [delete, heq]
  · simp [delete, heq, update_of_ne]

theorem set_isSome (all : ItemMap) (item : PushItem) (hash : Hash) :
    (all.set item hash).isSome ↔ hash = item.hash ∨ (all hash).isSome := by
  by_cases heq : hash = item.hash
  · simp [set, heq]
  · simp [set, heq, update_of_ne]

theorem forget_isSome (all : ItemMap) (hash : Hash) (items : List PushItem) :
    (all.forget items hash).isSome ↔ (all hash).isSome ∧ hash ∉ items.map PushItem.hash := by
  induction items generalizing all with
  | nil => simp [forget]
  | cons item items ih => rw [forget_cons, ih, delete_isSome, List.map_cons, List.mem_cons, not_or, and_assoc]

end ItemMap

/-- `peersendingloop`, with the known sets of its peer. -/
structure PeerSendingLoop where
  p : Known
  tlist : List PushItem
  blist : List PushItem
  alist : List PushItem
  all : ItemMap

namespace PeerSendingLoop

def new (p : Known) : PeerSendingLoop := ⟨p, [], [], [], fun _ => none⟩

/-- The local variables of `accumulate`, with the map. -/
structure Accumulated where
  newlist : List PushItem
  totalsize : Nat
  hasblock : Bool
  all : ItemMap

/-- The items of the last accumulation that the peer does not know by now. -/
def recount (has : PushItem → Bool) : List PushItem → Accumulated → Accumulated
  | [], acc => acc
  | item :: items, acc =>
    if has item then recount has items { acc with all := acc.all.delete item.hash }
    else recount has items { acc with newlist := acc.newlist ++ [item], totalsize := acc.totalsize + item.size }

/-- The loop over `blist` or `tlist`, with what it leaves of the list. -/
def drain (has : PushItem → Bool) (blocks : Bool) : List PushItem → Accumulated → Accumulated × List PushItem
  | [], acc => (acc, [])
  | item :: items, acc =>
    if has item then drain has blocks items { acc with all := acc.all.delete item.hash }
    else if acc.totalsize + item.size > MAX_PUSH_CONTENT_SIZE then (acc, item :: items)
    else drain has blocks items
      { acc with
        hasblock := acc.hasblock || blocks, newlist := acc.newlist ++ [item], totalsize := acc.totalsize + item.size }

/-- `accumulate`, with the total size and whether a block item was added. -/
def accumulate (l : PeerSendingLoop) : PeerSendingLoop × Nat × Bool :=
  let acc := recount l.p.hasitem l.alist ⟨[], 0, false, l.all⟩
  let blks := drain l.p.hasitem true l.blist acc
  -- what is left of the blocks did not fit, and the transactions wait for them
  if blks.2 ≠ [] then
    ({ l with blist := blks.2, alist := blks.1.newlist, all := blks.1.all }, blks.1.totalsize, blks.1.hasblock)
  else
    let txs := drain l.p.hasitem false l.tlist blks.1
    ({ l with blist := [], tlist := txs.2, alist := txs.1.newlist, all := txs.1.all }, txs.1.totalsize, txs.1.hasblock)

/-- One turn of the loop of `addItems`. -/
def enqueueItem (l : PeerSendingLoop) (item : PushItem) : PeerSendingLoop :=
  let item := item.encodeWire
  match l.all item.hash with
  | some _ => l
  | none =>
    if item.forBlock then { l with blist := l.blist ++ [item], all := l.all.set item }
    else { l with tlist := l.tlist ++ [item], all := l.all.set item }

def enqueue (l : PeerSendingLoop) (items : List PushItem) : PeerSendingLoop := items.foldl enqueueItem l

/-- The overload of the block queue is cut off at the front. -/
def cutBlocks (l : PeerSendingLoop) : PeerSendingLoop :=
  if l.blist.length > MAX_QUEUED_BLKS then
    let start := l.blist.length - MAX_QUEUED_BLKS
    { l with all := l.all.forget (l.blist.take start), blist := l.blist.drop start }
  else l

/-- The overload of the transaction queue. What is deleted from the map runs
to `MAX_QUEUED_BLKS` from the end, what is cut off to `MAX_QUEUED_TXS`. -/
def cutTxs (l : PeerSendingLoop) : PeerSendingLoop :=
  if l.tlist.length > MAX_QUEUED_TXS then
    let start := l.tlist.length - MAX_QUEUED_BLKS
    { l with all := l.all.forget (l.tlist.take start), tlist := l.tlist.drop (l.tlist.length - MAX_QUEUED_TXS) }
  else l

def addItems (l : PeerSendingLoop) (items : List PushItem) : PeerSendingLoop := (l.enqueue items).cutBlocks.cutTxs

def updatesent (pick : Hash → List Hash → Nat) (l : PeerSendingLoop) : PeerSendingLoop :=
  { l with p := l.p.markitems pick l.alist, all := l.all.forget l.alist, alist := [] }

/-- The operations, and any change of the known sets between them. -/
inductive Act
  | addItems (items : List PushItem)
  | accumulate
  | updatesent (pick : Hash → List Hash → Nat)
  | learn (p : Known)

def step (l : PeerSendingLoop) : Act → Option PeerSendingLoop
  | .addItems items => some (l.addItems items)
  | .accumulate => some l.accumulate.1
  | .updatesent pick => some (l.updatesent pick)
  | .learn p => some { l with p := p }

def items (l : PeerSendingLoop) : List PushItem := l.alist ++ l.blist ++ l.tlist

end PeerSendingLoop

/-! ## Lists and the map that lists them -/

/-- The map lists the items, each under a hash of its own. -/
structure Indexed (items : List PushItem) (all : ItemMap) : Prop where
  nodup : (items.map PushItem.hash).Nodup
  keys : ∀ hash, (all hash).isSome ↔ hash ∈ items.map PushItem.hash

namespace Indexed

variable {items items' gone : List PushItem} {all : ItemMap} {item : PushItem}

theorem perm (h : Indexed items all) (hp : items.Perm items') : Indexed items' all where
  nodup := (hp.map _).nodup_iff.1 h.nodup
  keys := fun hash => (h.keys hash).trans (hp.map _).mem_iff

theorem forget (h : Indexed (items ++ gone) all) : Indexed items (all.forget gone) := by
  have hnd := h.nodup
  rw [List.map_append, List.nodup_append] at hnd
  refine ⟨hnd.1, fun hash => ?_⟩
  rw [ItemMap.forget_isSome, h.keys, List.map_append, List.mem_append]
  constructor
  · rintro ⟨hin | hin, hnot⟩
    · exact hin
    · exact absurd hin hnot
  · exact fun hin => ⟨.inl hin, fun hg => hnd.2.2 hash hin hash hg rfl⟩

theorem add (h : Indexed items all) (hnew : all item.hash = none) :
    Indexed (item :: items) (all.set item) := by
  have hnot : item.hash ∉ items.map PushItem.hash := by
    rw [← h.keys, hnew]
    simp
  refine ⟨List.nodup_cons.2 ⟨hnot, h.nodup⟩, fun hash => ?_⟩
  rw [ItemMap.set_isSome, List.map_cons, List.mem_cons, h.keys]

end Indexed

namespace PeerSendingLoop

variable {l l' : PeerSendingLoop} {gone : List PushItem}

/-! ## What the operations drop -/

/-- The items `gone` leave the lists and the map. -/
structure Drops (l l' : PeerSendingLoop) (gone : List PushItem) : Prop where
  perm : l.items.Perm (l'.items ++ gone)
  all : l'.all = l.all.forget gone

namespace Drops

theorem indexed (h : Drops l l' gone) (hi : Indexed l.items l.all) : Indexed l'.items l'.all := by
  rw [h.all]
  exact (hi.perm h.perm).forget

theorem mem_gone (h : Drops l l' gone) {item : PushItem} (hin : item ∈ l.items) (hout : item ∉ l'.items) :
    item ∈ gone :=
  (List.mem_append.1 (h.perm.mem_iff.1 hin)).resolve_left hout

end Drops

variable {has : PushItem → Bool}

/-- What `Size` comes to over the items. -/
def totalSize (items : List PushItem) : Nat := (items.map PushItem.size).sum

theorem recount_spec (has : PushItem → Bool) : ∀ items acc,
    (recount has items acc).newlist = acc.newlist ++ items.filter (fun item => !has item) ∧
      (recount has items acc).totalsize = acc.totalsize + totalSize (items.filter fun item => !has item) ∧
      (recount has items acc).all = acc.all.forget (items.filter has) := by
  intro items
  induction items with
  | nil => simp [recount, ItemMap.forget, totalSize]
  | cons item items ih =>
    intro acc
    rw [recount]
    cases hhas : has item with
    | true =>
      obtain ⟨hnew, hsize, hall⟩ := ih { acc with all := acc.all.delete item.hash }
      rw [if_pos rfl, hnew, hsize, hall]
      simp [hhas, ItemMap.forget]
    | false =>
      obtain ⟨hnew, hsize, hall⟩ :=
        ih { acc with newlist := acc.newlist ++ [item], totalsize := acc.totalsize + item.size }
      rw [if_neg Bool.false_ne_true, hnew, hsize, hall]
      simp [hhas, totalSize, Nat.add_assoc]

/-- The loop takes items from the front: the known ones are deleted, the
others are accumulated. It stops at one that does not fit. -/
theorem drain_spec (has : PushItem → Bool) (blocks : Bool) : ∀ items acc,
    ∃ taken, items = taken ++ (drain has blocks items acc).2 ∧
      (drain has blocks items acc).1.newlist = acc.newlist ++ taken.filter (fun item => !has item) ∧
      (drain has blocks items acc).1.totalsize = acc.totalsize + totalSize (taken.filter fun item => !has item) ∧
      (acc.totalsize ≤ MAX_PUSH_CONTENT_SIZE → (drain has blocks items acc).1.totalsize ≤ MAX_PUSH_CONTENT_SIZE) ∧
      (∀ item ∈ (drain has blocks items acc).2.head?,
        has item = false ∧ MAX_PUSH_CONTENT_SIZE < (drain has blocks items acc).1.totalsize + item.size) ∧
      (drain has blocks items acc).1.all = acc.all.forget (taken.filter has) := by
  intro items
  induction items with
  | nil => exact fun acc => ⟨[], by simp [drain, ItemMap.forget, totalSize]⟩
  | cons item items ih =>
    intro acc
    rw [drain]
    cases hhas : has item with
    | true =>
      obtain ⟨taken, heq, hnew, hsize, hfit, hstop, hall⟩ := ih { acc with all := acc.all.delete item.hash }
      rw [if_pos rfl]
      refine ⟨item :: taken, by rw [List.cons_append, ← heq], ?_, ?_, hfit, hstop, ?_⟩
      · rw [hnew]
        simp [hhas]
      · rw [hsize]
        simp [hhas]
      · rw [hall]
        simp [hhas, ItemMap.forget]
    | false =>
      rw [if_neg Bool.false_ne_true]
      split
      · next hbig => exact ⟨[], by simp [ItemMap.forget, totalSize, hhas, hbig]⟩
      · next hfits =>
        obtain ⟨taken, heq, hnew, hsize, hfit, hstop, hall⟩ := ih
          { acc with
            hasblock := acc.hasblock || blocks, newlist := acc.newlist ++ [item], totalsize := acc.totalsize + item.size }
        refine ⟨item :: taken, by rw [List.cons_append, ← heq], ?_, ?_, fun _ => hfit (Nat.not_lt.1 hfits), hstop, ?_⟩
        · rw [hnew]
          simp [hhas]
        · rw [hsize]
          simp [hhas, totalSize, Nat.add_assoc]
        · rw [hall]
          simp [hhas]

theorem accumulate_spec (l : PeerSendingLoop) :
    ∃ blks txs, l.blist = blks ++ l.accumulate.1.blist ∧ l.tlist = txs ++ l.accumulate.1.tlist ∧
      l.accumulate.1.alist = (l.alist ++ blks ++ txs).filter (fun item => !l.p.hasitem item) ∧
      l.accumulate.1.all = l.all.forget ((l.alist ++ blks ++ txs).filter l.p.hasitem) := by
  obtain ⟨hnew, -, hall⟩ := recount_spec l.p.hasitem l.alist ⟨[], 0, false, l.all⟩
  obtain ⟨blks, hblks, hnewB, -, -, -, hallB⟩ :=
    drain_spec l.p.hasitem true l.blist (recount l.p.hasitem l.alist ⟨[], 0, false, l.all⟩)
  rw [accumulate]
  dsimp only
  split
  · refine ⟨blks, [], hblks, rfl, ?_, ?_⟩
    · simp [hnewB, hnew]
    · simp [hallB, hall, ItemMap.forget]
  · next hnil =>
    obtain ⟨txs, htxs, hnewT, -, -, -, hallT⟩ := drain_spec l.p.hasitem false l.tlist
      (drain l.p.hasitem true l.blist (recount l.p.hasitem l.alist ⟨[], 0, false, l.all⟩)).1
    rw [not_not] at hnil
    refine ⟨blks, txs, by rw [← hnil]; exact hblks, htxs, ?_, ?_⟩
    · simp [hnewT, hnewB, hnew]
    · simp [hallT, hallB, hall, ItemMap.forget]

theorem accumulate_drops (l : PeerSendingLoop) : ∃ gone, Drops l l.accumulate.1 gone ∧ ∀ item ∈ gone, l.p.hasitem item := by
  obtain ⟨blks, txs, hblks, htxs, hnew, hall⟩ := l.accumulate_spec
  refine ⟨_, ⟨?_, hall⟩, fun item hitem => (List.mem_filter.1 hitem).2⟩
  rw [items, items, hnew]
  generalize l.accumulate.1.blist = bs at hblks ⊢
  generalize l.accumulate.1.tlist = ts at htxs ⊢
  rw [hblks, htxs]
  generalize hm : l.alist ++ blks ++ txs = m
  have hfilter : m.Perm (m.filter l.p.hasitem ++ m.filter fun item => !l.p.hasitem item) :=
    (List.filter_append_perm ..).symm
  calc l.alist ++ (blks ++ bs) ++ (txs ++ ts)
    _ = l.alist ++ (blks ++ (bs ++ (txs ++ ts))) := by simp only [List.append_assoc]
    _ ~ l.alist ++ (blks ++ (txs ++ (bs ++ ts))) := ((List.perm_append_comm_assoc bs txs ts).append_left _).append_left _
    _ = m ++ (bs ++ ts) := by simp only [← hm, List.append_assoc]
    _ ~ (m.filter l.p.hasitem ++ m.filter fun item => !l.p.hasitem item) ++ (bs ++ ts) := hfilter.append_right _
    _ = m.filter l.p.hasitem ++ ((m.filter fun item => !l.p.hasitem item) ++ bs ++ ts) := by simp only [List.append_assoc]
    _ ~ (m.filter fun item => !l.p.hasitem item) ++ bs ++ ts ++ m.filter l.p.hasitem := List.perm_append_comm

theorem updatesent_drops (pick : Hash → List Hash → Nat) (l : PeerSendingLoop) : Drops l (l.updatesent pick) l.alist where
  perm := by
    simp only [items, updatesent, List.nil_append, List.append_assoc l.alist]
    exact List.perm_append_comm
  all := rfl

def overload (max : Nat) (items : List PushItem) : List PushItem := items.take (items.length - max)

theorem cutBlocks_eq (l : PeerSendingLoop) : l.cutBlocks =
    { l with
      all := l.all.forget (overload MAX_QUEUED_BLKS l.blist)
      blist := l.blist.drop (l.blist.length - MAX_QUEUED_BLKS) } := by
  rw [cutBlocks]
  split
  · rfl
  · next hle =>
    have h0 : l.blist.length - MAX_QUEUED_BLKS = 0 := by omega
    simp [overload, h0, ItemMap.forget]

theorem cutBlocks_drops (l : PeerSendingLoop) : Drops l l.cutBlocks (overload MAX_QUEUED_BLKS l.blist) := by
  rw [cutBlocks_eq]
  refine ⟨?_, by dsimp only⟩
  simp only [items, overload]
  generalize l.blist.length - MAX_QUEUED_BLKS = n
  calc l.alist ++ l.blist ++ l.tlist
    _ = l.alist ++ (l.blist.take n ++ (l.blist.drop n ++ l.tlist)) := by
      rw [← List.append_assoc (l.blist.take n), List.take_append_drop, List.append_assoc]
    _ ~ l.alist ++ ((l.blist.drop n ++ l.tlist) ++ l.blist.take n) := List.perm_append_comm.append_left _
    _ = l.alist ++ l.blist.drop n ++ l.tlist ++ l.blist.take n := by simp only [List.append_assoc]

/-! ## What is added -/

theorem enqueue_cons (l : PeerSendingLoop) (item : PushItem) (items : List PushItem) :
    l.enqueue (item :: items) = (l.enqueueItem item).enqueue items := rfl

theorem enqueueItem_listed {item q : PushItem} (h : l.all item.hash = some q) : l.enqueueItem item = l := by
  simp only [enqueueItem, PushItem.encodeWire, h]

theorem enqueueItem_block {item : PushItem} (h : l.all item.hash = none) (hb : item.forBlock = true) :
    l.enqueueItem item =
      { l with blist := l.blist ++ [item.encodeWire], all := l.all.set item.encodeWire } := by
  have hb' : item.encodeWire.forBlock = true := hb
  have h' : l.all item.encodeWire.hash = none := h
  simp only [enqueueItem, h', hb', if_true]

theorem enqueueItem_tx {item : PushItem} (h : l.all item.hash = none) (hb : item.forBlock = false) :
    l.enqueueItem item =
      { l with tlist := l.tlist ++ [item.encodeWire], all := l.all.set item.encodeWire } := by
  have hb' : item.encodeWire.forBlock = false := hb
  have h' : l.all item.encodeWire.hash = none := h
  simp only [enqueueItem, h', hb', Bool.false_eq_true, if_false]

theorem enqueueItem_cases (l : PeerSendingLoop) (item : PushItem) :
    l.enqueueItem item = l ∨
      l.all item.hash = none ∧ (l.enqueueItem item).all = l.all.set item.encodeWire ∧
        (l.enqueueItem item).items.Perm (item.encodeWire :: l.items) := by
  cases h : l.all item.hash with
  | some q => exact .inl (enqueueItem_listed h)
  | none =>
    cases hb : item.forBlock with
    | true =>
      rw [enqueueItem_block h hb]
      refine .inr ⟨rfl, rfl, ?_⟩
      simp only [items, ← List.append_assoc]
      exact (List.perm_append_singleton _ _).append_right _
    | false =>
      rw [enqueueItem_tx h hb]
      refine .inr ⟨rfl, rfl, ?_⟩
      simp only [items, ← List.append_assoc]
      exact List.perm_append_singleton _ _

theorem enqueue_indexed (items : List PushItem) (h : Indexed l.items l.all) :
    Indexed (l.enqueue items).items (l.enqueue items).all := by
  induction items generalizing l with
  | nil => exact h
  | cons item items ih =>
    rw [enqueue_cons]
    apply ih
    rcases l.enqueueItem_cases item with heq | ⟨hnew, hall, hperm⟩
    · rwa [heq]
    · rw [hall]
      have hadd : Indexed (item.encodeWire :: l.items) (l.all.set item.encodeWire) := h.add hnew
      exact hadd.perm hperm.symm

theorem mem_enqueue (items : List PushItem) {q : PushItem} (h : q ∈ l.items) : q ∈ (l.enqueue items).items := by
  induction items generalizing l with
  | nil => exact h
  | cons item items ih =>
    rw [enqueue_cons]
    apply ih
    rcases l.enqueueItem_cases item with heq | ⟨-, -, hperm⟩
    · rwa [heq]
    · exact hperm.mem_iff.2 (List.mem_cons_of_mem _ h)

theorem enqueue_tlist (items : List PushItem) (l : PeerSendingLoop) :
    ∃ txs, (l.enqueue items).tlist = l.tlist ++ txs ∧ (txs.map PushItem.hash).Nodup ∧
      ∀ tx ∈ txs, l.all tx.hash = none ∧ ∃ item ∈ items, item.forBlock = false ∧ item.hash = tx.hash := by
  induction items generalizing l with
  | nil => exact ⟨[], by simp [enqueue], by simp, by simp⟩
  | cons item items ih =>
    obtain ⟨txs, htxs, hnd, hnew⟩ := ih (l.enqueueItem item)
    rw [enqueue_cons, htxs]
    have hmem : ∀ tx ∈ txs, ∃ i ∈ item :: items, i.forBlock = false ∧ i.hash = tx.hash := by
      intro tx htx
      obtain ⟨i, hi, h⟩ := (hnew tx htx).2
      exact ⟨i, List.mem_cons_of_mem _ hi, h⟩
    cases h : l.all item.hash with
    | some q =>
      rw [enqueueItem_listed h] at hnew ⊢
      exact ⟨txs, rfl, hnd, fun tx htx => ⟨(hnew tx htx).1, hmem tx htx⟩⟩
    | none =>
      -- once set, the hash of the item is not new any more
      have hset : ∀ tx : PushItem, l.all.set item.encodeWire tx.hash = none → tx.hash ≠ item.hash ∧ l.all tx.hash = none := by
        intro tx htx
        have := ItemMap.set_isSome l.all item.encodeWire tx.hash
        rw [htx] at this
        have hnot : ¬ (tx.hash = item.hash ∨ (l.all tx.hash).isSome) := fun h => by cases this.2 h
        rw [not_or, Option.not_isSome_iff_eq_none] at hnot
        exact hnot
      cases hb : item.forBlock with
      | true =>
        rw [enqueueItem_block h hb] at hnew ⊢
        exact ⟨txs, rfl, hnd, fun tx htx => ⟨(hset tx (hnew tx htx).1).2, hmem tx htx⟩⟩
      | false =>
        rw [enqueueItem_tx h hb] at hnew ⊢
        refine ⟨item.encodeWire :: txs, by simp, List.nodup_cons.2 ⟨?_, hnd⟩, fun tx htx => ?_⟩
        · intro hin
          obtain ⟨tx, htx, heq⟩ := List.mem_map.1 hin
          exact (hset tx (hnew tx htx).1).1 heq
        · rcases List.mem_cons.1 htx with rfl | htx
          · exact ⟨h, item, List.mem_cons_self, hb, rfl⟩
          · exact ⟨(hset tx (hnew tx htx).1).2, hmem tx htx⟩

/-! ## Adding items -/

/-- The hashes of the transactions of a call that are not listed. -/
def newTxs (l : PeerSendingLoop) (items : List PushItem) : List Hash :=
  ((items.filter fun item => !item.forBlock && (l.all item.hash).isNone).map PushItem.hash).dedup

theorem enqueue_tlist_length (items : List PushItem) (l : PeerSendingLoop) :
    (l.enqueue items).tlist.length ≤ l.tlist.length + (l.newTxs items).length := by
  obtain ⟨txs, htxs, hnd, hnew⟩ := enqueue_tlist items l
  have hsub : txs.map PushItem.hash ⊆ l.newTxs items := by
    intro hash hin
    obtain ⟨tx, htx, rfl⟩ := List.mem_map.1 hin
    obtain ⟨hnone, item, hitem, hb, heq⟩ := hnew tx htx
    rw [newTxs, List.mem_dedup, List.mem_map]
    refine ⟨item, List.mem_filter.2 ⟨hitem, ?_⟩, heq⟩
    rw [heq, hnone, hb]
    rfl
  have hlen := (hnd.subperm hsub).length_le
  rw [List.length_map] at hlen
  rw [htxs, List.length_append]
  omega

theorem cutTxs_lists (l : PeerSendingLoop) :
    l.cutTxs.alist = l.alist ∧ l.cutTxs.blist = l.blist ∧
      l.cutTxs.tlist = l.tlist.drop (l.tlist.length - MAX_QUEUED_TXS) := by
  rw [cutTxs]
  split
  · exact ⟨rfl, rfl, by dsimp only⟩
  · next hle =>
    have h0 : l.tlist.length - MAX_QUEUED_TXS = 0 := by omega
    exact ⟨rfl, rfl, by rw [h0, List.drop_zero]⟩

theorem addItems_lists (l : PeerSendingLoop) (items : List PushItem) :
    (l.addItems items).alist = (l.enqueue items).alist ∧
      (l.addItems items).blist = (l.enqueue items).blist.drop ((l.enqueue items).blist.length - MAX_QUEUED_BLKS) ∧
      (l.addItems items).tlist = (l.enqueue items).tlist.drop ((l.enqueue items).tlist.length - MAX_QUEUED_TXS) := by
  obtain ⟨ha, hb, ht⟩ := (l.enqueue items).cutBlocks.cutTxs_lists
  rw [addItems, ha, hb, ht, cutBlocks_eq]
  exact ⟨rfl, by dsimp only, by dsimp only⟩

theorem addItems_indexed {items : List PushItem} (h : Indexed l.items l.all)
    (hfits : (l.enqueue items).tlist.length ≤ MAX_QUEUED_TXS) : Indexed (l.addItems items).items (l.addItems items).all := by
  have hcut : (l.addItems items) = (l.enqueue items).cutBlocks := by
    rw [addItems, cutTxs, if_neg]
    rw [cutBlocks_eq]
    exact Nat.not_lt.2 hfits
  rw [hcut]
  exact (cutBlocks_drops _).indexed (enqueue_indexed items h)

/-! ## Runs -/

/-- Why an item leaves the lists. -/
inductive Leaves (l : PeerSendingLoop) : Act → PushItem → Prop
  | sent {pick item} : item ∈ l.alist → Leaves l (.updatesent pick) item
  | known {item} : l.p.hasitem item = true → Leaves l .accumulate item
  | cutBlock {items item} : item ∈ overload MAX_QUEUED_BLKS (l.enqueue items).blist → Leaves l (.addItems items) item
  | cutTx {items item} : item ∈ overload MAX_QUEUED_TXS (l.enqueue items).tlist → Leaves l (.addItems items) item

theorem leaves_of_step {act : Act} (h : l.step act = some l') {item : PushItem} (hin : item ∈ l.items)
    (hout : item ∉ l'.items) : Leaves l act item := by
  cases act with
  | addItems items =>
    cases h
    obtain ⟨ha, hb, ht⟩ := l.addItems_lists items
    have hsplit : ∀ (list : List PushItem) (n : Nat), item ∈ list → item ∉ list.drop n → item ∈ list.take n := by
      intro list n hmem hnot
      rw [← List.take_append_drop n list, List.mem_append] at hmem
      exact hmem.resolve_right hnot
    have hin' := mem_enqueue items hin
    simp only [PeerSendingLoop.items, ha, hb, ht, List.mem_append, not_or] at hin' hout
    rcases hin' with (hmem | hmem) | hmem
    · exact absurd hmem hout.1.1
    · exact .cutBlock (hsplit _ _ hmem hout.1.2)
    · exact .cutTx (hsplit _ _ hmem hout.2)
  | accumulate =>
    cases h
    obtain ⟨gone, hdrops, hknown⟩ := l.accumulate_drops
    exact .known (hknown item (hdrops.mem_gone hin hout))
  | updatesent pick =>
    cases h
    exact .sent ((l.updatesent_drops pick).mem_gone hin hout)
  | learn p =>
    cases h
    exact absurd hin hout

theorem bounds_of_step {act : Act} (h : l.step act = some l')
    (hl : l.blist.length ≤ MAX_QUEUED_BLKS ∧ l.tlist.length ≤ MAX_QUEUED_TXS) :
    l'.blist.length ≤ MAX_QUEUED_BLKS ∧ l'.tlist.length ≤ MAX_QUEUED_TXS := by
  cases act with
  | addItems items =>
    cases h
    obtain ⟨-, hb, ht⟩ := l.addItems_lists items
    rw [hb, ht, List.length_drop, List.length_drop]
    omega
  | accumulate =>
    cases h
    obtain ⟨blks, txs, hb, ht, -, -⟩ := l.accumulate_spec
    rw [hb, ht, List.length_append, List.length_append] at hl
    omega
  | updatesent pick =>
    cases h
    exact hl
  | learn p =>
    cases h
    exact hl

/-- The transactions queued and the new ones of a call are not too many. -/
def TxsFit (l : PeerSendingLoop) : Act → Prop
  | .addItems items => l.tlist.length + (l.newTxs items).length ≤ MAX_QUEUED_TXS
  | .accumulate | .updatesent _ | .learn _ => True

theorem indexed_of_step {act : Act} (hok : TxsFit l act) (h : l.step act = some l') (hi : Indexed l.items l.all) :
    Indexed l'.items l'.all := by
  cases act with
  | addItems items =>
    cases h
    exact addItems_indexed hi (Nat.le_trans (enqueue_tlist_length items l) hok)
  | accumulate =>
    cases h
    obtain ⟨gone, hdrops, -⟩ := l.accumulate_drops
    exact hdrops.indexed hi
  | updatesent pick =>
    cases h
    exact (l.updatesent_drops pick).indexed hi
  | learn p =>
    cases h
    exact hi

end PeerSendingLoop

open PeerSendingLoop

/-- **The announcement queue**, while the transactions fit: `all` lists the
queued items, no hash is queued twice, the two queues are bounded, and an
item leaves only when it is sent, known to the peer or cut off. -/
theorem announcement_queue_invariant {p : Known} {acts : List Act} {l : PeerSendingLoop}
    (hrun : Run step TxsFit (.new p) acts l) :
    (∀ hash, (l.all hash).isSome ↔ hash ∈ l.items.map PushItem.hash) ∧ (l.items.map PushItem.hash).Nodup ∧
      l.blist.length ≤ MAX_QUEUED_BLKS ∧ l.tlist.length ≤ MAX_QUEUED_TXS ∧
      ∀ act l', l.step act = some l' → ∀ item ∈ l.items, item ∉ l'.items → Leaves l act item := by
  have h0 : Indexed (PeerSendingLoop.new p).items (PeerSendingLoop.new p).all := ⟨by simp [items, new], by simp [items, new]⟩
  have hi := hrun.invariant (I := fun l => Indexed l.items l.all) (fun _ _ _ hi hok h => indexed_of_step hok h hi) h0
  have hb := hrun.invariant (I := fun l => l.blist.length ≤ MAX_QUEUED_BLKS ∧ l.tlist.length ≤ MAX_QUEUED_TXS)
    (fun _ _ _ hl _ h => bounds_of_step h hl) ⟨Nat.zero_le _, Nat.zero_le _⟩
  exact ⟨hi.keys, hi.nodup, hb.1, hb.2, fun act l' h item hin hout => leaves_of_step h hin hout⟩

/-! ## Samples -/

instance (l : PeerSendingLoop) : ∀ act, Decidable (TxsFit l act)
  | .addItems items => inferInstanceAs (Decidable (l.tlist.length + (l.newTxs items).length ≤ MAX_QUEUED_TXS))
  | .accumulate | .updatesent _ | .learn _ => .isTrue trivial

/-- The announcement of transaction hash `k`: `a0`, then the 32 bytes. -/
def txHashItem (k : Nat) : PushItem :=
  ⟨.txHash, [], .ofNat 256 k, 0xa0 :: (List.range 32).map fun i => UInt8.ofNat (k / 256 ^ (31 - i))⟩

theorem announcement_queue_invariant_sample :
    ∃ l, Run step TxsFit (.new ⟨[], []⟩)
        [.addItems [txHashItem 7, txHashItem 8, txHashItem 7], .learn ⟨[], [8]⟩, .accumulate, .addItems [txHashItem 9]] l ∧
      l.items.map PushItem.hash = [7, 9] ∧ ∀ hash, (l.all hash).isSome ↔ hash ∈ l.items.map PushItem.hash := by
  have hexec : (Lib.exec step TxsFit (.new ⟨[], []⟩)
      [.addItems [txHashItem 7, txHashItem 8, txHashItem 7], .learn ⟨[], [8]⟩, .accumulate, .addItems [txHashItem 9]]).map
      (fun l => l.items.map PushItem.hash) = some [7, 9] := by
    decide +kernel
  obtain ⟨l, hl, hitems⟩ := Option.map_eq_some_iff.1 hexec
  have hrun := Run.of_exec hl
  exact ⟨l, hrun, hitems, (announcement_queue_invariant hrun).1⟩

theorem overload_unlisted {l : PeerSendingLoop} {items : List PushItem}
    (hover : MAX_QUEUED_TXS < (l.enqueue items).tlist.length) {item : PushItem}
    (hitem : item ∈ overload MAX_QUEUED_BLKS (l.enqueue items).tlist) : (l.addItems items).all item.hash = none := by
  have hcut : (l.enqueue items).cutBlocks.tlist = (l.enqueue items).tlist := by rw [cutBlocks_eq]
  rw [addItems, cutTxs, hcut, if_pos hover, ← Option.not_isSome_iff_eq_none]
  dsimp only
  rw [ItemMap.forget_isSome]
  exact fun h => h.2 (List.mem_map_of_mem hitem)

theorem overload_unlists {l : PeerSendingLoop} {items : List PushItem}
    (hover : MAX_QUEUED_TXS < (l.enqueue items).tlist.length) :
    ∃ item ∈ (l.addItems items).items, (l.addItems items).all item.hash = none := by
  obtain ⟨-, -, ht⟩ := l.addItems_lists items
  have hmax : MAX_QUEUED_BLKS < MAX_QUEUED_TXS := by decide
  generalize hlist : (l.enqueue items).tlist = txs at hover ht
  have hn : txs.length - MAX_QUEUED_TXS < txs.length := by omega
  refine ⟨txs[txs.length - MAX_QUEUED_TXS], ?_, overload_unlisted (hlist ▸ hover) ?_⟩
  · rw [PeerSendingLoop.items, ht, List.mem_append]
    exact .inr (List.mem_drop_iff_getElem.2 ⟨0, by omega, by simp⟩)
  · rw [hlist, overload]
    exact List.mem_take_iff_getElem.2 ⟨_, by omega, rfl⟩

theorem enqueue_fresh {l : PeerSendingLoop} {items : List PushItem} (htx : ∀ item ∈ items, item.forBlock = false)
    (hnd : (items.map PushItem.hash).Nodup) (hnew : ∀ item ∈ items, l.all item.hash = none) :
    (l.enqueue items).tlist = l.tlist ++ items.map PushItem.encodeWire := by
  induction items generalizing l with
  | nil => simp [enqueue]
  | cons item items ih =>
    rw [List.map_cons, List.nodup_cons] at hnd
    have hitem : item ∈ item :: items := List.mem_cons_self
    rw [enqueue_cons, enqueueItem_tx (hnew item hitem) (htx item hitem),
      ih (fun i hi => htx i (List.mem_cons_of_mem _ hi)) hnd.2]
    · simp
    · intro i hi
      rw [← Option.not_isSome_iff_eq_none, ItemMap.set_isSome, hnew i (List.mem_cons_of_mem _ hi)]
      simp only [Option.isSome_none, Bool.false_eq_true, or_false]
      exact fun heq => hnd.1 (heq ▸ List.mem_map_of_mem hi)

theorem overload_requeues {l : PeerSendingLoop} {items : List PushItem}
    (hover : MAX_QUEUED_TXS < (l.enqueue items).tlist.length) {item : PushItem} (htx : item.forBlock = false)
    (hitem : item.encodeWire ∈ (overload MAX_QUEUED_BLKS (l.enqueue items).tlist).drop
      ((l.enqueue items).tlist.length - MAX_QUEUED_TXS + 1)) :
    ¬ (((l.addItems items).addItems [item]).items.map PushItem.hash).Nodup := by
  have hnone : (l.addItems items).all item.encodeWire.hash = none := overload_unlisted hover (List.mem_of_mem_drop hitem)
  obtain ⟨-, -, ht⟩ := l.addItems_lists items
  obtain ⟨-, -, ht'⟩ := (l.addItems items).addItems_lists [item]
  have henq : ((l.addItems items).enqueue [item]).tlist = (l.addItems items).tlist ++ [item.encodeWire] :=
    enqueue_fresh (List.forall_mem_singleton.2 htx) (List.nodup_singleton _) (List.forall_mem_singleton.2 hnone)
  generalize (l.enqueue items).tlist = txs at hover hitem ht
  have hlen : (l.addItems items).tlist.length = MAX_QUEUED_TXS := by
    rw [ht, List.length_drop]
    omega
  have hone : MAX_QUEUED_TXS + 1 - MAX_QUEUED_TXS = 1 := by omega
  have hpos : 1 ≤ MAX_QUEUED_TXS := by decide
  rw [henq, List.length_append, List.length_singleton, hlen, hone,
    List.drop_append_of_le_length (by rw [hlen]; exact hpos), ht, List.drop_drop] at ht'
  rw [overload, List.drop_take] at hitem
  have hfirst := List.mem_of_mem_take hitem
  rw [PeerSendingLoop.items, ht', List.map_append, List.nodup_append]
  rintro ⟨-, hnd, -⟩
  rw [List.map_append, List.nodup_append] at hnd
  exact hnd.2.2 _ (List.mem_map_of_mem hfirst) _ (by simp) rfl

/-- So many announcements that the oldest one is cut off. -/
def overloading : List PushItem := (List.range 4097).map txHashItem

theorem enqueue_overloading :
    ((PeerSendingLoop.new ⟨[], []⟩).enqueue overloading).tlist = overloading.map PushItem.encodeWire := by
  have htx : ∀ item ∈ overloading, item.forBlock = false := by
    intro item hitem
    obtain ⟨k, -, rfl⟩ := List.mem_map.1 hitem
    rfl
  have hnd : (overloading.map PushItem.hash).Nodup := by
    rw [overloading, List.map_map]
    refine List.Nodup.map_on (fun i hi j hj heq => ?_) List.nodup_range
    have heq' := congrArg BitVec.toNat heq
    simp only [Function.comp_apply, txHashItem, BitVec.toNat_ofNat] at heq'
    rw [List.mem_range] at hi hj
    omega
  rw [enqueue_fresh htx hnd fun _ _ => rfl, PeerSendingLoop.new, List.nil_append]

/-- After an overload hashes that are still queued are not listed, and one of
them is queued again. -/
theorem queued_twice :
    ∃ l l', Run step Lib.anyStep (.new ⟨[], []⟩) [.addItems overloading] l ∧
      (∃ item ∈ l.items, l.all item.hash = none) ∧ l.step (.addItems [txHashItem 2]) = some l' ∧
      ¬ (l'.items.map PushItem.hash).Nodup := by
  have hlen : ((PeerSendingLoop.new ⟨[], []⟩).enqueue overloading).tlist.length = 4097 := by
    rw [enqueue_overloading, List.length_map, overloading, List.length_map, List.length_range]
  have hover : MAX_QUEUED_TXS < ((PeerSendingLoop.new ⟨[], []⟩).enqueue overloading).tlist.length := by
    rw [hlen]
    decide
  refine ⟨_, _, .cons trivial rfl .nil, overload_unlists hover, rfl, overload_requeues hover rfl ?_⟩
  rw [hlen, overload, hlen, enqueue_overloading, overloading]
  have hcount : 4097 - MAX_QUEUED_BLKS = 3841 ∧ 4097 - MAX_QUEUED_TXS + 1 = 2 := by decide
  rw [hcount.1, hcount.2]
  refine List.mem_drop_iff_getElem.2 ⟨0, by simp, ?_⟩
  simp

end NdnGeth.Eth
