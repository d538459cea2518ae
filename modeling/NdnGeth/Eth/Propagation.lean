/-
What a controller sends to its peers when a block or a header is new
(`propagateBlock`, `propagateHeader` of `ndn/eth/handler.go`), and the batches
that a peer's sending loop makes of it.

* `fanout_iff`: a mined block goes to every peer that does not know it, and a
  header to as many as the policy says. A relayed block goes to nobody: the
  number is computed in a variable of the inner block, and the loop reads the
  outer one.
* `batch_iff`: a batch is never too large. It is empty, although something is
  new to the peer, exactly if the first such item is too large for any batch:
  what the controller holds back (`Fits`) is measured on the block and not on
  the item.

`int(math.Sqrt(float64(n)))` is the integer root, as it is for any number of
peers below `2 ^ 52`.
-/
import Mathlib.Algebra.Order.BigOperators.Group.List
import Mathlib.Logic.Equiv.Fin.Basic
import Mathlib.Data.Fintype.Perm
import Mathlib.Data.Nat.Sqrt
import NdnGeth.Eth.PeerSet
import NdnGeth.Eth.EthMsg

namespace NdnGeth.Eth

open Lib (Run)
open Lib.Rlp (Bytes)
open Core (Hash)
open Types (Block Header Transaction)
open Wire (Content BlockHeaderItem)

def MAX_PUSH_TXSIZE : Nat := 256
def MAX_PUSH_BLOCKSIZE : Nat := 1024
def MIN_BROADCAST_PEERS : Nat := 3

/-- The `IType` that goes with a content. -/
def itypeOf : Content → IType
  | .tx _ => .tx
  | .txHash _ => .txHash
  | .block _ => .block
  | .blockHeader _ => .blockHeader
  | .blockHash _ => .blockHash

def pushItem (keccak256 : Bytes → Hash) (c : Content) : PushItem := ⟨itypeOf c, [], c.hash keccak256, c.encode⟩

def blockSize (block : Block) : Nat := (Block.codec.encode block).length

def txSize (tx : Transaction) : Nat := (Transaction.codec.encode tx).length

/-- What the controller knows of its peers; `indexes` is `rand.Perm`. -/
structure Gossip where
  keccak256 : Bytes → Hash
  indexes : (n : Nat) → Equiv.Perm (Fin n)
  pfx : Bytes
  ps : PeerSet
  connected : PeerPtr → Bool
  known : PeerPtr → Known

namespace Gossip

variable (g : Gossip)

def shuffle (peers : List PeerPtr) : List PeerPtr := List.ofFn fun i => peers.get (g.indexes peers.length i)

def peersWithoutBlock (hash : Hash) : List PeerPtr :=
  g.shuffle (g.ps.peers.filter fun p => !(g.known p).kblks.contains hash)

/-- `doSend`: what gets into the queue of the peer. -/
def doSend (p : PeerPtr) (c : Content) : List (PeerPtr × PushItem) :=
  let item := pushItem g.keccak256 c
  if g.connected p && !(g.known p).hasitem item then [(p, item)] else []

def fanout (n : Nat) : Nat :=
  let l := n.sqrt
  let l := if l < MIN_BROADCAST_PEERS then MIN_BROADCAST_PEERS else l
  if n < l then n else l

/-- `propagateBlock`; `parent` is the difficulty up to the parent, if the
chain has it, and `numsegments` what `cacheBlockBody` returns. -/
def propagateBlock (block : Block) (parent : Option Nat) (numsegments : BitVec 16) (isminer : Bool) :
    List (PeerPtr × PushItem) :=
  match parent with
  | none => []
  | some parent =>
    let td := block.header.difficulty + parent
    let bhash := block.hash g.keccak256
    let peers := g.peersWithoutBlock bhash
    -- the number of the other branch is assigned to a variable of that branch
    let l := if isminer then peers.length else 0
    peers.zipIdx.flatMap fun (p, i) =>
      if i < l then
        if blockSize block ≤ MAX_PUSH_BLOCKSIZE then g.doSend p (.block ⟨block, td⟩)
        else g.doSend p (.blockHeader ⟨block.header, td, g.pfx, numsegments⟩)
      else if isminer then g.doSend p (.blockHash ⟨bhash, .ofNat 64 block.header.number, numsegments⟩)
      else []

def propagateHeader (headeritem : BlockHeaderItem) : List (PeerPtr × PushItem) :=
  let peers := g.peersWithoutBlock (headeritem.header.hash g.keccak256)
  (peers.take (fanout peers.length)).flatMap fun p => g.doSend p (.blockHeader headeritem)

/-! ## What is sent -/

/-- What the controller pushes whole. -/
def Fits : Content → Prop
  | .tx tx => txSize tx ≤ MAX_PUSH_TXSIZE
  | .block fblock => blockSize fblock.block ≤ MAX_PUSH_BLOCKSIZE
  | .txHash _ | .blockHeader _ | .blockHash _ => True

def Pushed (keccak256 : Bytes → Hash) (item : PushItem) : Prop := ∃ c, Fits c ∧ item = pushItem keccak256 c

/-! ## The peers that are sent to -/

variable {g} {c : Content} {p : PeerPtr} {hash : Hash}

theorem shuffle_perm (g : Gossip) (peers : List PeerPtr) : (g.shuffle peers).Perm peers := by
  have h := Equiv.Perm.ofFn_comp_perm (g.indexes peers.length) peers.get
  rwa [List.ofFn_get] at h

theorem mem_peersWithoutBlock : p ∈ g.peersWithoutBlock hash ↔ p ∈ g.ps.peers ∧ hash ∉ (g.known p).kblks := by
  rw [peersWithoutBlock, (g.shuffle_perm _).mem_iff, List.mem_filter]
  simp

theorem nodup_peersWithoutBlock (h : g.ps.WF) (hash : Hash) : (g.peersWithoutBlock hash).Nodup :=
  (g.shuffle_perm _).nodup_iff.2 (h.nodup.of_map.filter _)

theorem doSend_eq (hcon : g.connected p = true) (hc : (pushItem g.keccak256 c).forBlock = true)
    (hp : c.hash g.keccak256 ∉ (g.known p).kblks) : g.doSend p c = [(p, pushItem g.keccak256 c)] := by
  have hhas : (g.known p).hasitem (pushItem g.keccak256 c) = false := by
    rw [Known.hasitem, if_pos hc]
    simpa [pushItem] using hp
  simp only [doSend, hcon, hhas, Bool.not_false, Bool.and_self, if_true]

theorem map_fst_flatMap {α : Type} {l : List α} (peer : α → PeerPtr) {f : α → List (PeerPtr × PushItem)}
    (h : ∀ x ∈ l, ∃ item, f x = [(peer x, item)]) : (l.flatMap f).map Prod.fst = l.map peer := by
  induction l with
  | nil => rfl
  | cons x l ih =>
    obtain ⟨item, hx⟩ := h x List.mem_cons_self
    rw [List.flatMap_cons, List.map_append, ih fun y hy => h y (List.mem_cons_of_mem x hy), hx]
    rfl

theorem fanout_eq (n : Nat) : fanout n = min n (max MIN_BROADCAST_PEERS n.sqrt) := by
  unfold fanout
  simp only
  split <;> split <;> omega

/-- **The fan-out.** With all peers connected: a block that this node has
mined goes once to each peer that does not know it, and a header to `min n
(max 3 (sqrt n))` distinct ones of the `n`. A block that it relays does so
only if there is no such peer. -/
theorem fanout_iff (g : Gossip) (hwf : g.ps.WF) (hcon : ∀ p ∈ g.ps.peers, g.connected p = true) (block : Block) (parent : Nat)
    (numsegments : BitVec 16) (headeritem : BlockHeaderItem) :
    (∀ p ∈ g.peersWithoutBlock (block.hash g.keccak256),
      ((g.propagateBlock block (some parent) numsegments true).map Prod.fst).count p = 1) ∧
    (let sent := g.propagateBlock block (some parent) numsegments false
     let n := (g.peersWithoutBlock (block.hash g.keccak256)).length
     (sent.map Prod.fst).Nodup ∧ sent.length = min n (max MIN_BROADCAST_PEERS n.sqrt) ↔ n = 0) ∧
    (let sent := g.propagateHeader headeritem
     let n := (g.peersWithoutBlock (headeritem.header.hash g.keccak256)).length
     (sent.map Prod.fst).Nodup ∧ sent.length = min n (max MIN_BROADCAST_PEERS n.sqrt)) := by
  have hsend : ∀ {c : Content} {p : PeerPtr}, (pushItem g.keccak256 c).forBlock = true →
      p ∈ g.peersWithoutBlock (c.hash g.keccak256) → g.doSend p c = [(p, pushItem g.keccak256 c)] := by
    intro c p hc hp
    obtain ⟨hmem, hnot⟩ := mem_peersWithoutBlock.1 hp
    exact doSend_eq (hcon p hmem) hc hnot
  refine ⟨fun p hp => ?_, ?_, ?_⟩
  · have hall : (g.propagateBlock block (some parent) numsegments true).map Prod.fst =
        g.peersWithoutBlock (block.hash g.keccak256) := by
      simp only [propagateBlock, if_true]
      rw [map_fst_flatMap Prod.fst, List.zipIdx_map_fst]
      intro ⟨q, i⟩ hq
      obtain ⟨-, hlt, -⟩ := List.mem_zipIdx hq
      have hq := List.fst_mem_of_mem_zipIdx hq
      simp only [Nat.zero_add] at hlt
      simp only [hlt, if_true]
      split
      · exact ⟨_, hsend rfl hq⟩
      · exact ⟨_, hsend rfl hq⟩
    rw [hall]
    exact List.count_eq_one_of_mem (nodup_peersWithoutBlock hwf _) hp
  · have hnone : g.propagateBlock block (some parent) numsegments false = [] := by
      simp [propagateBlock]
    simp only [hnone, List.map_nil, List.nodup_nil, List.length_nil, true_and, MIN_BROADCAST_PEERS]
    omega
  · have hall : (g.propagateHeader headeritem).map Prod.fst =
        (g.peersWithoutBlock (headeritem.header.hash g.keccak256)).take
          (fanout (g.peersWithoutBlock (headeritem.header.hash g.keccak256)).length) := by
      simp only [propagateHeader]
      rw [map_fst_flatMap id, List.map_id]
      exact fun q hq => ⟨_, hsend rfl (List.mem_of_mem_take hq)⟩
    have hlen := congrArg List.length hall
    rw [List.length_map, List.length_take, fanout_eq] at hlen
    have hnd : ((g.propagateHeader headeritem).map Prod.fst).Nodup := by
      rw [hall]
      exact (nodup_peersWithoutBlock hwf _).sublist (List.take_sublist ..)
    exact ⟨hnd, by omega⟩

/-- Five peers, of which the first knows the block. -/
def samplePeers : List PeerPtr := [⟨0, "a", true, 1⟩, ⟨1, "b", true, 1⟩, ⟨2, "c", true, 1⟩, ⟨3, "d", true, 1⟩, ⟨4, "e", true, 1⟩]

def sample : Gossip where
  keccak256 _ := 0
  indexes _ := 1
  pfx := [47]
  ps := ⟨samplePeers, samplePeers, [], 0, 5⟩
  connected _ := true
  known p := if p.num = 0 then ⟨[0], []⟩ else ⟨[], []⟩

theorem sample_wf : sample.ps.WF := by
  constructor <;> decide

/-- The block goes to the last peer, and a header to three of the four. -/
theorem fanout_iff_sample : sample.ps.WF ∧
    ((sample.propagateBlock default (some 1) 0 true).map Prod.fst).count ⟨4, "e", true, 1⟩ = 1 ∧
    (sample.propagateHeader ⟨default, 1, [47], 0⟩).length = 3 := by
  obtain ⟨hblock, -, -, hheader⟩ := fanout_iff sample sample_wf (fun _ _ => rfl) default 1 0 ⟨default, 1, [47], 0⟩
  exact ⟨sample_wf, hblock _ (by decide +kernel), hheader.trans (by decide +kernel)⟩

/-- The block is new to four peers, and is sent to none. -/
theorem relayed_to_nobody : (sample.peersWithoutBlock ((default : Block).hash sample.keccak256)).length = 4 ∧
    sample.propagateBlock default (some 1) 0 false = [] ∧ min 4 (max MIN_BROADCAST_PEERS (Nat.sqrt 4)) = 3 := by
  decide +kernel

end Gossip

/-! ## Batches -/

namespace PeerSendingLoop

variable {l l' : PeerSendingLoop}

theorem totalSize_append (xs ys : List PushItem) : totalSize (xs ++ ys) = totalSize xs + totalSize ys := by
  simp [totalSize]

theorem accumulate_split (l : PeerSendingLoop) (h : totalSize l.alist ≤ MAX_PUSH_CONTENT_SIZE) :
    ∃ taken rest, l.items = taken ++ rest ∧ l.accumulate.1.alist = taken.filter (fun item => !l.p.hasitem item) ∧
      totalSize l.accumulate.1.alist ≤ MAX_PUSH_CONTENT_SIZE ∧
      ∀ item ∈ rest.head?, l.p.hasitem item = false ∧ MAX_PUSH_CONTENT_SIZE < totalSize l.accumulate.1.alist + item.size := by
  have hle : totalSize (l.alist.filter fun item => !l.p.hasitem item) ≤ totalSize l.alist :=
    (List.filter_sublist.map PushItem.size).sum_le_sum fun _ _ => Nat.zero_le _
  obtain ⟨hnew, hsize, -⟩ := recount_spec l.p.hasitem l.alist ⟨[], 0, false, l.all⟩
  simp only [accumulate]
  generalize recount l.p.hasitem l.alist ⟨[], 0, false, l.all⟩ = acc at *
  obtain ⟨blks, hblks, hnewB, hsizeB, hfitB, hstopB, -⟩ := drain_spec l.p.hasitem true l.blist acc
  generalize drain l.p.hasitem true l.blist acc = blk at *
  simp only [List.nil_append, Nat.zero_add] at hnew hsize
  have hfitB := hfitB (by omega)
  have htotal : totalSize blk.1.newlist = blk.1.totalsize := by
    rw [hnewB, totalSize_append, hnew, hsizeB, hsize]
  split
  · next hne =>
    refine ⟨l.alist ++ blks, blk.2 ++ l.tlist, by simp [items, hblks], by simp [hnewB, hnew],
      (Nat.le_of_eq htotal).trans hfitB, ?_⟩
    rw [List.head?_append_of_ne_nil _ hne]
    intro item hitem
    rw [htotal]
    exact hstopB item hitem
  · next hnil =>
    rw [not_not] at hnil
    obtain ⟨txs, htxs, hnewT, hsizeT, hfitT, hstopT, -⟩ := drain_spec l.p.hasitem false l.tlist blk.1
    generalize drain l.p.hasitem false l.tlist blk.1 = tx at *
    have htotal : totalSize tx.1.newlist = tx.1.totalsize := by
      rw [hnewT, totalSize_append, htotal, hsizeT]
    refine ⟨l.alist ++ blks ++ txs, tx.2, by simp [items, hblks, htxs, hnil], by simp [hnewT, hnewB, hnew],
      (Nat.le_of_eq htotal).trans (hfitT hfitB), ?_⟩
    intro item hitem
    rw [htotal]
    exact hstopT item hitem

theorem enqueue_alist (items : List PushItem) (l : PeerSendingLoop) : (l.enqueue items).alist = l.alist := by
  induction items generalizing l with
  | nil => rfl
  | cons item items ih =>
    rw [enqueue_cons, ih]
    simp only [enqueueItem]
    split
    · rfl
    · split <;> rfl

theorem totalSize_of_step {a : Act} (hs : l.step a = some l') (h : totalSize l.alist ≤ MAX_PUSH_CONTENT_SIZE) :
    totalSize l'.alist ≤ MAX_PUSH_CONTENT_SIZE := by
  cases a with
  | addItems items =>
    cases hs
    rw [(l.addItems_lists items).1, enqueue_alist]
    exact h
  | accumulate =>
    cases hs
    obtain ⟨-, -, -, -, hfit, -⟩ := l.accumulate_split h
    exact hfit
  | updatesent pick =>
    cases hs
    exact Nat.zero_le _
  | learn p =>
    cases hs
    exact h

/-- The steps of a run in which all that is queued comes from the controller. -/
def FromController (keccak256 : Bytes → Hash) (_ : PeerSendingLoop) : Act → Prop
  | .addItems items => ∀ item ∈ items, Gossip.Pushed keccak256 item
  | .accumulate | .updatesent _ | .learn _ => True

/-- **Batches.** Whatever has been queued and sent before, `accumulate` leaves
a batch that fits. It is not empty whenever something queued is new to the
peer, exactly if the first such item fits into a batch of its own. -/
theorem batch_iff {keccak256 : Bytes → Hash} {p : Known} {as : List Act} {l : PeerSendingLoop}
    (hrun : Run step (FromController keccak256) (new p) as l) :
    totalSize l.accumulate.1.alist ≤ MAX_PUSH_CONTENT_SIZE ∧
      ((∀ item ∈ l.items, l.p.hasitem item = false → l.accumulate.1.alist ≠ []) ↔
        ∀ item ∈ l.items.find? (fun item => !l.p.hasitem item), item.size ≤ MAX_PUSH_CONTENT_SIZE) := by
  have hinv : totalSize l.alist ≤ MAX_PUSH_CONTENT_SIZE :=
    hrun.invariant (I := fun l => totalSize l.alist ≤ MAX_PUSH_CONTENT_SIZE) (fun _ _ _ h _ hs => totalSize_of_step hs h)
      (Nat.zero_le _)
  obtain ⟨taken, rest, hitems, halist, hfit, hstop⟩ := l.accumulate_split hinv
  refine ⟨hfit, ?_⟩
  rw [hitems, List.find?_append]
  cases hfirst : taken.find? (fun item => !l.p.hasitem item) with
  | some item =>
    -- the first item that is new is in the batch
    have hmem : item ∈ l.accumulate.1.alist := by
      rw [halist]
      exact List.mem_filter.2 ⟨List.mem_of_find?_eq_some hfirst, List.find?_some (p := fun item => !l.p.hasitem item) hfirst⟩
    have hsize : item.size ≤ totalSize l.accumulate.1.alist := List.single_le_sum (by simp) _ (List.mem_map_of_mem hmem)
    refine ⟨fun _ x hx => ?_, fun _ x _ _ => List.ne_nil_of_mem hmem⟩
    cases hx
    omega
  | none =>
    have hnil : l.accumulate.1.alist = [] := by
      rw [halist, List.filter_eq_nil_iff]
      exact List.find?_eq_none.1 hfirst
    cases rest with
    | nil =>
      refine ⟨fun _ x hx => (by cases hx), fun _ x hx hnew => ?_⟩
      rw [List.append_nil] at hx
      have := List.find?_eq_none.1 hfirst x hx
      rw [hnew] at this
      exact absurd rfl this
    | cons item rest =>
      obtain ⟨hnew, hbig⟩ := hstop item rfl
      rw [hnil] at hbig
      refine ⟨fun hne => absurd hnil (hne item (by simp) hnew), fun hsize => ?_⟩
      have hle := hsize item (by simp [hnew])
      exact absurd hbig (by simp only [totalSize, List.map_nil, List.sum_nil]; omega)

/-- The hash of a transaction, with nothing before it. -/
def hashItem (hash : Hash) : PushItem := pushItem (fun _ => 0) (.txHash hash)

theorem hashItem_pushed (hash : Hash) : Gossip.Pushed (fun _ => 0) (hashItem hash) := ⟨.txHash hash, trivial, rfl⟩

/-- Of three hashes the peer knows the first. -/
theorem batch_iff_sample : ∃ l, Run step (FromController fun _ => 0) (new ⟨[], [5]⟩)
      [.addItems [hashItem 5, hashItem 7, hashItem 8], .accumulate] l ∧
    l.alist.length = 2 ∧ totalSize l.accumulate.1.alist ≤ MAX_PUSH_CONTENT_SIZE ∧ l.accumulate.1.alist ≠ [] := by
  have hfrom : FromController (fun _ => 0) (new ⟨[], [5]⟩) (.addItems [hashItem 5, hashItem 7, hashItem 8]) := by
    simp only [FromController, List.forall_mem_cons]
    exact ⟨hashItem_pushed 5, hashItem_pushed 7, hashItem_pushed 8, List.forall_mem_nil _⟩
  have hrun : Run step (FromController fun _ => 0) (new ⟨[], [5]⟩) [.addItems [hashItem 5, hashItem 7, hashItem 8], .accumulate] _ :=
    .cons hfrom rfl (.cons trivial rfl .nil)
  obtain ⟨hfit, hiff⟩ := batch_iff hrun
  exact ⟨_, hrun, by decide +kernel, hfit,
    hiff.2 (by decide +kernel) (hashItem 7).encodeWire (by decide +kernel) (by decide +kernel)⟩

/-- A block with 500 bytes of extra data. -/
def extraBlock : Block := ⟨{ (default : Header) with extra := List.replicate 500 0 }, [], []⟩

/-- The block is small enough to be pushed and its item too large for a
batch; the hash behind it is not sent. -/
theorem block_blocks_batches : ∃ l, Run step (FromController fun _ => 0) (new ⟨[], []⟩)
      [.addItems [pushItem (fun _ => 0) (.block ⟨extraBlock, 1⟩), hashItem 7]] l ∧
    (hashItem 7).encodeWire ∈ l.items ∧ l.p.hasitem (hashItem 7).encodeWire = false ∧ l.accumulate.1.alist = [] := by
  have hfits : Gossip.Fits (.block ⟨extraBlock, 1⟩) := (by decide +kernel : blockSize extraBlock ≤ MAX_PUSH_BLOCKSIZE)
  have hfrom : FromController (fun _ => 0) (new ⟨[], []⟩)
      (.addItems [pushItem (fun _ => 0) (.block ⟨extraBlock, 1⟩), hashItem 7]) := by
    intro item h
    obtain rfl | h := List.mem_cons.1 h
    · exact ⟨_, hfits, rfl⟩
    · exact List.mem_singleton.1 h ▸ hashItem_pushed 7
  exact ⟨_, .cons hfrom rfl .nil, by decide +kernel, by decide +kernel, by decide +kernel⟩

end PeerSendingLoop

end NdnGeth.Eth
