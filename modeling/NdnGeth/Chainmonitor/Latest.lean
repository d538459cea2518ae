/-
The latest blocks and transactions that the monitor shows
(`ndn/chainmonitor/latest.go`). At each new head `update` either appends the
block or, if the chain was reorganised, walks back from it (`reset`). It
takes a head for a reorganisation when its hash, not its parent's, differs
from that of the last head; so every new head is one, and a repeated head is
appended again.

`monitor_iff`: after any sequence of heads the lists are right exactly if the
last head is not a repetition and no block of the window takes the number of
transactions, counted from the head back, from below twenty to above: of those it
has gathered `reset` keeps the oldest.

The blocks of the chain are a parameter with what holds of them: a lookup by
hash and number, which finds the parent of every block but the first.
-/
import Mathlib.Data.List.Basic
import NdnGeth.Core.Types

namespace NdnGeth.Chainmonitor

open Core (Hash)

def LATEST_BLOCKS_MAX : Nat := 20
def LATEST_TXS_MAX : Nat := 20

structure BlockInfo where
  hash : Hash
  number : BitVec 64
  coinbase : BitVec 160
  size : Nat
  created : BitVec 64
  gasUsed : BitVec 64
  numTxs : Nat
  deriving DecidableEq, Repr

/-- A block, with its transactions as JSON has them. -/
structure Block (τ : Type) extends BlockInfo where
  parentHash : Hash
  txs : List τ
  deriving DecidableEq, Repr

structure TxInfo (τ : Type) where
  tx : τ
  index : BitVec 16
  block : BitVec 64
  deriving DecidableEq, Repr

structure LatestInfo (τ : Type) where
  blocks : List BlockInfo
  txs : List (TxInfo τ)
  prevhash : Hash
  deriving DecidableEq, Repr

variable {τ : Type}

namespace Block

def info (b : Block τ) : BlockInfo := { b.toBlockInfo with numTxs := b.txs.length }

def txInfos (b : Block τ) : List (TxInfo τ) := b.txs.zipIdx.map fun (tx, i) => ⟨tx, .ofNat 16 i, b.number⟩

end Block

/-- The blocks of the chain and `GetBlock`. -/
structure Blocks (τ : Type) where
  mem : Block τ → Prop
  getBlock : Hash → BitVec 64 → Option (Block τ)
  getBlock_some : ∀ {hash number b}, getBlock hash number = some b → mem b ∧ b.hash = hash ∧ b.number = number
  genesis : ∀ {b}, mem b → b.number = 0 → getBlock b.parentHash (b.number - 1) = none
  parent : ∀ {b}, mem b → b.number ≠ 0 → ∃ p, getBlock b.parentHash (b.number - 1) = some p
  eq_of_hash : ∀ {b c}, mem b → mem c → b.hash = c.hash → b = c
  hash_ne : ∀ {b}, mem b → b.hash ≠ 0

namespace Blocks

variable (s : Blocks τ)

/-- The loop of `reset`, with the blocks and transactions gathered so far. -/
def resetLoop : Nat → Option (Block τ) → List BlockInfo → List (TxInfo τ) → List BlockInfo × List (TxInfo τ)
  | n + 1, some b, blocks, txs =>
    resetLoop n (s.getBlock b.parentHash (b.number - 1)) (b.info :: blocks)
      (if b.txInfos ≠ [] ∧ txs.length < LATEST_TXS_MAX then b.txInfos ++ txs else txs)
  | _, _, blocks, txs => (blocks, txs)

/-- `reset`, with the head. -/
def reset (b : Block τ) : LatestInfo τ :=
  let (blocks, txs) := s.resetLoop LATEST_BLOCKS_MAX (some b) [] []
  ⟨blocks.take LATEST_BLOCKS_MAX, txs.take LATEST_TXS_MAX, b.hash⟩

/-- `update`, with a block. -/
def update (l : LatestInfo τ) (b : Block τ) : LatestInfo τ :=
  if l.prevhash ≠ 0 ∧ l.prevhash ≠ b.hash then s.reset b
  else
    let blocks :=
      if l.blocks.length < LATEST_BLOCKS_MAX then l.blocks
      -- `copy` moves all but the first one place down; the last one stays
      else l.blocks.drop 1 ++ l.blocks.drop (l.blocks.length - 1)
    let txs := b.txInfos
    let dellen := txs.length + l.txs.length - LATEST_TXS_MAX
    let txs :=
      if txs = [] then l.txs
      else if txs.length + l.txs.length ≤ LATEST_TXS_MAX then l.txs ++ txs
      else if l.txs.length ≤ dellen then txs.take LATEST_TXS_MAX
      else l.txs.drop dellen ++ txs
    ⟨blocks ++ [b.info], txs, b.hash⟩

/-- The monitor is made at the first head, and updated with the others. -/
def run : List (Block τ) → LatestInfo τ
  | [] => ⟨[], [], 0⟩
  | b :: heads => heads.foldl s.update (s.reset b)

/-! ## The chain of a head -/

/-- Up to `n` blocks back from a block, the latest first. -/
def back : Nat → Block τ → List (Block τ)
  | 0, _ => []
  | n + 1, b =>
    b :: match s.getBlock b.parentHash (b.number - 1) with
      | some p => back n p
      | none => []

/-- The chain that ends in a block, the latest first. -/
def chain (b : Block τ) : List (Block τ) := s.back (b.number.toNat + 1) b

/-- The last blocks of the chain, in ascending order. -/
def window (b : Block τ) : List (Block τ) := ((s.chain b).take LATEST_BLOCKS_MAX).reverse

/-- What the monitor should show: the last blocks of the chain, and the last
of their transactions. -/
def Right (b : Block τ) (l : LatestInfo τ) : Prop :=
  let txs := (s.window b).flatMap Block.txInfos
  l.blocks = (s.window b).map Block.info ∧ l.txs = txs.drop (txs.length - LATEST_TXS_MAX)

/-- After so many transactions, no block of the list takes their number from
below the maximum to above. -/
def Fits : Nat → List (Block τ) → Prop
  | _, [] => True
  | n, c :: older => n < LATEST_TXS_MAX → n + c.txs.length ≤ LATEST_TXS_MAX ∧ Fits (n + c.txs.length) older

variable {s} {b : Block τ} {n : Nat}

theorem back_eq_take (hb : s.mem b) (n : Nat) : s.back n b = (s.chain b).take n := by
  induction n generalizing b with
  | zero => rfl
  | succ n ih =>
    rw [chain, back, back, List.take_succ_cons]
    by_cases h0 : b.number = 0
    · rw [s.genesis hb h0, List.take_nil]
    · obtain ⟨p, hp⟩ := s.parent hb h0
      obtain ⟨hmem, -, hnum⟩ := s.getBlock_some hp
      have hpn : b.number.toNat = p.number.toNat + 1 := by
        rw [hnum]
        bv_omega
      rw [hp, hpn]
      exact congrArg (b :: ·) (ih hmem)

/-- The transactions that `reset` gathers, from the latest block on. -/
def gather : List (Block τ) → List (TxInfo τ) → List (TxInfo τ)
  | [], txs => txs
  | b :: bs, txs => gather bs (if b.txInfos ≠ [] ∧ txs.length < LATEST_TXS_MAX then b.txInfos ++ txs else txs)

theorem resetLoop_eq (n : Nat) (b : Block τ) (blocks : List BlockInfo) (txs : List (TxInfo τ)) :
    s.resetLoop n (some b) blocks txs = (((s.back n b).map Block.info).reverse ++ blocks, gather (s.back n b) txs) := by
  induction n generalizing b blocks txs with
  | zero => rfl
  | succ n ih =>
    rw [resetLoop, back]
    cases s.getBlock b.parentHash (b.number - 1) with
    | none => cases n <;> simp [resetLoop, gather]
    | some p => simp [ih, gather]

theorem gather_full {txs : List (TxInfo τ)} (h : LATEST_TXS_MAX ≤ txs.length) (bs : List (Block τ)) : gather bs txs = txs := by
  induction bs with
  | nil => rfl
  | cons b bs ih => rw [gather, if_neg fun hb => absurd hb.2 (Nat.not_lt.2 h), ih]

theorem gather_suffix (bs : List (Block τ)) (txs : List (TxInfo τ)) :
    ∃ rest, bs.reverse.flatMap Block.txInfos ++ txs = rest ++ gather bs txs ∧
      (rest = [] ∨ LATEST_TXS_MAX ≤ (gather bs txs).length) := by
  induction bs generalizing txs with
  | nil => exact ⟨[], rfl, .inl rfl⟩
  | cons b bs ih =>
    rw [gather, List.reverse_cons, List.flatMap_append, List.flatMap_singleton, List.append_assoc]
    split
    · exact ih (b.txInfos ++ txs)
    · next hno =>
      by_cases hempty : b.txInfos = []
      · rw [hempty, List.nil_append]
        exact ih txs
      · have hfull : LATEST_TXS_MAX ≤ txs.length := Nat.not_lt.1 fun hlt => hno ⟨hempty, hlt⟩
        rw [gather_full hfull]
        exact ⟨_, (List.append_assoc ..).symm, .inr hfull⟩

theorem length_txInfos (c : Block τ) : c.txInfos.length = c.txs.length := by simp [Block.txInfos]

theorem gather_length (bs : List (Block τ)) (txs : List (TxInfo τ)) (h : txs.length ≤ LATEST_TXS_MAX) :
    (gather bs txs).length ≤ LATEST_TXS_MAX ∧ Fits txs.length bs ∨
    ¬Fits txs.length bs ∧ ∃ c ∈ bs, ∃ later, gather bs txs = c.txInfos ++ later ∧ later.length < LATEST_TXS_MAX ∧
      LATEST_TXS_MAX < later.length + c.txs.length := by
  induction bs generalizing txs with
  | nil => exact .inl ⟨h, trivial⟩
  | cons b bs ih =>
    rcases Nat.lt_or_eq_of_le h with hlt | hfull
    · have hgather : gather (b :: bs) txs = gather bs (b.txInfos ++ txs) := by
        rw [gather]
        by_cases hb : b.txInfos = []
        · rw [if_neg fun hne => hne.1 hb, hb, List.nil_append]
        · rw [if_pos ⟨hb, hlt⟩]
      have hlen : (b.txInfos ++ txs).length = txs.length + b.txs.length := by
        rw [List.length_append, length_txInfos, Nat.add_comm]
      rw [hgather]
      by_cases hfit : txs.length + b.txs.length ≤ LATEST_TXS_MAX
      · have := ih (b.txInfos ++ txs) (hlen ▸ hfit)
        simp only [Fits, hlt, hfit, hlen, true_and, forall_const] at this ⊢
        exact this.imp_right fun ⟨hnot, c, hc, hrest⟩ => ⟨hnot, c, List.mem_cons_of_mem _ hc, hrest⟩
      · refine .inr ⟨fun hall => hfit (hall hlt).1, b, List.mem_cons_self, txs, gather_full ?_ bs, hlt, Nat.lt_of_not_le hfit⟩
        omega
    · refine .inl ⟨by rw [gather_full hfull.ge]; exact h, fun hlt => ?_⟩
      omega

/-- The first transactions are the last ones only where there are no more. -/
theorem take_ne_drop {c : Block τ} {later : List (TxInfo τ)} (hc : c.txs.length ≤ 2 ^ 16) (hlater : later.length < LATEST_TXS_MAX)
    (hover : LATEST_TXS_MAX < later.length + c.txs.length) :
    (c.txInfos ++ later).take LATEST_TXS_MAX ≠ (c.txInfos ++ later).drop ((c.txInfos ++ later).length - LATEST_TXS_MAX) := by
  obtain ⟨k, hk⟩ : ∃ k, (c.txInfos ++ later).length - LATEST_TXS_MAX = k := ⟨_, rfl⟩
  have hlen := length_txInfos c
  rw [List.length_append] at hk
  intro heq
  -- the first one has the index zero in the block, and the other one another
  have hat := congrArg (fun l => l.head?.map TxInfo.index) heq
  rw [List.length_append, hk] at hat
  simp only [List.head?_take, List.head?_drop] at hat
  rw [if_neg (by decide), List.head?_eq_getElem?, List.getElem?_append_left (by omega), List.getElem?_append_left (by omega),
    Block.txInfos, List.getElem?_map, List.getElem?_map, List.getElem?_zipIdx, List.getElem?_zipIdx,
    List.getElem?_eq_getElem (by omega), List.getElem?_eq_getElem (by omega)] at hat
  have := congrArg BitVec.toNat (Option.some.inj hat)
  simp at this
  omega

def gathered (s : Blocks τ) (b : Block τ) : List (TxInfo τ) := gather (s.back LATEST_BLOCKS_MAX b) []

theorem last_txs (hb : s.mem b) :
    let txs := (s.window b).flatMap Block.txInfos
    txs.drop (txs.length - LATEST_TXS_MAX) = (s.gathered b).drop ((s.gathered b).length - LATEST_TXS_MAX) := by
  obtain ⟨rest, heq, hall⟩ := gather_suffix (s.back LATEST_BLOCKS_MAX b) []
  rw [List.append_nil] at heq
  simp only [window, ← back_eq_take hb, heq, gathered]
  obtain rfl | hfull := hall
  · simp
  · rw [List.length_append, Nat.add_sub_assoc hfull, List.drop_append, List.drop_eq_nil_of_le (by omega), List.nil_append]
    congr 1
    omega

theorem reset_eq (hb : s.mem b) :
    s.reset b = ⟨(s.window b).map Block.info, (s.gathered b).take LATEST_TXS_MAX, b.hash⟩ := by
  have hlen : ((s.window b).map Block.info).length ≤ LATEST_BLOCKS_MAX := by
    simp [window]
  simp only [reset, resetLoop_eq, List.append_nil, gathered]
  rw [← List.map_reverse, back_eq_take hb, ← window, List.take_of_length_le hlen]

theorem right_reset (hb : s.mem b) (htxs : ∀ c ∈ s.chain b, c.txs.length ≤ 2 ^ 16) :
    s.Right b (s.reset b) ↔ Fits 0 ((s.chain b).take LATEST_BLOCKS_MAX) := by
  rw [reset_eq hb]
  simp only [Right, true_and]
  rw [last_txs hb, gathered, back_eq_take hb]
  rcases gather_length ((s.chain b).take LATEST_BLOCKS_MAX) [] (Nat.zero_le _) with
    ⟨hle, hfits⟩ | ⟨hnot, c, hc, later, heq, hlater, hover⟩
  · refine iff_of_true ?_ hfits
    rw [List.take_of_length_le hle, Nat.sub_eq_zero_of_le hle, List.drop_zero]
  · refine iff_of_false ?_ hnot
    rw [heq]
    exact take_ne_drop (htxs c (List.mem_of_mem_take hc)) hlater hover

/-! ## Heads -/

theorem window_eq (hb : s.mem b) : ∃ bs : List (Block τ), s.window b = bs ++ [b] ∧ ∀ p ∈ bs.getLast?, p.number ≠ b.number := by
  refine ⟨((s.chain b).tail.take 19).reverse, ?_, fun p hp => ?_⟩
  · rw [window, chain, back, List.tail_cons, LATEST_BLOCKS_MAX, List.take_succ_cons, List.reverse_cons]
  · rw [List.getLast?_reverse, List.head?_take, chain, back, List.tail_cons] at hp
    by_cases h0 : b.number = 0
    · rw [s.genesis hb h0] at hp
      cases hp
    · obtain ⟨q, hq⟩ := s.parent hb h0
      obtain ⟨hmem, -, hnum⟩ := s.getBlock_some hq
      have hqn : b.number.toNat = q.number.toNat + 1 := by
        rw [hnum]
        bv_omega
      simp only [hq, hqn, back, List.head?_cons] at hp
      cases hp
      intro heq
      rw [heq] at hqn
      omega

/-- After a head: its hash is kept, and it is the last of the blocks. -/
structure After (b : Block τ) (l : LatestInfo τ) : Prop where
  prevhash : l.prevhash = b.hash
  last : l.blocks.getLast? = some b.info

theorem After.reset (hb : s.mem b) : After b (s.reset b) := by
  obtain ⟨bs, hbs, -⟩ := window_eq hb
  rw [reset_eq hb, hbs]
  exact ⟨rfl, by simp⟩

theorem After.update (l : LatestInfo τ) (hb : s.mem b) : After b (s.update l b) := by
  unfold Blocks.update
  split
  · exact .reset hb
  · exact ⟨rfl, by simp⟩

theorem After.run (heads : List (Block τ)) (hb : s.mem b) : After b (s.run (heads ++ [b])) := by
  cases heads with
  | nil => exact .reset hb
  | cons c heads =>
    rw [List.cons_append, Blocks.run, List.foldl_append]
    exact .update _ hb

theorem not_right_repeated {l : LatestInfo τ} (hb : s.mem b) (hprev : l.prevhash = b.hash)
    (hlast : l.blocks.getLast? = some b.info) : ¬s.Right b (s.update l b) := by
  have htwice : ∃ xs, (s.update l b).blocks = xs ++ [b.info] ∧ xs.getLast? = some b.info := by
    rw [update, if_neg (by rw [hprev]; exact fun h => h.2 rfl)]
    refine ⟨_, rfl, ?_⟩
    split
    · exact hlast
    · next hlen =>
      have hpos : ¬l.blocks.length ≤ l.blocks.length - 1 := by
        unfold LATEST_BLOCKS_MAX at hlen
        omega
      rw [List.getLast?_append, List.getLast?_drop, if_neg hpos, hlast]
      rfl
  intro hright
  obtain ⟨xs, hxs, hxlast⟩ := htwice
  obtain ⟨bs, hbs, hnum⟩ := window_eq hb
  have hblocks := hxs.symm.trans hright.1
  rw [hbs, List.map_append] at hblocks
  obtain ⟨rfl, -⟩ := List.append_inj' hblocks rfl
  rw [List.getLast?_map] at hxlast
  obtain ⟨p, hp, hinfo⟩ := Option.map_eq_some_iff.1 hxlast
  exact hnum p hp (congrArg BlockInfo.number hinfo : p.info.number = b.info.number)

/-- **The monitor's window.** After any sequence of heads, the lists are the
last blocks of the chain that ends in the last head and the last of their
transactions exactly if the head before was another one and, counted from the
head back, no block takes the number of transactions from below twenty to above.
An index has sixteen bits. -/
theorem monitor_iff (s : Blocks τ) (heads : List (Block τ)) {b : Block τ} (hmem : ∀ c ∈ heads ++ [b], s.mem c)
    (htxs : ∀ c ∈ s.chain b, c.txs.length ≤ 2 ^ 16) :
    s.Right b (s.run (heads ++ [b])) ↔
      (∀ c ∈ heads.getLast?, c.hash ≠ b.hash) ∧ Fits 0 ((s.chain b).take LATEST_BLOCKS_MAX) := by
  have hb : s.mem b := hmem b (by simp)
  obtain rfl | ⟨heads, c, rfl⟩ := List.eq_nil_or_concat heads
  · simp only [List.nil_append, run, List.foldl_nil, List.getLast?_nil, right_reset hb htxs]
    simp
  · rw [List.concat_eq_append] at *
    have hc : s.mem c := hmem c (by simp)
    obtain ⟨hprev, hlast⟩ := After.run heads hc
    have hrun : s.run (heads ++ [c] ++ [b]) = s.update (s.run (heads ++ [c])) b := by
      cases heads with
      | nil => rfl
      | cons d heads => simp [run, List.foldl_append]
    generalize s.run (heads ++ [c]) = l at hrun hprev hlast
    rw [hrun]
    by_cases hne : c.hash = b.hash
    · obtain rfl := s.eq_of_hash hc hb hne
      refine ⟨fun hright => absurd hright (not_right_repeated hc hprev hlast), fun hnew => ?_⟩
      exact absurd rfl (hnew.1 c (by simp))
    · have hreset : s.update l b = s.reset b := by
        rw [update, if_pos]
        rw [hprev]
        exact ⟨s.hash_ne hc, hne⟩
      rw [hreset, right_reset hb htxs]
      simp [hne]

def first : Block Nat := ⟨⟨1, 0, 0, 500, 0, 0, 0⟩, 0, []⟩

/-- A block with 21 transactions. -/
def second : Block Nat := ⟨⟨2, 1, 0, 900, 5, 0, 21⟩, 1, List.range 21⟩

def sample : Blocks Nat where
  mem b := b = first ∨ b = second
  getBlock hash number :=
    if hash = 1 ∧ number = 0 then some first else if hash = 2 ∧ number = 1 then some second else none
  getBlock_some h := by
    split_ifs at h with h1 h2
    · cases h
      exact ⟨.inl rfl, h1.1.symm, h1.2.symm⟩
    · cases h
      exact ⟨.inr rfl, h2.1.symm, h2.2.symm⟩
  genesis h h0 := by
    obtain rfl | rfl := h
    · rfl
    · cases h0
  parent h h0 := by
    obtain rfl | rfl := h
    · exact absurd rfl h0
    · exact ⟨first, rfl⟩
  eq_of_hash hb hc heq := by
    obtain rfl | rfl := hb <;> obtain rfl | rfl := hc <;> first | rfl | cases heq
  hash_ne h := by
    obtain rfl | rfl := h <;> decide

theorem monitor_iff_sample : sample.Right first (sample.run [second, first]) := by
  have hchain : sample.chain first = [first] := rfl
  refine (monitor_iff sample [second] (by simp [sample]) ?_).2 ⟨by decide, ?_⟩
  · simp only [hchain]
    decide
  · rw [hchain]
    exact fun _ => ⟨by decide, trivial⟩

/-- A head that comes twice is shown twice, and of 21 transactions the last
one is missing. -/
theorem monitor_wrong :
    ¬sample.Right first (sample.run [first, first]) ∧ ¬sample.Right second (sample.run [first, second]) := by
  unfold Right
  decide +kernel

end Blocks

end NdnGeth.Chainmonitor
