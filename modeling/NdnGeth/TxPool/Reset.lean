/-
The pool follows the head of the chain (`reset` in `core/tx_pool.go`).

A walk back over the branches of the old and the new head to the block they have
in common finds the transactions that are injected again. Where a block is
missing on the way `reset` returns, and the pool stays on the head it was on.
The injected transactions are judged before the flag for the next block is set.

Block numbers are below 2^53, where the difference of two floats is exact.
-/
import NdnGeth.Lib.Result
import NdnGeth.TxPool.Promotion

namespace NdnGeth.TxPool

open Lib
open Types (Address)
open Vm (two64)

/-! ## Chains -/

/-- A block, or its header. -/
structure Block where
  hash : Nat
  parentHash : Nat
  number : Nat
  root : Nat
  gasLimit : Nat
  transactions : List Tx
  deriving DecidableEq

/-- What the pool reads of a chain; a state is its nonces and balances. -/
structure Chain where
  blocks : List Block
  currentBlock : Block
  stateAt : (root : Nat) → Option ((Address → Nat) × (Address → Int))
  isIstanbul : (number : Nat) → Bool

/-- `TxDifference` (`core/types/transaction.go`). -/
def txDifference (a b : List Tx) : List Tx := a.filter (· ∉ b)

/-- Why a reset ends early: a block is missing, or it panics. -/
inductive Stop
  | missing | nilPointer

namespace Chain

variable (c : Chain)

def getBlock (hash number : Nat) : Option Block := c.blocks.find? fun b => b.hash = hash ∧ b.number = number

/-- `GetBlock(b.ParentHash(), b.NumberU64()-1)`. -/
def parent (b : Block) : Option Block := c.getBlock b.parentHash ((b.number + two64 - 1) % two64)

/-- `for rem.NumberU64() > add.NumberU64()`, and the loop with both exchanged: the
transactions on the way. -/
def descend (number : Nat) : (fuel : Nat) → Block → Result Stop (List Tx × Block)
  | 0, _ => .unfinished
  | fuel + 1, b =>
    if b.number > number then
      match c.parent b with
      | none => .fault .missing
      | some parent => do
        let (txs, last) ← descend number fuel parent
        .ok (b.transactions ++ txs, last)
    else .ok ([], b)

/-- `for rem.Hash() != add.Hash()`. -/
def meet : (fuel : Nat) → (rem add : Block) → Result Stop (List Tx × List Tx)
  | 0, _, _ => .unfinished
  | fuel + 1, rem, add =>
    if rem.hash = add.hash then .ok ([], [])
    else
      match c.parent rem, c.parent add with
      | some rem', some add' => do
        let (discarded, included) ← meet fuel rem' add'
        .ok (rem.transactions ++ discarded, add.transactions ++ included)
      | _, _ => .fault .missing

/-- `depth <= 64`. -/
def Near (oldHead newHead : Block) : Prop := oldHead.number ≤ newHead.number + 64 ∧ newHead.number ≤ oldHead.number + 64

instance (oldHead newHead : Block) : Decidable (Near oldHead newHead) := inferInstanceAs (Decidable (_ ∧ _))

/-- The transactions to inject again. -/
def reinject (oldHead newHead : Block) : Result Stop (List Tx) :=
  if Near oldHead newHead then
    match c.getBlock oldHead.hash oldHead.number, c.getBlock newHead.hash newHead.number with
    | none, _ => .fault .missing
    | some _, none => .fault .nilPointer
    | some rem, some add => do
      let (discarded, rem) ← c.descend add.number (rem.number + 1) rem
      let (included, add) ← c.descend rem.number (add.number + 1) add
      let (discarded', included') ← c.meet (rem.number + 1) rem add
      .ok (txDifference (discarded ++ discarded') (included ++ included'))
  else .ok []

/-- What `reset` finds before it changes the pool. -/
def request (oldHead newHead : Option Block) : Result Stop Pool.Reset := do
  let reinject ← match oldHead, newHead with
    | none, _ => .ok []
    | some _, none => .fault .nilPointer
    | some oldHead, some newHead => if oldHead.hash = newHead.parentHash then .ok [] else c.reinject oldHead newHead
  let newHead := newHead.getD c.currentBlock
  .ok ((c.stateAt newHead.root).map fun state =>
    (⟨state.1, state.2, newHead.gasLimit, c.isIstanbul (newHead.number + 1)⟩, reinject))

/-- `reset`; nothing where it panics. -/
def reset (o : Order) (p : Pool) (oldHead newHead : Option Block) : Option Pool :=
  match c.request oldHead newHead with
  | .ok r => some (p.reset o r)
  | .fault .missing => some p
  | _ => none

/-! ## Branches -/

/-- The blocks form a tree with one root. -/
structure Tree : Prop where
  unique : ∀ a ∈ c.blocks, ∀ b ∈ c.blocks, a.hash = b.hash → a = b
  root : ∀ a ∈ c.blocks, ∀ b ∈ c.blocks, a.number = 0 → b.number = 0 → a = b
  parent : ∀ b ∈ c.blocks, (b.number = 0 ∧ ∀ a ∈ c.blocks, a.hash ≠ b.parentHash) ∨
    ∃ a ∈ c.blocks, a.hash = b.parentHash ∧ a.number + 1 = b.number
  number : ∀ b ∈ c.blocks, b.number < 2 ^ 53

/-- The blocks from a head back to the root. -/
inductive Branch : Block → Block → Prop
  | head (b : Block) : Branch b b
  | back {b a x : Block} (ha : a ∈ c.blocks) (hhash : a.hash = b.parentHash) (hnumber : a.number + 1 = b.number)
    (h : Branch a x) : Branch b x

variable {c} {a b m x old new : Block} {l l' : List Block}

theorem getBlock_eq_some (hc : c.Tree) {hash number : Nat} :
    c.getBlock hash number = some b ↔ b ∈ c.blocks ∧ b.hash = hash ∧ b.number = number := by
  constructor
  · intro h
    exact ⟨List.mem_of_find?_eq_some h, by simpa using List.find?_some h⟩
  · intro ⟨hb, hhash, hnumber⟩
    cases hfind : c.getBlock hash number with
    | none => exact absurd (decide_eq_true ⟨hhash, hnumber⟩) (List.find?_eq_none.1 hfind b hb)
    | some a =>
      have ha : a.hash = hash ∧ a.number = number := by simpa using List.find?_some hfind
      rw [hc.unique a (List.mem_of_find?_eq_some hfind) b hb (ha.1.trans hhash.symm)]

theorem parent_eq_some (hc : c.Tree) (hb : b ∈ c.blocks) :
    c.parent b = some a ↔ a ∈ c.blocks ∧ a.hash = b.parentHash ∧ a.number + 1 = b.number := by
  have hbound := hc.number b hb
  refine (getBlock_eq_some hc).trans (and_congr_right fun ha => and_congr_right fun _ => ?_)
  have habound := hc.number a ha
  unfold two64
  omega

theorem exists_parent (hc : c.Tree) (hb : b ∈ c.blocks) (hpos : 0 < b.number) : ∃ a, c.parent b = some a := by
  rcases hc.parent b hb with ⟨hzero, -⟩ | ⟨a, ha⟩
  · omega
  · exact ⟨a, (parent_eq_some hc hb).2 ha⟩

theorem Branch.number_le (h : c.Branch b x) : x.number ≤ b.number := by
  induction h with
  | head => exact Nat.le_refl _
  | back _ _ hnumber _ ih => omega

/-- A walk from a block back to another one passes these. -/
structure Passed (c : Chain) (b : Block) (l : List Block) (m : Block) : Prop where
  mem : m ∈ c.blocks
  branch : ∀ x, c.Branch b x ↔ x ∈ l ∨ c.Branch m x
  above : ∀ x ∈ l, m.number < x.number

theorem Passed.le (h : c.Passed b l m) : m.number ≤ b.number := ((h.branch m).2 (.inr (.head m))).number_le

theorem Passed.refl (hb : b ∈ c.blocks) : c.Passed b [] b := ⟨hb, by simp, by simp⟩

theorem Passed.back (hc : c.Tree) (hb : b ∈ c.blocks) (ha : c.parent b = some a) (h : c.Passed a l m) : c.Passed b (b :: l) m := by
  obtain ⟨hmem, hhash, hnumber⟩ := (parent_eq_some hc hb).1 ha
  refine ⟨h.mem, fun x => ?_, fun x hx => ?_⟩
  · rw [List.mem_cons, or_assoc, ← h.branch]
    constructor
    · intro hbranch
      cases hbranch with
      | head => exact .inl rfl
      | back ha' hhash' _ hx => exact .inr (hc.unique _ ha' _ hmem (hhash'.trans hhash.symm) ▸ hx)
    · intro hx
      rcases hx with rfl | hx
      · exact .head x
      · exact .back hmem hhash hnumber hx
  · rcases List.mem_cons.1 hx with rfl | hx
    · have := h.le
      omega
    · exact h.above x hx

theorem Passed.trans (h : c.Passed b l a) (h' : c.Passed a l' m) : c.Passed b (l ++ l') m := by
  refine ⟨h'.mem, fun x => ?_, fun x hx => ?_⟩
  · rw [h.branch, h'.branch, List.mem_append, or_assoc]
  · rcases List.mem_append.1 hx with hx | hx
    · exact Nat.lt_of_le_of_lt h'.le (h.above x hx)
    · exact h'.above x hx

theorem descend_spec (hc : c.Tree) (number : Nat) : ∀ {fuel : Nat} {b : Block}, b ∈ c.blocks → b.number < fuel →
    ∃ l m, c.descend number fuel b = .ok (l.flatMap (·.transactions), m) ∧ c.Passed b l m ∧ m.number = min b.number number := by
  intro fuel
  induction fuel with
  | zero => exact fun _ h => absurd h (Nat.not_lt_zero _)
  | succ fuel ih =>
    intro b hb hfuel
    unfold descend
    split
    · next habove =>
      obtain ⟨a, ha⟩ := exists_parent hc hb (by omega)
      obtain ⟨hmem, -, hnumber⟩ := (parent_eq_some hc hb).1 ha
      obtain ⟨l, m, heq, hpassed, hm⟩ := ih hmem (by omega)
      refine ⟨b :: l, m, ?_, hpassed.back hc hb ha, by omega⟩
      rw [ha]
      simp only [heq, Result.ok_bind, List.flatMap_cons]
    · exact ⟨[], b, rfl, .refl hb, by omega⟩

theorem meet_spec (hc : c.Tree) : ∀ {fuel : Nat} {a b : Block}, a ∈ c.blocks → b ∈ c.blocks → a.number = b.number → a.number < fuel →
    ∃ l l' m, c.meet fuel a b = .ok (l.flatMap (·.transactions), l'.flatMap (·.transactions)) ∧ c.Passed a l m ∧ c.Passed b l' m ∧
      ∀ x ∈ l, x ∉ l' := by
  intro fuel
  induction fuel with
  | zero => exact fun _ _ _ h => absurd h (Nat.not_lt_zero _)
  | succ fuel ih =>
    intro a b ha hb hsame hfuel
    unfold meet
    split
    · next heq =>
      cases hc.unique a ha b hb heq
      exact ⟨[], [], a, rfl, .refl ha, .refl ha, by simp⟩
    · next hne =>
      have hpos : 0 < a.number := by
        refine Nat.pos_of_ne_zero fun h0 => hne ?_
        rw [hc.root a ha b hb h0 (hsame ▸ h0)]
      obtain ⟨a', ha'⟩ := exists_parent hc ha hpos
      obtain ⟨b', hb'⟩ := exists_parent hc hb (hsame ▸ hpos)
      obtain ⟨hamem, -, hanumber⟩ := (parent_eq_some hc ha).1 ha'
      obtain ⟨hbmem, -, hbnumber⟩ := (parent_eq_some hc hb).1 hb'
      obtain ⟨l, l', m, heq, hpa, hpb, hapart⟩ := ih hamem hbmem (by omega) (by omega)
      refine ⟨a :: l, b :: l', m, ?_, hpa.back hc ha ha', hpb.back hc hb hb', fun x hx hx' => ?_⟩
      · rw [ha', hb']
        simp only [heq, Result.ok_bind, List.flatMap_cons]
      · rcases List.mem_cons.1 hx with rfl | hx
        · rcases List.mem_cons.1 hx' with rfl | hx'
          · exact hne rfl
          · have := ((hpb.branch x).2 (.inl hx')).number_le
            omega
        · rcases List.mem_cons.1 hx' with rfl | hx'
          · have := ((hpa.branch x).2 (.inl hx)).number_le
            omega
          · exact hapart x hx hx'

theorem Passed.mem_iff (h : c.Passed old l m) (h' : c.Passed new l' m) (hapart : ∀ x ∈ l, x ∉ l') :
    x ∈ l ↔ c.Branch old x ∧ ¬c.Branch new x := by
  rw [h.branch, h'.branch]
  constructor
  · intro hx
    refine ⟨.inl hx, fun hnew => ?_⟩
    rcases hnew with hx' | hm
    · exact hapart x hx hx'
    · exact absurd hm.number_le (Nat.not_le_of_lt (h.above x hx))
  · intro ⟨hold, hnew⟩
    exact hold.resolve_right fun hm => hnew (.inr hm)

/-- A transaction in a block of one branch that is not on the other. -/
def Only (c : Chain) (old new : Block) (tx : Tx) : Prop := ∃ b, c.Branch old b ∧ ¬c.Branch new b ∧ tx ∈ b.transactions

theorem Passed.only_iff (h : c.Passed old l m) (h' : c.Passed new l' m) (hapart : ∀ x ∈ l, x ∉ l') {tx : Tx} :
    tx ∈ l.flatMap (·.transactions) ↔ c.Only old new tx := by
  rw [List.mem_flatMap]
  exact exists_congr fun b => by rw [h.mem_iff h' hapart, and_assoc]

theorem reinject_spec (hc : c.Tree) (hold : old ∈ c.blocks) (hnew : new ∈ c.blocks) (hnear : Near old new) :
    ∃ txs, c.reinject old new = .ok txs ∧ ∀ tx, tx ∈ txs ↔ c.Only old new tx ∧ ¬c.Only new old tx := by
  obtain ⟨d, rem, hd, hrem, hremnum⟩ := descend_spec hc new.number hold (Nat.lt_succ_self _)
  obtain ⟨i, add, hi, hadd, haddnum⟩ := descend_spec hc rem.number hnew (Nat.lt_succ_self _)
  obtain ⟨l, l', m, hmeet, hl, hl', hapart⟩ := meet_spec hc hrem.mem hadd.mem (by omega) (Nat.lt_succ_self _)
  -- one of the first two walks is empty, and both are above the third
  have hdisjoint : ∀ x ∈ d ++ l, x ∉ i ++ l' := by
    intro x hx hx'
    have hle := (((hadd.trans hl').branch x).2 (.inl hx')).number_le
    rcases List.mem_append.1 hx with hx | hx
    · have habove := hrem.above x hx
      have hbelow := ((hrem.branch x).2 (.inl hx)).number_le
      omega
    · have hbelow := ((hl.branch x).2 (.inl hx)).number_le
      rcases List.mem_append.1 hx' with hx' | hx'
      · have habove := hadd.above x hx'
        omega
      · exact hapart x hx hx'
  refine ⟨txDifference ((d ++ l).flatMap (·.transactions)) ((i ++ l').flatMap (·.transactions)), ?_, fun tx => ?_⟩
  · unfold reinject
    rw [if_pos hnear, (getBlock_eq_some hc).2 ⟨hold, rfl, rfl⟩, (getBlock_eq_some hc).2 ⟨hnew, rfl, rfl⟩]
    simp only [hd, hi, hmeet, Result.ok_bind, List.flatMap_append]
  · rw [txDifference, List.mem_filter, (hrem.trans hl).only_iff (hadd.trans hl') hdisjoint, decide_eq_true_eq,
      (hadd.trans hl').only_iff (hrem.trans hl) fun x hx hx' => hdisjoint x hx' hx]

/-! ## Resets -/

/-- The block of the old head is looked for and is gone. -/
def Lost (c : Chain) (old? : Option Block) (new : Block) : Prop :=
  ∃ old, old? = some old ∧ old.hash ≠ new.parentHash ∧ Near old new ∧ c.getBlock old.hash old.number = none

/-- What the pool is to read of a block with a state. -/
def headOf (c : Chain) (new : Block) (state : (Address → Nat) × (Address → Int)) : Head :=
  ⟨state.1, state.2, new.gasLimit, c.isIstanbul (new.number + 1)⟩

theorem not_only_of_parent (hc : c.Tree) (hold : old ∈ c.blocks) (hnew : new ∈ c.blocks) (h : old.hash = new.parentHash) {tx : Tx} :
    ¬c.Only old new tx := by
  intro ⟨b, hb, hnot, _⟩
  rcases hc.parent new hnew with ⟨-, hroot⟩ | ⟨a, ha, hhash, hnumber⟩
  · exact hroot old hold h
  · cases hc.unique a ha old hold (hhash.trans h.symm)
    exact hnot (.back ha hhash hnumber hb)

variable {old? : Option Block} {state : (Address → Nat) × (Address → Int)}

theorem request_spec (hc : c.Tree) (hnew : new ∈ c.blocks) (hstate : c.stateAt new.root = some state) :
    (c.Lost old? new ∧ c.request old? (some new) = .fault .missing) ∨
      ¬c.Lost old? new ∧ ∃ txs, c.request old? (some new) = .ok (some (c.headOf new state, txs)) ∧
        ∀ old ∈ c.blocks, old? = some old → Near old new → ∀ tx, tx ∈ txs ↔ c.Only old new tx ∧ ¬c.Only new old tx := by
  unfold request Lost
  simp only [Option.getD_some, hstate, Option.map_some]
  cases old? with
  | none => exact .inr ⟨by simp, [], rfl, by simp⟩
  | some old =>
    simp only [Option.some.injEq, exists_eq_left']
    by_cases hext : old.hash = new.parentHash
    · refine .inr ⟨fun h => h.1 hext, [], by rw [if_pos hext]; rfl, ?_⟩
      intro _ hold heq _ tx
      subst heq
      simp [not_only_of_parent hc hold hnew hext]
    · rw [if_neg hext]
      by_cases hnear : Near old new
      · cases hget : c.getBlock old.hash old.number with
        | none =>
          refine .inl ⟨⟨hext, hnear, rfl⟩, ?_⟩
          unfold reinject
          rw [if_pos hnear, hget]
          rfl
        | some b =>
          obtain ⟨hb, hhash, hnumber⟩ := (getBlock_eq_some hc).1 hget
          have hnear' : Near b new := by
            unfold Near at hnear ⊢
            rwa [hnumber]
          have hsame : c.reinject old new = c.reinject b new := by
            unfold reinject
            rw [if_pos hnear, if_pos hnear', hhash, hnumber]
          obtain ⟨txs, heq, htxs⟩ := reinject_spec hc hb hnew hnear'
          refine .inr ⟨by simp, txs, by rw [hsame, heq]; rfl, ?_⟩
          intro _ hold holdeq _
          subst holdeq
          rw [hc.unique old hold b hb hhash.symm]
          exact htxs
      · refine .inr ⟨fun h => hnear h.2.1, [], ?_, ?_⟩
        · unfold reinject
          rw [if_neg hnear]
          rfl
        · intro _ _ heq hn
          subst heq
          exact absurd hn hnear

/-- A reset as it is meant: the flag for the next block is set before the
transactions are offered. -/
def offer (o : Order) (p : Pool) (head : Head) (txs : List Tx) : Pool :=
  { p with
    stateNonce := head.nonce
    stateBalance := head.balance
    pendingNonces := head.nonce
    currentMaxGas := head.gasLimit
    istanbul := head.istanbul }.addTxs o txs false

theorem reset_head {o : Order} (p : Pool) (head : Head) (txs : List Tx) : (p.reset o (some (head, txs))).head = head :=
  congrArg (fun h : Head => { h with istanbul := head.istanbul }) (Pool.addTxs_lowers (o := o) _ txs false).1

theorem reset_eq_offer {o : Order} {p : Pool} {head : Head} {txs : List Tx} (h : p.istanbul = head.istanbul ∨ txs = []) :
    p.reset o (some (head, txs)) = offer o p head txs := by
  rcases h with h | rfl
  · let p₀ := { p with stateNonce := head.nonce, stateBalance := head.balance, pendingNonces := head.nonce, currentMaxGas := head.gasLimit }
    have hflag : (p₀.addTxs o txs false).istanbul = head.istanbul := (congrArg Head.istanbul (Pool.addTxs_lowers p₀ txs false).1).trans h
    have hsame : { p₀ with istanbul := head.istanbul } = p₀ := by rw [← h]
    change { p₀.addTxs o txs false with istanbul := head.istanbul } = { p₀ with istanbul := head.istanbul }.addTxs o txs false
    rw [hsame, ← hflag]
  · rfl

/-- **The pool is on the new head** after a reset exactly if the block of the old
head is there where it is looked for, or the pool was on that head before. Then
the transactions that only the branch of the old head has are offered, under the
rules of the next block if these are the rules the pool had. -/
theorem pool_follows (hc : c.Tree) (o : Order) (p : Pool) (old? : Option Block) (hnew : new ∈ c.blocks)
    (hstate : c.stateAt new.root = some state) :
    ∃ p', c.reset o p old? (some new) = some p' ∧
      (p'.head = c.headOf new state ↔ ¬c.Lost old? new ∨ p.head = c.headOf new state) ∧
      (¬c.Lost old? new → ∃ txs, p' = p.reset o (some (c.headOf new state, txs)) ∧
        (∀ old ∈ c.blocks, old? = some old → Near old new → ∀ tx, tx ∈ txs ↔ c.Only old new tx ∧ ¬c.Only new old tx) ∧
        (p.istanbul = c.isIstanbul (new.number + 1) ∨ txs = [] → p' = offer o p (c.headOf new state) txs)) := by
  unfold reset
  rcases request_spec hc hnew hstate with ⟨hlost, hreq⟩ | ⟨hlost, txs, hreq, htxs⟩
  · rw [hreq]
    exact ⟨p, rfl, by simp [hlost], fun h => absurd hlost h⟩
  · rw [hreq]
    exact ⟨_, rfl, by simp [hlost, reset_head], fun _ => ⟨txs, rfl, htxs, fun h => reset_eq_offer h⟩⟩

/-- Two blocks on one root. -/
def forked : Chain where
  blocks := [⟨1, 0, 0, 0, 5000, []⟩, ⟨2, 1, 1, 0, 6000, [transfer 1 0 1]⟩, ⟨3, 1, 1, 0, 7000, []⟩]
  currentBlock := ⟨1, 0, 0, 0, 5000, []⟩
  stateAt _ := some (fun _ => 0, fun _ => 0)
  isIstanbul _ := true

theorem forked_tree : forked.Tree := ⟨by decide, by decide, by decide, by decide⟩

/-- The head goes from one of the blocks to the other. -/
theorem pool_follows_forked : ∃ p',
    forked.reset plainOrder (.new .default plainHead) (some ⟨2, 1, 1, 0, 6000, [transfer 1 0 1]⟩) (some ⟨3, 1, 1, 0, 7000, []⟩) = some p' ∧
      p'.head = forked.headOf ⟨3, 1, 1, 0, 7000, []⟩ (fun _ => 0, fun _ => 0) := by
  have hnew : ⟨3, 1, 1, 0, 7000, []⟩ ∈ forked.blocks := by decide
  obtain ⟨p', hreset, hfollows, -⟩ := pool_follows forked_tree plainOrder (.new .default plainHead)
    (some ⟨2, 1, 1, 0, 6000, [transfer 1 0 1]⟩) hnew rfl
  refine ⟨p', hreset, hfollows.2 (.inl fun ⟨old, hold, _, _, hnone⟩ => ?_)⟩
  cases hold
  revert hnone
  decide

/-- The block of the old head has been taken off its parent, the new head. -/
theorem rewind_keeps_old_head : ∃ (c : Chain) (p : Pool) (old new : Block), c.Tree ∧ new ∈ c.blocks ∧ (c.stateAt new.root).isSome ∧
    old.parentHash = new.hash ∧ (c.reset plainOrder p (some old) (some new)).any fun p' => p'.currentMaxGas ≠ new.gasLimit :=
  ⟨forked, .new .default plainHead, ⟨4, 2, 2, 0, 6000, []⟩, ⟨2, 1, 1, 0, 6000, [transfer 1 0 1]⟩, forked_tree, by decide, rfl, rfl,
    by decide +kernel⟩

end Chain

end NdnGeth.TxPool
