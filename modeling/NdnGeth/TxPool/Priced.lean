/-
The pool's transactions by price (`txPricedList` in `core/tx_list.go`) and by
hash (`txLookup` in `core/tx_pool.go`).

The heap keeps entries of transactions that are gone until they come up, and
its order is a part of its type. `discard_le_iff` says when `Discard` drops
nothing that is priced above a bound: it depends on what is still pooled and
remote, and not on how the heap lies.
-/
import NdnGeth.Lib.Heap
import NdnGeth.TxPool.TxList

namespace NdnGeth.TxPool

open Lib
open Types (Address)

/-- The order in which Go goes through a map is not fixed: it is an input. -/
structure Order where
  addrs : List Address → List Address
  addrs_perm : ∀ l, (addrs l).Perm l
  txs : List Tx → List Tx
  txs_perm : ∀ l, (txs l).Perm l

def containsTx (accounts : Finset Address) (tx : Tx) : Bool := tx.sender?.any (· ∈ accounts)

/-! ## By hash -/

structure TxLookup where
  all : List Tx
  slots : Int

namespace TxLookup

def new : TxLookup := ⟨[], 0⟩

def count (t : TxLookup) : Nat := t.all.length

def add (t : TxLookup) (tx : Tx) : TxLookup := ⟨if tx ∈ t.all then t.all else tx :: t.all, t.slots + numSlots tx⟩

def remove (t : TxLookup) (tx : Tx) : TxLookup := ⟨t.all.filter (· ≠ tx), t.slots - numSlots tx⟩

end TxLookup

/-! ## By price -/

def less (t u : Tx) : Bool := t.gasPrice < u.gasPrice || t.gasPrice == u.gasPrice && u.nonce < t.nonce

theorem agrees : Heap.Agrees less Tx.gasPrice where
  le_of_less h := by
    simp only [less, Bool.or_eq_true, decide_eq_true_eq, Bool.and_eq_true, beq_iff_eq] at h
    omega
  le_of_not_less h := by
    simp only [less, Bool.or_eq_false_iff, decide_eq_false_iff_not] at h
    omega

structure PriceHeap where
  items : List Tx
  heap : Heap.IsHeap Tx.gasPrice items

namespace PriceHeap

def init (txs : List Tx) : PriceHeap := ⟨Heap.init less txs, (Heap.init_spec agrees txs).2⟩

def push (h : PriceHeap) (tx : Tx) : PriceHeap := ⟨Heap.push less h.items tx, (Heap.push_spec agrees h.heap tx).2⟩

theorem isHeap_of_pop (h : PriceHeap) {tx : Tx} {l : List Tx} (hpop : Heap.pop less h.items = some (tx, l)) :
    Heap.IsHeap Tx.gasPrice l ∧ h.items.Perm (tx :: l) ∧ ∀ t ∈ h.items, tx.gasPrice ≤ t.gasPrice := by
  have hne : h.items ≠ [] := by
    intro hnil
    simp [Heap.pop, hnil] at hpop
  obtain ⟨tx', l', hpop', hperm, hheap, hle⟩ := Heap.pop_spec agrees h.heap hne
  rw [hpop'] at hpop
  cases hpop
  exact ⟨hheap, hperm, hle⟩

def pop (h : PriceHeap) : Option (Tx × PriceHeap) :=
  match hpop : Heap.pop less h.items with
  | none => none
  | some (tx, l) => some (tx, ⟨l, (h.isHeap_of_pop hpop).1⟩)

theorem pop_eq_none {h : PriceHeap} (hpop : h.pop = none) : h.items = [] := by
  unfold pop at hpop
  split at hpop
  · next hnone =>
    by_contra hne
    obtain ⟨_, _, hsome, _⟩ := Heap.pop_spec agrees h.heap hne
    rw [hsome] at hnone
    cases hnone
  · cases hpop

theorem pop_eq_some {h h' : PriceHeap} {tx : Tx} (hpop : h.pop = some (tx, h')) :
    h.items.Perm (tx :: h'.items) ∧ ∀ t ∈ h.items, tx.gasPrice ≤ t.gasPrice := by
  unfold pop at hpop
  split at hpop
  · cases hpop
  · next hsome =>
    cases hpop
    exact (h.isHeap_of_pop hsome).2

end PriceHeap

structure TxPricedList where
  items : PriceHeap
  stales : Int

namespace TxPricedList

def new : TxPricedList := ⟨.init [], 0⟩

def len (l : TxPricedList) : Nat := l.items.items.length

def put (l : TxPricedList) (tx : Tx) : TxPricedList := { l with items := l.items.push tx }

/-- `Removed`: with too many stale entries, the heap is made anew. -/
def removed (o : Order) (all : List Tx) (l : TxPricedList) (count : Nat) : TxPricedList :=
  if l.stales + count ≤ (l.len / 4 : Nat) then { l with stales := l.stales + count } else ⟨.init (o.txs all), 0⟩

/-- The loop of `Cap`: what it drops, what it saves, and what is left. Each
round takes an entry out, so there are no more rounds than entries. -/
def capLoop (all : List Tx) (locals : Finset Address) (threshold : Int) :
    (rounds : Nat) → TxPricedList → List Tx × List Tx × TxPricedList
  | 0, l => ([], [], l)
  | n + 1, l =>
    match l.items.pop with
    | none => ([], [], l)
    | some (tx, items) =>
      if tx ∉ all then capLoop all locals threshold n ⟨items, l.stales - 1⟩
      else if tx.gasPrice ≥ threshold then ([], [tx], { l with items })
      else
        let (drop, save, l) := capLoop all locals threshold n { l with items }
        if containsTx locals tx then (drop, tx :: save, l) else (tx :: drop, save, l)

def cap (all : List Tx) (locals : Finset Address) (threshold : Int) (l : TxPricedList) : List Tx × TxPricedList :=
  let (drop, save, l) := capLoop all locals threshold l.len l
  (drop, save.foldl put l)

/-- The loop of `Underpriced`: stale entries are taken from the top. -/
def dropStale (all : List Tx) : (rounds : Nat) → TxPricedList → TxPricedList
  | 0, l => l
  | n + 1, l =>
    match l.items.pop with
    | none => l
    | some (head, items) => if head ∈ all then l else dropStale all n ⟨items, l.stales - 1⟩

def underpriced (all : List Tx) (locals : Finset Address) (l : TxPricedList) (tx : Tx) : Bool × TxPricedList :=
  if containsTx locals tx then (false, l)
  else
    let l := dropStale all l.len l
    match l.items.items with
    | [] => (false, l)
    | cheapest :: _ => (decide (cheapest.gasPrice ≥ tx.gasPrice), l)

/-- The loop of `Discard`. -/
def discardLoop (all : List Tx) (locals : Finset Address) :
    (rounds : Nat) → TxPricedList → Int → List Tx × List Tx × TxPricedList
  | 0, l, _ => ([], [], l)
  | n + 1, l, slots =>
    if slots ≤ 0 then ([], [], l)
    else
      match l.items.pop with
      | none => ([], [], l)
      | some (tx, items) =>
        if tx ∉ all then discardLoop all locals n ⟨items, l.stales - 1⟩ slots
        else if containsTx locals tx then
          let (drop, save, l) := discardLoop all locals n { l with items } slots
          (drop, tx :: save, l)
        else
          let (drop, save, l) := discardLoop all locals n { l with items } (slots - numSlots tx)
          (tx :: drop, save, l)

def discard (all : List Tx) (locals : Finset Address) (l : TxPricedList) (slots : Int) : List Tx × TxPricedList :=
  let (drop, save, l) := discardLoop all locals l.len l slots
  (drop, save.foldl put l)

/-! ## What is dropped -/

/-- The entries of remote transactions that are still pooled. -/
def evictable (all : List Tx) (locals : Finset Address) (l : TxPricedList) : List Tx :=
  l.items.items.filter fun t => t ∈ all ∧ containsTx locals t = false

variable (all : List Tx) (locals : Finset Address) {l : TxPricedList}

theorem evictable_of_pop {tx : Tx} {items : PriceHeap} (hpop : l.items.pop = some (tx, items)) (stales : Int) :
    (l.evictable all locals).Perm
      (if tx ∈ all ∧ containsTx locals tx = false then tx :: evictable all locals ⟨items, stales⟩
        else evictable all locals ⟨items, stales⟩) := by
  have := (PriceHeap.pop_eq_some hpop).1.filter fun t => t ∈ all ∧ containsTx locals t = false
  rw [List.filter_cons] at this
  simpa only [evictable, decide_eq_true_eq] using this

theorem dropStale_evictable : ∀ (n : Nat) (l : TxPricedList), ((l.dropStale all n).evictable all locals).Perm (l.evictable all locals)
  | 0, _ => .refl _
  | n + 1, l => by
    unfold dropStale
    split
    · exact .refl _
    · next head items hpop =>
      split
      · exact .refl _
      · next hstale =>
        have := evictable_of_pop all locals hpop (l.stales - 1)
        rw [if_neg fun h => hstale h.1] at this
        exact (dropStale_evictable n _).trans this.symm

variable {all locals}

theorem underpriced_evictable (tx : Tx) : ((l.underpriced all locals tx).2.evictable all locals).Perm (l.evictable all locals) := by
  have h := dropStale_evictable all locals l.len l
  unfold underpriced
  split
  · exact .refl _
  · simp only
    split <;> exact h

theorem discardLoop_subset : ∀ (n : Nat) (l : TxPricedList) (slots : Int),
    ∀ t ∈ (discardLoop all locals n l slots).1, t ∈ l.evictable all locals
  | 0, _, _ => by simp [discardLoop]
  | n + 1, l, slots => by
    intro t ht
    unfold discardLoop at ht
    split at ht
    · simp at ht
    · split at ht
      · simp at ht
      · next tx items hpop =>
        have hperm := fun stales => evictable_of_pop all locals hpop stales
        split at ht
        · next hstale =>
          rw [(hperm _).mem_iff, if_neg fun h => hstale h.1]
          exact discardLoop_subset n _ _ t ht
        · next hpooled =>
          rw [(hperm l.stales).mem_iff]
          split at ht
          · next hlocal =>
            rw [if_neg (by simp [hlocal])]
            exact discardLoop_subset n _ _ t ht
          · next hremote =>
            rw [if_pos ⟨by simpa using hpooled, by simpa using hremote⟩]
            rcases List.mem_cons.1 ht with rfl | ht
            · exact List.mem_cons_self
            · exact List.mem_cons_of_mem _ (discardLoop_subset n _ _ t ht)

/-- The slots of the transactions that are not priced above a bound. -/
def slotsUpTo (price : Int) (txs : List Tx) : Nat := ((txs.filter fun t => t.gasPrice ≤ price).map numSlots).sum

theorem slotsUpTo_perm (price : Int) {l₁ l₂ : List Tx} (h : l₁.Perm l₂) : slotsUpTo price l₁ = slotsUpTo price l₂ :=
  ((h.filter _).map _).sum_eq

/-- Entries come up in the order of their prices, so nothing above a bound is
dropped exactly if what is below gives the slots, or there is nothing above. -/
theorem discardLoop_le_iff (price : Int) : ∀ (n : Nat) (l : TxPricedList) (slots : Int), l.len ≤ n →
    ((∀ t ∈ (discardLoop all locals n l slots).1, t.gasPrice ≤ price) ↔
      slots ≤ slotsUpTo price (l.evictable all locals) ∨ ∀ t ∈ l.evictable all locals, t.gasPrice ≤ price)
  | 0, l, slots, hn => by
    have hnil : l.items.items = [] := List.eq_nil_of_length_eq_zero (by unfold len at hn; omega)
    simp [discardLoop, evictable, hnil]
  | n + 1, l, slots, hn => by
    unfold discardLoop
    split
    · next hslots =>
      have : slots ≤ (slotsUpTo price (l.evictable all locals) : Int) := by omega
      simp [this]
    · next hslots =>
      split
      · next hpop => simp [evictable, PriceHeap.pop_eq_none hpop]
      · next tx items hpop =>
        obtain ⟨hitems, hle⟩ := PriceHeap.pop_eq_some hpop
        have hlen : items.items.length ≤ n := by
          have := hitems.length_eq
          simp only [len, List.length_cons] at this hn
          omega
        have hperm := fun stales => evictable_of_pop all locals hpop stales
        have hsum := fun stales => slotsUpTo_perm price (hperm stales)
        split
        · next hstale =>
          have ih := discardLoop_le_iff price n ⟨items, l.stales - 1⟩ slots hlen
          have hp := hperm (l.stales - 1)
          have hs := hsum (l.stales - 1)
          rw [if_neg fun h => hstale h.1] at hp hs
          simp only [hp.mem_iff, hs, ih]
        · next hpooled =>
          have hp := hperm l.stales
          have hs := hsum l.stales
          split
          · next hlocal =>
            have ih := discardLoop_le_iff price n { l with items } slots hlen
            rw [if_neg (by simp [hlocal])] at hp hs
            simp only [hp.mem_iff, hs, ih]
          · next hremote =>
            have ih := discardLoop_le_iff price n { l with items } (slots - numSlots tx) hlen
            rw [if_pos ⟨by simpa using hpooled, by simpa using hremote⟩] at hp hs
            simp only [hp.mem_iff, hs, List.mem_cons, forall_eq_or_imp, ih]
            by_cases htx : tx.gasPrice ≤ price
            · have hcons : slotsUpTo price (tx :: evictable all locals { l with items }) =
                  numSlots tx + slotsUpTo price (evictable all locals { l with items }) := by
                simp [slotsUpTo, htx]
              rw [hcons]
              simp only [htx, true_and]
              push_cast
              constructor
              · rintro (h | h)
                · exact .inl (by omega)
                · exact .inr h
              · rintro (h | h)
                · exact .inl (by omega)
                · exact .inr h
            · -- it is the cheapest one, so all that is left is above the bound too
              have hnone : slotsUpTo price (tx :: evictable all locals { l with items }) = 0 := by
                have : (tx :: evictable all locals { l with items }).filter (fun t => t.gasPrice ≤ price) = [] := by
                  refine List.filter_eq_nil_iff.2 fun t ht => ?_
                  have := hle t (List.mem_of_mem_filter (hp.mem_iff.2 ht))
                  simp only [decide_eq_true_eq]
                  omega
                rw [slotsUpTo, this]
                rfl
              rw [hnone]
              constructor
              · rintro ⟨h, -⟩
                exact absurd h htx
              · rintro (h | h)
                · exact absurd h (by simpa using hslots)
                · exact absurd h.1 htx

/-- **What `Discard` drops** is remote and still pooled; nothing of it is above
a bound exactly if enough slots are below, or nothing is above. -/
theorem discard_le_iff (all : List Tx) (locals : Finset Address) (l : TxPricedList) (price slots : Int) :
    (∀ t ∈ (l.discard all locals slots).1, t ∈ l.evictable all locals) ∧
    ((∀ t ∈ (l.discard all locals slots).1, t.gasPrice ≤ price) ↔
      slots ≤ slotsUpTo price (l.evictable all locals) ∨ ∀ t ∈ l.evictable all locals, t.gasPrice ≤ price) :=
  ⟨discardLoop_subset l.len l slots, discardLoop_le_iff price l.len l slots (Nat.le_refl _)⟩

theorem discard_eq_nil {slots : Int} : (l.discard all locals slots).1 = [] ↔ slots ≤ 0 ∨ l.evictable all locals = [] := by
  -- take a bound below all prices
  obtain ⟨price, hprice⟩ : ∃ price : Int, ∀ t ∈ l.evictable all locals, ¬t.gasPrice ≤ price := by
    induction l.evictable all locals with
    | nil => exact ⟨0, by simp⟩
    | cons t txs ih =>
      obtain ⟨price, h⟩ := ih
      refine ⟨min price (t.gasPrice - 1), fun u hu => ?_⟩
      rcases List.mem_cons.1 hu with rfl | hu
      · omega
      · have := h u hu
        omega
  obtain ⟨hsub, hiff⟩ := discard_le_iff all locals l price slots
  have hnone : slotsUpTo price (l.evictable all locals) = 0 := by
    rw [slotsUpTo, List.filter_eq_nil_iff.2 fun t ht => by simpa using hprice t ht]
    rfl
  rw [hnone] at hiff
  have hempty : ∀ txs : List Tx, (∀ t ∈ txs, t ∈ l.evictable all locals) → ((∀ t ∈ txs, t.gasPrice ≤ price) ↔ txs = []) := by
    intro txs htxs
    refine ⟨fun h => List.eq_nil_iff_forall_not_mem.2 fun t ht => hprice t (htxs t ht) (h t ht), ?_⟩
    rintro rfl
    simp
  rw [← hempty _ hsub, ← hempty _ fun _ => id]
  exact hiff

end TxPricedList

end NdnGeth.TxPool
