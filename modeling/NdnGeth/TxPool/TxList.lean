/-
The transactions of one account in the pool (`core/tx_list.go`).

A `txSortedMap` is the list of its transactions in the order of their nonces:
that is what its map, its heap of nonces and its cache stand for. A `txList` is
one of these with the caps by which `Filter` sees that it need not look.

Each operation that takes transactions out divides the list (`Divides`), and
`ready_spec` says where `Ready` stops.
-/
import NdnGeth.Core.Encoding

namespace NdnGeth.TxPool

open Lib.Rlp (Bytes)
open Types (Address)

/-- What the pool reads of a transaction; `sender?` is what its signer recovers.
Hashes do not collide, so a transaction stands for its hash. -/
structure Tx where
  sender? : Option Address
  nonce : Nat
  gasPrice : Int
  gas : Nat
  recipient : Option Address
  value : Int
  data : Bytes
  signature : Bytes
  size : Nat
  deriving DecidableEq, Inhabited

namespace Tx

/-- `types.Sender` where the error is dropped. -/
def sender (tx : Tx) : Address := tx.sender?.getD 0

def cost (tx : Tx) : Int := tx.gasPrice * tx.gas + tx.value

end Tx

def txSlotSize : Nat := 32 * 1024

def txMaxSize : Nat := 4 * txSlotSize

def numSlots (tx : Tx) : Nat := (tx.size + txSlotSize - 1) / txSlotSize

/-- A list is divided into what is taken out and what is left. -/
structure Divides (l out left : List Tx) : Prop where
  mem_iff : ∀ t, t ∈ l ↔ t ∈ out ∨ t ∈ left
  apart : ∀ t ∈ out, t ∉ left
  nodup : out.Nodup

theorem Divides.append {l out₁ left₁ out₂ left₂ : List Tx} (h₁ : Divides l out₁ left₁) (h₂ : Divides left₁ out₂ left₂) :
    Divides l (out₁ ++ out₂) left₂ where
  mem_iff t := by rw [h₁.mem_iff, h₂.mem_iff, List.mem_append, or_assoc]
  apart t ht := by
    rcases List.mem_append.1 ht with ht | ht
    · exact fun h => h₁.apart t ht ((h₂.mem_iff t).2 (.inr h))
    · exact h₂.apart t ht
  nodup := List.nodup_append.2 ⟨h₁.nodup, h₂.nodup, fun t ht u hu heq =>
    h₁.apart t ht ((h₂.mem_iff t).2 (.inl (heq ▸ hu)))⟩

theorem Divides.nil (l : List Tx) : Divides l [] l := ⟨by simp, by simp, .nil⟩

/-! ## Sorted maps -/

@[ext]
structure TxSortedMap where
  items : List Tx
  sorted : items.Pairwise fun t u => t.nonce < u.nonce

namespace TxSortedMap

variable (m : TxSortedMap)

def new : TxSortedMap := ⟨[], .nil⟩

def get (nonce : Nat) : Option Tx := m.items.find? fun t => t.nonce = nonce

/-- The map without the transactions for which `f` does not hold. -/
def keep (f : Tx → Bool) : TxSortedMap := ⟨m.items.filter f, m.sorted.filter f⟩

def put (tx : Tx) : TxSortedMap where
  items := m.items.filter (fun t => t.nonce < tx.nonce) ++ tx :: m.items.filter fun t => tx.nonce < t.nonce
  sorted := by
    refine List.pairwise_append.2 ⟨m.sorted.filter _, List.pairwise_cons.2 ⟨?_, m.sorted.filter _⟩, ?_⟩
    · intro t ht
      simpa using (List.mem_filter.1 ht).2
    · intro t ht u hu
      have ht : t.nonce < tx.nonce := by simpa using (List.mem_filter.1 ht).2
      rcases List.mem_cons.1 hu with rfl | hu
      · exact ht
      · exact ht.trans (by simpa using (List.mem_filter.1 hu).2)

def forward (threshold : Nat) : List Tx × TxSortedMap :=
  (m.items.filter fun t => t.nonce < threshold, m.keep fun t => threshold ≤ t.nonce)

/-- `Filter`; the order in which its map gives the transactions does not matter
to what is done with them. -/
def filter (f : Tx → Bool) : List Tx × TxSortedMap := (m.items.filter f, m.keep fun t => !f t)

def cap (threshold : Nat) : List Tx × TxSortedMap :=
  ((m.items.drop threshold).reverse, ⟨m.items.take threshold, m.sorted.sublist (List.take_sublist ..)⟩)

/-- How many transactions carry on from a nonce without a gap. -/
def runLength : Nat → List Tx → Nat
  | _, [] => 0
  | next, t :: l => if t.nonce = next then runLength (next + 1) l + 1 else 0

def readyLength (start : Nat) : Nat :=
  match m.items.head? with
  | none => 0
  | some t => if start < t.nonce then 0 else runLength t.nonce m.items

def ready (start : Nat) : List Tx × TxSortedMap :=
  (m.items.take (m.readyLength start), ⟨m.items.drop (m.readyLength start), m.sorted.sublist (List.drop_sublist ..)⟩)

variable {m}

theorem nonces_nodup : (m.items.map Tx.nonce).Nodup := List.pairwise_map.2 (m.sorted.imp Nat.ne_of_lt)

theorem items_nodup : m.items.Nodup := nonces_nodup.of_map

theorem nonce_inj {t u : Tx} (ht : t ∈ m.items) (hu : u ∈ m.items) (h : t.nonce = u.nonce) : t = u :=
  List.inj_on_of_nodup_map nonces_nodup ht hu h

theorem get_eq_none {nonce : Nat} : m.get nonce = none ↔ ∀ t ∈ m.items, t.nonce ≠ nonce := by simp [get]

theorem get_eq_some {nonce : Nat} {t : Tx} (h : m.get nonce = some t) : t ∈ m.items ∧ t.nonce = nonce :=
  ⟨List.mem_of_find?_eq_some h, by simpa using List.find?_some h⟩

@[simp] theorem mem_keep {f : Tx → Bool} {t : Tx} : t ∈ (m.keep f).items ↔ t ∈ m.items ∧ f t = true := List.mem_filter

@[simp] theorem mem_put {tx t : Tx} : t ∈ (m.put tx).items ↔ t = tx ∨ t ∈ m.items ∧ t.nonce ≠ tx.nonce := by
  simp only [put, List.mem_append, List.mem_cons, List.mem_filter, decide_eq_true_eq]
  constructor
  · rintro (⟨ht, hlt⟩ | rfl | ⟨ht, hlt⟩)
    · exact .inr ⟨ht, Nat.ne_of_lt hlt⟩
    · exact .inl rfl
    · exact .inr ⟨ht, Nat.ne_of_gt hlt⟩
  · rintro (rfl | ⟨ht, hne⟩)
    · exact .inr (.inl rfl)
    · rcases Nat.lt_or_gt_of_ne hne with hlt | hlt
      · exact .inl ⟨ht, hlt⟩
      · exact .inr (.inr ⟨ht, hlt⟩)

theorem put_ne_nil (tx : Tx) : (m.put tx).items ≠ [] := by simp [put]

theorem filter_divides (f : Tx → Bool) : Divides m.items (m.filter f).1 (m.filter f).2.items where
  mem_iff t := by
    cases hf : f t <;> simp [filter, hf]
  apart t ht := by
    have := (List.mem_filter.1 ht).2
    simp [filter, this]
  nodup := items_nodup.filter _

theorem forward_divides (threshold : Nat) : Divides m.items (m.forward threshold).1 (m.forward threshold).2.items where
  mem_iff t := by
    have := Nat.lt_or_ge t.nonce threshold
    simp only [forward, List.mem_filter, decide_eq_true_eq, mem_keep, ← and_or_left, this, and_true]
  apart t ht := by
    have : t.nonce < threshold := by simpa using (List.mem_filter.1 ht).2
    simp [forward, this]
  nodup := items_nodup.filter _

theorem mem_take_or_drop {l : List Tx} (n : Nat) {t : Tx} : t ∈ l ↔ t ∈ l.take n ∨ t ∈ l.drop n := by
  rw [← List.mem_append, List.take_append_drop]

theorem not_mem_drop {n : Nat} {t : Tx} (ht : t ∈ m.items.take n) : t ∉ m.items.drop n :=
  List.disjoint_take_drop items_nodup (Nat.le_refl n) ht

theorem cap_divides (threshold : Nat) : Divides m.items (m.cap threshold).1 (m.cap threshold).2.items where
  mem_iff t := by
    rw [cap, List.mem_reverse, or_comm]
    exact mem_take_or_drop threshold
  apart t ht := fun h => not_mem_drop h (List.mem_reverse.1 ht)
  nodup := List.nodup_reverse.2 (items_nodup.sublist (List.drop_sublist ..))

theorem ready_divides (start : Nat) : Divides m.items (m.ready start).1 (m.ready start).2.items where
  mem_iff _ := mem_take_or_drop _
  apart _ := not_mem_drop
  nodup := items_nodup.sublist (List.take_sublist ..)

theorem runLength_spec : ∀ (next : Nat) {l : List Tx}, l.Pairwise (fun t u => t.nonce < u.nonce) → (∀ t ∈ l, next ≤ t.nonce) →
    (∀ t ∈ l.take (runLength next l), t.nonce < next + runLength next l) ∧
      ∀ t ∈ l.drop (runLength next l), next + runLength next l < t.nonce
  | _, [], _, _ => by simp
  | next, t :: l, hs, hge => by
    obtain ⟨hlt, hs⟩ := List.pairwise_cons.1 hs
    unfold runLength
    split
    · next heq =>
      obtain ⟨htake, hdrop⟩ := runLength_spec (next + 1) hs fun u hu => heq ▸ hlt u hu
      simp only [List.take_succ_cons, List.drop_succ_cons, List.mem_cons, forall_eq_or_imp]
      refine ⟨⟨by omega, fun u hu => ?_⟩, fun u hu => ?_⟩
      · have := htake u hu
        omega
      · have := hdrop u hu
        omega
    · next hne =>
      have hfirst := hge t List.mem_cons_self
      refine ⟨by simp, fun u hu => ?_⟩
      rcases List.mem_cons.1 hu with rfl | hu
      · omega
      · have := hlt u hu
        omega

/-- `Ready` stops at a gap. Where it takes nothing, all is above the start, and
where it takes something, the first one is not. -/
theorem ready_spec (start : Nat) :
    (∀ u ∈ (m.ready start).1, ∀ t ∈ (m.ready start).2.items, u.nonce + 1 < t.nonce) ∧
    ((m.ready start).1 = [] → ∀ t ∈ m.items, start < t.nonce) ∧
    ((m.ready start).1 ≠ [] → ∃ u ∈ (m.ready start).1, u.nonce ≤ start) := by
  obtain ⟨items, hs⟩ := m
  cases items with
  | nil => simp [ready]
  | cons first l =>
    have hlt := (List.pairwise_cons.1 hs).1
    simp only [ready, readyLength, List.head?_cons]
    split
    · next hstart =>
      refine ⟨by simp, fun _ t ht => ?_, by simp⟩
      rcases List.mem_cons.1 ht with rfl | ht
      · exact hstart
      · exact hstart.trans (hlt t ht)
    · next hstart =>
      have hlen : runLength first.nonce (first :: l) = runLength (first.nonce + 1) l + 1 := if_pos rfl
      obtain ⟨htake, hdrop⟩ := runLength_spec first.nonce hs fun t ht => by
        rcases List.mem_cons.1 ht with rfl | ht
        · exact Nat.le_refl _
        · exact Nat.le_of_lt (hlt t ht)
      refine ⟨fun u hu t ht => ?_, fun h => ?_, fun _ => ⟨first, ?_, by omega⟩⟩
      · have := htake u hu
        have := hdrop t ht
        omega
      · simp [hlen] at h
      · simp [hlen]

end TxSortedMap

/-! ## Lists -/

/-- `txList`, with bounds for what its transactions cost and how much gas they
take. In a strict one, of the executable transactions, what follows a transaction
that is taken out goes with it. -/
structure TxList (strict : Bool) where
  txs : TxSortedMap
  costcap : Int
  gascap : Nat
  capped : ∀ t ∈ txs.items, t.cost ≤ costcap ∧ t.gas ≤ gascap

namespace TxList

variable {strict : Bool} (l : TxList strict)

/-- `newTxList`. -/
def new : TxList strict := ⟨.new, 0, 0, by simp [TxSortedMap.new]⟩

/-- Some of the transactions, with the same bounds. -/
def part (txs : TxSortedMap) (h : ∀ t ∈ txs.items, t ∈ l.txs.items) : TxList strict := { l with
  txs
  capped := fun t ht => l.capped t (h t ht) }

def len : Nat := l.txs.items.length

def overlaps (tx : Tx) : Bool := (l.txs.get tx.nonce).isSome

/-- The end of `Add`: the transaction is put in, and the caps are raised to it. -/
def accept (tx : Tx) : TxList strict where
  txs := l.txs.put tx
  costcap := max l.costcap tx.cost
  gascap := max l.gascap tx.gas
  capped t ht := by
    rcases TxSortedMap.mem_put.1 ht with rfl | ⟨ht, -⟩
    · exact ⟨Int.le_max_right .., Nat.le_max_right ..⟩
    · have := l.capped t ht
      omega

/-- `Add`, with the transaction that was replaced; nothing if the older one is
better. -/
def add (tx : Tx) (priceBump : Nat) : Option (TxList strict × Option Tx) :=
  match l.txs.get tx.nonce with
  | none => some (l.accept tx, none)
  | some old =>
    let threshold := old.gasPrice * (100 + priceBump) / 100
    if old.gasPrice ≥ tx.gasPrice ∨ threshold > tx.gasPrice then none else some (l.accept tx, some old)

def forward (threshold : Nat) : List Tx × TxList strict :=
  ((l.txs.forward threshold).1, l.part (l.txs.forward threshold).2 fun _ ht => ((TxSortedMap.forward_divides _).mem_iff _).2 (.inr ht))

/-- `Filter`, with what was removed and, in a strict list, what follows the first
of these; that is the one with the lowest nonce. -/
def filter (costLimit : Int) (gasLimit : Nat) : List Tx × List Tx × TxList strict :=
  if l.costcap ≤ costLimit ∧ l.gascap ≤ gasLimit then ([], [], l)
  else
    let removed := l.txs.filter fun tx => tx.cost > costLimit ∨ tx.gas > gasLimit
    let invalids := removed.2.filter fun tx => strict && removed.1.head?.any fun lowest => tx.nonce > lowest.nonce
    (removed.1, invalids.1, ⟨invalids.2, costLimit, gasLimit, fun t ht => by
      have := (TxSortedMap.mem_keep.1 (TxSortedMap.mem_keep.1 ht).1).2
      simpa using this⟩)

def cap (threshold : Nat) : List Tx × TxList strict :=
  ((l.txs.cap threshold).1, l.part (l.txs.cap threshold).2 fun _ ht => ((TxSortedMap.cap_divides _).mem_iff _).2 (.inr ht))

/-- What `demoteUnexecutables` postpones: with a gap in front, everything. -/
def gapped (nonce : Nat) : List Tx × TxList strict :=
  if l.len > 0 ∧ (l.txs.get nonce).isNone then l.cap 0 else ([], l)

/-- `Remove`, for a transaction with that nonce, with what follows it in a strict
list. -/
def remove (tx : Tx) : Option (List Tx × TxList strict) :=
  (l.txs.get tx.nonce).map fun _ =>
    let txs := l.txs.keep fun t => t.nonce ≠ tx.nonce
    let invalids := txs.filter fun t => strict && decide (t.nonce > tx.nonce)
    (invalids.1, l.part invalids.2 fun _ ht => (TxSortedMap.mem_keep.1 (TxSortedMap.mem_keep.1 ht).1).1)

def ready (start : Nat) : List Tx × TxList strict :=
  ((l.txs.ready start).1, l.part (l.txs.ready start).2 fun _ ht => ((TxSortedMap.ready_divides _).mem_iff _).2 (.inr ht))

variable {l}

variable {tx : Tx}

theorem add_of_get_eq_none (h : l.txs.get tx.nonce = none) (priceBump : Nat) :
    l.add tx priceBump = some (l.accept tx, none) := by
  rw [add, h]

theorem add_eq_some {priceBump : Nat} {r : TxList strict × Option Tx} (h : l.add tx priceBump = some r) :
    r = (l.accept tx, l.txs.get tx.nonce) := by
  unfold add at h
  split at h
  · next hget =>
    rw [hget]
    exact (Option.some.inj h).symm
  · next old hget =>
    simp only [Option.ite_none_left_eq_some] at h
    rw [hget]
    exact (Option.some.inj h.2).symm

theorem gapped_spec (nonce : Nat) : Divides l.txs.items (l.gapped nonce).1 (l.gapped nonce).2.txs.items ∧
    ((l.gapped nonce).1 ≠ [] → (∀ t ∈ l.txs.items, t.nonce ≠ nonce) ∧ (l.gapped nonce).2.txs.items = []) := by
  unfold gapped
  split
  · next h =>
    refine ⟨TxSortedMap.cap_divides _, fun _ => ⟨TxSortedMap.get_eq_none.1 (Option.isNone_iff_eq_none.1 h.2), ?_⟩⟩
    simp [cap, part, TxSortedMap.cap]
  · exact ⟨.nil _, fun h => absurd rfl h⟩

theorem remove_eq_none : l.remove tx = none ↔ ∀ t ∈ l.txs.items, t.nonce ≠ tx.nonce := by
  rw [remove, Option.map_eq_none_iff, TxSortedMap.get_eq_none]

theorem remove_spec {invalids : List Tx} {left : TxList strict} (h : l.remove tx = some (invalids, left)) :
    (∀ t, t ∈ invalids ∨ t ∈ left.txs.items ↔ t ∈ l.txs.items ∧ t.nonce ≠ tx.nonce) ∧ (∀ t ∈ invalids, t ∉ left.txs.items) ∧
      invalids.Nodup ∧ (strict = false → invalids = [] ∧ left.txs = l.txs.keep fun t => t.nonce ≠ tx.nonce) := by
  obtain ⟨_, _, h⟩ := Option.map_eq_some_iff.1 h
  cases h
  have hdiv := TxSortedMap.filter_divides (m := l.txs.keep fun t => t.nonce ≠ tx.nonce) fun t => strict && decide (t.nonce > tx.nonce)
  refine ⟨fun t => ?_, hdiv.apart, hdiv.nodup, ?_⟩
  · refine (hdiv.mem_iff t).symm.trans ?_
    simp
  · rintro rfl
    simp [TxSortedMap.filter, TxSortedMap.keep, part]

/-- Can be paid for, and fits into a block. -/
def Within (costLimit : Int) (gasLimit : Nat) (t : Tx) : Prop := t.cost ≤ costLimit ∧ t.gas ≤ gasLimit

instance (costLimit : Int) (gasLimit : Nat) (t : Tx) : Decidable (Within costLimit gasLimit t) := inferInstanceAs (Decidable (_ ∧ _))

theorem filter_spec (costLimit : Int) (gasLimit : Nat) {removed invalids : List Tx} {left : TxList strict}
    (h : l.filter costLimit gasLimit = (removed, invalids, left)) :
    Divides l.txs.items (removed ++ invalids) left.txs.items ∧
      (strict = false → invalids = [] ∧ left.txs.items = l.txs.items.filter (Within costLimit gasLimit)) ∧
      (∀ t ∈ invalids, (∃ u ∈ l.txs.items, u.nonce < t.nonce) ∧ ∀ u ∈ left.txs.items, u.nonce + 1 < t.nonce) ∧
      ∀ t ∈ l.txs.items, Within costLimit gasLimit t → (∀ u ∈ l.txs.items, t.nonce ≤ u.nonce) → t ∈ left.txs.items := by
  unfold filter at h
  split at h
  · next hcaps =>
    cases h
    refine ⟨.nil _, fun _ => ⟨rfl, (List.filter_eq_self.2 fun t ht => ?_).symm⟩, by simp, fun t ht _ _ => ht⟩
    have := l.capped t ht
    exact decide_eq_true ⟨this.1.trans hcaps.1, this.2.trans hcaps.2⟩
  · have hdiv := TxSortedMap.filter_divides (m := l.txs) fun tx => tx.cost > costLimit ∨ tx.gas > gasLimit
    have hkeep : (l.txs.filter fun tx => tx.cost > costLimit ∨ tx.gas > gasLimit).2.items = l.txs.items.filter (Within costLimit gasLimit) := by
      refine List.filter_congr fun t _ => ?_
      rw [Bool.eq_iff_iff, decide_eq_true_eq]
      simp [Within]
    have hlow : ∀ lowest, (l.txs.filter fun tx => tx.cost > costLimit ∨ tx.gas > gasLimit).1.head? = some lowest →
        lowest ∈ (l.txs.filter fun tx => tx.cost > costLimit ∨ tx.gas > gasLimit).1 := fun _ => List.mem_of_mem_head?
    cases h
    dsimp only
    generalize l.txs.filter (fun tx => tx.cost > costLimit ∨ tx.gas > gasLimit) = r at hdiv hkeep hlow ⊢
    obtain ⟨out, txs⟩ := r
    -- what is left comes before the lowest one that is removed, and what is invalid after it
    have hdiv' := TxSortedMap.filter_divides (m := txs) fun tx => strict && out.head?.any fun lowest => tx.nonce > lowest.nonce
    refine ⟨hdiv.append hdiv', ?_, fun t ht => ?_, fun t ht hin hleast => ?_⟩
    · rintro rfl
      simpa [TxSortedMap.filter, TxSortedMap.keep] using hkeep
    · simp only [TxSortedMap.filter, List.mem_filter, Bool.and_eq_true, Option.any_eq_true, decide_eq_true_eq] at ht
      obtain ⟨_, hstrict, lowest, hhead, hlt⟩ := ht
      have hfirst := (hdiv.mem_iff lowest).2 (.inl (hlow lowest hhead))
      refine ⟨⟨lowest, hfirst, hlt⟩, fun u hu => ?_⟩
      simp only [TxSortedMap.filter, TxSortedMap.mem_keep, hstrict, Bool.true_and, Bool.not_eq_true', Option.any_eq_false,
        decide_eq_false_iff_not, Nat.not_lt] at hu
      have hle := hu.2 lowest hhead
      have hne : u.nonce ≠ lowest.nonce := by
        intro heq
        have hsame := TxSortedMap.nonce_inj ((hdiv.mem_iff u).2 (.inr hu.1)) hfirst heq
        exact hdiv.apart lowest (hlow lowest hhead) (hsame ▸ hu.1)
      omega
    · refine TxSortedMap.mem_keep.2 ⟨?_, ?_⟩
      · rw [hkeep]
        exact List.mem_filter.2 ⟨ht, decide_eq_true hin⟩
      · simp only [Bool.not_eq_true', Bool.and_eq_false_iff, Option.any_eq_false, decide_eq_false_iff_not, Nat.not_lt]
        exact .inr fun lowest hhead => hleast lowest ((hdiv.mem_iff lowest).2 (.inl (hlow lowest hhead)))

end TxList

end NdnGeth.TxPool
