/-
The order in which a miner takes transactions (`TransactionsByPriceAndNonce` of
`core/types/transaction.go`): a heap of the next transaction of every account,
and what is left of each account beside it.

The model of the set is the queue of each account (`left`), computed from the
calls that were made and what `Peek` returned before each. `Holds` relates the
two: `Shift` takes one transaction from the queue of the best, and `Pop` empties
it. A call on an empty set is out of range in the source, and not made here.

`best_next`: what `Peek` returns after any calls, and in which order.
-/
import Mathlib.Data.List.Count
import NdnGeth.Lib.Heap
import NdnGeth.TxPool.TxList

namespace NdnGeth.TxPool

open Function
open Lib
open Types (Address)

def TxByPrice.less (t u : Tx) : Bool := decide (u.gasPrice < t.gasPrice)

/-- `TransactionsByPriceAndNonce`; `txs` is the map of the source. -/
structure ByPriceAndNonce where
  txs : Address → Option (List Tx)
  heads : List Tx

namespace ByPriceAndNonce

/-- A round of the loop of `NewTransactionsByPriceAndNonce`, for one entry of the
map. An account without transactions is out of range. -/
def collect (t : ByPriceAndNonce) (entry : Address × List Tx) : Option ByPriceAndNonce :=
  match entry.2 with
  | [] => none
  | tx :: rest =>
    let acc := tx.sender
    let txs := update t.txs acc (some rest)
    some ⟨if entry.1 ≠ acc then update txs entry.1 none else txs, t.heads ++ [tx]⟩

/-- `NewTransactionsByPriceAndNonce`, with the entries of the map in the order in
which the loop finds them. -/
def new (entries : List (Address × List Tx)) : Option ByPriceAndNonce :=
  (entries.foldlM collect ⟨fun a => entries.lookup a, []⟩).map fun t => { t with heads := Heap.init TxByPrice.less t.heads }

def peek (t : ByPriceAndNonce) : Option Tx := t.heads.head?

def pop (t : ByPriceAndNonce) : Option ByPriceAndNonce :=
  (Heap.pop TxByPrice.less t.heads).map fun p => { t with heads := p.2 }

def shift (t : ByPriceAndNonce) : Option ByPriceAndNonce :=
  match t.heads with
  | [] => none
  | tx :: rest =>
    let acc := tx.sender
    match t.txs acc with
    | some (next :: txs) =>
      some ⟨update t.txs acc (some txs), Heap.fix TxByPrice.less (next :: rest) 0⟩
    | _ => t.pop

inductive Call | shift | pop
  deriving DecidableEq

def step (t : ByPriceAndNonce) : Call → Option ByPriceAndNonce
  | .shift => t.shift
  | .pop => t.pop

/-- The calls that were made, each with what `Peek` returned before it. -/
abbrev Past := List (Call × Tx)

/-- A call, after `Peek`. -/
def advance (s : Past × ByPriceAndNonce) (c : Call) : Option (Past × ByPriceAndNonce) := do
  let tx ← s.2.peek
  let t ← s.2.step c
  return (s.1 ++ [(c, tx)], t)

def run (t : ByPriceAndNonce) (cs : List Call) : Option (Past × ByPriceAndNonce) := cs.foldlM advance ([], t)

/-! ## Queues -/

/-- The transactions of an account at the start. -/
def queue (entries : List (Address × List Tx)) (a : Address) : List Tx := (entries.lookup a).getD []

/-- The transactions of an account that are left: none after a `Pop` of it, else
those that were not returned. -/
def left (entries : List (Address × List Tx)) (past : Past) (a : Address) : List Tx :=
  if past.any (fun p => p.1 == .pop && p.2.sender == a) then []
  else (queue entries a).drop (past.countP fun p => p.2.sender == a)

def returned (past : Past) (a : Address) : List Tx := (past.map (·.2)).filter fun tx => tx.sender == a

/-- A map from senders to their transactions, sorted by nonce. -/
structure Sorted (entries : List (Address × List Tx)) : Prop where
  keys : (entries.map (·.1)).Nodup
  nonempty : ∀ e ∈ entries, e.2 ≠ []
  sender : ∀ e ∈ entries, ∀ tx ∈ e.2, tx.sender = e.1
  nonces : ∀ e ∈ entries, e.2.Pairwise fun t u => t.nonce ≤ u.nonce

variable {entries : List (Address × List Tx)} {past : Past} {t t' : ByPriceAndNonce} {tx : Tx} {a : Address} {c : Call}

/-- What a call takes from a queue. -/
def Call.rest : Call → List Tx → List Tx
  | .shift, q => q.tail
  | .pop, _ => []

theorem left_step (entries : List (Address × List Tx)) (past : Past) (c : Call) (tx : Tx) :
    left entries (past ++ [(c, tx)]) =
      update (left entries past) tx.sender (c.rest (left entries past tx.sender)) := by
  funext a
  by_cases ha : a = tx.sender
  · subst ha
    rw [update_self]
    cases c with
    | pop => simp [left, Call.rest]
    | shift =>
      have hpop : (Call.shift == Call.pop) = false := rfl
      simp only [left, Call.rest, List.any_append, List.any_cons, List.any_nil, hpop, Bool.false_and, Bool.or_false,
        List.countP_append, List.countP_singleton, beq_self_eq_true, if_true]
      split
      · rfl
      · rw [List.tail_drop]
  · have hne : (tx.sender == a) = false := beq_false_of_ne fun h => ha h.symm
    rw [update_of_ne ha]
    simp only [left, List.any_append, List.any_cons, List.any_nil, hne, Bool.and_false, Bool.or_false,
      List.countP_append, List.countP_singleton, Bool.false_eq_true, if_false, Nat.add_zero]

theorem returned_step (past : Past) (c : Call) (tx : Tx) (a : Address) :
    returned (past ++ [(c, tx)]) a = returned past a ++ if tx.sender = a then [tx] else [] := by
  simp only [returned, List.map_append, List.map_cons, List.map_nil, List.filter_append, List.filter_cons, List.filter_nil,
    beq_iff_eq]

theorem length_returned (past : Past) (a : Address) : (returned past a).length = past.countP fun p => p.2.sender == a := by
  rw [returned, ← List.countP_eq_length_filter, List.countP_map]
  rfl

/-! ## The heap of heads -/

def cost (tx : Tx) : Int := -tx.gasPrice

theorem agrees : Heap.Agrees TxByPrice.less cost where
  le_of_less h := by
    have := of_decide_eq_true h
    unfold cost
    omega
  le_of_not_less h := by
    have := of_decide_eq_false h
    unfold cost
    omega

/-- The set holds these queues: the heap has the first of each, and the map what
follows it. -/
structure Holds (q : Address → List Tx) (t : ByPriceAndNonce) : Prop where
  heap : Heap.IsHeap cost t.heads
  distinct : (t.heads.map Tx.sender).Nodup
  heads : ∀ tx, tx ∈ t.heads ↔ (q tx.sender).head? = some tx
  rest : ∀ tx ∈ t.heads, t.txs tx.sender = some (q tx.sender).tail
  sender : ∀ a, ∀ tx ∈ q a, tx.sender = a

variable {q : Address → List Tx}

theorem heads_of_peek (hp : t.peek = some tx) : t.heads = tx :: t.heads.tail := List.eq_cons_of_mem_head? hp

theorem mem_of_peek (hp : t.peek = some tx) : tx ∈ t.heads := List.mem_of_mem_head? hp

theorem Holds.peek (h : Holds q t) (hp : t.peek = some tx) :
    (q tx.sender).head? = some tx ∧ ∀ a u, (q a).head? = some u → u.gasPrice ≤ tx.gasPrice := by
  refine ⟨(h.heads tx).1 (mem_of_peek hp), fun a u hu => ?_⟩
  have hus : u.sender = a := h.sender a u (List.mem_of_mem_head? hu)
  have humem : u ∈ t.heads := (h.heads u).2 (by rw [hus]; exact hu)
  obtain ⟨k, hk, hget⟩ := List.getElem_of_mem humem
  have hroot := h.heap.root_le k hk
  have h0 : Heap.get t.heads 0 = tx := by
    rw [heads_of_peek hp]
    rfl
  have hku : Heap.get t.heads k = u := by
    simp [Heap.get, List.getD_eq_getElem?_getD, hk, hget]
  rw [h0, hku] at hroot
  unfold cost at hroot
  omega

theorem Holds.peek_none (h : Holds q t) : t.peek = none ↔ ∀ a, q a = [] := by
  unfold ByPriceAndNonce.peek
  rw [List.head?_eq_none_iff]
  constructor
  · intro hnil a
    cases hq : q a with
    | nil => rfl
    | cons u us =>
      have hus : u.sender = a := h.sender a u (by rw [hq]; exact List.mem_cons_self)
      have humem : u ∈ t.heads := (h.heads u).2 (by rw [hus, hq]; rfl)
      rw [hnil] at humem
      cases humem
  · intro hempty
    cases hh : t.heads with
    | nil => rfl
    | cons u us =>
      have hu := (h.heads u).1 (by rw [hh]; exact List.mem_cons_self)
      rw [hempty] at hu
      cases hu

theorem Holds.replace {rest heads : List Tx} {txs : Address → Option (List Tx)} {l : List Tx} (h : Holds q t)
    (hh : t.heads = tx :: rest) (hl : ∀ u ∈ l, u ∈ q tx.sender) (hperm : heads.Perm (l.head?.toList ++ rest))
    (hheap : Heap.IsHeap cost heads) (htxs : ∀ a, a ≠ tx.sender → txs a = t.txs a)
    (hrest : l ≠ [] → txs tx.sender = some l.tail) :
    Holds (update q tx.sender l) ⟨txs, heads⟩ := by
  have hdistinct := h.distinct
  rw [hh, List.map_cons, List.nodup_cons] at hdistinct
  have hfresh (u : Tx) (hu : u ∈ rest) : u.sender ≠ tx.sender := fun he =>
    hdistinct.1 (he ▸ List.mem_map_of_mem hu)
  have hhead (u : Tx) (hu : u ∈ l.head?.toList) : u.sender = tx.sender :=
    h.sender _ u (hl u (List.mem_of_mem_head? (Option.mem_toList.1 hu)))
  have hmem (u : Tx) : u ∈ heads ↔ u ∈ l.head?.toList ∨ u ∈ rest := by rw [hperm.mem_iff, List.mem_append]
  refine ⟨hheap, ?_, fun u => ?_, fun u hu => ?_, fun a u hu => ?_⟩
  · rw [(hperm.map Tx.sender).nodup_iff, List.map_append]
    refine List.nodup_append.2 ⟨?_, hdistinct.2, ?_⟩
    · cases l.head? <;> simp
    · intro a ha b hb hab
      obtain ⟨u, hu, rfl⟩ := List.mem_map.1 ha
      obtain ⟨v, hv, rfl⟩ := List.mem_map.1 hb
      exact hfresh v hv (hab.symm.trans (hhead u hu))
  · show u ∈ heads ↔ _
    rw [hmem]
    by_cases hu : u.sender = tx.sender
    · rw [hu, update_self]
      constructor
      · rintro (hl' | hr)
        · exact Option.mem_toList.1 hl'
        · exact absurd hu (hfresh u hr)
      · intro hl'
        exact .inl (Option.mem_toList.2 hl')
    · rw [update_of_ne hu, ← h.heads u, hh, List.mem_cons]
      constructor
      · rintro (hl' | hr)
        · exact absurd (hhead u hl') hu
        · exact .inr hr
      · rintro (rfl | hr)
        · exact absurd rfl hu
        · exact .inr hr
  · show txs u.sender = _
    rcases (hmem u).1 hu with hl' | hr
    · have hne : l ≠ [] := by
        rintro rfl
        cases hl'
      rw [hhead u hl', update_self]
      exact hrest hne
    · rw [update_of_ne (hfresh u hr), htxs _ (hfresh u hr)]
      exact h.rest u (by rw [hh]; exact List.mem_cons_of_mem _ hr)
  · by_cases ha : a = tx.sender
    · subst ha
      rw [update_self] at hu
      exact h.sender _ u (hl u hu)
    · rw [update_of_ne ha] at hu
      exact h.sender a u hu

theorem Holds.pop (h : Holds q t) (hp : t.peek = some tx) :
    ∃ t', t.pop = some t' ∧ Holds (update q tx.sender []) t' := by
  have hh := heads_of_peek hp
  have hne : t.heads ≠ [] := by
    rw [hh]
    exact List.cons_ne_nil _ _
  obtain ⟨x, l, hpop, hperm, hheap, -⟩ := Heap.pop_spec agrees h.heap hne
  have hx : x = tx := by
    rw [Heap.pop_fst hpop, hh]
    rfl
  subst hx
  refine ⟨⟨t.txs, l⟩, by rw [ByPriceAndNonce.pop, hpop]; rfl, ?_⟩
  refine h.replace hh (fun u hu => by cases hu) ?_ hheap (fun _ _ => rfl) fun hne => absurd rfl hne
  rw [hh] at hperm
  exact hperm.symm.cons_inv

theorem Holds.shift (h : Holds q t) (hp : t.peek = some tx) :
    ∃ t', t.shift = some t' ∧ Holds (update q tx.sender (q tx.sender).tail) t' := by
  have hh := heads_of_peek hp
  have htxs := h.rest tx (mem_of_peek hp)
  unfold ByPriceAndNonce.shift
  rw [hh]
  simp only [htxs]
  cases hq : (q tx.sender).tail with
  | nil =>
    simp only
    exact h.pop hp
  | cons u us =>
    have hheap := h.heap
    rw [hh] at hheap
    obtain ⟨hperm, hfix⟩ := Heap.fix_root_spec agrees (y := u) hheap
    refine ⟨_, rfl, ?_⟩
    have hsub : ∀ v ∈ u :: us, v ∈ q tx.sender := fun v hv => List.mem_of_mem_tail (hq ▸ hv)
    exact h.replace hh hsub hperm hfix (fun a ha => update_of_ne ha _ _) fun _ => update_self _ _ _

theorem Holds.step (h : Holds q t) (hp : t.peek = some tx) (c : Call) :
    ∃ t', t.step c = some t' ∧ Holds (update q tx.sender (c.rest (q tx.sender))) t' := by
  cases c with
  | shift => exact h.shift hp
  | pop => exact h.pop hp

/-! ## The start -/

variable {e : Address × List Tx}

theorem Sorted.tail (h : Sorted (e :: entries)) : Sorted entries where
  keys := (List.nodup_cons.1 h.keys).2
  nonempty e he := h.nonempty e (List.mem_cons_of_mem _ he)
  sender e he := h.sender e (List.mem_cons_of_mem _ he)
  nonces e he := h.nonces e (List.mem_cons_of_mem _ he)

theorem mem_of_lookup {l : List Tx} (h : entries.lookup a = some l) : (a, l) ∈ entries := by
  obtain ⟨l₁, l₂, rfl, -⟩ := List.lookup_eq_some_iff.1 h
  exact List.mem_append_right _ List.mem_cons_self

theorem Sorted.lookup_tail (h : Sorted (e :: entries)) : entries.lookup e.1 = none := by
  cases hl : entries.lookup e.1 with
  | none => rfl
  | some l => exact absurd (List.mem_map.2 ⟨_, mem_of_lookup hl, rfl⟩) (List.nodup_cons.1 h.keys).1

theorem Sorted.lookup (h : Sorted entries) (he : e ∈ entries) : entries.lookup e.1 = some e.2 := by
  induction entries with
  | nil => cases he
  | cons e' es ih =>
    rw [List.lookup_cons]
    rcases List.mem_cons.1 he with rfl | hmem
    · simp
    · have hne : e.1 ≠ e'.1 := fun heq => (List.nodup_cons.1 h.keys).1 (List.mem_map.2 ⟨e, hmem, heq⟩)
      rw [beq_false_of_ne hne]
      exact ih h.tail hmem

theorem collect_all (h : Sorted entries) (t : ByPriceAndNonce) :
    ∃ t', entries.foldlM collect t = some t' ∧ t'.heads = t.heads ++ entries.filterMap (·.2.head?) ∧
      ∀ a, t'.txs a = ((entries.lookup a).map fun l => some l.tail).getD (t.txs a) := by
  induction entries generalizing t with
  | nil => exact ⟨t, rfl, (List.append_nil _).symm, fun _ => rfl⟩
  | cons e es ih =>
    obtain ⟨from_, accTxs⟩ := e
    cases hl : accTxs with
    | nil => exact absurd hl (h.nonempty _ List.mem_cons_self)
    | cons tx rest =>
      subst hl
      have hacc : tx.sender = from_ := h.sender _ List.mem_cons_self tx List.mem_cons_self
      obtain ⟨t', hrun, hheads, htxs⟩ := ih h.tail ⟨update t.txs from_ (some rest), t.heads ++ [tx]⟩
      refine ⟨t', ?_, ?_, fun a => ?_⟩
      · rw [List.foldlM_cons, collect]
        simp only [hacc, ne_eq, not_true_eq_false, if_false]
        exact hrun
      · rw [hheads, List.filterMap_cons, List.append_assoc]
        rfl
      · rw [htxs, List.lookup_cons]
        by_cases ha : a = from_
        · subst ha
          simp [show es.lookup a = none from h.lookup_tail]
        · have hb : (a == from_) = false := beq_false_of_ne ha
          simp only [hb, update_of_ne ha]

theorem Sorted.senders (h : Sorted entries) : (entries.filterMap (·.2.head?)).map Tx.sender = entries.map (·.1) := by
  induction entries with
  | nil => rfl
  | cons e es ih =>
    cases hl : e.2 with
    | nil => exact absurd hl (h.nonempty e List.mem_cons_self)
    | cons tx rest =>
      have hacc : tx.sender = e.1 := h.sender e List.mem_cons_self tx (by rw [hl]; exact List.mem_cons_self)
      simp [hl, hacc, ih h.tail]

theorem new_holds (h : Sorted entries) : ∃ t, new entries = some t ∧ Holds (queue entries) t := by
  obtain ⟨t, hrun, hheads, htxs⟩ := collect_all h ⟨fun a => entries.lookup a, []⟩
  rw [List.nil_append] at hheads
  obtain ⟨hperm, hheap⟩ := Heap.init_spec agrees t.heads
  have hqueue {e : Address × List Tx} (he : e ∈ entries) : queue entries e.1 = e.2 := by
    rw [queue, h.lookup he]
    rfl
  have hmem (tx : Tx) : tx ∈ t.heads ↔ ∃ e ∈ entries, e.2.head? = some tx := by rw [hheads, List.mem_filterMap]
  have hsender (a : Address) (tx : Tx) (htx : tx ∈ queue entries a) : ∃ e ∈ entries, e.1 = a ∧ tx ∈ e.2 ∧ tx.sender = a := by
    unfold queue at htx
    cases hl : entries.lookup a with
    | none => rw [hl] at htx; cases htx
    | some l =>
      rw [hl] at htx
      exact ⟨_, mem_of_lookup hl, rfl, htx, h.sender _ (mem_of_lookup hl) tx htx⟩
  refine ⟨{ t with heads := Heap.init TxByPrice.less t.heads }, by rw [new, hrun]; rfl, hheap, ?_, fun tx => ?_, fun tx htx => ?_,
    fun a tx htx => ?_⟩
  · show ((Heap.init TxByPrice.less t.heads).map Tx.sender).Nodup
    rw [(hperm.map Tx.sender).nodup_iff, hheads, h.senders]
    exact h.keys
  · show tx ∈ Heap.init TxByPrice.less t.heads ↔ _
    rw [hperm.mem_iff, hmem]
    constructor
    · rintro ⟨e, he, htx⟩
      rw [h.sender e he tx (List.mem_of_mem_head? htx), hqueue he]
      exact htx
    · intro htx
      obtain ⟨e, he, hea, -, -⟩ := hsender _ tx (List.mem_of_mem_head? htx)
      rw [← hea, hqueue he] at htx
      exact ⟨e, he, htx⟩
  · obtain ⟨e, he, htx⟩ := (hmem tx).1 (hperm.mem_iff.1 htx)
    have hs : tx.sender = e.1 := h.sender e he tx (List.mem_of_mem_head? htx)
    show t.txs tx.sender = _
    rw [htxs, hs, hqueue he, h.lookup he]
    rfl
  · obtain ⟨-, -, -, -, hs⟩ := hsender a tx htx
    exact hs

/-! ## Runs -/

/-- What holds after any calls. -/
structure Reached (entries : List (Address × List Tx)) (past : Past) (t : ByPriceAndNonce) : Prop where
  holds : Holds (left entries past) t
  order : ∀ a, ∃ rest, queue entries a = returned past a ++ rest ∧ (left entries past a = [] ∨ left entries past a = rest)

theorem Reached.advance {s : Past × ByPriceAndNonce} (h : Reached entries past t) (hs : advance (past, t) c = some s) :
    (∃ tx, t.peek = some tx ∧ s.1 = past ++ [(c, tx)]) ∧ Reached entries s.1 s.2 := by
  unfold ByPriceAndNonce.advance at hs
  cases hp : t.peek with
  | none => simp [hp] at hs
  | some tx =>
    obtain ⟨t', ht', hholds⟩ := h.holds.step hp c
    simp only [hp, ht', Option.bind_eq_bind, Option.bind_some, Option.pure_def, Option.some.injEq] at hs
    subst hs
    refine ⟨⟨tx, rfl, rfl⟩, by rw [left_step]; exact hholds, fun a => ?_⟩
    obtain ⟨rest, hq, hl⟩ := h.order a
    rw [returned_step, left_step]
    by_cases ha : tx.sender = a
    · subst ha
      -- the transaction is the first of those that are left
      have hhead := (h.holds.peek hp).1
      have hrest : left entries past tx.sender = rest := hl.resolve_left fun hnil => by rw [hnil] at hhead; cases hhead
      rw [hrest] at hhead
      obtain ⟨more, rfl⟩ : ∃ more, rest = tx :: more := ⟨_, List.eq_cons_of_mem_head? hhead⟩
      refine ⟨more, ?_, ?_⟩
      · rw [hq, if_pos rfl, List.append_assoc]
        rfl
      · rw [update_self, hrest]
        cases c with
        | shift => exact .inr rfl
        | pop => exact .inl rfl
    · rw [if_neg ha, List.append_nil, update_of_ne (fun h => ha h.symm)]
      exact ⟨rest, hq, hl⟩

theorem Reached.foldlM {cs : List Call} {s s' : Past × ByPriceAndNonce} (h : Reached entries s.1 s.2)
    (hs : cs.foldlM ByPriceAndNonce.advance s = some s') :
    s'.1.map (·.1) = s.1.map (·.1) ++ cs ∧ Reached entries s'.1 s'.2 := by
  induction cs generalizing s with
  | nil =>
    cases hs
    exact ⟨(List.append_nil _).symm, h⟩
  | cons c cs ih =>
    rw [List.foldlM_cons] at hs
    obtain ⟨s₁, hadv, hrest⟩ := Option.bind_eq_some_iff.1 hs
    obtain ⟨⟨tx, -, hpast⟩, hreached⟩ := h.advance hadv
    obtain ⟨hcalls, hr⟩ := ih hreached hrest
    refine ⟨?_, hr⟩
    rw [hcalls, hpast, List.map_append, List.append_assoc]
    rfl

theorem Reached.queue_eq (h : Reached entries past t) (hshift : ∀ p ∈ past, p.1 = .shift) (a : Address) :
    queue entries a = returned past a ++ left entries past a := by
  obtain ⟨rest, hq, -⟩ := h.order a
  have hnone : past.any (fun p => p.1 == .pop && p.2.sender == a) = false := by
    rw [List.any_eq_false]
    intro p hp
    simp [hshift p hp]
  have hleft : left entries past a = rest := by
    rw [left, hnone, ← length_returned, hq]
    simp
  rw [hleft, hq]

theorem Sorted.filter_flatMap (h : Sorted entries) (a : Address) :
    (entries.flatMap (·.2)).filter (fun tx => tx.sender == a) = queue entries a := by
  induction entries with
  | nil => rfl
  | cons e es ih =>
    rw [List.flatMap_cons, List.filter_append, ih h.tail, queue, queue, List.lookup_cons]
    by_cases ha : a = e.1
    · subst ha
      have hall : e.2.filter (fun tx => tx.sender == e.1) = e.2 :=
        List.filter_eq_self.2 fun tx htx => beq_iff_eq.2 (h.sender e List.mem_cons_self tx htx)
      simp [h.lookup_tail, hall]
    · have hnil : e.2.filter (fun tx => tx.sender == a) = [] :=
        List.filter_eq_nil_iff.2 fun tx htx he => ha ((beq_iff_eq.1 he).symm.trans (h.sender e List.mem_cons_self tx htx))
      rw [hnil, beq_false_of_ne ha, List.nil_append]

theorem count_returned (past : Past) (tx : Tx) : (returned past tx.sender).count tx = (past.map (·.2)).count tx :=
  List.count_filter (by simp)

theorem Sorted.count_queue (h : Sorted entries) (tx : Tx) :
    (queue entries tx.sender).count tx = (entries.flatMap (·.2)).count tx := by
  rw [← h.filter_flatMap]
  exact List.count_filter (by simp)

theorem Reached.subperm (h : Reached entries past t) (hs : Sorted entries) :
    (past.map (·.2)).Subperm (entries.flatMap (·.2)) := by
  rw [List.subperm_ext_iff]
  intro tx _
  obtain ⟨rest, hq, -⟩ := h.order tx.sender
  have hinitial : returned past tx.sender <+: queue entries tx.sender := ⟨rest, hq.symm⟩
  rw [← count_returned, ← hs.count_queue]
  exact hinitial.sublist.count_le tx

theorem Reached.perm_iff (h : Reached entries past t) (hs : Sorted entries) (hshift : ∀ p ∈ past, p.1 = .shift) :
    (past.map (·.2)).Perm (entries.flatMap (·.2)) ↔ t.peek = none := by
  rw [h.holds.peek_none]
  constructor
  · intro hperm a
    have hlen := (hperm.filter fun tx => tx.sender == a).length_eq
    rw [hs.filter_flatMap, h.queue_eq hshift, List.length_append] at hlen
    have hret : (returned past a).length = ((past.map (·.2)).filter fun tx => tx.sender == a).length := rfl
    exact List.eq_nil_of_length_eq_zero (by omega)
  · intro hempty
    rw [List.perm_iff_count]
    intro tx
    rw [← count_returned, ← hs.count_queue, h.queue_eq hshift, hempty, List.append_nil]

theorem Holds.step_isSome (h : Holds q t) (c : Call) : (t.step c).isSome = t.peek.isSome := by
  cases hp : t.peek with
  | some tx =>
    obtain ⟨t', ht', -⟩ := h.step hp c
    rw [ht']
    rfl
  | none =>
    have hnil : t.heads = [] := List.head?_eq_none_iff.1 hp
    cases c with
    | shift => simp [ByPriceAndNonce.step, ByPriceAndNonce.shift, hnil]
    | pop => simp [ByPriceAndNonce.step, ByPriceAndNonce.pop, hnil, Heap.pop]

theorem run_shifts {t₀ : ByPriceAndNonce} (h : Reached entries [] t₀) (hs : Sorted entries) :
    ∀ n ≤ (entries.flatMap (·.2)).length, ∃ past t, t₀.run (List.replicate n .shift) = some (past, t) ∧
      past.length = n ∧ (∀ p ∈ past, p.1 = .shift) ∧ Reached entries past t := by
  intro n
  induction n with
  | zero => exact fun _ => ⟨[], t₀, rfl, rfl, fun _ hp => absurd hp List.not_mem_nil, h⟩
  | succ n ih =>
    intro hn
    obtain ⟨past, t, hrun, hlen, hshift, hr⟩ := ih (by omega)
    cases hp : t.peek with
    | none =>
      have hperm := ((hr.perm_iff hs hshift).2 hp).length_eq
      rw [List.length_map] at hperm
      omega
    | some tx =>
      obtain ⟨t', ht', -⟩ := hr.holds.step hp .shift
      have hadv : advance (past, t) .shift = some (past ++ [(.shift, tx)], t') := by
        simp [advance, hp, ht']
      refine ⟨_, t', ?_, by simp [hlen], ?_, (hr.advance hadv).2⟩
      · unfold run at hrun ⊢
        rw [List.replicate_succ', List.foldlM_append, hrun]
        simp only [Option.bind_eq_bind, Option.bind_some, List.foldlM_cons, hadv, List.foldlM_nil]
        rfl
      · intro p hp
        rcases List.mem_append.1 hp with hp | hp
        · exact hshift p hp
        · rw [List.mem_singleton.1 hp]

/-- After any calls, `Peek` returns a transaction with the highest price among the
next of the accounts, and nothing when there is none. The transactions of an account
come by nonce, and with `Shift` only, each comes once. -/
theorem best_next (h : Sorted entries) :
    ∃ t₀, new entries = some t₀ ∧
      (∀ cs past t, t₀.run cs = some (past, t) →
        (∀ tx, t.peek = some tx → (left entries past tx.sender).head? = some tx ∧
          ∀ a u, (left entries past a).head? = some u → u.gasPrice ≤ tx.gasPrice) ∧
        (t.peek = none ↔ ∀ a, left entries past a = []) ∧
        (∀ c, (t.step c).isSome = t.peek.isSome) ∧
        (∀ a, returned past a <+: queue entries a ∧ (returned past a).Pairwise fun t u => t.nonce ≤ u.nonce) ∧
        ((∀ c ∈ cs, c = .shift) → t.peek = none → (past.map (·.2)).Perm (entries.flatMap (·.2)))) ∧
      ∃ past t, t₀.run (List.replicate (entries.flatMap (·.2)).length .shift) = some (past, t) ∧ t.peek = none := by
  obtain ⟨t₀, hnew, hholds⟩ := new_holds h
  have hr₀ : Reached entries [] t₀ := ⟨hholds, fun a => ⟨queue entries a, rfl, .inr rfl⟩⟩
  refine ⟨t₀, hnew, fun cs past t hrun => ?_, ?_⟩
  · obtain ⟨hcalls, hr⟩ := Reached.foldlM (s := ([], t₀)) hr₀ hrun
    refine ⟨fun tx hp => hr.holds.peek hp, hr.holds.peek_none, hr.holds.step_isSome, fun a => ?_, fun hshift hp => ?_⟩
    · obtain ⟨rest, hq, -⟩ := hr.order a
      have hinitial : returned past a <+: queue entries a := ⟨rest, hq.symm⟩
      refine ⟨hinitial, ?_⟩
      have hsorted : (queue entries a).Pairwise fun t u => t.nonce ≤ u.nonce := by
        unfold queue
        cases hl : entries.lookup a with
        | none => exact .nil
        | some l => exact h.nonces _ (mem_of_lookup hl)
      exact hsorted.sublist hinitial.sublist
    · refine (hr.perm_iff h fun p hp => hshift p.1 ?_).2 hp
      rw [List.map_nil, List.nil_append] at hcalls
      rw [← hcalls]
      exact List.mem_map_of_mem hp
  · obtain ⟨past, t, hrun, hlen, hshift, hr⟩ := run_shifts hr₀ h _ (Nat.le_refl _)
    refine ⟨past, t, hrun, (hr.perm_iff h hshift).1 ((hr.subperm h).perm_of_length_le ?_)⟩
    rw [List.length_map, hlen]

def twoAccounts : List (Address × List Tx) :=
  [(1, [⟨some 1, 0, 5, 21000, none, 0, [], [], 0⟩, ⟨some 1, 1, 9, 21000, none, 0, [], [], 0⟩]),
   (2, [⟨some 2, 7, 6, 21000, none, 0, [], [], 0⟩])]

theorem best_next_two : Sorted twoAccounts ∧ ∃ t₀, new twoAccounts = some t₀ ∧
    ∃ past t, t₀.run (List.replicate 3 .shift) = some (past, t) ∧ t.peek = none := by
  have hsorted : Sorted twoAccounts := ⟨by decide, by decide, by decide, by decide⟩
  obtain ⟨t₀, hnew, -, hrun⟩ := best_next hsorted
  exact ⟨hsorted, t₀, hnew, hrun⟩

end ByPriceAndNonce

end NdnGeth.TxPool
