/-
Additions to a full pool: what a rejected transaction leaves behind, and which
transactions go for one that is admitted.

Room is made before the rules for replacements are looked at, so a rejected
transaction may have cost others their place (`rejected_unchanged_iff`). And
whether a transaction is underpriced is decided by the cheapest entry, which
may be a local one that cannot go (`trades_down_iff`).
-/
import NdnGeth.TxPool.Limits

namespace NdnGeth.TxPool.Pool

open Types (Address)

variable {o : Order} {p : Pool} {tx : Tx}

variable {e : PoolError}

theorem enqueueTx_error (h : (p.enqueueTx o tx).2 = .error e) : p.enqueueTx o tx = (p, .error .replaceUnderpriced) := by
  unfold enqueueTx at h ⊢
  split at h
  · rfl
  · simp at h

theorem insertTx_error {isLocal : Bool} (h : (p.insertTx o tx isLocal).2 = .error e) :
    p.insertTx o tx isLocal = (p, .error .replaceUnderpriced) := by
  unfold insertTx at h ⊢
  split at h
  · split at h
    · rfl
    · simp at h
  · split at h
    · next heq =>
      rw [← heq]
      exact enqueueTx_error (congrArg Prod.snd heq)
    · simp at h

/-- The remote transactions that may be evicted. -/
def evictable (p : Pool) : List Tx := p.priced.evictable p.all.all p.locals

theorem add_of_full (hnew : tx ∉ p.all.all) {isLocal : Bool} (hvalid : p.validateTx tx isLocal = none) (hfull : p.config.capacity ≤ p.all.count) :
    p.add o tx isLocal =
      (let (isUnderpriced, p) := if isLocal then (false, p) else p.underpriced tx
        if isUnderpriced then (p, .error .underpriced) else (p.makeRoom o tx).insertTx o tx isLocal) := by
  unfold add
  rw [if_neg hnew, hvalid]
  simp only [hfull, if_true]

/-- The transactions, the local accounts and the nonces are the same. -/
def SameTxs (p p' : Pool) : Prop :=
  p'.pending = p.pending ∧ p'.queue = p.queue ∧ p'.all = p.all ∧ p'.locals = p.locals ∧ p'.pendingNonces = p.pendingNonces

theorem makeRoom_same_iff (hc : p.Consistent) (tx : Tx) : p.SameTxs (p.makeRoom o tx) ↔ p.excess tx ≤ 0 ∨ p.evictable = [] := by
  unfold evictable
  rw [← TxPricedList.discard_eq_nil]
  constructor
  · rintro ⟨-, -, hall, -, -⟩
    refine List.eq_nil_iff_forall_not_mem.2 fun t ht => ?_
    have hmem := List.mem_filter.1 ((TxPricedList.discard_le_iff _ _ _ 0 (p.excess tx)).1 t ht)
    have hin : t ∈ p.all.all := (of_decide_eq_true hmem.2).1
    rw [← hall] at hin
    exact (((makeRoom_spec hc tx).2 t).1 hin).2 ht
  · intro hnil
    simp only [makeRoom]
    rw [hnil]
    exact ⟨rfl, rfl, rfl, rfl, rfl⟩

/-- A full pool makes room for the transaction: it is new, valid and not
underpriced. -/
def MakesRoom (p : Pool) (tx : Tx) (isLocal : Bool) : Prop :=
  p.config.capacity ≤ p.all.count ∧ tx ∉ p.all.all ∧ p.validateTx tx isLocal = none ∧ (isLocal = true ∨ (p.underpriced tx).1 = false)

/-- A rejected transaction leaves the pool as it was, unless others were evicted to
make room for it. -/
theorem rejected_unchanged_iff (h : p.Reachable) (o : Order) (tx : Tx) (isLocal : Bool)
    (herr : (p.add o tx isLocal).2 = .error e) :
    p.SameTxs (p.add o tx isLocal).1 ↔
      ¬(p.MakesRoom tx isLocal ∧ 0 < p.excess tx ∧ p.evictable ≠ []) := by
  unfold MakesRoom
  have hsame : p.SameTxs p := ⟨rfl, rfl, rfl, rfl, rfl⟩
  by_cases hnew : tx ∈ p.all.all
  · unfold add at herr ⊢
    rw [if_pos hnew] at herr ⊢
    simp [hsame, hnew]
  cases hvalid : p.validateTx tx isLocal with
  | some e' =>
    unfold add at herr ⊢
    rw [if_neg hnew, hvalid] at herr ⊢
    simp [hsame]
  | none =>
    by_cases hfull : p.config.capacity ≤ p.all.count
    · rw [add_of_full hnew hvalid hfull] at herr ⊢
      obtain ⟨isUnderpriced, priced, hcheck, hperm⟩ := check_eq p tx isLocal
      change (priced.evictable p.all.all p.locals).Perm p.evictable at hperm
      have hprice : isLocal = true ∨ (p.underpriced tx).1 = false ↔ isUnderpriced = false := by
        have hfst := congrArg Prod.fst hcheck
        cases isLocal with
        | true => exact iff_of_true (.inl rfl) hfst.symm
        | false =>
          rw [show (p.underpriced tx).1 = isUnderpriced from hfst]
          simp
      rw [hcheck] at herr ⊢
      rw [hprice]
      cases isUnderpriced with
      | true =>
        have hsame' : p.SameTxs { p with priced } := hsame
        simp [hsame']
      | false =>
        simp only [Bool.false_eq_true, if_false] at herr ⊢
        have hins := insertTx_error herr
        rw [hins]
        have hc : Consistent { p with priced } := h.consistent.congr rfl rfl rfl rfl rfl
        have hroom := makeRoom_same_iff (o := o) hc tx
        have hnil : priced.evictable p.all.all p.locals = [] ↔ p.evictable = [] :=
          ⟨fun hnil => (hnil ▸ hperm).nil_eq.symm, fun hnil => (hnil ▸ hperm).eq_nil⟩
        refine hroom.trans ?_
        simp only [excess, evictable] at hnil ⊢
        rw [hnil]
        simp only [hfull, hnew, not_false_eq_true, true_and, not_and_or, ne_eq, not_not, Int.not_lt]
    · unfold add at herr ⊢
      rw [if_neg hnew, hvalid] at herr ⊢
      simp only [hfull, if_false] at herr ⊢
      rw [insertTx_error herr]
      simp [hsame]

/-- Room for two transactions, and two of them. -/
def fullPool : Pool := (new { Config.default with globalSlots := 1, globalQueue := 1 } plainHead).run
  [(Op.add (transfer 1 5 1) false).at 0, (Op.add (transfer 2 5 10) false).at 0]

/-- Two of one nonce: the second is no better than the first, but another one has
to go before that is seen. -/
theorem rejected_evicts : ∃ (p : Pool) (o : Order) (tx : Tx) (e : PoolError), p.Reachable ∧
    (p.add o tx false).2 = .error e ∧ ¬p.SameTxs (p.add o tx false).1 := by
  let tx : Tx := { transfer 2 5 10 with data := [0], gas := 30000 }
  have hlost : transfer 1 5 1 ∈ fullPool.all.all ∧ transfer 1 5 1 ∉ (fullPool.add plainOrder tx false).1.all.all := by
    decide +kernel
  refine ⟨fullPool, plainOrder, tx, .replaceUnderpriced, ⟨_, _, _, rfl⟩, by decide +kernel, ?_⟩
  rintro ⟨-, -, hall, -, -⟩
  rw [hall] at hlost
  exact hlost.2 hlost.1

/-- A replacement that is as cheap as the cheapest in the pool. -/
theorem rejected_unchanged_iff_full : fullPool.config.capacity ≤ fullPool.all.count ∧
    fullPool.SameTxs (fullPool.add plainOrder { transfer 2 5 1 with data := [0], gas := 30000 } false).1 := by
  refine ⟨by decide +kernel, (rejected_unchanged_iff (e := .underpriced) ⟨_, _, _, rfl⟩ plainOrder _ false (by decide +kernel)).2 ?_⟩
  rintro ⟨⟨-, -, -, hprice⟩, -⟩
  exact absurd hprice (by decide +kernel)

/-- What goes when a remote transaction comes into a full pool: remote
transactions only, and none with a higher price exactly if those that are not
have the slots, or are all there is. -/
theorem trades_down_iff (h : p.Reachable) (o : Order) {tx : Tx} (hnew : tx ∉ p.all.all) (hvalid : p.validateTx tx false = none)
    (hfull : p.config.capacity ≤ p.all.count) (hprice : (p.underpriced tx).1 = false) :
    let room := (p.underpriced tx).2.makeRoom o tx
    p.add o tx false = room.insertTx o tx false ∧ (∀ t ∈ p.all.all, t ∉ room.all.all → containsTx p.locals t = false) ∧
      ((∀ t ∈ p.all.all, t ∉ room.all.all → t.gasPrice ≤ tx.gasPrice) ↔
        p.excess tx ≤ TxPricedList.slotsUpTo tx.gasPrice p.evictable ∨ ∀ t ∈ p.evictable, t.gasPrice ≤ tx.gasPrice) := by
  intro room
  have hc : (p.underpriced tx).2.Consistent := h.consistent.congr rfl rfl rfl rfl rfl
  have hperm : ((p.underpriced tx).2.evictable).Perm p.evictable := TxPricedList.underpriced_evictable tx
  obtain ⟨-, hall⟩ := makeRoom_spec (o := o) hc tx
  obtain ⟨hsub, hle⟩ := TxPricedList.discard_le_iff p.all.all p.locals (p.underpriced tx).2.priced tx.gasPrice
    ((p.underpriced tx).2.excess tx)
  have hgone : ∀ t, t ∈ p.all.all ∧ t ∉ room.all.all ↔
      t ∈ ((p.underpriced tx).2.priced.discard p.all.all p.locals ((p.underpriced tx).2.excess tx)).1 := by
    intro t
    have hin := fun ht => (of_decide_eq_true (List.mem_filter.1 (hsub t ht)).2).1
    have := hall t
    exact ⟨fun ⟨ht, hout⟩ => by_contra fun hnot => hout (this.2 ⟨ht, hnot⟩), fun ht => ⟨hin ht, fun hroom => (this.1 hroom).2 ht⟩⟩
  refine ⟨?_, fun t ht hout => ?_, ?_⟩
  · rw [add_of_full hnew hvalid hfull]
    simp [hprice, room]
  · exact (of_decide_eq_true (List.mem_filter.1 (hsub t ((hgone t).1 ⟨ht, hout⟩))).2).2
  · have : (∀ t ∈ p.all.all, t ∉ room.all.all → t.gasPrice ≤ tx.gasPrice) ↔
        ∀ t ∈ ((p.underpriced tx).2.priced.discard p.all.all p.locals ((p.underpriced tx).2.excess tx)).1, t.gasPrice ≤ tx.gasPrice :=
      ⟨fun h t ht => h t ((hgone t).2 ht).1 ((hgone t).2 ht).2, fun h t ht hout => h t ((hgone t).1 ⟨ht, hout⟩)⟩
    rw [this, hle, ← TxPricedList.slotsUpTo_perm _ hperm]
    simp only [← hperm.mem_iff]
    rfl

/-- A cheap local transaction lets a remote one in, for which a dearer one goes. -/
theorem trades_down : ∃ (p : Pool) (o : Order) (tx t : Tx), p.Reachable ∧ (p.add o tx false).2 = .ok false ∧
    t ∈ p.all.all ∧ t ∉ (p.add o tx false).1.all.all ∧ tx.gasPrice < t.gasPrice :=
  let config : Config := { Config.default with globalSlots := 1, globalQueue := 1 }
  let events := [(Op.add (transfer 1 0 1) true).at 0, (Op.add (transfer 2 0 10) false).at 0]
  ⟨(new config plainHead).run events, plainOrder, transfer 3 0 5, transfer 2 0 10, ⟨_, _, _, rfl⟩, by decide +kernel⟩

theorem trades_down_iff_two :
    let config : Config := { Config.default with globalSlots := 1, globalQueue := 1 }
    let p := (new config plainHead).run [(Op.add (transfer 1 0 1) false).at 0, (Op.add (transfer 2 0 10) false).at 0]
    let room := (p.underpriced (transfer 3 0 5)).2.makeRoom plainOrder (transfer 3 0 5)
    (∀ t ∈ p.all.all, t ∉ room.all.all → t.gasPrice ≤ 5) ∧ transfer 1 0 1 ∈ p.all.all ∧ transfer 1 0 1 ∉ room.all.all :=
  ⟨(trades_down_iff ⟨_, _, _, rfl⟩ plainOrder (by decide +kernel) (by decide +kernel) (by decide +kernel) (by decide +kernel)).2.2.2
    (by decide +kernel), by decide +kernel⟩

end NdnGeth.TxPool.Pool
