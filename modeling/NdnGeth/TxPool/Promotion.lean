/-
Reorganisations of the pool: which transactions stay in the queue.

A reset takes the virtual nonces back to the nonces of the state, and promotion
starts from there. Where the account's pending transactions are still to come,
a queued one that follows the last of them is not reached (`left_behind`), and
afterwards the virtual nonce is again the one after the pending ones, which is
that transaction's. `executables_promoted` says that this is the only way.
-/
import NdnGeth.TxPool.Limits

namespace NdnGeth.TxPool.Pool

open Types (Address)
open Vm (two64)

variable {o : Order} {p p' p'' : Pool} {a : Address}

/-! ## Accounts on their own -/

/-- An account is as it was, and so is what decides about it. -/
structure Keeps (a : Address) (p p' : Pool) : Prop where
  stateNonce : p'.stateNonce = p.stateNonce
  stateBalance : p'.stateBalance = p.stateBalance
  currentMaxGas : p'.currentMaxGas = p.currentMaxGas
  pending : p'.pending.txs a = p.pending.txs a
  queue : p'.queue.txs a = p.queue.txs a
  pendingNonces : p'.pendingNonces a = p.pendingNonces a

theorem Keeps.refl (a : Address) (p : Pool) : Keeps a p p := ⟨rfl, rfl, rfl, rfl, rfl, rfl⟩

theorem Keeps.trans (h : Keeps a p p') (h' : Keeps a p' p'') : Keeps a p p'' where
  stateNonce := h'.stateNonce.trans h.stateNonce
  stateBalance := h'.stateBalance.trans h.stateBalance
  currentMaxGas := h'.currentMaxGas.trans h.currentMaxGas
  pending := h'.pending.trans h.pending
  queue := h'.queue.trans h.queue
  pendingNonces := h'.pendingNonces.trans h.pendingNonces

theorem Touches.keeps {b : Address} (h : Touches b p p') (hab : a ≠ b) : Keeps a p p' :=
  ⟨h.stateNonce, h.stateBalance, h.currentMaxGas, h.pending a hab, h.queue a hab, h.pendingNonces a hab⟩

theorem Keeps.payable (h : Keeps a p p') {t : Tx} : p'.Payable a t ↔ p.Payable a t := by
  rw [Payable, h.stateBalance, h.currentMaxGas]

theorem Keeps.ready (h : Keeps a p p') : p'.ready a = p.ready a := by
  have hexec : p'.executable a = p.executable a := by
    refine TxSortedMap.ext ?_
    simp only [executable, h.queue, h.stateNonce, h.payable]
  rw [Pool.ready, hexec, h.pendingNonces, Pool.ready]

section Rounds

variable {f : Pool → Address → Pool} (hf : ∀ p b, p.Consistent → (f p b).Consistent ∧ Touches b p (f p b))

include hf

theorem foldl_keeps : ∀ {addrs : List Address} {p : Pool}, p.Consistent → a ∉ addrs →
    (addrs.foldl f p).Consistent ∧ Keeps a p (addrs.foldl f p)
  | [], p, hc, _ => ⟨hc, .refl a p⟩
  | b :: addrs, p, hc, ha => by
    rw [List.mem_cons, not_or] at ha
    obtain ⟨hc₁, htouches⟩ := hf p b hc
    obtain ⟨hc₂, hkeeps⟩ := foldl_keeps hc₁ ha.2
    exact ⟨hc₂, (htouches.keeps ha.1).trans hkeeps⟩

theorem foldl_round : ∀ {addrs : List Address} {p : Pool}, p.Consistent → addrs.Nodup → a ∈ addrs →
    ∃ q, q.Consistent ∧ Keeps a p q ∧ (addrs.foldl f p).Consistent ∧ Keeps a (f q a) (addrs.foldl f p)
  | b :: addrs, p, hc, hnodup, ha => by
    obtain ⟨hnot, hnodup⟩ := List.nodup_cons.1 hnodup
    obtain ⟨hc₁, htouches⟩ := hf p b hc
    by_cases hab : a = b
    · subst hab
      exact ⟨p, hc, .refl a p, foldl_keeps hf hc₁ hnot⟩
    · obtain ⟨q, hq, hkeeps, hlast⟩ := foldl_round hc₁ hnodup ((List.mem_cons.1 ha).resolve_left hab)
      exact ⟨q, hq, (htouches.keeps hab).trans hkeeps, hlast⟩

end Rounds

variable {addrs : List Address}

theorem promoteExecutables_spec (hc : p.Consistent) (now : Time) (hnodup : addrs.Nodup)
    (ha : a ∈ addrs ∨ p.queue.txs a = []) :
    let p' := p.promoteExecutables o now addrs
    p'.Consistent ∧ p'.stateNonce = p.stateNonce ∧ (∀ t, p'.Payable a t ↔ p.Payable a t) ∧
      (∀ t, t ∈ p'.pending.txs a ↔ t ∈ p.pending.txs a ∨ t ∈ (p.ready a).1) ∧ (∀ t ∈ p'.queue.txs a, t ∈ (p.ready a).2.items) ∧
      ((p.ready a).1 = [] → p'.pendingNonces a = p.pendingNonces a) := by
  intro p'
  have hround : ∀ p b, p.Consistent → (p.promoteAccount o now b).Consistent ∧ Touches b p (p.promoteAccount o now b) := fun p b hc =>
    ⟨(promoteAccount_spec hc now b).1, (promoteAccount_spec hc now b).2.1⟩
  by_cases hin : a ∈ addrs
  · obtain ⟨q, hq, hkeeps, hc', hlast⟩ := foldl_round hround hc hnodup hin
    obtain ⟨-, htouches, hpending, hqueue, hnonces⟩ := promoteAccount_spec (o := o) hq now a
    rw [hkeeps.ready] at hpending hqueue hnonces
    rw [hkeeps.pending] at hpending
    refine ⟨hc', ?_, fun t => ?_, fun t => ?_, fun t ht => ?_, fun h => ?_⟩
    · exact hlast.stateNonce.trans (htouches.stateNonce.trans hkeeps.stateNonce)
    · refine hlast.payable.trans ?_
      rw [Payable, htouches.stateBalance, htouches.currentMaxGas]
      exact hkeeps.payable
    · exact hlast.pending ▸ hpending t
    · exact hqueue t (hlast.queue ▸ ht)
    · exact hlast.pendingNonces.trans ((hnonces h).trans hkeeps.pendingNonces)
  · have hnil := ha.resolve_left hin
    obtain ⟨hc', hkeeps⟩ := foldl_keeps hround hc hin
    have hnone : ∀ t, t ∉ (p.ready a).1 := fun t ht => by
      have := (mem_executable.1 (mem_executable_of_ready (.inl ht))).1
      simp [hnil] at this
    refine ⟨hc', hkeeps.stateNonce, fun t => hkeeps.payable, fun t => ?_, fun t ht => ?_, fun _ => hkeeps.pendingNonces⟩
    · simp only [hnone, or_false]
      exact hkeeps.pending ▸ Iff.rfl
    · have : t ∈ p.queue.txs a := hkeeps.queue ▸ ht
      simp [hnil] at this

theorem demoteUnexecutables_spec (hc : p.Consistent) (a : Address) :
    let p' := p.demoteUnexecutables o
    p'.Consistent ∧ p'.pendingNonces a = p.pendingNonces a ∧ (∀ t ∈ p'.pending.txs a, t ∈ p.pending.txs a) ∧
      (∀ t ∈ p'.queue.txs a, t ∈ p.queue.txs a ∨ p.stateNonce a < t.nonce ∧ ∀ u ∈ p'.pending.txs a, u.nonce + 1 < t.nonce) ∧
      ∀ t ∈ p.pending.txs a, p.Payable a t → t.nonce = p.stateNonce a → t ∈ p'.pending.txs a := by
  intro p'
  have hround : ∀ p b, p.Consistent → (p.demoteAccount o b).Consistent ∧ Touches b p (p.demoteAccount o b) := fun p b hc =>
    ⟨(demoteAccount_spec hc b).1, (demoteAccount_spec hc b).2.1⟩
  by_cases hin : a ∈ o.addrs p.pending.keys
  · obtain ⟨q, hq, hkeeps, hc', hlast⟩ := foldl_round hround hc ((o.addrs_perm _).nodup_iff.2 p.pending.keys_nodup) hin
    obtain ⟨-, -, hnonces, hpending, hqueue, hfirst⟩ := demoteAccount_spec (o := o) hq a
    rw [← hlast.pending] at hpending hqueue hfirst
    rw [← hlast.queue] at hqueue
    rw [hkeeps.pending] at hpending hfirst
    rw [hkeeps.queue, hkeeps.stateNonce] at hqueue
    refine ⟨hc', ?_, hpending, hqueue, fun t ht hpay hn => hfirst t ht (hkeeps.payable.2 hpay) (hkeeps.stateNonce ▸ hn)⟩
    exact hlast.pendingNonces.trans (hnonces ▸ hkeeps.pendingNonces)
  · obtain ⟨hc', hkeeps⟩ := foldl_keeps hround hc hin
    refine ⟨hc', hkeeps.pendingNonces, ?_, fun t ht => .inl ?_, fun t ht _ _ => ?_⟩
    · exact hkeeps.pending ▸ fun _ => id
    · exact hkeeps.queue ▸ ht
    · exact hkeeps.pending ▸ ht

/-! ## Resets -/

def head (p : Pool) : Head := ⟨p.stateNonce, p.stateBalance, p.currentMaxGas, p.istanbul⟩

/-- Virtual nonces only go down, on one head. -/
def Lowers (p p' : Pool) : Prop := p'.head = p.head ∧ ∀ a, p'.pendingNonces a ≤ p.pendingNonces a

theorem Lowers.refl (p : Pool) : p.Lowers p := ⟨rfl, fun _ => Nat.le_refl _⟩

theorem Lowers.trans (h : p.Lowers p') (h' : p'.Lowers p'') : p.Lowers p'' :=
  ⟨h'.1.trans h.1, fun a => (h'.2 a).trans (h.2 a)⟩

theorem foldl_lowers {α : Type} {f : Pool → α → Pool} (hf : ∀ (p : Pool) (x : α), p.Lowers (f p x)) :
    ∀ (l : List α) (p : Pool), p.Lowers (l.foldl f p)
  | [], p => .refl p
  | x :: l, p => (hf p x).trans (foldl_lowers hf l (f p x))

theorem enqueueTx_lowers (p : Pool) (tx : Tx) : p.Lowers (p.enqueueTx o tx).1 := by
  unfold enqueueTx
  split
  · exact .refl p
  · next list old _ =>
    obtain ⟨all, priced, crashed, heq, -⟩ := discardOld_eq (o := o) { p with queue := p.queue.insert tx.sender list } old
    simp only [heq]
    split
    · exact .refl p
    · exact .refl p

theorem setIfLower_lowers (p : Pool) (a : Address) (nonce : Nat) : p.Lowers (p.setIfLower a nonce) := by
  unfold setIfLower
  split
  · exact .refl p
  · next h =>
    refine ⟨rfl, fun b => ?_⟩
    by_cases hb : b = a
    · subst hb
      simp only [Function.update_self]
      omega
    · exact Nat.le_of_eq (Function.update_of_ne hb ..)

theorem removeTx_lowers (outofbound : Bool) (p : Pool) (tx : Tx) : p.Lowers (p.removeTx o outofbound tx) := by
  unfold removeTx
  split
  · exact .refl p
  · have hforget : p.Lowers (if outofbound then (p.forget tx).removed o 1 else p.forget tx) := by
      split <;> exact .refl p
    simp only
    split
    · next invalids list _ =>
      have hpostpone := foldl_lowers (enqueueTx_lowers (o := o)) invalids
        (writePending (if outofbound then (p.forget tx).removed o 1 else p.forget tx) tx.sender list)
      exact hforget.trans (hpostpone.trans (setIfLower_lowers ..))
    · obtain ⟨queue, heq, -⟩ := removeQueued_eq (if outofbound then (p.forget tx).removed o 1 else p.forget tx) tx
      rw [heq]
      exact hforget

theorem insertTx_lowers (p : Pool) (tx : Tx) (isLocal : Bool) : p.Lowers (p.insertTx o tx isLocal).1 := by
  unfold insertTx
  split
  · split
    · exact .refl p
    · next list old _ =>
      obtain ⟨all, priced, crashed, heq, -⟩ := discardOld_eq (o := o) { p with pending := p.pending.insert tx.sender list } old
      simp only [heq]
      exact .refl p
  · have := enqueueTx_lowers (o := o) p tx
    split
    · next heq => exact heq ▸ this
    · next heq =>
      rw [heq] at this
      exact this

theorem add_lowers (isLocal : Bool) (p : Pool) (tx : Tx) : p.Lowers (p.add o tx isLocal).1 := by
  unfold add
  split
  · exact .refl p
  · split
    · exact .refl p
    · split
      · obtain ⟨isUnderpriced, priced, heq, -⟩ := check_eq p tx isLocal
        simp only [heq]
        split
        · exact .refl p
        · have hroom : p.Lowers ({ p with priced }.makeRoom o tx) := foldl_lowers (removeTx_lowers false) _ _
          exact hroom.trans (insertTx_lowers ..)
      · exact insertTx_lowers ..

theorem addTxs_lowers (p : Pool) (txs : List Tx) (isLocal : Bool) : p.Lowers (p.addTxs o txs isLocal) :=
  foldl_lowers (add_lowers isLocal) txs p

theorem reset_nonces (p : Pool) (head : Head) (reinject : List Tx) (a : Address) :
    (p.reset o (some (head, reinject))).pendingNonces a ≤ (p.reset o (some (head, reinject))).stateNonce a := by
  let p₀ := { p with stateNonce := head.nonce, stateBalance := head.balance, pendingNonces := head.nonce, currentMaxGas := head.gasLimit }
  have h : p₀.Lowers (p₀.addTxs o reinject false) := addTxs_lowers p₀ reinject false
  change (p₀.addTxs o reinject false).pendingNonces a ≤ (p₀.addTxs o reinject false).stateNonce a
  rw [show (p₀.addTxs o reinject false).stateNonce = p₀.stateNonce from congrArg Head.nonce h.1]
  exact h.2 a

/-! ## Whole reorganisations -/

/-- What promotion and demotion leave of an account: nothing queued follows what
is pending, or, where nothing is, has the virtual nonce. -/
def Settled (p : Pool) (a : Address) : Prop :=
  (∀ u ∈ p.pending.txs a, ∀ t ∈ p.queue.txs a, t.nonce ≠ (u.nonce + 1) % two64) ∧
    (p.pending.txs a = [] → ∀ t ∈ p.queue.txs a, t.nonce ≠ p.pendingNonces a)

theorem ne_of_gap {u t : Tx} (h : u.nonce + 1 < t.nonce) : t.nonce ≠ (u.nonce + 1) % two64 := by
  have := Nat.mod_le (u.nonce + 1) two64
  omega

/-- Promotion comes to the transaction: the first that can be executed has at most
the virtual nonce, and no nonce is missing in between. -/
def Reached (p : Pool) (a : Address) (t : Tx) : Prop :=
  (∃ s ∈ (p.executable a).items, s.nonce ≤ p.pendingNonces a) ∧
    ∀ s ∈ (p.executable a).items, ∀ n < t.nonce, s.nonce ≤ n → ∃ u ∈ (p.executable a).items, u.nonce = n

theorem Reached.not_left {t : Tx} (h : p.Reached a t) : t ∉ (p.ready a).2.items := by
  intro ht
  obtain ⟨hgap, habove, -⟩ := TxSortedMap.ready_spec (m := p.executable a) (p.pendingNonces a)
  obtain ⟨s, hs, hle⟩ := h.1
  obtain ⟨s₀, hs₀⟩ := List.exists_mem_of_ne_nil (p.ready a).1 fun hnil => by
    have := habove hnil s hs
    omega
  -- from one that is taken on, so is every next one
  have hall : ∀ n, s₀.nonce ≤ n → n < t.nonce → ∃ u ∈ (p.ready a).1, u.nonce = n := by
    intro n hn
    induction n, hn using Nat.le_induction with
    | base => exact fun _ => ⟨s₀, hs₀, rfl⟩
    | succ n hn ih =>
      intro hlt
      obtain ⟨u, hu, rfl⟩ := ih (by omega)
      obtain ⟨u', hu', heq⟩ := h.2 s₀ (mem_executable_of_ready (.inl hs₀)) _ hlt (by omega)
      rcases ((TxSortedMap.ready_divides (p.pendingNonces a)).mem_iff u').1 hu' with h' | h'
      · exact ⟨u', h', heq⟩
      · have := hgap u hu u' h'
        omega
  have hlast := hgap s₀ hs₀ t ht
  obtain ⟨u, hu, heq⟩ := hall (t.nonce - 1) (by omega) (by omega)
  have := hgap u hu t ht
  omega

/-- A transaction that can be executed and follows a pending one is reached. -/
def NoneFollows (p : Pool) (a : Address) : Prop :=
  ∀ u ∈ p.pending.txs a, ∀ t ∈ (p.executable a).items, t.nonce = (u.nonce + 1) % two64 → p.Reached a t

theorem promoteExecutables_settled (hc : p.Consistent) (now : Time) (hnodup : addrs.Nodup)
    (ha : a ∈ addrs ∨ p.queue.txs a = []) (hnone : p.NoneFollows a) : (p.promoteExecutables o now addrs).Settled a := by
  obtain ⟨-, -, -, hpending, hqueue, hnonces⟩ := promoteExecutables_spec (o := o) hc now hnodup ha
  obtain ⟨hgap, habove, -⟩ := TxSortedMap.ready_spec (m := p.executable a) (p.pendingNonces a)
  refine ⟨fun u hu t ht => ?_, fun hnil t ht => ?_⟩
  · rcases (hpending u).1 hu with hu | hu
    · intro heq
      have hleft := hqueue t ht
      exact (hnone u hu t (mem_executable_of_ready (.inr hleft)) heq).not_left hleft
    · exact ne_of_gap (hgap u hu t (hqueue t ht))
  · have hready : (p.ready a).1 = [] := List.eq_nil_iff_forall_not_mem.2 fun u hu => by
      have := (hpending u).2 (.inr hu)
      simp [hnil] at this
    rw [hnonces hready]
    exact Nat.ne_of_gt (habove hready t (mem_executable_of_ready (.inr (hqueue t ht))))

/-- After a reset the virtual nonce is at most that of the state, so the first
transaction that is promoted is the next one, and stays. -/
theorem demoteUnexecutables_settled (hc : p.Consistent) (now : Time) (hnodup : addrs.Nodup)
    (ha : a ∈ addrs ∨ p.queue.txs a = []) (hnone : p.NoneFollows a) (hle : p.pendingNonces a ≤ p.stateNonce a) :
    ((p.promoteExecutables o now addrs).demoteUnexecutables o).Settled a := by
  obtain ⟨hc₁, hstate, hpay, hpending₁, hqueue₁, hnonces₁⟩ := promoteExecutables_spec (o := o) hc now hnodup ha
  obtain ⟨hsettled, -⟩ := promoteExecutables_settled (o := o) hc now hnodup ha hnone
  obtain ⟨-, hnonces, hpending, hqueue, hfirst⟩ := demoteUnexecutables_spec (o := o) hc₁ a
  obtain ⟨-, habove, hstart⟩ := TxSortedMap.ready_spec (m := p.executable a) (p.pendingNonces a)
  refine ⟨fun u hu t ht => ?_, fun hnil t ht => ?_⟩
  · rcases hqueue t ht with ht | ⟨-, hgap⟩
    · exact hsettled u (hpending u hu) t ht
    · exact ne_of_gap (hgap u hu)
  · have hready : (p.ready a).1 = [] := by
      by_contra hne
      obtain ⟨u, hu, hlow⟩ := hstart hne
      obtain ⟨-, hge, hpays⟩ := mem_executable.1 (mem_executable_of_ready (.inl hu))
      have hstays := hfirst u ((hpending₁ u).2 (.inr hu)) ((hpay u).2 hpays) (by rw [hstate]; omega)
      simp [hnil] at hstays
    rw [hnonces, hnonces₁ hready]
    rcases hqueue t ht with ht | ⟨hlt, -⟩
    · exact Nat.ne_of_gt (habove hready t (mem_executable_of_ready (.inr (hqueue₁ t ht))))
    · rw [hstate] at hlt
      omega

theorem truncate_settled (hc : p.Consistent) (h : p.Settled a) (o o' : Order) :
    let p' := ((p.truncatePending o).truncateQueue o').updateNonces
    ∀ t ∈ p'.queue.txs a, t.nonce ≠ p'.pendingNonces a := by
  intro p' t ht
  obtain ⟨f, hcut, hfair, -⟩ := truncatePending_spec (o := o) hc
  have hpending := hcut.pending a
  have hnonces := hcut.pendingNonces a
  obtain ⟨-, all, priced, crashed, queue, heq, -, htake, -⟩ := truncateQueue_spec (o := o') hcut.consistent
  have hp' : p' = updateNonces { p.truncatePending o with all, priced, crashed, queue } := by rw [← heq]
  obtain ⟨n, hn⟩ := htake a
  have hqueue : (p.truncatePending o).queue = p.queue := by
    obtain ⟨_, _, _, _, _, hrest⟩ := hcut.rest
    rw [hrest]
  have ht : t ∈ p.queue.txs a := by
    rw [hp'] at ht
    rw [hqueue] at hn
    exact List.mem_of_mem_take (hn ▸ ht)
  have hset : p'.pendingNonces a =
      ((p.truncatePending o).pending.txs a).getLast?.elim ((p.truncatePending o).pendingNonces a) fun tx => (tx.nonce + 1) % two64 := by
    rw [hp']
    rfl
  rw [hset]
  cases hlast : ((p.truncatePending o).pending.txs a).getLast? with
  | some u =>
    rw [hpending] at hlast
    exact h.1 u (List.mem_of_mem_take (List.mem_of_getLast? hlast)) t ht
  | none =>
    -- the limits leave something of what an account has pending
    have hnil : p.pending.txs a = [] := by
      rw [List.getLast?_eq_none_iff, hpending, List.take_eq_nil_iff] at hlast
      have := hc.slots
      rcases hlast with hzero | hnil
      · rcases hfair a with hf | ⟨-, -, hf, -⟩
        · exact List.eq_nil_of_length_eq_zero (hf ▸ hzero)
        · omega
      · exact hnil
    rw [Option.elim_none, hnonces hnil]
    exact h.2 hnil t ht

/-- After a reorganisation no queued transaction of an account that was gone
through has the account's next nonce, if every one that follows a pending one was
reached. -/
theorem executables_promoted (h : p.Reachable) (o : Order) (now : Time) {request : Option Reset} (hhead : request ≠ some none)
    {dirtyAccounts : List Address} (hnodup : dirtyAccounts.Nodup) {a : Address} (ha : request = none → a ∈ dirtyAccounts)
    (hnone : (request.elim p (p.reset o)).NoneFollows a) :
    let p' := p.runReorg o now request dirtyAccounts
    ∀ t ∈ p'.queue.txs a, t.nonce ≠ p'.pendingNonces a := by
  rcases request with _ | _ | ⟨head, reinject⟩
  · exact truncate_settled (promoteExecutables_consistent h.consistent now _)
      (promoteExecutables_settled h.consistent now hnodup (.inl (ha rfl)) hnone) o o
  · exact absurd rfl hhead
  · have hc : (p.reset o (some (head, reinject))).Consistent := reset_consistent h.consistent _
    have hkeys := o.addrs_perm (p.reset o (some (head, reinject))).queue.keys
    have hall : a ∈ o.addrs (p.reset o (some (head, reinject))).queue.keys ∨ (p.reset o (some (head, reinject))).queue.txs a = [] := by
      by_cases hin : a ∈ (p.reset o (some (head, reinject))).queue.keys
      · exact .inl (hkeys.mem_iff.2 hin)
      · right
        rw [Accounts.txs, AList.lookup_eq_none.2 fun h => hin (AList.mem_keys.1 h)]
        rfl
    exact truncate_settled (demoteUnexecutables_consistent (promoteExecutables_consistent hc now _))
      (demoteUnexecutables_settled hc now (hkeys.nodup_iff.2 (AList.keys_nodup _)) hall hnone (reset_nonces p head reinject a)) o o

/-- Two transactions are pending and a third is queued when a block comes that has
none of them: the third stays where it is, though it is the next one. -/
theorem left_behind : ∃ (p : Pool) (o : Order) (now : Time) (head : Head) (a : Address) (t : Tx), p.Reachable ∧
    let p' := p.runReorg o now (some (some (head, []))) [a]
    t ∈ p'.queue.txs a ∧ p'.Payable a t ∧ t.nonce = p'.pendingNonces a :=
  let events := [(Op.add (transfer 7 0 1) false).at 0, (Op.add (transfer 7 1 1) false).at 0, (Op.runReorg none [7]).at 0,
    (Op.add (transfer 7 2 1) false).at 0]
  ⟨(new .default plainHead).run events, plainOrder, 0, plainHead, 7, transfer 7 2 1, ⟨_, _, _, rfl⟩, by decide +kernel⟩

/-- With one pending, the next one is promoted, and the one after a gap is not. -/
theorem executables_promoted_gap :
    let p := (new .default plainHead).run [(Op.add (transfer 7 0 1) false).at 0, (Op.runReorg none [7]).at 0,
      (Op.add (transfer 7 1 1) false).at 0, (Op.add (transfer 7 3 1) false).at 0]
    let p' := p.runReorg plainOrder 0 none [7]
    p'.queue.txs 7 = [transfer 7 3 1] ∧ p'.pendingNonces 7 = 2 ∧ ∀ t ∈ p'.queue.txs 7, t.nonce ≠ p'.pendingNonces 7 :=
  ⟨by decide +kernel, by decide +kernel, executables_promoted ⟨_, _, _, rfl⟩ plainOrder 0 (by simp) (by simp) (by simp)
    (by unfold NoneFollows Reached; decide +kernel)⟩

end NdnGeth.TxPool.Pool
