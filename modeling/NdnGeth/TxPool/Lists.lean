/-
What the pool keeps: the lists of pending and queued transactions are of their
senders, what is listed is known by its hash, no nonce of an account is in both
lists, and no empty list of pending transactions is kept. So no step comes down
over an unknown hash or an empty list (`Consistent.alive`).

Each operation has a lemma on what it does to the lists. A move between them
keeps the invariant (`Consistent.move`) as soon as what is listed afterwards was
listed before, is still known, and is in one list only.
-/
import NdnGeth.TxPool.Pool

namespace NdnGeth.TxPool

open Function
open Types (Address)

variable {o : Order}

/-! ## Accounts -/

namespace Accounts

variable {strict : Bool} {m : Accounts strict} {a : Address} {l : TxList strict}

theorem txs_of_lookup (h : m.lookup a = some l) : m.txs a = l.txs.items := by rw [txs, h]; rfl

theorem getD_items : ((m.lookup a).getD .new).txs.items = m.txs a := by
  unfold txs
  cases m.lookup a <;> rfl

theorem txs_insert : Accounts.txs (m.insert a l) = update m.txs a l.txs.items := by
  funext b
  by_cases hb : b = a
  · subst hb
    simp [txs]
  · simp [txs, hb]

theorem txs_erase : Accounts.txs (m.erase a) = update m.txs a [] := by
  funext b
  by_cases hb : b = a
  · subst hb
    simp [txs]
  · simp [txs, hb]

theorem txs_write : (m.write a l).txs = update m.txs a l.txs.items := by
  unfold write
  split
  · next hlen => rw [txs_erase, List.eq_nil_of_length_eq_zero hlen]
  · exact txs_insert

theorem txs_sorted (m : Accounts strict) (a : Address) : (m.txs a).Pairwise fun t u => t.nonce < u.nonce := by
  unfold txs
  cases m.lookup a with
  | none => exact .nil
  | some l => exact l.txs.sorted

theorem nonce_inj {t u : Tx} (ht : t ∈ m.txs a) (hu : u ∈ m.txs a) (h : t.nonce = u.nonce) : t = u :=
  TxSortedMap.nonce_inj (m := ⟨m.txs a, m.txs_sorted a⟩) ht hu h

/-- No empty list is kept. -/
def Full (m : Accounts strict) : Prop := ∀ a ∈ m, m.txs a ≠ []

theorem Full.insert (h : m.Full) (hl : l.txs.items ≠ []) : Full (m.insert a l) := by
  intro b hb
  rw [txs_insert]
  by_cases hba : b = a
  · subst hba
    simpa using hl
  · rw [update_of_ne hba]
    exact h b ((AList.mem_insert m).1 hb |>.resolve_left hba)

theorem Full.write (h : m.Full) : (m.write a l).Full := by
  unfold Accounts.write
  split
  · intro b hb
    obtain ⟨hne, hb⟩ := AList.mem_erase.1 hb
    rw [txs_erase, update_of_ne hne]
    exact h b hb
  · next hlen => exact h.insert fun hnil => hlen (by rw [TxList.len, hnil]; rfl)

end Accounts

namespace Pool

variable {p p' : Pool} {a : Address} {tx : Tx}

/-! ## The invariant -/

structure Consistent (p : Pool) : Prop where
  pending : ∀ a, ∀ t ∈ p.pending.txs a, t.sender = a ∧ t ∈ p.all.all
  queue : ∀ a, ∀ t ∈ p.queue.txs a, t.sender = a ∧ t ∈ p.all.all
  apart : ∀ a, ∀ t ∈ p.pending.txs a, ∀ u ∈ p.queue.txs a, t.nonce ≠ u.nonce
  full : p.pending.Full
  slots : 0 < p.config.accountSlots
  alive : p.crashed = false

def Lists (p : Pool) (a : Address) (t : Tx) : Prop := t ∈ p.pending.txs a ∨ t ∈ p.queue.txs a

variable {strict : Bool} {t : Tx}

theorem Consistent.sender (h : p.Consistent) (ht : p.Lists a t) : t.sender = a ∧ t ∈ p.all.all :=
  ht.elim (h.pending a t) (h.queue a t)

theorem Consistent.nonce_inj (h : p.Consistent) {t u : Tx} (ht : p.Lists a t) (hu : p.Lists a u) (hn : t.nonce = u.nonce) :
    t = u := by
  rcases ht with ht | ht <;> rcases hu with hu | hu
  · exact Accounts.nonce_inj ht hu hn
  · exact absurd hn (h.apart a t ht u hu)
  · exact absurd hn.symm (h.apart a u hu t ht)
  · exact Accounts.nonce_inj ht hu hn

/-- Only the transactions of one account are touched. -/
structure Touches (a : Address) (p p' : Pool) : Prop where
  config : p'.config = p.config
  locals : p'.locals = p.locals
  stateNonce : p'.stateNonce = p.stateNonce
  stateBalance : p'.stateBalance = p.stateBalance
  currentMaxGas : p'.currentMaxGas = p.currentMaxGas
  pending : ∀ b, b ≠ a → p'.pending.txs b = p.pending.txs b
  queue : ∀ b, b ≠ a → p'.queue.txs b = p.queue.txs b
  pendingNonces : ∀ b, b ≠ a → p'.pendingNonces b = p.pendingNonces b

theorem Touches.refl (a : Address) (p : Pool) : Touches a p p :=
  ⟨rfl, rfl, rfl, rfl, rfl, fun _ _ => rfl, fun _ _ => rfl, fun _ _ => rfl⟩

theorem Touches.lists (h : Touches a p p') {b : Address} (hb : b ≠ a) : p'.Lists b t ↔ p.Lists b t := by
  rw [Lists, Lists, h.pending b hb, h.queue b hb]

theorem Consistent.takeOut (h : p.Consistent) (ht : Touches a p p') (out : List Tx) (hout : ∀ t ∈ out, t.sender = a)
    (hall : ∀ t, t ∈ p'.all.all ↔ t ∈ p.all.all ∧ t ∉ out) (hlists : ∀ t, p'.Lists a t → p.Lists a t ∧ t ∉ out)
    (hone : ∀ t ∈ p'.pending.txs a, t ∉ p'.queue.txs a) (hfull : p'.pending.Full) (halive : p'.crashed = false) :
    p'.Consistent := by
  have hmoved : ∀ b t, p'.Lists b t → p.Lists b t ∧ t ∉ out := by
    intro b t hl
    by_cases hb : b = a
    · subst hb
      exact hlists t hl
    · have hl := (ht.lists hb).1 hl
      exact ⟨hl, fun hmem => hb ((h.sender hl).1.symm.trans (hout t hmem))⟩
  have hkept : ∀ b t, p'.Lists b t → t.sender = b ∧ t ∈ p'.all.all := by
    intro b t hl
    obtain ⟨hl, hnot⟩ := hmoved b t hl
    exact ⟨(h.sender hl).1, (hall t).2 ⟨(h.sender hl).2, hnot⟩⟩
  refine ⟨fun b t hp => hkept b t (.inl hp), fun b t hq => hkept b t (.inr hq), fun b t hp u hq hn => ?_, hfull, ht.config ▸ h.slots, halive⟩
  by_cases hb : b = a
  · subst hb
    have := h.nonce_inj (hlists t (.inl hp)).1 (hlists u (.inr hq)).1 hn
    exact hone t hp (this ▸ hq)
  · rw [ht.pending b hb] at hp
    rw [ht.queue b hb] at hq
    exact h.apart b t hp u hq hn

/-! ## Parts of the operations -/

theorem foldl_forget (p : Pool) : ∀ txs : List Tx, ∃ all crashed, txs.foldl forget p = { p with all, crashed } ∧
    (∀ t, t ∈ all.all ↔ t ∈ p.all.all ∧ t ∉ txs) ∧ (txs.Nodup → (∀ t ∈ txs, t ∈ p.all.all) → crashed = p.crashed)
  | [] => ⟨p.all, p.crashed, rfl, by simp, fun _ _ => rfl⟩
  | tx :: txs => by
    obtain ⟨all, crashed, heq, hall, hcrashed⟩ := foldl_forget (p.forget tx) txs
    refine ⟨all, crashed, heq, fun t => ?_, fun hnodup hmem => ?_⟩
    · rw [hall]
      simp only [forget, TxLookup.remove, List.mem_filter, decide_eq_true_eq, List.mem_cons, not_or, and_assoc]
    · obtain ⟨hnot, hnodup⟩ := List.nodup_cons.1 hnodup
      rw [hcrashed hnodup fun t ht => ?_]
      · simp [forget, hmem tx List.mem_cons_self]
      · have hne : t ≠ tx := fun h => hnot (h ▸ ht)
        simp [forget, TxLookup.remove, hmem t (List.mem_cons_of_mem _ ht), hne]

/-- Transactions that a list has no nonces of, and that have different ones. -/
structure Fresh (l txs : List Tx) : Prop where
  nodup : txs.Nodup
  inj : ∀ t ∈ txs, ∀ u ∈ txs, t.nonce = u.nonce → t = u
  new : ∀ t ∈ txs, ∀ u ∈ l, u.nonce ≠ t.nonce

theorem Fresh.tail {l l' txs : List Tx} (h : Fresh l (tx :: txs)) (hl : ∀ u ∈ l', u = tx ∨ u ∈ l) : Fresh l' txs where
  nodup := h.nodup.of_cons
  inj t ht u hu := h.inj t (List.mem_cons_of_mem _ ht) u (List.mem_cons_of_mem _ hu)
  new t ht u hu := by
    rcases hl u hu with rfl | hu
    · intro hn
      have := h.inj u List.mem_cons_self t (List.mem_cons_of_mem _ ht) hn
      exact (List.nodup_cons.1 h.nodup).1 (this ▸ ht)
    · exact h.new t (List.mem_cons_of_mem _ ht) u hu

theorem add_fresh {m : Accounts strict} (h : ∀ u ∈ m.txs a, u.nonce ≠ tx.nonce) (priceBump : Nat) :
    ((m.lookup a).getD .new).add tx priceBump = some (((m.lookup a).getD .new).accept tx, none) ∧
      ∀ t, t ∈ (((m.lookup a).getD .new).accept tx).txs.items ↔ t ∈ m.txs a ∨ t = tx := by
  rw [← Accounts.getD_items] at h
  refine ⟨TxList.add_of_get_eq_none (TxSortedMap.get_eq_none.2 h) priceBump, fun t => ?_⟩
  rw [TxList.accept, TxSortedMap.mem_put, or_comm, ← Accounts.getD_items (m := m)]
  exact or_congr_left (and_iff_left_of_imp (h t))

theorem enqueueTx_fresh (h : ∀ u ∈ p.queue.txs tx.sender, u.nonce ≠ tx.nonce) (hall : tx ∈ p.all.all) :
    ∃ queue, p.enqueueTx o tx = ({ p with queue }, .ok false) ∧ (∀ b, b ≠ tx.sender → queue.txs b = p.queue.txs b) ∧
      ∀ t, t ∈ queue.txs tx.sender ↔ t ∈ p.queue.txs tx.sender ∨ t = tx := by
  obtain ⟨hadd, hmem⟩ := add_fresh h p.config.priceBump
  refine ⟨p.queue.insert tx.sender (((p.queue.lookup tx.sender).getD .new).accept tx), ?_, fun b hb => ?_, fun t => ?_⟩
  · simp only [enqueueTx, hadd, discardOld, hall, if_true, Option.isSome_none]
  · rw [Accounts.txs_insert, update_of_ne hb]
  · rw [Accounts.txs_insert, update_self]
    exact hmem t

theorem postpone_fresh : ∀ (txs : List Tx) {p : Pool}, (∀ t ∈ txs, t.sender = a ∧ t ∈ p.all.all) → Fresh (p.queue.txs a) txs →
    ∃ queue, p.postpone o txs = { p with queue } ∧ (∀ b, b ≠ a → queue.txs b = p.queue.txs b) ∧
      ∀ t, t ∈ queue.txs a ↔ t ∈ p.queue.txs a ∨ t ∈ txs
  | [], p, _, _ => ⟨p.queue, rfl, fun _ _ => rfl, by simp⟩
  | tx :: txs, p, hs, hfresh => by
    obtain ⟨hsender, hall⟩ := hs tx List.mem_cons_self
    obtain ⟨queue₁, heq₁, hother₁, hmem₁⟩ := enqueueTx_fresh (o := o) (hsender ▸ hfresh.new tx List.mem_cons_self) hall
    rw [hsender] at hother₁ hmem₁
    obtain ⟨queue, heq, hother, hmem⟩ := postpone_fresh (p := { p with queue := queue₁ }) txs
      (fun t ht => hs t (List.mem_cons_of_mem _ ht)) (hfresh.tail fun u hu => ((hmem₁ u).1 hu).symm)
    refine ⟨queue, ?_, fun b hb => (hother b hb).trans (hother₁ b hb), fun t => ?_⟩
    · rw [postpone, List.foldl_cons, heq₁]
      exact heq
    · rw [hmem, hmem₁, List.mem_cons, or_assoc]

theorem promoteTx_fresh (now : Time) (h : ∀ u ∈ p.pending.txs a, u.nonce ≠ tx.nonce) (hall : tx ∈ p.all.all) :
    ∃ pending beats pendingNonces, p.promoteTx o now a tx = { p with pending, beats, pendingNonces } ∧
      (∀ b, b ≠ a → pending.txs b = p.pending.txs b ∧ pendingNonces b = p.pendingNonces b) ∧
      (∀ t, t ∈ pending.txs a ↔ t ∈ p.pending.txs a ∨ t = tx) ∧ (p.pending.Full → pending.Full) := by
  obtain ⟨hadd, hmem⟩ := add_fresh h p.config.priceBump
  refine ⟨_, _, _, by simp only [promoteTx, hadd, discardOld, hall, if_true]; rfl, fun b hb => ?_, fun t => ?_, fun hfull => ?_⟩
  · rw [Accounts.txs_insert, update_of_ne hb, update_of_ne hb]
    exact ⟨rfl, rfl⟩
  · rw [Accounts.txs_insert, update_self]
    exact hmem t
  · exact hfull.insert (TxSortedMap.put_ne_nil tx)

theorem foldl_promoteTx (now : Time) : ∀ (txs : List Tx) {p : Pool}, (∀ t ∈ txs, t ∈ p.all.all) → Fresh (p.pending.txs a) txs →
    ∃ pending beats pendingNonces, txs.foldl (fun p tx => p.promoteTx o now a tx) p = { p with pending, beats, pendingNonces } ∧
      (∀ b, b ≠ a → pending.txs b = p.pending.txs b ∧ pendingNonces b = p.pendingNonces b) ∧
      (∀ t, t ∈ pending.txs a ↔ t ∈ p.pending.txs a ∨ t ∈ txs) ∧ (p.pending.Full → pending.Full) ∧
      (txs = [] → pendingNonces = p.pendingNonces)
  | [], p, _, _ => ⟨p.pending, p.beats, p.pendingNonces, rfl, fun _ _ => ⟨rfl, rfl⟩, by simp, id, fun _ => rfl⟩
  | tx :: txs, p, hs, hfresh => by
    obtain ⟨pending₁, beats₁, nonces₁, heq₁, hother₁, hmem₁, hfull₁⟩ :=
      promoteTx_fresh (o := o) now (hfresh.new tx List.mem_cons_self) (hs tx List.mem_cons_self)
    obtain ⟨pending, beats, nonces, heq, hother, hmem, hfull, _⟩ :=
      foldl_promoteTx (p := { p with pending := pending₁, beats := beats₁, pendingNonces := nonces₁ }) now txs
        (fun t ht => hs t (List.mem_cons_of_mem _ ht)) (hfresh.tail fun u hu => ((hmem₁ u).1 hu).symm)
    refine ⟨pending, beats, nonces, ?_, fun b hb => ?_, fun t => ?_, hfull ∘ hfull₁, fun h => by cases h⟩
    · rw [List.foldl_cons, heq₁]
      exact heq
    · exact ⟨(hother b hb).1.trans (hother₁ b hb).1, (hother b hb).2.trans (hother₁ b hb).2⟩
    · rw [hmem, hmem₁, List.mem_cons, or_assoc]

/-! ## Promotion -/

/-- The account can pay for the transaction, and it fits into a block. -/
abbrev Payable (p : Pool) (a : Address) (t : Tx) : Prop := TxList.Within (p.stateBalance a) p.currentMaxGas t

theorem sift_spec (p : Pool) {list left : TxList strict} {drops invalids : List Tx}
    (h : p.sift a list = (drops, invalids, left)) :
    Divides list.txs.items (drops ++ invalids) left.txs.items ∧
      (strict = false → invalids = [] ∧ left.txs.items = list.txs.items.filter fun t => p.stateNonce a ≤ t.nonce ∧ p.Payable a t) ∧
      (∀ t ∈ invalids, p.stateNonce a < t.nonce ∧ ∀ u ∈ left.txs.items, u.nonce + 1 < t.nonce) ∧
      (∀ t ∈ left.txs.items, p.stateNonce a ≤ t.nonce) ∧
      ∀ t ∈ list.txs.items, p.Payable a t → t.nonce = p.stateNonce a → t ∈ left.txs.items := by
  have hforward := TxSortedMap.forward_divides (m := list.txs) (p.stateNonce a)
  have hitems : (list.forward (p.stateNonce a)).2.txs.items = list.txs.items.filter fun t => p.stateNonce a ≤ t.nonce := by
    simp [TxList.forward, TxList.part, TxSortedMap.forward, TxSortedMap.keep]
  have hmem : ∀ t, t ∈ (list.forward (p.stateNonce a)).2.txs.items ↔ t ∈ list.txs.items ∧ p.stateNonce a ≤ t.nonce := by
    simp [hitems]
  simp only [sift] at h
  generalize hfilter : (list.forward (p.stateNonce a)).2.filter (p.stateBalance a) p.currentMaxGas = r at h
  obtain ⟨drops', invalids', left'⟩ := r
  obtain ⟨hdrops, hinvalids, hgap, hfirst⟩ := TxList.filter_spec _ _ hfilter
  cases h
  refine ⟨?_, fun hstrict => ⟨(hinvalids hstrict).1, ?_⟩, fun t ht => ⟨?_, (hgap t ht).2⟩, fun t ht => ?_, fun t ht hpay hn => ?_⟩
  · rw [List.append_assoc]
    exact hforward.append hdrops
  · rw [(hinvalids hstrict).2, hitems, List.filter_filter]
    refine List.filter_congr fun t _ => ?_
    rw [Bool.decide_and, Bool.and_comm]
  · obtain ⟨u, hu, hlt⟩ := (hgap t ht).1
    exact Nat.lt_of_le_of_lt ((hmem u).1 hu).2 hlt
  · exact ((hmem t).1 ((hdrops.mem_iff t).2 (.inr ht))).2
  · exact hfirst t ((hmem t).2 ⟨ht, hn.ge⟩) hpay fun u hu => hn ▸ ((hmem u).1 hu).2

/-- The queued transactions of an account that are not outdated and can be paid for. -/
def executable (p : Pool) (a : Address) : TxSortedMap :=
  ⟨(p.queue.txs a).filter fun t => p.stateNonce a ≤ t.nonce ∧ p.Payable a t, (p.queue.txs_sorted a).filter _⟩

theorem mem_executable : t ∈ (p.executable a).items ↔ t ∈ p.queue.txs a ∧ p.stateNonce a ≤ t.nonce ∧ p.Payable a t := by
  simp only [executable, List.mem_filter, decide_eq_true_eq]

/-- The queued transactions of an account that `promoteExecutables` takes, and
those that it leaves behind before it applies the limit. -/
def ready (p : Pool) (a : Address) : List Tx × TxSortedMap := (p.executable a).ready (p.pendingNonces a)

theorem mem_executable_of_ready (h : t ∈ (p.ready a).1 ∨ t ∈ (p.ready a).2.items) : t ∈ (p.executable a).items :=
  ((TxSortedMap.ready_divides _).mem_iff t).2 h

theorem promoteAccount_spec (hc : p.Consistent) (now : Time) (a : Address) :
    (p.promoteAccount o now a).Consistent ∧ Touches a p (p.promoteAccount o now a) ∧
    (∀ t, t ∈ (p.promoteAccount o now a).pending.txs a ↔ t ∈ p.pending.txs a ∨ t ∈ (p.ready a).1) ∧
    (∀ t ∈ (p.promoteAccount o now a).queue.txs a, t ∈ (p.ready a).2.items) ∧
    ((p.ready a).1 = [] → (p.promoteAccount o now a).pendingNonces a = p.pendingNonces a) := by
  have hsub : ∀ t, t ∈ (p.ready a).1 ∨ t ∈ (p.ready a).2.items → t ∈ p.queue.txs a := fun t ht =>
    (mem_executable.1 (mem_executable_of_ready ht)).1
  cases hq : p.queue.lookup a with
  | none =>
    have hnil : p.queue.txs a = [] := by rw [Accounts.txs, hq]; rfl
    have heq : p.promoteAccount o now a = p := by simp only [promoteAccount, hq]
    rw [heq]
    refine ⟨hc, .refl a p, fun t => ?_, fun t ht => ?_, fun _ => rfl⟩
    · exact (or_iff_left fun h => by simpa [hnil] using hsub t (.inl h)).symm
    · simp [hnil] at ht
  | some list =>
    simp only [promoteAccount, hq]
    generalize hsift : p.sift a list = r
    obtain ⟨drops, invalids, l₁⟩ := r
    obtain ⟨hdrops, hexec, -⟩ := p.sift_spec hsift
    rw [(hexec rfl).1, List.append_nil, ← Accounts.txs_of_lookup hq] at hdrops
    have hl₁ : l₁.txs = p.executable a := by
      refine TxSortedMap.ext ((hexec rfl).2.trans ?_)
      rw [← Accounts.txs_of_lookup hq]
      rfl
    have hready : Divides l₁.txs.items (l₁.ready (p.pendingNonces a)).1 (l₁.ready (p.pendingNonces a)).2.txs.items :=
      TxSortedMap.ready_divides _
    have htakes : p.ready a = ((l₁.ready (p.pendingNonces a)).1, (l₁.ready (p.pendingNonces a)).2.txs) := by rw [ready, ← hl₁]; rfl
    rw [htakes] at hsub ⊢
    generalize l₁.ready (p.pendingNonces a) = r at hready hsub ⊢
    obtain ⟨readies, l₂⟩ := r
    obtain ⟨all₁, crashed₁, heq₁, hall₁, hcrashed₁⟩ := foldl_forget p drops
    have hknown : ∀ t, t ∈ readies ∨ t ∈ l₂.txs.items → t ∉ drops ∧ t ∈ all₁.all := by
      intro t ht
      have hnot : t ∉ drops := fun h => hdrops.apart t h ((hready.mem_iff t).2 ht)
      exact ⟨hnot, (hall₁ t).2 ⟨(hc.queue a t (hsub t ht)).2, hnot⟩⟩
    -- what is ready has nonces that are not pending
    obtain ⟨pending, beats, nonces, heq₂, hother, hmem, hfull, hnonces⟩ :=
      foldl_promoteTx (o := o) (a := a) (p := { p with all := all₁, crashed := crashed₁ }) now readies
        (fun t ht => (hknown t (.inl ht)).2) {
          nodup := hready.nodup
          inj := fun t ht u hu => Accounts.nonce_inj (hsub t (.inl ht)) (hsub u (.inl hu))
          new := fun t ht u hu => hc.apart a u hu t (hsub t (.inl ht)) }
    simp only [heq₁, heq₂] at hready ⊢
    have hcaps : Divides l₂.txs.items (if a ∈ p.locals then ([], l₂) else l₂.cap p.config.accountQueue).1
        (if a ∈ p.locals then ([], l₂) else l₂.cap p.config.accountQueue).2.txs.items := by
      split
      · exact .nil _
      · exact TxSortedMap.cap_divides _
    generalize (if a ∈ p.locals then ([], l₂) else l₂.cap p.config.accountQueue) = r at hcaps ⊢
    obtain ⟨caps, l₃⟩ := r
    have hcap : ∀ t, t ∈ caps ∨ t ∈ l₃.txs.items → t ∈ l₂.txs.items := fun t => (hcaps.mem_iff t).2
    obtain ⟨all₃, crashed₃, heq₃, hall₃, hcrashed₃⟩ := foldl_forget
      { p with all := all₁, crashed := crashed₁, pending := pending, beats := beats, pendingNonces := nonces } caps
    simp only [heq₃, removed]
    generalize p.priced.removed o all₃.all (drops.length + caps.length) = priced
    have hqueue : ∀ t, t ∈ (p.queue.write a l₃).txs a ↔ t ∈ l₃.txs.items := by simp [Accounts.txs_write]
    have htouches : Touches a p { p with
        all := all₃, crashed := crashed₃, pending, beats, pendingNonces := nonces, priced, queue := p.queue.write a l₃ } :=
      ⟨rfl, rfl, rfl, rfl, rfl, fun b hb => (hother b hb).1, fun b hb => by rw [Accounts.txs_write, update_of_ne hb],
        fun b hb => (hother b hb).2⟩
    have hout : ∀ t ∈ drops ++ caps, t ∈ p.queue.txs a := by
      intro t ht
      rcases List.mem_append.1 ht with ht | ht
      · exact (hdrops.mem_iff t).2 (.inl ht)
      · exact hsub t (.inr (hcap t (.inl ht)))
    refine ⟨hc.takeOut htouches (drops ++ caps) (fun t ht => (hc.queue a t (hout t ht)).1) (fun t => ?_) ?_ ?_ (hfull hc.full) ?_, htouches, hmem,
      fun t ht => hcap t (.inr ((hqueue t).1 ht)), fun h => congrFun (hnonces h) a⟩
    · rw [hall₃, hall₁, List.mem_append, not_or, and_assoc]
    · rintro t (ht | ht)
      · rcases (hmem t).1 ht with ht | ht
        · exact ⟨.inl ht, fun h => hc.apart a t ht t (hout t h) rfl⟩
        · refine ⟨.inr (hsub t (.inl ht)), fun h => ?_⟩
          exact (List.mem_append.1 h).elim (hknown t (.inl ht)).1 fun h => hready.apart t ht (hcap t (.inl h))
      · have ht := (hqueue t).1 ht
        have hl := hcap t (.inr ht)
        exact ⟨.inr (hsub t (.inr hl)), fun h => (List.mem_append.1 h).elim (hknown t (.inr hl)).1 fun h => hcaps.apart t h ht⟩
    · intro t ht hq
      have hl := hcap t (.inr ((hqueue t).1 hq))
      rcases (hmem t).1 ht with ht | ht
      · exact hc.apart a t ht t (hsub t (.inr hl)) rfl
      · exact hready.apart t ht hl
    · show crashed₃ = false
      rw [hcrashed₃ hcaps.nodup fun t ht => (hknown t (.inr (hcap t (.inl ht)))).2]
      show crashed₁ = false
      rw [hcrashed₁ hdrops.nodup fun t ht => (hc.queue a t ((hdrops.mem_iff t).2 (.inl ht))).2]
      exact hc.alive

/-! ## Demotion -/

theorem demoteAccount_spec (hc : p.Consistent) (a : Address) :
    (p.demoteAccount o a).Consistent ∧ Touches a p (p.demoteAccount o a) ∧ (p.demoteAccount o a).pendingNonces = p.pendingNonces ∧
    (∀ t ∈ (p.demoteAccount o a).pending.txs a, t ∈ p.pending.txs a) ∧
    (∀ t ∈ (p.demoteAccount o a).queue.txs a, t ∈ p.queue.txs a ∨
      p.stateNonce a < t.nonce ∧ ∀ u ∈ (p.demoteAccount o a).pending.txs a, u.nonce + 1 < t.nonce) ∧
    ∀ t ∈ p.pending.txs a, p.Payable a t → t.nonce = p.stateNonce a → t ∈ (p.demoteAccount o a).pending.txs a := by
  cases hp : p.pending.lookup a with
  | none =>
    have heq : p.demoteAccount o a = p := by simp only [demoteAccount, hp]
    rw [heq]
    exact ⟨hc, .refl a p, rfl, fun _ => id, fun _ => .inl, fun _ ht _ _ => ht⟩
  | some list =>
    simp only [demoteAccount, hp]
    generalize hsift : p.sift a list = r
    obtain ⟨drops, invalids, l₁⟩ := r
    obtain ⟨hdiv, -, hinvalid, hge, hfirst⟩ := p.sift_spec hsift
    rw [← Accounts.txs_of_lookup hp] at hdiv hfirst
    obtain ⟨all, crashed, heq, hall, hcrashed⟩ := foldl_forget p drops
    simp only [heq, removed]
    generalize p.priced.removed o all.all drops.length = priced
    obtain ⟨hgapped, hfront⟩ := TxList.gapped_spec (l := l₁) (p.stateNonce a)
    generalize l₁.gapped (p.stateNonce a) = r at hgapped hfront ⊢
    obtain ⟨gapped, l₂⟩ := r
    have hdiv' := hdiv.append hgapped
    rw [List.append_assoc] at hdiv'
    have hdropped : ∀ t ∈ drops, t ∈ p.pending.txs a := fun t ht => (hdiv'.mem_iff t).2 (.inl (List.mem_append_left _ ht))
    have hmoved : ∀ t ∈ invalids ++ gapped, t ∈ p.pending.txs a ∧ t ∉ drops := fun t ht =>
      ⟨(hdiv'.mem_iff t).2 (.inl (List.mem_append_right _ ht)), fun h => (List.nodup_append.1 hdiv'.nodup).2.2 t h t ht rfl⟩
    obtain ⟨queue, heq', hother, hmem⟩ := postpone_fresh (o := o) (a := a)
      (p := { p with all, crashed, priced }) (invalids ++ gapped)
      (fun t ht => ⟨(hc.pending a t (hmoved t ht).1).1, (hall t).2 ⟨(hc.pending a t (hmoved t ht).1).2, (hmoved t ht).2⟩⟩) {
        nodup := (List.nodup_append.1 hdiv'.nodup).2.1
        inj := fun t ht u hu => Accounts.nonce_inj (hmoved t ht).1 (hmoved u hu).1
        new := fun t ht u hu => (hc.apart a t (hmoved t ht).1 u hu).symm }
    rw [postpone, List.foldl_append] at heq'
    simp only [postpone, heq', writePending]
    generalize (if l₂.len = 0 then update p.beats a none else p.beats) = beats
    have hpending : ∀ t, t ∈ (p.pending.write a l₂).txs a ↔ t ∈ l₂.txs.items := by simp [Accounts.txs_write]
    have hleft : ∀ t ∈ l₂.txs.items, t ∈ p.pending.txs a ∧ t ∉ drops ++ (invalids ++ gapped) := fun t ht =>
      ⟨(hdiv'.mem_iff t).2 (.inr ht), fun h => hdiv'.apart t h ht⟩
    have htouches : Touches a p { p with all, crashed, priced, queue, beats, pending := p.pending.write a l₂ } :=
      ⟨rfl, rfl, rfl, rfl, rfl, fun b hb => by rw [Accounts.txs_write, update_of_ne hb], hother, fun _ _ => rfl⟩
    refine ⟨hc.takeOut htouches drops (fun t ht => (hc.pending a t (hdropped t ht)).1) hall ?_ ?_
      hc.full.write ?_, htouches, trivial, fun t ht => (hleft t ((hpending t).1 ht)).1, fun t ht => ?_, fun t ht hpay hn => ?_⟩
    · rintro t (ht | ht)
      · have := hleft t ((hpending t).1 ht)
        exact ⟨.inl this.1, fun h => this.2 (List.mem_append_left _ h)⟩
      · rcases (hmem t).1 ht with ht | ht
        · exact ⟨.inr ht, fun h => hc.apart a t (hdropped t h) t ht rfl⟩
        · exact ⟨.inl (hmoved t ht).1, (hmoved t ht).2⟩
    · intro t ht hq
      have hl := hleft t ((hpending t).1 ht)
      rcases (hmem t).1 hq with hq | hq
      · exact hc.apart a t hl.1 t hq rfl
      · exact hl.2 (List.mem_append_right _ hq)
    · show crashed = false
      rw [hcrashed (List.nodup_append.1 hdiv'.nodup).1 fun t ht => (hc.pending a t (hdropped t ht)).2]
      exact hc.alive
    · rcases (hmem t).1 ht with ht | ht
      · exact .inl ht
      · simp only [hpending]
        rcases List.mem_append.1 ht with ht | ht
        · exact .inr ⟨(hinvalid t ht).1, fun u hu => (hinvalid t ht).2 u ((hgapped.mem_iff u).2 (.inr hu))⟩
        · obtain ⟨hne, hnil⟩ := hfront (List.ne_nil_of_mem ht)
          have hl := (hgapped.mem_iff t).2 (.inl ht)
          refine .inr ⟨Nat.lt_of_le_of_ne (hge t hl) (hne t hl).symm, fun u hu => ?_⟩
          rw [hnil] at hu
          cases hu
    · have hl := hfirst t ht hpay hn
      refine (hpending t).2 (((hgapped.mem_iff t).1 hl).resolve_left fun h => ?_)
      exact (hfront (List.ne_nil_of_mem h)).1 t hl hn

/-! ## Removal -/

theorem setIfLower_eq (p : Pool) (a : Address) (nonce : Nat) :
    ∃ pendingNonces, p.setIfLower a nonce = { p with pendingNonces } ∧ ∀ b, b ≠ a → pendingNonces b = p.pendingNonces b := by
  unfold setIfLower
  split
  · exact ⟨p.pendingNonces, rfl, fun _ _ => rfl⟩
  · exact ⟨_, rfl, fun b hb => update_of_ne hb ..⟩

theorem removeQueued_eq (p : Pool) (tx : Tx) : ∃ queue, p.removeQueued tx = { p with queue } ∧
    queue.txs = update p.queue.txs tx.sender ((p.queue.txs tx.sender).filter fun t => t.nonce ≠ tx.nonce) := by
  unfold removeQueued
  cases hq : p.queue.lookup tx.sender with
  | none =>
    have hnil : p.queue.txs tx.sender = [] := by rw [Accounts.txs, hq]; rfl
    exact ⟨p.queue, rfl, by rw [hnil, List.filter_nil, ← hnil, update_eq_self]⟩
  | some future =>
    refine ⟨_, rfl, ?_⟩
    rw [Accounts.txs_write, Accounts.txs_of_lookup hq]
    cases hr : future.remove tx with
    | none =>
      have := TxList.remove_eq_none.1 hr
      rw [Option.elim_none, List.filter_eq_self.2 fun t ht => by simpa using this t ht]
    | some r =>
      obtain ⟨_, _, _, hleft⟩ := TxList.remove_spec hr
      rw [Option.elim_some, (hleft rfl).2]
      rfl

theorem removeTx_spec (hc : p.Consistent) (outofbound : Bool) (tx : Tx) :
    (p.removeTx o outofbound tx).Consistent ∧ Touches tx.sender p (p.removeTx o outofbound tx) ∧
    (∀ t, t ∈ (p.removeTx o outofbound tx).all.all ↔ t ∈ p.all.all ∧ t ≠ tx) ∧
    (tx ∈ p.queue.txs tx.sender → ∃ all priced crashed queue,
      p.removeTx o outofbound tx = { p with all, priced, crashed, queue } ∧
      queue.txs tx.sender = (p.queue.txs tx.sender).filter (· ≠ tx)) := by
  unfold removeTx
  split
  · next hnot =>
    refine ⟨hc, .refl _ p, fun t => ?_, fun h => absurd (hc.queue _ tx h).2 hnot⟩
    exact (and_iff_left_of_imp fun h (heq : t = tx) => hnot (heq ▸ h)).symm
  · next hin =>
    have hin : tx ∈ p.all.all := by simpa using hin
    obtain ⟨all, crashed, heq, hall, hcrashed⟩ := foldl_forget p [tx]
    have hall : ∀ t, t ∈ all.all ↔ t ∈ p.all.all ∧ t ≠ tx := by simpa using hall
    have hcrashed : crashed = false := (hcrashed (List.nodup_singleton tx) (by simpa using hin)).trans hc.alive
    have hforget : ∃ priced, (if outofbound then (p.forget tx).removed o 1 else p.forget tx) = { p with all, crashed, priced } := by
      rw [show p.forget tx = { p with all, crashed } from heq]
      split
      · exact ⟨_, rfl⟩
      · exact ⟨_, rfl⟩
    obtain ⟨priced, hforget⟩ := hforget
    simp only [hforget]
    split
    · next invalids list hremove =>
      -- the nonce is pending, so it is not queued
      obtain ⟨l, hl, hremove⟩ := Option.bind_eq_some_iff.1 hremove
      obtain ⟨hiff, hdisj, hnodup, -⟩ := TxList.remove_spec hremove
      rw [← Accounts.txs_of_lookup hl] at hiff
      have hqueued : ∀ t ∈ p.queue.txs tx.sender, t.nonce ≠ tx.nonce := by
        intro t ht hn
        have : l.remove tx = none := TxList.remove_eq_none.2 fun u hu hu' =>
          hc.apart _ u (Accounts.txs_of_lookup hl ▸ hu) t ht (hu'.trans hn.symm)
        rw [this] at hremove
        cases hremove
      have hmoved : ∀ t ∈ invalids, t ∈ p.pending.txs tx.sender ∧ t.nonce ≠ tx.nonce := fun t ht => (hiff t).1 (.inl ht)
      have hleft : ∀ t ∈ list.txs.items, t ∈ p.pending.txs tx.sender ∧ t.nonce ≠ tx.nonce := fun t ht => (hiff t).1 (.inr ht)
      have hne : ∀ t : Tx, t.nonce ≠ tx.nonce → t ≠ tx := fun t h heq => h (heq ▸ rfl)
      obtain ⟨queue, hpostpone, hother, hmem⟩ := postpone_fresh (o := o) (a := tx.sender)
        (p := { p with all, crashed, priced }.writePending tx.sender list) invalids
        (fun t ht => ⟨(hc.pending _ t (hmoved t ht).1).1, (hall t).2 ⟨(hc.pending _ t (hmoved t ht).1).2, hne t (hmoved t ht).2⟩⟩) {
          nodup := hnodup
          inj := fun t ht u hu => Accounts.nonce_inj (hmoved t ht).1 (hmoved u hu).1
          new := fun t ht u hu => (hc.apart _ t (hmoved t ht).1 u hu).symm }
      rw [hpostpone]
      obtain ⟨pendingNonces, hlower, hnonces⟩ := setIfLower_eq
        { { p with all, crashed, priced }.writePending tx.sender list with queue } tx.sender tx.nonce
      rw [hlower]
      simp only [writePending] at hmem ⊢
      generalize (if list.len = 0 then update p.beats tx.sender none else p.beats) = beats
      have hpending : ∀ t, t ∈ (p.pending.write tx.sender list).txs tx.sender ↔ t ∈ list.txs.items := by simp [Accounts.txs_write]
      have htouches : Touches tx.sender p
          { p with all, crashed, priced, queue, beats, pendingNonces, pending := p.pending.write tx.sender list } :=
        ⟨rfl, rfl, rfl, rfl, rfl, fun b hb => by rw [Accounts.txs_write, update_of_ne hb], hother, hnonces⟩
      refine ⟨hc.takeOut htouches [tx] (by simp) (by simpa using hall) ?_ ?_ hc.full.write hcrashed, htouches, hall,
        fun h => absurd rfl (hqueued tx h)⟩
      · simp only [List.mem_singleton]
        rintro t (ht | ht)
        · exact ⟨.inl (hleft t ((hpending t).1 ht)).1, hne t (hleft t ((hpending t).1 ht)).2⟩
        · rcases (hmem t).1 ht with ht | ht
          · exact ⟨.inr ht, hne t (hqueued t ht)⟩
          · exact ⟨.inl (hmoved t ht).1, hne t (hmoved t ht).2⟩
      · intro t ht hq
        have ht := (hpending t).1 ht
        rcases (hmem t).1 hq with hq | hq
        · exact hc.apart _ t (hleft t ht).1 t hq rfl
        · exact hdisj t hq ht
    · next hnone =>
      have hpending : ∀ t ∈ p.pending.txs tx.sender, t.nonce ≠ tx.nonce := by
        intro t ht
        unfold Accounts.txs at ht
        cases hl : p.pending.lookup tx.sender with
        | none => simp [hl] at ht
        | some l =>
          rw [hl] at ht hnone
          exact TxList.remove_eq_none.1 hnone t ht
      obtain ⟨queue, heq', hqueue⟩ := removeQueued_eq { p with all, crashed, priced } tx
      rw [heq']
      have hsame : queue.txs tx.sender = (p.queue.txs tx.sender).filter fun t => t.nonce ≠ tx.nonce := by
        rw [hqueue, update_self]
      have htouches : Touches tx.sender p { p with all, crashed, priced, queue } :=
        ⟨rfl, rfl, rfl, rfl, rfl, fun _ _ => rfl, fun b hb => by rw [hqueue, update_of_ne hb], fun _ _ => rfl⟩
      refine ⟨hc.takeOut htouches [tx] (by simp) (by simpa using hall) ?_ ?_ hc.full hcrashed, htouches, hall,
        fun h => ⟨all, priced, crashed, queue, rfl, ?_⟩⟩
      · simp only [List.mem_singleton]
        rintro t (ht | ht)
        · exact ⟨.inl ht, fun heq => hpending t ht (heq ▸ rfl)⟩
        · have := List.mem_filter.1 (hsame ▸ ht)
          exact ⟨.inr this.1, fun heq => by simp [heq] at this⟩
      · intro t ht hq
        exact hc.apart _ t ht t (List.mem_filter.1 (hsame ▸ hq)).1 rfl
      · rw [hsame]
        refine List.filter_congr fun t ht => ?_
        have : t.nonce = tx.nonce ↔ t = tx := ⟨Accounts.nonce_inj ht h, fun heq => heq ▸ rfl⟩
        simp [this]

theorem Consistent.congr (hc : p.Consistent) (hconfig : p'.config = p.config) (hpending : p'.pending = p.pending)
    (hqueue : p'.queue = p.queue) (hall : p'.all = p.all) (hcrashed : p'.crashed = p.crashed) : p'.Consistent := by
  obtain ⟨h₁, h₂, h₃, h₄, h₅, h₆⟩ := hc
  constructor <;> simp only [hconfig, hpending, hqueue, hall, hcrashed] <;> assumption

theorem removeAll_spec : ∀ {p : Pool}, p.Consistent → ∀ (outofbound : Bool) (txs : List Tx),
    (p.removeAll o outofbound txs).Consistent ∧
    (p.removeAll o outofbound txs).config = p.config ∧ (p.removeAll o outofbound txs).locals = p.locals ∧
    ∀ t, t ∈ (p.removeAll o outofbound txs).all.all ↔ t ∈ p.all.all ∧ t ∉ txs
  | p, hc, _, [] => ⟨hc, rfl, rfl, by simp [removeAll]⟩
  | p, hc, outofbound, tx :: txs => by
    obtain ⟨hc₁, htouches, hall₁, -⟩ := removeTx_spec (o := o) hc outofbound tx
    obtain ⟨hc₂, hconfig, hlocals, hall⟩ := removeAll_spec hc₁ outofbound txs
    refine ⟨hc₂, hconfig.trans htouches.config, hlocals.trans htouches.locals, fun t => ?_⟩
    rw [removeAll, List.foldl_cons]
    refine (hall t).trans ?_
    rw [hall₁, List.mem_cons, not_or, and_assoc]

theorem removeAll_queued {a : Address} : ∀ (txs : List Tx) {p : Pool}, p.Consistent → txs.Nodup → (∀ t ∈ txs, t ∈ p.queue.txs a) →
    ∃ all priced crashed queue, p.removeAll o true txs = { p with all, priced, crashed, queue } ∧
      queue.txs = update p.queue.txs a ((p.queue.txs a).filter (· ∉ txs))
  | [], p, _, _, _ => ⟨p.all, p.priced, p.crashed, p.queue, rfl, by simp⟩
  | tx :: txs, p, hc, hnodup, hin => by
    have hsender := (hc.queue a tx (hin tx List.mem_cons_self)).1
    obtain ⟨hnot, hnodup⟩ := List.nodup_cons.1 hnodup
    obtain ⟨hc₁, htouches, -, hqueued⟩ := removeTx_spec (o := o) hc true tx
    rw [hsender] at htouches hqueued
    obtain ⟨all₁, priced₁, crashed₁, queue₁, heq₁, htxs₁⟩ := hqueued (hin tx List.mem_cons_self)
    rw [heq₁] at hc₁ htouches
    obtain ⟨all, priced, crashed, queue, heq, htxs⟩ := removeAll_queued txs hc₁ hnodup (by
      intro t ht
      rw [htxs₁, List.mem_filter]
      exact ⟨hin t (List.mem_cons_of_mem _ ht), by simpa using fun h : t = tx => hnot (h ▸ ht)⟩)
    refine ⟨all, priced, crashed, queue, ?_, ?_⟩
    · rw [removeAll, List.foldl_cons, heq₁]
      exact heq
    · funext b
      rw [htxs]
      by_cases hb : b = a
      · subst hb
        simp only [update_self, htxs₁, List.filter_filter]
        refine List.filter_congr fun t _ => ?_
        simp [Bool.and_comm]
      · simp only [update_of_ne hb]
        exact htouches.queue b hb

/-! ## Additions -/

theorem discardOld_eq (p : Pool) (old : Option Tx) : ∃ all priced crashed, p.discardOld o old = { p with all, priced, crashed } ∧
    (∀ t, t ∈ all.all ↔ t ∈ p.all.all ∧ old ≠ some t) ∧ ((∀ t, old = some t → t ∈ p.all.all) → crashed = p.crashed) := by
  cases old with
  | none => exact ⟨p.all, p.priced, p.crashed, rfl, by simp, fun _ => rfl⟩
  | some old =>
    refine ⟨p.all.remove old, _, p.crashed || decide (old ∉ p.all.all), rfl, fun t => ?_, fun h => ?_⟩
    · simp [TxLookup.remove, eq_comm (a := old)]
    · simp [h old rfl]

/-- A new transaction comes into one of the lists of its sender, and the other
one does not have its nonce; a transaction that it replaces is forgotten. -/
theorem Consistent.replace (hc : p.Consistent) {old : Option Tx} (hconfig : p'.config = p.config)
    (hold : ∀ u, old = some u → p.Lists tx.sender u ∧ u.nonce = tx.nonce)
    (hall : ∀ t, t ∈ p'.all.all ↔ t = tx ∨ t ∈ p.all.all ∧ old ≠ some t)
    (hpending : ∀ b, ∀ t ∈ p'.pending.txs b, t = tx ∧ b = tx.sender ∨ t ∈ p.pending.txs b ∧ (b = tx.sender → t.nonce ≠ tx.nonce))
    (hqueue : ∀ b, ∀ t ∈ p'.queue.txs b, t = tx ∧ b = tx.sender ∨ t ∈ p.queue.txs b ∧ (b = tx.sender → t.nonce ≠ tx.nonce))
    (hone : tx ∈ p'.pending.txs tx.sender → tx ∉ p'.queue.txs tx.sender) (hfull : p'.pending.Full) (halive : p'.crashed = false) :
    p'.Consistent := by
  have hkept : ∀ b t, t = tx ∧ b = tx.sender ∨ p.Lists b t ∧ (b = tx.sender → t.nonce ≠ tx.nonce) → t.sender = b ∧ t ∈ p'.all.all := by
    rintro b t (⟨rfl, rfl⟩ | ⟨hl, hn⟩)
    · exact ⟨rfl, (hall _).2 (.inl rfl)⟩
    · refine ⟨(hc.sender hl).1, (hall t).2 (.inr ⟨(hc.sender hl).2, fun heq => ?_⟩)⟩
      obtain ⟨hl', hn'⟩ := hold t heq
      exact hn ((hc.sender hl).1.symm.trans (hc.sender hl').1) hn'
  refine ⟨fun b t ht => hkept b t ((hpending b t ht).imp id (And.imp_left .inl)),
    fun b t ht => hkept b t ((hqueue b t ht).imp id (And.imp_left .inr)), fun b t ht u hu hn => ?_, hfull, hconfig ▸ hc.slots, halive⟩
  rcases hpending b t ht with ⟨rfl, rfl⟩ | ⟨ht', hnt⟩
  · rcases hqueue _ u hu with ⟨rfl, -⟩ | ⟨-, hnu⟩
    · exact hone ht hu
    · exact hnu rfl hn.symm
  · rcases hqueue b u hu with ⟨rfl, rfl⟩ | ⟨hu', -⟩
    · exact hnt rfl hn
    · exact hc.apart b t ht' u hu' hn

theorem mem_accept {m : Accounts strict} {b : Address} {l : TxList strict} (hl : l.txs.items = m.txs tx.sender)
    (h : t ∈ Accounts.txs (m.insert tx.sender (l.accept tx)) b) :
    t = tx ∧ b = tx.sender ∨ t ∈ m.txs b ∧ (b = tx.sender → t.nonce ≠ tx.nonce) := by
  rw [Accounts.txs_insert] at h
  by_cases hb : b = tx.sender
  · subst hb
    rw [update_self, TxList.accept, TxSortedMap.mem_put, hl] at h
    exact h.imp (fun h => ⟨h, rfl⟩) fun h => ⟨h.1, fun _ => h.2⟩
  · rw [update_of_ne hb] at h
    exact .inr ⟨h, fun h => absurd h hb⟩

theorem mem_register (p : Pool) (tx t : Tx) : t ∈ (p.register tx).all.all ↔ t = tx ∨ t ∈ p.all.all := by
  simp only [register, TxLookup.add]
  split
  · next h => exact ⟨.inr, fun h' => h'.elim (fun heq => heq ▸ h) id⟩
  · rw [List.mem_cons]

theorem enqueueTx_consistent (hc : p.Consistent) (hnew : tx ∉ p.all.all) (hpending : ∀ u ∈ p.pending.txs tx.sender, u.nonce ≠ tx.nonce) :
    (p.enqueueTx o tx).1.Consistent := by
  unfold enqueueTx
  split
  · exact hc
  · next list old hadd =>
    obtain ⟨rfl, rfl⟩ := Prod.mk.inj (TxList.add_eq_some hadd)
    have hold : ∀ u, ((p.queue.lookup tx.sender).getD .new).txs.get tx.nonce = some u → u ∈ p.queue.txs tx.sender ∧ u.nonce = tx.nonce := by
      intro u hu
      rw [← Accounts.getD_items]
      exact TxSortedMap.get_eq_some hu
    obtain ⟨all, priced, crashed, heq, hall, hcrashed⟩ := discardOld_eq (o := o)
      { p with queue := p.queue.insert tx.sender (((p.queue.lookup tx.sender).getD .new).accept tx) }
      (((p.queue.lookup tx.sender).getD .new).txs.get tx.nonce)
    simp only [heq]
    rw [if_neg fun h => hnew ((hall tx).1 h).1]
    refine hc.replace rfl (fun u hu => ⟨.inr (hold u hu).1, (hold u hu).2⟩) (fun t => ?_) (fun b t ht => ?_)
      (fun b t ht => mem_accept Accounts.getD_items ht) (fun h => absurd (hc.pending _ tx h).2 hnew) hc.full ?_
    · rw [mem_register]
      exact or_congr_right (hall t)
    · exact .inr ⟨ht, fun hb => hpending t (hb ▸ ht)⟩
    · exact (hcrashed fun t ht => (hc.queue _ t (hold t ht).1).2).trans hc.alive

theorem insertTx_consistent (hc : p.Consistent) (hnew : tx ∉ p.all.all) (isLocal : Bool) : (p.insertTx o tx isLocal).1.Consistent := by
  unfold insertTx
  split
  · next list hover =>
    obtain ⟨hl, hover⟩ := Option.filter_eq_some_iff.1 hover
    split
    · exact hc
    · next list' old hadd =>
      obtain ⟨rfl, rfl⟩ := Prod.mk.inj (TxList.add_eq_some hadd)
      have hold : ∀ u, list.txs.get tx.nonce = some u → u ∈ p.pending.txs tx.sender ∧ u.nonce = tx.nonce := by
        intro u hu
        rw [Accounts.txs_of_lookup hl]
        exact TxSortedMap.get_eq_some hu
      obtain ⟨u, hu⟩ := Option.isSome_iff_exists.1 hover
      obtain ⟨all, priced, crashed, heq, hall, hcrashed⟩ := discardOld_eq (o := o)
        { p with pending := p.pending.insert tx.sender (list.accept tx) } (list.txs.get tx.nonce)
      simp only [heq]
      refine hc.replace rfl (fun u hu => ⟨.inl (hold u hu).1, (hold u hu).2⟩) (fun t => ?_)
        (fun b t ht => mem_accept (Accounts.txs_of_lookup hl).symm ht) (fun b t ht => ?_)
        (fun _ h => hnew (hc.queue _ tx h).2) (hc.full.insert (TxSortedMap.put_ne_nil tx)) ?_
      · rw [mem_register]
        exact or_congr_right (hall t)
      · exact .inr ⟨ht, fun hb hn => hc.apart _ u (hold u hu).1 t (hb ▸ ht) ((hold u hu).2.trans hn.symm)⟩
      · exact (hcrashed fun t ht => (hc.pending _ t (hold t ht).1).2).trans hc.alive
  · next hover =>
    have hpending : ∀ u ∈ p.pending.txs tx.sender, u.nonce ≠ tx.nonce := by
      intro u hu hn
      unfold Accounts.txs at hu
      cases hl : p.pending.lookup tx.sender with
      | none => simp [hl] at hu
      | some list =>
        rw [hl] at hu hover
        have := TxSortedMap.get_eq_none.1 (by simpa [TxList.overlaps] using hover) u hu
        exact this hn
    have := enqueueTx_consistent (o := o) hc hnew hpending
    split
    · next heq => exact heq ▸ this
    · next heq =>
      rw [heq] at this
      exact this.congr rfl rfl rfl rfl rfl

theorem makeRoom_spec (hc : p.Consistent) (tx : Tx) : (p.makeRoom o tx).Consistent ∧
    ∀ t, t ∈ (p.makeRoom o tx).all.all ↔ t ∈ p.all.all ∧ t ∉ (p.priced.discard p.all.all p.locals (p.excess tx)).1 := by
  obtain ⟨hc', -, -, hall⟩ := removeAll_spec (o := o)
    (p := { p with priced := (p.priced.discard p.all.all p.locals (p.excess tx)).2 }) (hc.congr rfl rfl rfl rfl rfl) false
    (p.priced.discard p.all.all p.locals (p.excess tx)).1
  exact ⟨hc', hall⟩

theorem check_eq (p : Pool) (tx : Tx) (isLocal : Bool) :
    ∃ isUnderpriced priced, (if isLocal then (false, p) else p.underpriced tx) = (isUnderpriced, { p with priced }) ∧
      (priced.evictable p.all.all p.locals).Perm (p.priced.evictable p.all.all p.locals) := by
  split
  · exact ⟨false, p.priced, rfl, .refl _⟩
  · exact ⟨_, _, rfl, TxPricedList.underpriced_evictable tx⟩

theorem add_consistent (hc : p.Consistent) (tx : Tx) (isLocal : Bool) : (p.add o tx isLocal).1.Consistent := by
  unfold add
  split
  · exact hc
  · next hnew =>
    split
    · exact hc
    · split
      · obtain ⟨isUnderpriced, priced, heq, -⟩ := check_eq p tx isLocal
        have hc' : Consistent { p with priced } := hc.congr rfl rfl rfl rfl rfl
        simp only [heq]
        split
        · exact hc'
        · obtain ⟨hroom, hall⟩ := makeRoom_spec (o := o) hc' tx
          exact insertTx_consistent hroom (fun h => hnew ((hall tx).1 h).1) isLocal
      · exact insertTx_consistent hc hnew isLocal

end Pool

end NdnGeth.TxPool
