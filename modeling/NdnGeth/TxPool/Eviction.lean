/-
Eviction ticks: the queue of an account goes as a whole when the account's
heartbeat is old.

The heartbeat is that of the last promotion, and it is deleted with the last
pending transaction. When a transaction was queued plays no part, so a tick may
take one that has just come in (`evicted_early`); `evicted_early_iff` says when
that does not happen.
-/
import NdnGeth.TxPool.Limits

namespace NdnGeth.TxPool.Pool

open Types (Address)

variable {o : Order} {p : Pool}

/-- The account's heartbeat is older than the lifetime of queued transactions. -/
def Inactive (p : Pool) (now : Time) (a : Address) : Prop := a ∉ p.locals ∧ p.config.lifetime < since now (p.beat a)

instance (p : Pool) (now : Time) (a : Address) : Decidable (p.Inactive now a) := inferInstanceAs (Decidable (_ ∧ _))

/-- A round of a tick. -/
def evictAccount (o : Order) (now : Time) (p : Pool) (a : Address) : Pool :=
  if a ∈ p.locals then p else if since now (p.beat a) > p.config.lifetime then p.removeAll o true (p.queue.txs a) else p

theorem evictAccount_spec (hc : p.Consistent) (now : Time) (a : Address) :
    (evictAccount o now p a).Consistent ∧ ∃ all priced crashed queue, evictAccount o now p a = { p with all, priced, crashed, queue } ∧
      queue.txs = Function.update p.queue.txs a (if p.Inactive now a then [] else p.queue.txs a) := by
  unfold evictAccount
  by_cases h : p.Inactive now a
  · rw [if_neg h.1, if_pos h.2, if_pos h]
    obtain ⟨hc', all, priced, crashed, queue, heq, htxs, -⟩ := removeAll_last (o := o) (n := 0) hc (.refl (p.queue.txs a))
    exact ⟨hc', all, priced, crashed, queue, heq, htxs⟩
  · have hsame : (if a ∈ p.locals then p else if since now (p.beat a) > p.config.lifetime then p.removeAll o true (p.queue.txs a) else p) = p := by
      split
      · rfl
      · next hl => rw [if_neg fun hs => h ⟨hl, hs⟩]
    rw [if_neg h, Function.update_eq_self, hsame]
    exact ⟨hc, p.all, p.priced, p.crashed, p.queue, rfl, rfl⟩

theorem foldl_evictAccount (now : Time) : ∀ {addrs : List Address} {p : Pool}, p.Consistent → ∃ all priced crashed queue,
    addrs.foldl (evictAccount o now) p = { p with all, priced, crashed, queue } ∧
      ∀ a, queue.txs a = if a ∈ addrs ∧ p.Inactive now a then [] else p.queue.txs a
  | [], p, _ => ⟨p.all, p.priced, p.crashed, p.queue, rfl, by simp⟩
  | b :: addrs, p, hc => by
    obtain ⟨hc₁, all₁, priced₁, crashed₁, queue₁, heq₁, htxs₁⟩ := evictAccount_spec (o := o) hc now b
    rw [heq₁] at hc₁
    obtain ⟨all, priced, crashed, queue, heq, htxs⟩ := foldl_evictAccount now hc₁
    refine ⟨all, priced, crashed, queue, ?_, fun a => ?_⟩
    · rw [List.foldl_cons, heq₁, heq]
    · rw [htxs a]
      -- nothing of what decides about an account is changed by a round
      change (if a ∈ addrs ∧ p.Inactive now a then [] else queue₁.txs a) = _
      rw [htxs₁]
      by_cases hab : a = b
      · subst hab
        by_cases hi : p.Inactive now a <;> simp [hi]
      · simp [hab]

theorem evict_spec (hc : p.Consistent) (now : Time) (a : Address) :
    (p.evict o now).queue.txs a = if p.Inactive now a then [] else p.queue.txs a := by
  obtain ⟨all, priced, crashed, queue, heq, htxs⟩ := foldl_evictAccount (o := o) now hc
  rw [show p.evict o now = (o.addrs p.queue.keys).foldl (evictAccount o now) p from rfl, heq]
  refine (htxs a).trans ?_
  by_cases ha : a ∈ o.addrs p.queue.keys
  · simp [ha]
  · -- an account that is not in the map has nothing queued
    have hnone : p.queue.lookup a = none := AList.lookup_eq_none.2 fun hin => ha ((o.addrs_perm _).mem_iff.2 (AList.mem_keys.1 hin))
    have hnil : p.queue.txs a = [] := by rw [Accounts.txs, hnone]; rfl
    simp [hnil]

/-- A transaction entered the queue at a time of a history, and has been there since. -/
def Entered (p : Pool) (events : List Event) (t : Tx) (time : Time) : Prop :=
  ∃ before e after, events = before ++ e :: after ∧ e.now = time ∧ t ∉ (p.run before).queue.txs t.sender ∧
    ∀ l, l <+: after → t ∈ (p.run (before ++ e :: l)).queue.txs t.sender

theorem Entered.queued {events : List Event} {t : Tx} {time : Time} (h : p.Entered events t time) :
    t ∈ (p.run events).queue.txs t.sender := by
  obtain ⟨before, e, after, rfl, -, -, hstays⟩ := h
  exact hstays after (List.prefix_refl _)

/-- A tick takes no transaction that was queued less than the lifetime ago
exactly if none is of an account with an old heartbeat. -/
theorem evicted_early_iff (config : Config) (head : Head) (events : List Event) (o : Order) (now : Time) :
    let p := (new config head).run events
    (∀ t time, (new config head).Entered events t time → now < time + p.config.lifetime → t ∈ (p.evict o now).queue.txs t.sender) ↔
      ∀ t time, (new config head).Entered events t time → now < time + p.config.lifetime →
        t.sender ∈ p.locals ∨ since now (p.beat t.sender) ≤ p.config.lifetime := by
  intro p
  have hc : p.Consistent := Reachable.consistent ⟨config, head, events, rfl⟩
  have hkept : ∀ t, t ∈ p.queue.txs t.sender →
      (t ∈ (p.evict o now).queue.txs t.sender ↔ t.sender ∈ p.locals ∨ since now (p.beat t.sender) ≤ p.config.lifetime) := by
    intro t ht
    rw [evict_spec hc]
    by_cases hi : p.Inactive now t.sender
    · have hlate := hi.2
      simp only [hi, if_true, List.not_mem_nil, hi.1, false_or, false_iff]
      omega
    · simp only [hi, if_false, ht, true_iff]
      by_contra hnot
      exact hi ⟨fun hl => hnot (.inl hl), Nat.lt_of_not_le fun hl => hnot (.inr hl)⟩
  constructor
  · intro h t time hin hyoung
    exact (hkept t hin.queued).1 (h t time hin hyoung)
  · intro h t time hin hyoung
    exact (hkept t hin.queued).2 (h t time hin hyoung)

/-- A transaction that waits for an earlier one is taken a nanosecond after it came. -/
theorem evicted_early : ∃ (config : Config) (head : Head) (events : List Event) (o : Order) (now time : Time) (t : Tx),
    (new config head).Entered events t time ∧ now < time + ((new config head).run events).config.lifetime ∧
      t ∉ (((new config head).run events).evict o now).queue.txs t.sender := by
  let add := (Op.add (transfer 1 5 1) false).at (64 * 10 ^ 18)
  refine ⟨.default, plainHead, [add], plainOrder, 64 * 10 ^ 18 + 1, 64 * 10 ^ 18, transfer 1 5 1, ?_, by decide +kernel, by decide +kernel⟩
  refine ⟨[], add, [], rfl, rfl, by decide +kernel, fun l hl => ?_⟩
  rw [List.prefix_nil.1 hl]
  decide +kernel

end NdnGeth.TxPool.Pool
