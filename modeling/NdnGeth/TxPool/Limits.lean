/-
The limits of the pool: `truncatePending` and `truncateQueue`.

`truncatePending` only shortens lists of pending transactions from their ends
(`Cut`), so what it does is a function from accounts to numbers. The offenders
are kept at one `level`, which sinks to the size of the next one or to the
limit of an account; the counter is the total of these numbers, and every round
of a loop lowers it. `limits_enforced` is what comes of it.
-/
import Mathlib.Algebra.BigOperators.Group.Finset.Basic
import Mathlib.Algebra.Order.BigOperators.Group.Finset
import NdnGeth.TxPool.Lists

namespace NdnGeth.TxPool

open Function
open Types (Address)

variable {o : Order}

/-! ## Totals -/

namespace Accounts

variable {strict : Bool} {m m' : Accounts strict} {a : Address}

theorem txs_of_not_mem (h : a ∉ m) : m.txs a = [] := by
  rw [txs, AList.lookup_eq_none.2 h]
  rfl

theorem count_eq_sum {S : Finset Address} (hS : ∀ b ∈ m, b ∈ S) : m.count = ∑ b ∈ S, (m.txs b).length := by
  rw [count, ← List.sum_toFinset _ m.keys_nodup]
  refine Finset.sum_subset (fun b hb => hS b (List.mem_toFinset.1 hb)) fun b _ hb => ?_
  rw [txs_of_not_mem fun h => hb (List.mem_toFinset.2 h)]
  rfl

theorem length_le_count (m : Accounts strict) (a : Address) : (m.txs a).length ≤ m.count := by
  rw [count_eq_sum (S := insert a m.keys.toFinset) fun b hb => by simp [AList.mem_keys.1 hb]]
  exact Finset.single_le_sum (f := fun b => (m.txs b).length) (fun _ _ => Nat.zero_le _) (Finset.mem_insert_self ..)

theorem count_update {l : List Tx} (h : m'.txs = update m.txs a l) :
    m'.count + (m.txs a).length = m.count + l.length := by
  let S := insert a (m.keys.toFinset ∪ m'.keys.toFinset)
  have ha : a ∈ S := Finset.mem_insert_self ..
  rw [count_eq_sum (S := S) fun b hb => by simp [S, AList.mem_keys.1 hb],
    count_eq_sum (m := m) (S := S) fun b hb => by simp [S, AList.mem_keys.1 hb], h,
    ← Finset.add_sum_erase S _ ha, ← Finset.add_sum_erase S (fun b => (m.txs b).length) ha, update_self]
  have : ∑ b ∈ S.erase a, (update m.txs a l b).length = ∑ b ∈ S.erase a, (m.txs b).length :=
    Finset.sum_congr rfl fun b hb => by rw [update_of_ne (Finset.ne_of_mem_erase hb)]
  omega

end Accounts

namespace Pool

variable {p₀ p p' : Pool} {a : Address} {f g : Address → Nat}

/-! ## Shorter lists -/

/-- A pool after the lists of pending transactions were cut down to some
lengths; other accounts' virtual nonces are as before. -/
structure Cut (p₀ : Pool) (f : Address → Nat) (p : Pool) : Prop where
  consistent : p.Consistent
  pending : ∀ b, p.pending.txs b = (p₀.pending.txs b).take (f b)
  rest : ∃ all priced crashed pending pendingNonces, p = { p₀ with all, priced, crashed, pending, pendingNonces }
  pendingNonces : ∀ b, p₀.pending.txs b = [] → p.pendingNonces b = p₀.pendingNonces b

theorem Cut.refl (hc : p.Consistent) : Cut p (fun b => (p.pending.txs b).length) p :=
  ⟨hc, fun _ => List.take_length.symm, ⟨_, _, _, _, _, rfl⟩, fun _ _ => rfl⟩

theorem Cut.config (h : Cut p₀ f p) : p.config = p₀.config := by
  obtain ⟨_, _, _, _, _, rfl⟩ := h.rest
  rfl

theorem Cut.length (h : Cut p₀ f p) (ha : f a ≤ (p₀.pending.txs a).length) : (p.pending.txs a).length = f a := by
  rw [h.pending, List.length_take]
  omega

theorem foldl_lower (p : Pool) (a : Address) : ∀ txs : List Tx, ∃ all crashed pendingNonces,
    txs.foldl (fun p tx => (p.forget tx).setIfLower a tx.nonce) p = { p with all, crashed, pendingNonces } ∧
    (∀ t, t ∈ all.all ↔ t ∈ p.all.all ∧ t ∉ txs) ∧ (txs.Nodup → (∀ t ∈ txs, t ∈ p.all.all) → crashed = p.crashed) ∧
    ∀ b, b ≠ a → pendingNonces b = p.pendingNonces b
  | [] => ⟨p.all, p.crashed, p.pendingNonces, rfl, by simp, fun _ _ => rfl, fun _ _ => rfl⟩
  | tx :: txs => by
    obtain ⟨nonces₁, heq₁, hnonces₁⟩ := setIfLower_eq (p.forget tx) a tx.nonce
    obtain ⟨all, crashed, pendingNonces, heq, hall, hcrashed, hnonces⟩ := foldl_lower ((p.forget tx).setIfLower a tx.nonce) a txs
    rw [heq₁] at heq hall hcrashed hnonces
    refine ⟨all, crashed, pendingNonces, ?_, fun t => ?_, fun hnodup hmem => ?_, fun b hb => (hnonces b hb).trans (hnonces₁ b hb)⟩
    · rw [List.foldl_cons, heq₁]
      exact heq
    · rw [hall]
      simp only [forget, TxLookup.remove, List.mem_filter, decide_eq_true_eq, List.mem_cons, not_or, and_assoc]
    · obtain ⟨hnot, hnodup⟩ := List.nodup_cons.1 hnodup
      rw [hcrashed hnodup fun t ht => ?_]
      · simp [forget, hmem tx List.mem_cons_self]
      · have hne : t ≠ tx := fun h => hnot (h ▸ ht)
        simp [forget, TxLookup.remove, hmem t (List.mem_cons_of_mem _ ht), hne]

theorem dropLast_spec (hc : p.Consistent) (hlen : 2 ≤ (p.pending.txs a).length) :
    (p.dropLast o a).Consistent ∧ ∃ all priced crashed pending pendingNonces,
      p.dropLast o a = { p with all, priced, crashed, pending, pendingNonces } ∧
      pending.txs = update p.pending.txs a ((p.pending.txs a).take ((p.pending.txs a).length - 1)) ∧
      ∀ b, b ≠ a → pendingNonces b = p.pendingNonces b := by
  cases hl : p.pending.lookup a with
  | none => simp [Accounts.txs, hl] at hlen
  | some list =>
    have hitems := Accounts.txs_of_lookup hl
    have hdiv := TxSortedMap.cap_divides (m := list.txs) (list.len - 1)
    obtain ⟨all, crashed, pendingNonces, heq, hall, hcrashed, hnonces⟩ := foldl_lower
      { p with pending := p.pending.insert a (list.cap (list.len - 1)).2 } a (list.cap (list.len - 1)).1
    have htxs : Accounts.txs (p.pending.insert a (list.cap (list.len - 1)).2) =
        update p.pending.txs a ((p.pending.txs a).take ((p.pending.txs a).length - 1)) := by
      rw [Accounts.txs_insert, hitems]
      rfl
    have hcut : ∀ t, t ∈ Accounts.txs (p.pending.insert a (list.cap (list.len - 1)).2) a ↔ t ∈ (list.txs.cap (list.len - 1)).2.items := by
      rw [Accounts.txs_insert, update_self]
      exact fun _ => .rfl
    rw [← hitems] at hdiv
    simp only [dropLast, hl, heq, removed]
    generalize p.priced.removed o all.all (list.cap (list.len - 1)).1.length = priced
    have htouches : Touches a p { p with all, priced, crashed, pendingNonces, pending := p.pending.insert a (list.cap (list.len - 1)).2 } :=
      ⟨rfl, rfl, rfl, rfl, rfl, fun b hb => by rw [htxs, update_of_ne hb], fun _ _ => rfl, hnonces⟩
    refine ⟨hc.takeOut htouches _ (fun t ht => (hc.pending a t ((hdiv.mem_iff t).2 (.inl ht))).1) hall ?_ ?_ ?_ ?_,
      _, _, _, _, _, rfl, htxs, hnonces⟩
    · rintro t (ht | ht)
      · have ht := (hcut t).1 ht
        exact ⟨.inl ((hdiv.mem_iff t).2 (.inr ht)), fun h => hdiv.apart t h ht⟩
      · exact ⟨.inr ht, fun h => hc.apart a t ((hdiv.mem_iff t).2 (.inl h)) t ht rfl⟩
    · exact fun t ht hq => hc.apart a t ((hdiv.mem_iff t).2 (.inr ((hcut t).1 ht))) t hq rfl
    · refine hc.full.insert fun hnil => ?_
      have : (list.txs.items.take (list.len - 1)).length = 0 := by
        have hnil : list.txs.items.take (list.len - 1) = [] := hnil
        rw [hnil]
        rfl
      rw [hitems] at hlen
      rw [List.length_take, TxList.len] at this
      omega
    · exact (hcrashed hdiv.nodup fun t ht => (hc.pending a t ((hdiv.mem_iff t).2 (.inl ht))).2).trans hc.alive

theorem Cut.foldl_dropLast : ∀ {offenders : List Address} {f : Address → Nat} {p : Pool}, Cut p₀ f p → offenders.Nodup →
    (∀ b ∈ offenders, 2 ≤ f b ∧ f b ≤ (p₀.pending.txs b).length) →
    Cut p₀ (fun b => if b ∈ offenders then f b - 1 else f b) (offenders.foldl (fun p addr => p.dropLast o addr) p)
  | [], f, p, h, _, _ => by simpa using h
  | a :: offenders, f, p, h, hnodup, hf => by
    obtain ⟨hnot, hnodup⟩ := List.nodup_cons.1 hnodup
    obtain ⟨h2, hle⟩ := hf a List.mem_cons_self
    have hlen := h.length hle
    obtain ⟨hc, all, priced, crashed, pending, pendingNonces, heq, htxs, hnonces⟩ :=
      dropLast_spec (o := o) h.consistent (hlen ▸ h2)
    have hcut : Cut p₀ (update f a (f a - 1)) (p.dropLast o a) := by
      refine ⟨hc, fun b => ?_, ?_, fun b hb => ?_⟩
      · rw [heq]
        show pending.txs b = _
        rw [htxs]
        by_cases hb : b = a
        · subst hb
          rw [update_self, update_self, hlen, h.pending, List.take_take, Nat.min_eq_left (Nat.sub_le ..)]
        · rw [update_of_ne hb, update_of_ne hb]
          exact h.pending b
      · obtain ⟨_, _, _, _, _, rfl⟩ := h.rest
        exact ⟨_, _, _, _, _, heq⟩
      · rw [heq]
        have hne : b ≠ a := by
          rintro rfl
          rw [hb, List.length_nil] at hle
          omega
        exact (hnonces b hne).trans (h.pendingNonces b hb)
    have hstep := foldl_dropLast hcut hnodup fun b hb => by
      have hne : b ≠ a := fun heq => hnot (heq ▸ hb)
      rw [update_of_ne hne]
      exact hf b (List.mem_cons_of_mem _ hb)
    have hf' : (fun b => if b ∈ a :: offenders then f b - 1 else f b) =
        fun b => if b ∈ offenders then update f a (f a - 1) b - 1 else update f a (f a - 1) b := by
      funext b
      by_cases hb : b = a
      · subst hb
        simp [hnot]
      · simp [hb]
    rw [hf']
    exact hstep

/-! ## Offenders -/

/-- The offenders are at one level, the others as they were. -/
noncomputable def level (p : Pool) (offenders : List Address) (n : Nat) (b : Address) : Nat :=
  @ite Nat (b ∈ offenders) (Classical.propDecidable _) n (p.pending.txs b).length

/-- The counter of `truncatePending`. -/
def total (p : Pool) (f : Address → Nat) : Nat := ∑ b ∈ p.pending.keys.toFinset, f b

variable {offenders : List Address}

theorem total_level (hnodup : offenders.Nodup) (hkeys : ∀ b ∈ offenders, b ∈ p₀.pending) (n : Nat) :
    p₀.total (p₀.level offenders (n + 1)) = p₀.total (p₀.level offenders n) + offenders.length := by
  have hone : ∀ b, p₀.level offenders (n + 1) b = p₀.level offenders n b + if b ∈ offenders then 1 else 0 := by
    intro b
    unfold level
    split <;> rfl
  have hcard : (p₀.pending.keys.toFinset.filter (· ∈ offenders)) = offenders.toFinset := by
    ext b
    simp only [Finset.mem_filter, List.mem_toFinset, and_iff_right_iff_imp]
    exact hkeys b
  simp only [total, hone, Finset.sum_add_distrib, ← Finset.card_filter, hcard, List.toFinset_card_of_nodup hnodup]

theorem equalize_of_le {limit n counter : Nat} (h : counter ≤ p.config.globalSlots) :
    equalize o offenders limit n (p, counter) = (p, counter) := by
  cases n with
  | zero => rfl
  | succ n =>
    simp only [equalize]
    split
    · rfl
    · exact if_neg fun hlt => absurd hlt.1 (by omega)

theorem equalize_spec (hnodup : offenders.Nodup) (hkeys : ∀ b ∈ offenders, b ∈ p₀.pending) {limit : Nat}
    (hlimit : 1 ≤ limit) : ∀ (rounds : Nat) {n : Nat} {p : Pool}, Cut p₀ (p₀.level offenders n) p → limit ≤ n →
    (∀ b ∈ offenders, n ≤ (p₀.pending.txs b).length) → p₀.total (p₀.level offenders n) ≤ rounds →
    ∃ n' p', limit ≤ n' ∧ n' ≤ n ∧ Cut p₀ (p₀.level offenders n') p' ∧
      equalize o offenders limit rounds (p, p₀.total (p₀.level offenders n)) = (p', p₀.total (p₀.level offenders n')) ∧
      (p₀.total (p₀.level offenders n') ≤ p₀.config.globalSlots ∨ n' = limit)
  | 0, n, p, hcut, hn, _, hrounds => ⟨n, p, hn, Nat.le_refl n, hcut, rfl, .inl (by omega)⟩
  | rounds + 1, n, p, hcut, hn, hle, hrounds => by
    simp only [equalize, hcut.config]
    split
    · next hnone =>
      obtain rfl := List.getLast?_eq_none_iff.1 hnone
      have hsame : p₀.level [] n = p₀.level [] limit := by simp [funext_iff, level]
      exact ⟨limit, p, Nat.le_refl _, hn, hsame ▸ hcut, by rw [hsame], .inr rfl⟩
    · next last hlast =>
      have hmem := List.mem_of_getLast? hlast
      have hlen : (p.pending.txs last).length = n := by
        have : p₀.level offenders n last = n := if_pos hmem
        rw [hcut.length (this.symm ▸ hle last hmem), this]
      rw [hlen]
      split
      · next hmore =>
        obtain ⟨n, rfl⟩ : ∃ k, n = k + 1 := ⟨n - 1, by omega⟩
        have hpos : 1 ≤ offenders.length := List.length_pos_of_mem hmem
        have htotal := total_level hnodup hkeys n
        have hstep := hcut.foldl_dropLast (o := o) hnodup fun b hb => by
          rw [level, if_pos hb]
          exact ⟨by omega, hle b hb⟩
        have hsink : (fun b => if b ∈ offenders then p₀.level offenders (n + 1) b - 1 else p₀.level offenders (n + 1) b) =
            p₀.level offenders n := by
          funext b
          unfold level
          split <;> rfl
        rw [hsink] at hstep
        obtain ⟨n', p', hlim, hle', hcut', heq, hdone⟩ := equalize_spec hnodup hkeys hlimit rounds hstep (by omega)
          (fun b hb => Nat.le_of_succ_le (hle b hb)) (by omega)
        refine ⟨n', p', hlim, by omega, hcut', ?_, hdone⟩
        rw [← heq, htotal, Nat.add_sub_cancel]
      · next hdone => exact ⟨n, p, hn, Nat.le_refl n, hcut, rfl, by omega⟩

/-- Who is cut is not local and had more than the limit of an account, and keeps
that much. -/
def Fair (p : Pool) (f : Address → Nat) : Prop :=
  ∀ b, f b = (p.pending.txs b).length ∨
    b ∉ p.locals ∧ p.config.accountSlots < (p.pending.txs b).length ∧ p.config.accountSlots ≤ f b ∧ f b ≤ (p.pending.txs b).length

/-- Accounts that may be cut, in the order of their sizes. -/
structure Spams (p : Pool) (spammers : List Address) : Prop where
  nodup : spammers.Nodup
  large : ∀ b ∈ spammers, b ∉ p.locals ∧ p.config.accountSlots < (p.pending.txs b).length
  sorted : spammers.Pairwise fun a b => (p.pending.txs b).length ≤ (p.pending.txs a).length

theorem Spams.mem {spammers : List Address} (h : p.Spams spammers) {b : Address} (hb : b ∈ spammers) : b ∈ p.pending := by
  by_contra hnot
  have := (h.large b hb).2
  rw [Accounts.txs_of_not_mem hnot] at this
  exact absurd this (Nat.not_lt_zero _)

theorem Spams.fair {spammers offenders : List Address} (h : p.Spams spammers) (hsub : ∀ b ∈ offenders, b ∈ spammers) {n : Nat}
    (hn : p.config.accountSlots ≤ n) (hle : ∀ b ∈ offenders, n ≤ (p.pending.txs b).length) : p.Fair (p.level offenders n) := by
  intro b
  unfold level
  split
  · next hb => exact .inr ⟨(h.large b (hsub b hb)).1, (h.large b (hsub b hb)).2, hn, hle b hb⟩
  · exact .inl rfl

theorem spammers_spec (o : Order) (p : Pool) : p.Spams (p.spammers o) ∧
    ∀ b, b ∉ p.locals → p.config.accountSlots < (p.pending.txs b).length → b ∈ p.spammers o := by
  have htotal : Std.Total fun a b : Address => (p.pending.txs b).length ≤ (p.pending.txs a).length := ⟨fun _ _ => Nat.le_total ..⟩
  have htrans : IsTrans Address fun a b => (p.pending.txs b).length ≤ (p.pending.txs a).length := ⟨fun _ _ _ h₁ h₂ => h₂.trans h₁⟩
  have hperm : (p.spammers o).Perm ((o.addrs p.pending.keys).filter fun a => a ∉ p.locals ∧ (p.pending.txs a).length > p.config.accountSlots) :=
    List.perm_insertionSort ..
  refine ⟨⟨?_, fun b hb => ?_, List.pairwise_insertionSort ..⟩, fun b hlocal hover => ?_⟩
  · exact hperm.nodup_iff.2 (((o.addrs_perm _).nodup_iff.2 p.pending.keys_nodup).filter _)
  · simpa using (List.mem_filter.1 (hperm.mem_iff.1 hb)).2
  · have hkey : b ∈ p.pending := by
      by_contra hnot
      rw [Accounts.txs_of_not_mem hnot] at hover
      exact absurd hover (Nat.not_lt_zero _)
    refine hperm.mem_iff.2 (List.mem_filter.2 ⟨(o.addrs_perm _).mem_iff.2 hkey, ?_⟩)
    simp [hlocal, hover]

theorem penalize_of_le {spammers offenders : List Address} {counter : Nat} (h : counter ≤ p.config.globalSlots) :
    penalize o spammers offenders (p, counter) = (offenders, p, counter) := by
  cases spammers with
  | nil => rfl
  | cons b spammers => exact if_neg (by omega)

/-- The offenders are brought to the size of the next one, as long as the total is
too high: it is low enough in the end, or all are offenders, at one level. -/
theorem penalize_spec (hslots : 0 < p₀.config.accountSlots) : ∀ (spammers : List Address) {offenders : List Address} {n : Nat} {p : Pool},
    p₀.Spams (offenders ++ spammers) → Cut p₀ (p₀.level offenders n) p → p₀.config.accountSlots ≤ n →
    (∀ b ∈ offenders, n ≤ (p₀.pending.txs b).length) → (∀ b ∈ spammers, (p₀.pending.txs b).length ≤ n) →
    ∃ offenders' f p', penalize o spammers offenders (p, p₀.total (p₀.level offenders n)) = (offenders', p', p₀.total f) ∧
      Cut p₀ f p' ∧ p₀.Fair f ∧ (p₀.total f ≤ p₀.config.globalSlots ∨ ∃ n', f = p₀.level offenders' n' ∧
        offenders' = offenders ++ spammers ∧ p₀.config.accountSlots ≤ n' ∧ ∀ b ∈ offenders', n' ≤ (p₀.pending.txs b).length)
  | [], offenders, n, p, hspams, hcut, hn, hle, _ => by
    rw [List.append_nil] at hspams
    exact ⟨offenders, _, p, rfl, hcut, hspams.fair (fun _ => id) hn hle, .inr ⟨n, rfl, (List.append_nil _).symm, hn, hle⟩⟩
  | a :: spammers, offenders, n, p, hspams, hcut, hn, hle, hge => by
    obtain ⟨hnodup, hnodup', hdisj⟩ := List.nodup_append.1 hspams.nodup
    have hnot : a ∉ offenders := fun h => hdisj a h a List.mem_cons_self rfl
    have hmem : ∀ b ∈ offenders, b ∈ offenders ++ a :: spammers := fun b => List.mem_append_left _
    have hsize := (hspams.large a (List.mem_append_right _ List.mem_cons_self)).2
    simp only [penalize, hcut.config]
    split
    · have hlen : (p.pending.txs a).length = (p₀.pending.txs a).length := by
        have : p₀.level offenders n a = (p₀.pending.txs a).length := if_neg hnot
        rw [hcut.length this.le, this]
      obtain ⟨n', p', hlim, hle', hcut', heq, hdone⟩ := equalize_spec (o := o) hnodup
        (fun b hb => hspams.mem (hmem b hb)) (show 1 ≤ (p₀.pending.txs a).length by omega) _ hcut (hge a List.mem_cons_self) hle (Nat.le_refl _)
      rw [hlen, heq]
      have hle₂ : ∀ b ∈ offenders, n' ≤ (p₀.pending.txs b).length := fun b hb => hle'.trans (hle b hb)
      by_cases hlow : p₀.total (p₀.level offenders n') ≤ p₀.config.globalSlots
      · exact ⟨_, _, p', penalize_of_le (hcut'.config ▸ hlow), hcut', hspams.fair hmem (by omega) hle₂, .inl hlow⟩
      · -- all offenders have the size of the new one
        obtain rfl := hdone.resolve_left hlow
        have hsame : p₀.level offenders (p₀.pending.txs a).length = p₀.level (offenders ++ [a]) (p₀.pending.txs a).length := by
          funext b
          by_cases hb : b = a
          · simp [level, hb]
          · simp [level, hb]
        have happ : offenders ++ [a] ++ spammers = offenders ++ a :: spammers := by simp
        rw [hsame] at hcut' ⊢
        have hrest := penalize_spec hslots spammers (happ ▸ hspams) hcut' hsize.le (fun b hb => ?_) fun b hb => ?_
        · rwa [happ] at hrest
        · rcases List.mem_append.1 hb with hb | hb
          · exact hle₂ b hb
          · rw [List.mem_singleton.1 hb]
        · exact (List.pairwise_cons.1 (List.pairwise_append.1 hspams.sorted).2.1).1 b hb
    · next hlow => exact ⟨offenders, _, p, rfl, hcut, hspams.fair hmem hn hle, .inl (by omega)⟩

theorem total_length (p : Pool) : p.total (fun b => (p.pending.txs b).length) = p.pending.count :=
  (Accounts.count_eq_sum fun _ hb => List.mem_toFinset.2 hb).symm

theorem Cut.count (h : Cut p₀ f p) (hfair : p₀.Fair f) : p.pending.count = p₀.total f := by
  let S := p₀.pending.keys.toFinset ∪ p.pending.keys.toFinset
  have hle : ∀ b, f b ≤ (p₀.pending.txs b).length := fun b => (hfair b).elim Eq.le fun h => h.2.2.2
  rw [Accounts.count_eq_sum (S := S) fun b hb => by simp [S, AList.mem_keys.1 hb], total]
  refine (Finset.sum_congr rfl fun b _ => h.length (hle b)).trans
    (Finset.sum_subset Finset.subset_union_left fun b _ hb => ?_).symm
  have := hle b
  rw [Accounts.txs_of_not_mem fun h => hb (List.mem_toFinset.2 h)] at this
  exact Nat.le_zero.1 this

/-- **What `truncatePending` does.** -/
theorem truncatePending_spec (hc : p.Consistent) : ∃ f, Cut p f (p.truncatePending o) ∧ p.Fair f ∧
    (p.total f ≤ p.config.globalSlots ∨ ∀ b, b ∉ p.locals → f b ≤ p.config.accountSlots) := by
  obtain ⟨hspams, hall⟩ := p.spammers_spec o
  have hnone : p.level [] (p.pending.count + p.config.accountSlots) = fun b => (p.pending.txs b).length := by simp [funext_iff, level]
  unfold truncatePending
  split
  · next hlow => exact ⟨_, .refl hc, fun _ => .inl rfl, .inl (p.total_length ▸ hlow)⟩
  · have hcut₀ : Cut p (p.level [] (p.pending.count + p.config.accountSlots)) p := hnone ▸ Cut.refl hc
    obtain ⟨offenders, f, p', heq, hcut, hfair, hdone⟩ := penalize_spec (o := o) (p := p) hc.slots (p.spammers o) hspams hcut₀
      (Nat.le_add_left ..) (by simp) fun b _ => (p.pending.length_le_count b).trans (Nat.le_add_right ..)
    rw [hnone, total_length] at heq
    simp only [heq, hcut.config]
    by_cases hlow : p.total f ≤ p.config.globalSlots
    · rw [equalize_of_le (hcut.config ▸ hlow)]
      exact ⟨f, hcut, hfair, .inl hlow⟩
    · obtain ⟨n, rfl, rfl, hn, hle⟩ := hdone.resolve_left hlow
      rw [List.nil_append] at hcut hle ⊢
      obtain ⟨n', p'', hlim, hle', hcut', heq', hdone'⟩ := equalize_spec (o := o) hspams.nodup (fun b => hspams.mem) hc.slots _ hcut hn hle
        (Nat.le_refl _)
      rw [heq']
      refine ⟨_, hcut', hspams.fair (fun _ => id) hlim fun b hb => hle'.trans (hle b hb), hdone'.imp id ?_⟩
      rintro rfl b hlocal
      unfold level
      split
      · exact Nat.le_refl _
      · next hb => exact Nat.le_of_not_lt fun h => hb (hall b hlocal h)

/-! ## The queue -/

theorem filter_not_mem_drop {l : List Tx} (h : l.Nodup) (n : Nat) : l.filter (· ∉ l.drop n) = l.take n := by
  conv_lhs => rw [← List.take_append_drop n l]
  rw [List.filter_append, List.filter_eq_self.2, List.filter_eq_nil_iff.2, List.append_nil]
  · intro t ht
    simpa using ht
  · intro t ht
    simpa using List.disjoint_take_drop h (Nat.le_refl n) ht

theorem removeAll_last (hc : p.Consistent) {n : Nat} {gone : List Tx} (hperm : gone.Perm ((p.queue.txs a).drop n)) :
    (p.removeAll o true gone).Consistent ∧ ∃ all priced crashed queue,
      p.removeAll o true gone = { p with all, priced, crashed, queue } ∧
      queue.txs = update p.queue.txs a ((p.queue.txs a).take n) ∧ queue.count + gone.length = p.queue.count := by
  have hnodup : (p.queue.txs a).Nodup := TxSortedMap.items_nodup (m := ⟨p.queue.txs a, p.queue.txs_sorted a⟩)
  obtain ⟨all, priced, crashed, queue, heq, hqueue⟩ := removeAll_queued (o := o) gone hc
    (hperm.nodup_iff.2 (hnodup.sublist (List.drop_sublist ..))) fun t ht => List.mem_of_mem_drop (hperm.mem_iff.1 ht)
  simp only [hperm.mem_iff, filter_not_mem_drop hnodup] at hqueue
  refine ⟨(removeAll_spec hc true gone).1, all, priced, crashed, queue, heq, hqueue, ?_⟩
  have hcount := Accounts.count_update hqueue
  rw [List.length_take] at hcount
  rw [hperm.length_eq, List.length_drop]
  omega

theorem truncateFrom_spec : ∀ {addresses : List Address} (drop : Nat) {p : Pool}, p.Consistent → addresses.Nodup →
    (truncateFrom o addresses drop p).Consistent ∧ ∃ all priced crashed queue,
      truncateFrom o addresses drop p = { p with all, priced, crashed, queue } ∧ (∀ b, b ∉ addresses → queue.txs b = p.queue.txs b) ∧
      (∀ b, ∃ n, queue.txs b = (p.queue.txs b).take n) ∧
      (queue.count + drop = p.queue.count ∨ ∀ b ∈ addresses, queue.txs b = [])
  | [], drop, p, hc, _ => ⟨hc, _, _, _, _, rfl, fun _ _ => rfl, fun b => ⟨_, List.take_length.symm⟩, .inr (by simp)⟩
  | a :: addresses, drop, p, hc, hnodup => by
    obtain ⟨hnot, hnodup⟩ := List.nodup_cons.1 hnodup
    unfold truncateFrom
    split
    · next hzero => exact ⟨hc, _, _, _, _, rfl, fun _ _ => rfl, fun b => ⟨_, List.take_length.symm⟩, .inl (by omega)⟩
    · simp only
      split
      · next hle =>
        obtain ⟨hc₁, all₁, priced₁, crashed₁, queue₁, heq₁, hqueue₁, hcount₁⟩ := removeAll_last (o := o) (a := a) (n := 0) hc (.refl _)
        rw [List.drop_zero] at hc₁ heq₁ hcount₁
        rw [heq₁] at hc₁ ⊢
        obtain ⟨hc₂, all, priced, crashed, queue, heq, hother, htake, hdone⟩ :=
          truncateFrom_spec (drop - (p.queue.txs a).length) hc₁ hnodup
        simp only [hqueue₁, List.take_zero] at hother htake
        refine ⟨hc₂, all, priced, crashed, queue, heq, fun b hb => ?_, fun b => ?_, hdone.imp (fun h => ?_) fun h b hb => ?_⟩
        · obtain ⟨hba, hb⟩ := not_or.1 (mt List.mem_cons.2 hb)
          rw [hother b hb, update_of_ne hba]
        · obtain ⟨k, hk⟩ := htake b
          by_cases hba : b = a
          · exact ⟨0, by rw [hk, hba, update_self, List.take_nil, List.take_zero]⟩
          · exact ⟨k, by rw [hk, update_of_ne hba]⟩
        · simp only at h
          omega
        · rcases List.mem_cons.1 hb with rfl | hb
          · rw [hother b hnot, update_self]
          · exact h b hb
      · next hlt =>
        have hrest : ∀ (l : List Address) (p : Pool), truncateFrom o l 0 p = p := fun l p => by cases l <;> rfl
        have hlast : ((p.queue.txs a).reverse.take drop).Perm ((p.queue.txs a).drop ((p.queue.txs a).length - drop)) := by
          rw [List.take_reverse]
          exact List.reverse_perm _
        obtain ⟨hc₁, all₁, priced₁, crashed₁, queue₁, heq₁, hqueue₁, hcount₁⟩ := removeAll_last (o := o) hc hlast
        rw [hrest]
        refine ⟨hc₁, all₁, priced₁, crashed₁, queue₁, heq₁, fun b hb => ?_, fun b => ?_, .inl ?_⟩
        · rw [hqueue₁, update_of_ne (not_or.1 (mt List.mem_cons.2 hb)).1]
        · rw [hqueue₁]
          by_cases hba : b = a
          · exact ⟨_, by rw [hba, update_self]⟩
          · exact ⟨_, by rw [update_of_ne hba, List.take_length]⟩
        · rw [List.length_take, List.length_reverse] at hcount₁
          omega

theorem truncateQueue_spec (hc : p.Consistent) : (p.truncateQueue o).Consistent ∧ ∃ all priced crashed queue,
    p.truncateQueue o = { p with all, priced, crashed, queue } ∧ (∀ b ∈ p.locals, queue.txs b = p.queue.txs b) ∧
    (∀ b, ∃ n, queue.txs b = (p.queue.txs b).take n) ∧
    (queue.count ≤ p.config.globalQueue ∨ ∀ b, b ∉ p.locals → queue.txs b = []) := by
  unfold truncateQueue
  split
  · next hlow => exact ⟨hc, _, _, _, _, rfl, fun _ _ => rfl, fun b => ⟨_, List.take_length.symm⟩, .inl hlow⟩
  · next hhigh =>
    have hperm := List.perm_insertionSort (fun a b => p.beat a ≤ p.beat b) ((o.addrs p.queue.keys).filter fun a => a ∉ p.locals)
    generalize ((o.addrs p.queue.keys).filter fun a => a ∉ p.locals).insertionSort (fun a b => p.beat a ≤ p.beat b) = addresses at hperm ⊢
    have hmem : ∀ b, b ∈ addresses.reverse ↔ b ∈ p.queue ∧ b ∉ p.locals := by
      intro b
      rw [List.mem_reverse, hperm.mem_iff, List.mem_filter, (o.addrs_perm _).mem_iff, decide_eq_true_eq]
      rfl
    obtain ⟨hc', all, priced, crashed, queue, heq, hother, htake, hdone⟩ := truncateFrom_spec (o := o)
      (p.queue.count - p.config.globalQueue) hc (List.nodup_reverse.2 (hperm.nodup_iff.2
        (((o.addrs_perm _).nodup_iff.2 p.queue.keys_nodup).filter _)))
    refine ⟨hc', all, priced, crashed, queue, heq, fun b hb => hother b fun h => ((hmem b).1 h).2 hb, htake,
      hdone.imp (fun h => by omega) fun h b hb => ?_⟩
    by_cases hin : b ∈ p.queue
    · exact h b ((hmem b).2 ⟨hin, hb⟩)
    · obtain ⟨n, hn⟩ := htake b
      rw [hn, Accounts.txs_of_not_mem hin, List.take_nil]

/-! ## Histories -/

theorem foldl_consistent {α : Type} {f : Pool → α → Pool} (hf : ∀ p x, p.Consistent → (f p x).Consistent) :
    ∀ {l : List α} {p : Pool}, p.Consistent → (l.foldl f p).Consistent
  | [], _, hc => hc
  | x :: l, p, hc => foldl_consistent hf (l := l) (hf p x hc)

theorem reset_consistent (hc : p.Consistent) : ∀ r, (p.reset o r).Consistent
  | none => hc
  | some (head, reinject) => by
    have : Consistent ({ p with
        stateNonce := head.nonce, stateBalance := head.balance, pendingNonces := head.nonce
        currentMaxGas := head.gasLimit }.addTxs o reinject false) :=
      foldl_consistent (fun p tx hc => add_consistent hc tx false) (hc.congr rfl rfl rfl rfl rfl)
    exact this.congr rfl rfl rfl rfl rfl

theorem promoteExecutables_consistent (hc : p.Consistent) (now : Time) (accounts : List Address) :
    (p.promoteExecutables o now accounts).Consistent :=
  foldl_consistent (fun _ a hc => (promoteAccount_spec hc now a).1) hc

theorem demoteUnexecutables_consistent (hc : p.Consistent) : (p.demoteUnexecutables o).Consistent :=
  foldl_consistent (fun _ a hc => (demoteAccount_spec hc a).1) hc

theorem truncate_consistent (hc : p.Consistent) : ((p.truncatePending o).truncateQueue o).Consistent := by
  obtain ⟨_, hcut, _⟩ := truncatePending_spec (o := o) hc
  exact (truncateQueue_spec hcut.consistent).1

theorem updateNonces_consistent (hc : p.Consistent) : p.updateNonces.Consistent := by
  refine ⟨hc.pending, hc.queue, hc.apart, hc.full, hc.slots, ?_⟩
  have : ¬∃ a ∈ p.pending.keys, p.pending.txs a = [] := fun ⟨a, ha, hnil⟩ => hc.full a ha hnil
  simp only [updateNonces, this, hc.alive, decide_false, Bool.or_false]

theorem setGasPrice_consistent (hc : p.Consistent) (price : Int) : (p.setGasPrice o price).Consistent := by
  unfold setGasPrice
  generalize p.priced.cap p.all.all p.locals price = r
  obtain ⟨drop, priced⟩ := r
  exact (removeAll_spec (p := { p with gasPrice := price, priced }) (hc.congr rfl rfl rfl rfl rfl) false drop).1

theorem Consistent.step (hc : p.Consistent) (e : Event) : (p.step e).Consistent := by
  obtain ⟨op, now, o⟩ := e
  cases op with
  | add tx isLocal => exact add_consistent hc tx isLocal
  | setGasPrice price => exact setGasPrice_consistent hc price
  | evict =>
    refine foldl_consistent (fun p a hc => ?_) hc
    split
    · exact hc
    · split
      · exact (removeAll_spec hc true _).1
      · exact hc
  | runReorg request dirtyAccounts =>
    refine updateNonces_consistent (truncate_consistent ?_)
    have hreset : (request.elim p (p.reset o)).Consistent := by
      cases request with
      | none => exact hc
      | some r => exact reset_consistent hc r
    have hpromote := promoteExecutables_consistent (o := o) hreset now
    split
    · exact demoteUnexecutables_consistent (hpromote _)
    · exact hpromote _
  | reset r => exact reset_consistent hc r
  | promoteExecutables accounts => exact promoteExecutables_consistent hc now accounts
  | demoteUnexecutables => exact demoteUnexecutables_consistent hc
  | truncatePending =>
    obtain ⟨_, hcut, _⟩ := truncatePending_spec (o := o) hc
    exact hcut.consistent
  | truncateQueue => exact (truncateQueue_spec hc).1
  | updateNonces => exact updateNonces_consistent hc

theorem new_consistent (config : Config) (head : Head) : (new config head).Consistent := by
  refine ⟨by simp [new, Accounts.txs], by simp [new, Accounts.txs], by simp [new, Accounts.txs], fun a ha => ?_, ?_, rfl⟩
  · simp [new] at ha
  · simp only [new, Config.sanitize]
    split
    · decide
    · omega

theorem Reachable.consistent (h : p.Reachable) : p.Consistent := by
  obtain ⟨config, head, events, rfl⟩ := h
  exact foldl_consistent (fun _ e hc => hc.step e) (new_consistent config head)

/-- **No history brings the pool down**: nothing that is not in the lookup is taken
out of it, every list is its account's and is in the lookup, and an account has one
transaction of a nonce, pending or queued. -/
theorem pool_stays_consistent (config : Config) (head : Head) (events : List Event) :
    let p := (new config head).run events
    p.crashed = false ∧ (∀ a ∈ p.pending, p.pending.txs a ≠ []) ∧ (∀ a t, p.Lists a t → t.sender = a ∧ t ∈ p.all.all) ∧
      ∀ a t u, p.Lists a t → p.Lists a u → t.nonce = u.nonce → t = u := by
  intro p
  have hc : p.Consistent := Reachable.consistent ⟨config, head, events, rfl⟩
  exact ⟨hc.alive, hc.full, fun _ _ => hc.sender, fun _ _ _ => hc.nonce_inj⟩

/-- **The limits are enforced, and fairly.** After `truncatePending` and
`truncateQueue`, which end for any pool: not more is pending than the limit, or
no remote account has more than its slots. Local accounts and those that had
not more than their slots are as before, and any other keeps its first
transactions, at least as many as its slots. Not more is queued than the limit,
or only local accounts have queued transactions. -/
theorem limits_enforced (h : p.Reachable) (o o' : Order) :
    let p' := (p.truncatePending o).truncateQueue o'
    (p'.pending.count ≤ p.config.globalSlots ∨ ∀ a, a ∉ p.locals → (p'.pending.txs a).length ≤ p.config.accountSlots) ∧
    (∀ a, a ∈ p.locals ∨ (p.pending.txs a).length ≤ p.config.accountSlots → p'.pending.txs a = p.pending.txs a) ∧
    (∀ a, ∃ n, p.config.accountSlots ≤ n ∧ p'.pending.txs a = (p.pending.txs a).take n) ∧
    (p'.queue.count ≤ p.config.globalQueue ∨ ∀ a, p'.queue.txs a ≠ [] → a ∈ p.locals) ∧
    ∀ a ∈ p.locals, p'.queue.txs a = p.queue.txs a := by
  obtain ⟨f, hcut, hfair, hlow⟩ := truncatePending_spec (o := o) h.consistent
  obtain ⟨_, all, priced, crashed, queue, heq, hlocals, -, hqueue⟩ := truncateQueue_spec (o := o') hcut.consistent
  have hcount := hcut.count hfair
  have hpending := hcut.pending
  obtain ⟨_, _, _, _, _, hrest⟩ := hcut.rest
  rw [hrest] at heq hlocals hqueue hcount hpending
  rw [hrest, heq]
  refine ⟨hlow.imp hcount.le.trans fun h a ha => ?_, fun a ha => ?_, fun a => ?_, hqueue.imp id fun h a ha => ?_, hlocals⟩
  · rw [hpending, List.length_take]
    exact (Nat.min_le_left ..).trans (h a ha)
  · have : f a = (p.pending.txs a).length := (hfair a).resolve_right fun h => ha.elim h.1 (Nat.not_le.2 h.2.1)
    rw [hpending, this, List.take_length]
  · rcases hfair a with h | h
    · exact ⟨max p.config.accountSlots (p.pending.txs a).length, Nat.le_max_left .., by
        rw [hpending, h, List.take_length, List.take_of_length_le (Nat.le_max_right ..)]⟩
    · exact ⟨f a, h.2.2.1, hpending a⟩
  · by_contra hnot
    exact ha (h a hnot)

/-- Three transactions of a remote account are pending where the pool and each
account have one slot. -/
theorem limits_enforced_three :
    let p := (new { Config.default with accountSlots := 1, globalSlots := 1 } plainHead).run
      [(Op.add (transfer 7 0 5) false).at 1, (Op.add (transfer 7 1 5) false).at 2, (Op.add (transfer 7 2 5) false).at 3,
        (Op.promoteExecutables [7]).at 4]
    (p.pending.txs 7).length = 3 ∧ (((p.truncatePending plainOrder).truncateQueue plainOrder).pending.txs 7).length = 1 := by
  intro p
  have hthree : p.pending.txs 7 = [transfer 7 0 5, transfer 7 1 5, transfer 7 2 5] := by decide +kernel
  have hconfig : p.config.globalSlots = 1 ∧ p.config.accountSlots = 1 ∧ 7 ∉ p.locals := by decide +kernel
  obtain ⟨hlow, -, hkept, -⟩ := limits_enforced (p := p) ⟨_, _, _, rfl⟩ plainOrder plainOrder
  obtain ⟨n, hn, htake⟩ := hkept 7
  rw [hconfig.1, hconfig.2.1] at hlow
  rw [hconfig.2.1] at hn
  refine ⟨by rw [hthree]; rfl, Nat.le_antisymm ?_ ?_⟩
  · exact hlow.elim (Accounts.length_le_count ..).trans fun h => h 7 hconfig.2.2
  · rw [htake, hthree, List.length_take]
    exact Nat.le_min.2 ⟨hn, by decide⟩

end Pool

end NdnGeth.TxPool
