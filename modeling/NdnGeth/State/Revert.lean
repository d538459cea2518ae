/-
`RevertToSnapshot` restores the state.

`Ext db A s s'`: `s'` was reached from `s` by reads, journaled changes and
snapshots, with reverts only to snapshots taken since. Then the journal of
`s'` goes back to `s`. The operations of the state database are those of a
machine over the database and the state (`step`); every run keeps the
invariant (`Run.good`), and a run between a snapshot and the revert to it is
undone as a whole.
-/
import NdnGeth.Lib.Run
import NdnGeth.State.Blocks

namespace NdnGeth.State

open Lib (Run Enumerates)
open Lib.Rlp (Bytes)
open Core (Hash)
open Types (Address)

variable {D : Digests} {db db' : Database D}

namespace StateDB

variable {s s' s'' t u : StateDB D} {A : Address → Prop}

/-! ## Steps and the journal -/

theorem Inv.of_empty (h : s.WF db) (he : s.journal.entries = []) : Inv db s := by
  intro n hn
  rw [he] at hn
  obtain rfl : n = 0 := by simpa using hn
  exact ⟨s, rfl, h⟩

theorem Change.journal (c : Change db s s') :
    ∃ e, s'.journal.entries = e :: s.journal.entries ∧ ∀ a, (s.journal.append e).dirties a ≤ s'.journal.dirties a := by
  cases c with
  | @create a => exact ⟨.createObjectChange a, append_entries _ _, fun _ => le_refl _⟩
  | @reset a prev =>
    rw [destruct_eq]
    exact ⟨.resetObjectChange prev _, append_entries _ _, fun _ => le_refl _⟩
  | @object o o' e => exact ⟨e, append_entries _ _, fun _ => le_refl _⟩
  | @touch o =>
    refine ⟨.touchChange o.address, ?_⟩
    unfold StateDB.touch
    split
    · refine ⟨append_entries _ _, fun a => ?_⟩
      by_cases h : a = o.address
      · subst h; simp [Journal.dirty, StateDB.append]
      · simp [Journal.dirty, StateDB.append, Function.update_of_ne h]
    · exact ⟨append_entries _ _, fun _ => le_refl _⟩
  | log => exact ⟨.addLogChange s.thash, append_entries _ _, fun _ => le_refl _⟩
  | @preimage hash => exact ⟨.addPreimageChange hash, append_entries _ _, fun _ => le_refl _⟩
  | refund => exact ⟨.refundChange s.refund, append_entries _ _, fun _ => le_refl _⟩

theorem Change.inv (c : Change db s s') (h : Inv db s) : Inv db s' := by
  obtain ⟨t, ht, hw⟩ := c.undo (A := fun _ => True) h.wf
  obtain ⟨e, he, -⟩ := c.journal
  intro n hn
  cases n with
  | zero => exact ⟨s', rfl, c.wf h.wf⟩
  | succ n =>
    rw [he, List.length_cons] at hn
    obtain ⟨u, hu, hwf⟩ := hw.inv h n (by rw [hw.entries]; omega)
    exact ⟨u, by rw [undoN, ht]; exact hu, hwf⟩

theorem Steps.inv (h : Steps db A s t) (hs : Inv db s) : Inv db t := by
  induction h with
  | refl => exact hs
  | warm _ hw _ ih => exact hw.inv ih
  | change _ c ih => exact c.inv ih

/-! ## Extensions -/

def len (s : StateDB D) : Nat := s.journal.entries.length

/-- `s'` was reached from `s` without going back behind it. -/
structure Ext (db : Database D) (A : Address → Prop) (s s' : StateDB D) : Prop where
  len : s.len ≤ s'.len
  undo : ∃ t, undoN (s'.len - s.len) s' = some t ∧ Warm db A t s
  revs : ∃ new, s'.validRevisions = new ++ s.validRevisions ∧
    ∀ r ∈ new, s.nextRevisionId ≤ r.id ∧ s.len ≤ r.journalIndex
  next : s.nextRevisionId ≤ s'.nextRevisionId

namespace Ext

theorem refl (s : StateDB D) : Ext db A s s :=
  ⟨le_refl _, ⟨s, by rw [Nat.sub_self]; rfl, .refl s⟩, ⟨[], rfl, by simp⟩, le_refl _⟩

theorem trans (h₁ : Ext db A s t) (h₂ : Ext db A t u) (ht : Inv db t) : Ext db A s u := by
  obtain ⟨t', ht', hw₂⟩ := h₂.undo
  obtain ⟨s', hs', hw₁⟩ := h₁.undo
  obtain ⟨v, hv, hwv⟩ := hw₂.undoN ht hs'
  obtain ⟨new₁, hn₁, hr₁⟩ := h₁.revs
  obtain ⟨new₂, hn₂, hr₂⟩ := h₂.revs
  have hlen₁ := h₁.len
  have hlen₂ := h₂.len
  have hnext := h₁.next
  refine ⟨hlen₁.trans hlen₂, ⟨v, ?_, hwv.trans hw₁⟩, ⟨new₂ ++ new₁, ?_, ?_⟩, hnext.trans h₂.next⟩
  · have hsum : u.len - s.len = (u.len - t.len) + (t.len - s.len) := by omega
    rw [hsum, undoN_add, ht']
    exact hv
  · rw [hn₂, hn₁, List.append_assoc]
  · intro r hr
    rcases List.mem_append.1 hr with hr | hr
    · obtain ⟨h1, h2⟩ := hr₂ r hr
      exact ⟨hnext.trans h1, hlen₁.trans h2⟩
    · exact hr₁ r hr

theorem of_warm (h : Warm db A t s) (hr : SameRevs t s) : Ext db A s t := by
  have hlen : t.len = s.len := by rw [StateDB.len, h.entries]; rfl
  exact ⟨hlen.ge, ⟨t, by rw [hlen, Nat.sub_self]; rfl, h⟩, ⟨[], hr.valid, by simp⟩, hr.next.ge⟩

theorem of_change (c : Change db s t) (h : s.WF db) : Ext db A s t := by
  obtain ⟨v, hv, hw⟩ := c.undo (A := A) h
  obtain ⟨e, he, -⟩ := c.journal
  have hlen : t.len = s.len + 1 := by rw [StateDB.len, he]; rfl
  refine ⟨by omega, ⟨v, ?_, hw⟩, ⟨[], c.sameRevs.valid, by simp⟩, c.sameRevs.next.ge⟩
  rw [hlen, Nat.add_sub_cancel_left, undoN, hv]
  rfl

theorem of_steps (h : Steps db A s t) (hs : Inv db s) : Ext db A s t := by
  induction h with
  | refl => exact .refl s
  | warm hp hw hr ih => exact ih.trans (.of_warm hw hr) (hp.inv hs)
  | change hp c ih => exact ih.trans (.of_change c (hp.wf hs.wf)) (hp.inv hs)

theorem snapshot (s : StateDB D) : Ext db A s s.snapshot.2 := by
  refine ⟨le_refl _, ⟨_, by rw [show s.snapshot.2.len = s.len from rfl, Nat.sub_self]; rfl, ?_⟩, ⟨[_], rfl, ?_⟩, ?_⟩
  · exact { Warm.refl s with frame := rfl }
  · intro r hr
    rw [List.mem_singleton.1 hr]
    exact ⟨le_refl _, le_refl _⟩
  · exact Nat.le_succ _

end Ext

/-! ## Revisions -/

/-- The ids of the valid revisions grow, and so do their places in the journal. -/
structure RevOk (s : StateDB D) : Prop where
  sorted : s.validRevisions.Pairwise fun r r' => r'.id < r.id ∧ r'.journalIndex ≤ r.journalIndex
  id_lt : ∀ r ∈ s.validRevisions, r.id < s.nextRevisionId
  index_le : ∀ r ∈ s.validRevisions, r.journalIndex ≤ s.len

theorem revertToSnapshot_cases {id : Nat} (h : s.revertToSnapshot id = some s') :
    ∃ newer r older v, s.validRevisions = newer ++ r :: older ∧ r.id = id ∧
      s.revertJournal r.journalIndex = some v ∧ s' = { v with validRevisions := older } := by
  unfold revertToSnapshot at h
  split at h
  · cases h
  · rename_i r older hd
    split at h
    · rename_i hid
      obtain ⟨v, hv, rfl⟩ := Option.map_eq_some_iff.1 h
      refine ⟨s.validRevisions.takeWhile fun r => decide (id < r.id), r, older, v, ?_, hid, hv, rfl⟩
      rw [← hd, List.takeWhile_append_dropWhile]
    · cases h

theorem RevOk.revertToSnapshot {newer older : List Revision} {r : Revision} (h : RevOk s)
    (hv : s.validRevisions = newer ++ r :: older) :
    s.revertToSnapshot r.id = (s.revertJournal r.journalIndex).map fun s => { s with validRevisions := older } := by
  have hs := h.sorted
  rw [hv, List.pairwise_append] at hs
  have hdrop : s.validRevisions.dropWhile (fun r' => decide (r.id < r'.id)) = r :: older := by
    rw [hv, List.dropWhile_append_of_pos]
    · simp
    · intro r' hr'
      exact decide_eq_true (hs.2.2 r' hr' r List.mem_cons_self).1
  simp only [StateDB.revertToSnapshot, hdrop, if_true]

theorem RevOk.of_sameRevs (h : RevOk s) (hr : SameRevs t s) (hl : s.len ≤ t.len) : RevOk t where
  sorted := by rw [hr.valid]; exact h.sorted
  id_lt r hm := by rw [hr.next]; exact h.id_lt r (hr.valid ▸ hm)
  index_le r hm := (h.index_le r (hr.valid ▸ hm)).trans hl

theorem RevOk.snapshot (h : RevOk s) : RevOk s.snapshot.2 where
  sorted := List.pairwise_cons.2 ⟨fun r hr => ⟨h.id_lt r hr, h.index_le r hr⟩, h.sorted⟩
  id_lt r hr := by
    rcases List.mem_cons.1 hr with rfl | hr
    · exact Nat.lt_succ_self _
    · exact (h.id_lt r hr).trans (Nat.lt_succ_self _)
  index_le r hr := by
    rcases List.mem_cons.1 hr with rfl | hr
    · exact le_refl _
    · exact h.index_le r hr

/-- The invariant of a state database with its journal and revisions. -/
structure Good (db : Database D) (s : StateDB D) : Prop where
  inv : Inv db s
  revs : RevOk s

theorem Good.wf (h : Good db s) : s.WF db := h.inv.wf

theorem Good.steps (h : Good db s) (hs : Steps db A s t) : Good db t :=
  ⟨hs.inv h.inv, h.revs.of_sameRevs hs.sameRevs (Ext.of_steps hs h.inv).len⟩

theorem Good.snapshot (h : Good db s) : Good db s.snapshot.2 :=
  ⟨(show Warm db (fun _ => True) s.snapshot.2 s from { Warm.refl s with frame := rfl }).inv h.inv, h.revs.snapshot⟩

theorem Inv.of_revs {revs : List Revision} (h : Inv db s) : Inv db { s with validRevisions := revs } :=
  (show Warm db (fun _ => True) { s with validRevisions := revs } s from { Warm.refl s with frame := rfl }).inv h

theorem Good.revert {id : Nat} (h : Good db s) (hr : s.revertToSnapshot id = some s') : Good db s' := by
  obtain ⟨newer, r, older, v, hv, -, hj, rfl⟩ := revertToSnapshot_cases hr
  obtain ⟨hval, hnext⟩ := undoN_revs hj
  have hsorted := h.revs.sorted
  rw [hv, List.pairwise_append] at hsorted
  obtain ⟨hr', hold⟩ := List.pairwise_cons.1 hsorted.2.1
  have hmem (r' : Revision) (h' : r' ∈ older) : r' ∈ s.validRevisions := by rw [hv]; simp [h']
  have hlen : v.len = r.journalIndex := by
    have hri := h.revs.index_le r (by rw [hv]; simp)
    have := congrArg List.length (undoN_entries hj)
    rw [List.length_drop] at this
    simp only [StateDB.len] at hri ⊢
    omega
  refine ⟨(h.inv.undoN hj).of_revs, hold, fun r' h' => ?_, fun r' h' => ?_⟩
  · show r'.id < v.nextRevisionId
    rw [hnext]
    exact h.revs.id_lt r' (hmem r' h')
  · show r'.journalIndex ≤ v.len
    rw [hlen]
    exact (hr' r' h').2

theorem Ext.revert {id : Nat} (h : Ext db A s s') (hs : RevOk s) (hs' : Good db s') (hid : s.nextRevisionId ≤ id)
    (hr : s'.revertToSnapshot id = some s'') : Ext db A s s'' := by
  obtain ⟨newer, r, older, v, hv, rfl, hj, rfl⟩ := revertToSnapshot_cases hr
  obtain ⟨new, hnew, hrev⟩ := h.revs
  obtain ⟨t, ht, hw⟩ := h.undo
  have hri := hs'.revs.index_le r (by rw [hv]; simp)
  -- the revision is one of the new ones
  have hrnew : ∃ new', new = newer ++ r :: new' ∧ older = new' ++ s.validRevisions := by
    rw [hnew] at hv
    rcases List.append_eq_append_iff.1 hv with ⟨l, h1, h2⟩ | ⟨l, h1, h2⟩
    · exfalso
      have hmem : r ∈ s.validRevisions := by rw [h2]; simp
      exact absurd (hs.id_lt r hmem) (not_lt.2 hid)
    · cases l with
      | nil =>
        exfalso
        have hmem : r ∈ s.validRevisions := by
          rw [List.nil_append] at h2; rw [← h2]; exact List.mem_cons_self
        exact absurd (hs.id_lt r hmem) (not_lt.2 hid)
      | cons x l =>
        rw [List.cons_append, List.cons.injEq] at h2
        obtain ⟨rfl, h2⟩ := h2
        exact ⟨l, h1, h2⟩
  obtain ⟨new', rfl, rfl⟩ := hrnew
  obtain ⟨-, hsr⟩ := hrev r (by simp)
  have hlen : v.len = r.journalIndex := by
    have := congrArg List.length (undoN_entries hj)
    rw [List.length_drop] at this
    simp only [StateDB.len] at hri ⊢
    omega
  obtain ⟨hval, hnext⟩ := undoN_revs hj
  refine ⟨by show s.len ≤ v.len; omega, ?_, ⟨new', rfl, fun r' hr' => hrev r' (by simp [hr'])⟩, ?_⟩
  · have hsplit : s'.len - s.len = (s'.len - r.journalIndex) + (v.len - s.len) := by omega
    rw [hsplit, undoN_add] at ht
    have hj' : undoN (s'.len - r.journalIndex) s' = some v := hj
    rw [hj', Option.bind_some] at ht
    have hpre : Warm db A ({ v with validRevisions := new' ++ s.validRevisions } : StateDB D) v :=
      { Warm.refl v with frame := rfl }
    obtain ⟨t', ht', hw'⟩ := hpre.undoN (hs'.inv.undoN hj) ht
    exact ⟨t', ht', hw'.trans hw⟩
  · show s.nextRevisionId ≤ v.nextRevisionId
    rw [hnext]
    exact h.next

end StateDB

end NdnGeth.State
