/-
Changes that nobody sees.

`Calm db s t`: the getters, the logs and the refund counter show the same in
`t` as in `s`. What was journaled on the way are new accounts, touches and
preimages (`Harmless`), so that undoing it does not change what is seen either,
storage set for debugging included. `Quiet` says this of all but the balances
that new accounts find.
-/
import NdnGeth.State.Facts

namespace NdnGeth.State

open Function
open Lib.Rlp (Bytes)
open Core (Hash)
open Types (Address)

variable {D : Digests} {db : Database D}

/-- An entry for a new account, a touch or a preimage. -/
def JournalEntry.Harmless (fakes : Address → Option StorageTrie) : JournalEntry D → Prop
  | createObjectChange a => fakes a = none
  | resetObjectChange prev _ => prev.deleted = true ∧ fakes prev.address = none
  | touchChange _ => True
  | addPreimageChange _ => True
  | _ => False

namespace StateDB

variable {s t u v : StateDB D} {a : Address} {A : Address → Prop}

structure Quiet (s t : StateDB D) : Prop where
  fakes : t.fakes = s.fakes
  logs : t.logs = s.logs
  refund : t.refund = s.refund
  entries : ∃ new, t.journal.entries = new ++ s.journal.entries ∧ ∀ e ∈ new, e.Harmless s.fakes

structure Calm (db : Database D) (s t : StateDB D) : Prop extends Quiet s t where
  facts : t.facts db = s.facts db

theorem Quiet.refl (s : StateDB D) : Quiet s s := ⟨rfl, rfl, rfl, [], rfl, by simp⟩

theorem Quiet.trans (h₁ : Quiet s t) (h₂ : Quiet t u) : Quiet s u := by
  obtain ⟨new₁, he₁, hh₁⟩ := h₁.entries
  obtain ⟨new₂, he₂, hh₂⟩ := h₂.entries
  refine ⟨h₂.fakes.trans h₁.fakes, h₂.logs.trans h₁.logs, h₂.refund.trans h₁.refund,
    new₂ ++ new₁, by rw [he₂, he₁, List.append_assoc], fun e he => ?_⟩
  rcases List.mem_append.1 he with he | he
  · rw [← h₁.fakes]
    exact hh₂ e he
  · exact hh₁ e he

theorem Quiet.of_entry {e : JournalEntry D} (hk : t.fakes = s.fakes) (hl : t.logs = s.logs)
    (hr : t.refund = s.refund) (he : t.journal.entries = e :: s.journal.entries) (hh : e.Harmless s.fakes) : Quiet s t :=
  ⟨hk, hl, hr, [e], he, fun e' he' => by rw [List.mem_singleton.1 he']; exact hh⟩

theorem Quiet.view (h : Quiet s t) (hf : t.facts db a = s.facts db a) (key : Slot) :
    t.view db (.balance a) = s.view db (.balance a) ∧ t.view db (.nonce a) = s.view db (.nonce a) ∧
      t.view db (.code a) = s.view db (.code a) ∧ t.view db (.suicided a) = s.view db (.suicided a) ∧
      t.view db (.state a key) = s.view db (.state a key) ∧
      t.view db (.committedState a key) = s.view db (.committedState a key) := by
  simp only [view_balance, view_nonce, view_code, view_suicided, view_state, view_committedState, hf, h.fakes,
    and_self]

namespace Calm

theorem refl (s : StateDB D) : Calm db s s := ⟨.refl s, rfl⟩

theorem trans (h₁ : Calm db s t) (h₂ : Calm db t u) : Calm db s u :=
  ⟨h₁.toQuiet.trans h₂.toQuiet, h₂.facts.trans h₁.facts⟩

theorem of_warm (h : Warm db A t s) (hf : t.fakes = s.fakes) : Calm db s t :=
  ⟨⟨hf, h.logs, h.refund, [], h.entries, by simp⟩, h.facts⟩

end Calm

/-! ## Calm operations -/

theorem WF.get_view (h : s.WF db) (g : Getter) : (s.get db g).1 = s.view db g := (h.get (A := fun _ => True) g).1

theorem WF.get_calm (h : s.WF db) (g : Getter) : Calm db s (s.get db g).2 := by
  obtain ⟨hw, hf⟩ := h.get_warm g
  exact .of_warm hw hf

theorem snapshot_calm (s : StateDB D) : Calm db s s.snapshot.2 := ⟨⟨rfl, rfl, rfl, [], rfl, by simp⟩, rfl⟩

theorem addPreimage_calm (s : StateDB D) (hash : Hash) (p : Bytes) : Calm db s (s.addPreimage hash p) := by
  unfold addPreimage
  split
  · exact .refl s
  · exact ⟨.of_entry (e := .addPreimageChange hash) rfl rfl rfl (append_entries _ _) trivial, rfl⟩

theorem touch_calm (s : StateDB D) (o : StateObject D) : Calm db s (s.touch o) := by
  unfold touch
  split
  · exact ⟨.of_entry (e := .touchChange o.address) rfl rfl rfl (append_entries _ _) trivial, rfl⟩
  · exact ⟨.of_entry (e := .touchChange o.address) rfl rfl rfl (append_entries _ _) trivial, rfl⟩

theorem WF.createObject_journal (h : s.WF db) (a : Address) (carry : Bool) :
    (s.createObject a carry).2.logs = s.logs ∧ (s.createObject a carry).2.refund = s.refund ∧
      ∃ e, (s.createObject a carry).2.journal.entries = e :: s.journal.entries ∧
        (e = .createObjectChange a ∨ ∃ prev d, s.peek a = some prev ∧ e = .resetObjectChange prev d) := by
  rw [StateDB.createObject, h.getDeletedStateObject]
  have hload : Warm db (fun _ => True) (s.load a) s := .load s a
  cases hp : s.peek a with
  | none =>
    refine ⟨hload.logs, hload.refund, .createObjectChange a, ?_, .inl rfl⟩
    rw [← load_journal s a]
    exact append_entries _ _
  | some prev =>
    simp only [destruct_eq]
    refine ⟨hload.logs, hload.refund,
      .resetObjectChange prev ((s.load a).snap.isSome && (s.load a).snapDestructs a), ?_, .inr ⟨prev, _, rfl, rfl⟩⟩
    rw [← load_journal s a]
    exact append_entries _ _

/-- A new account in the place of none: nothing is seen of it but the balance that
the account before it left. -/
theorem WF.createObject_quiet (h : s.WF db) (hl : s.live a = none) (carry : Bool) : Quiet s (s.createObject a carry).2 := by
  obtain ⟨hlogs, hrefund, e, he, hcase⟩ := h.createObject_journal a carry
  have hfake : s.fakes a = none := by rw [fakes, hl]; rfl
  refine .of_entry ?_ hlogs hrefund he ?_
  · rw [h.createObject_fakes]
    exact update_eq_self_iff.2 hfake.symm
  · rcases hcase with rfl | ⟨prev, d, hp, rfl⟩
    · exact hfake
    · refine ⟨?_, by rw [h.peek_address hp]; exact hfake⟩
      by_contra hd
      have := live_eq_some.2 ⟨hp, by simpa using hd⟩
      rw [hl] at this
      cases this

theorem WF.getOrNew_calm (h : s.WF db) (a : Address) : Calm db s (s.getOrNewStateObject a).2 := by
  have hload : Calm db s (s.load a) := .of_warm (Warm.load (A := fun _ => True) s a) (fakes_load s a)
  rcases h.getOrNew_cases a with hu | ⟨hl, hu⟩
  · rw [hu]
    exact hload
  · rw [hu]
    have hwf : (s.load a).WF db := (Warm.load (A := fun _ => True) s a).wf h
    have hnone : (s.load a).live a = none := by rw [live_load]; exact hl
    refine hload.trans ⟨hwf.createObject_quiet hnone false, ?_⟩
    rw [hwf.createObject_facts]
    exact update_eq_self_iff.2 (facts_of_live_none hnone).symm

theorem WF.setNonce_logs (h : s.WF db) (a : Address) (n : BitVec 64) :
    (s.setNonce a n).logs = s.logs ∧ (s.setNonce a n).refund = s.refund :=
  have hc := h.getOrNew_calm a
  ⟨hc.logs, hc.refund⟩

theorem WF.addBalance_zero_calm (h : s.WF db) (a : Address) : Calm db s (s.addBalance a 0) := by
  have hg := h.getOrNew_calm a
  unfold StateDB.addBalance
  simp only [if_true]
  split
  · exact hg.trans (touch_calm _ _)
  · exact hg

theorem WF.subBalance_zero_calm (h : s.WF db) (a : Address) : Calm db s (s.subBalance a 0) := by
  unfold StateDB.subBalance
  simp only [if_true]
  exact h.getOrNew_calm a

/-! ## Undoing -/

variable {f : Address → Option StorageTrie}

theorem undo_fakes {e : JournalEntry D} {es : List (JournalEntry D)}
    (hf : t.fakes = f) (he : t.journal.entries = e :: es) (hh : e.Harmless f) (hu : t.undo = some u) : u.fakes = f := by
  subst hf
  unfold undo at hu
  rw [he] at hu
  obtain ⟨w, hw, rfl⟩ := Option.map_eq_some_iff.1 hu
  show w.fakes = _
  cases e with
  | createObjectChange a =>
    cases hw
    funext b
    by_cases hb : b = a
    · subst hb
      rw [show t.fakes b = none from hh]
      simp only [fakes, live, peek, update_self, Option.none_or]
      cases t.trie b <;> rfl
    · simp only [fakes, live, peek, update_of_ne hb]
  | resetObjectChange prev d =>
    have hset : (t.setStateObject prev).fakes = t.fakes := by
      funext b
      simp only [fakes, live, peek_setStateObject]
      split
      · rename_i hb
        have hnone : ((t.peek b).filter fun o => !o.deleted).bind StateObject.fakeStorage = none := by
          rw [hb]; exact hh.2
        rw [hnone]
        simp [hh.1]
      · rfl
    simp only [revertEntry] at hw
    split at hw <;> (cases hw; exact hset)
  | touchChange a => cases hw; rfl
  | addPreimageChange hash => cases hw; rfl
  | _ => exact hh.elim

theorem undoN_fakes {es : List (JournalEntry D)} :
    ∀ {new : List (JournalEntry D)} {t : StateDB D}, t.fakes = f → t.journal.entries = new ++ es →
      (∀ e ∈ new, e.Harmless f) → undoN new.length t = some u → u.fakes = f
  | [], t, hf, _, _, hu => by cases hu; exact hf
  | e :: new, t, hf, he, hh, hu => by
    obtain ⟨w, hw, hu⟩ := Option.bind_eq_some_iff.1 hu
    have hes : w.journal.entries = new ++ es := by rw [undo_entries hw, he]; rfl
    exact undoN_fakes (undo_fakes hf he (hh e List.mem_cons_self) hw) hes (fun e' h' => hh e' (.tail _ h')) hu

theorem Quiet.revert (h : Quiet s.snapshot.2 t) (hext : Ext db A s.snapshot.2 t) (ht : Good db t)
    (hr : t.revertToSnapshot s.nextRevisionId = some v) : Calm db s v := by
  obtain ⟨v', hv', hw⟩ := hext.revertToSnapshot ht
  cases hr.symm.trans hv'
  refine .of_warm hw ?_
  obtain ⟨new, hrevs, -⟩ := hext.revs
  obtain ⟨entries, he, hh⟩ := h.entries
  have hfound := ht.revs.revertToSnapshot (r := ⟨s.nextRevisionId, s.journal.entries.length⟩) hrevs
  rw [hr] at hfound
  obtain ⟨w, hu, rfl⟩ := Option.map_eq_some_iff.1 hfound.symm
  have hlen : t.journal.entries.length - s.journal.entries.length = entries.length := by
    have := congrArg List.length he
    rw [List.length_append] at this
    have hs : s.snapshot.2.journal.entries.length = s.journal.entries.length := rfl
    omega
  have hundo : undoN entries.length t = some w := by rw [← hlen]; exact hu
  show w.fakes = s.fakes
  exact undoN_fakes h.fakes he hh hundo

end StateDB

end NdnGeth.State
