/-
Each journal entry undoes the change that logged it.

`Change` lists the changes that go through the journal, each with its entry.
A change keeps the invariant, and undoing its entry leads back to the state
before it, with more cached (`Change.undo`). Undoing entries does not depend
on what is cached (`Warm.undoN`), so any number of changes is undone one
after the other.
-/
import NdnGeth.State.Warm

namespace NdnGeth.State

open Function
open Lib.Rlp (Bytes)
open NdnGeth.Core (Hash)
open NdnGeth.Types (Address)

variable {D : Digests} {db : Database D}

namespace StateDB

variable {s s' t : StateDB D} {a : Address} {o : StateObject D} {A : Address → Prop}

/-! ## Undoing one entry -/

theorem WF.revertObject_some (h : s.WF db) (ho : s.live a = some o) {f : StateObject D → StateObject D}
    (hf : (f o).address = o.address) : s.revertObject a f = some (s.setStateObject (f o)) := by
  have ha : (f o).address = a := hf.trans (h.peek_address (live_eq_some.1 ho).1)
  rw [revertObject, h.getStateObject, ho]
  subst ha
  simp only [load_setStateObject]

theorem WF.revertObject_none (h : s.WF db) (ho : s.live a = none) (f : StateObject D → StateObject D) :
    s.revertObject a f = none := by
  rw [revertObject, h.getStateObject, ho]

theorem Warm.revertObject (h : Warm db A t s) (hs : s.WF db) {f : StateObject D → StateObject D}
    (hf : ∀ o, (f o).address = o.address) (hw : ∀ o' o, o'.Warmer db (A a) o → (f o').Warmer db (A a) (f o))
    (hr : s.revertObject a f = some s') : ∃ t', t.revertObject a f = some t' ∧ Warm db A t' s' := by
  cases ho : s.live a with
  | none => rw [hs.revertObject_none ho] at hr; cases hr
  | some o =>
    rw [hs.revertObject_some ho (hf o)] at hr
    cases hr
    obtain ⟨o', ho', w⟩ := h.of_live ho
    have ha : (f o).address = a := (hf o).trans (hs.peek_address (live_eq_some.1 ho).1)
    refine ⟨_, (h.wf hs).revertObject_some ho' (hf o'), h.setStateObject_both ?_⟩
    rw [ha]
    exact hw o' o w

theorem Warm.revertEntry (h : Warm db A t s) (hs : s.WF db) {e : JournalEntry D}
    (hr : s.revertEntry e = some s') : ∃ t', t.revertEntry e = some t' ∧ Warm db A t' s' := by
  cases e with
  | createObjectChange b =>
    cases hr
    refine ⟨_, rfl, { h with
      frame := congrArg (fun x : StateDB D =>
        { x with stateObjectsDirty := update x.stateObjectsDirty b false }) h.frame
      loaded := fun a ha => ?_
      objects := fun a => ?_ }⟩
    · by_cases hab : a = b
      · subst hab; simp at ha
      · simp only [update_of_ne hab] at ha ⊢
        exact h.loaded a ha
    · by_cases hab : a = b
      · subst hab
        simp only [peek, update_self, Option.none_or, h.trie]
        cases s.trie a with
        | none => exact .none
        | some acc => exact .some (.refl _)
      · simpa only [peek, update_of_ne hab] using h.objects a
  | resetObjectChange prev pd =>
    have hset : Warm db A (t.setStateObject prev) (s.setStateObject prev) := h.setStateObject_both (.refl prev)
    simp only [StateDB.revertEntry] at hr ⊢
    rw [show (t.setStateObject prev).snap.isSome = (s.setStateObject prev).snap.isSome from h.snap_isSome]
    split
    · rename_i hc
      rw [if_pos hc] at hr
      cases hr
      exact ⟨_, rfl, { hset with
        frame := congrArg (fun x : StateDB D =>
          { x with snapDestructs := update x.snapDestructs prev.address false }) hset.frame
        loaded := hset.loaded
        objects := hset.objects }⟩
    · rename_i hc
      rw [if_neg hc] at hr
      cases hr
      exact ⟨_, rfl, hset⟩
  | suicideChange b prev v =>
    simp only [StateDB.revertEntry, hs.getStateObject, (h.wf hs).getStateObject] at hr ⊢
    cases ho : s.live b with
    | none =>
      rw [ho] at hr
      cases hr
      rw [h.of_live_none ho]
      exact ⟨_, rfl, h.load_both b⟩
    | some o =>
      obtain ⟨o', ho', w⟩ := h.of_live ho
      rw [ho] at hr
      cases hr
      rw [ho']
      have ha : o.address = b := hs.peek_address (live_eq_some.1 ho).1
      refine ⟨_, rfl, (h.load_both b).setStateObject_both ?_⟩
      exact (ha ▸ w : o'.Warmer db (A o.address) o).setSuicided prev v
  | balanceChange b v => exact h.revertObject hs (fun _ => rfl) (fun _ _ w => w.setBalance v) hr
  | nonceChange b n => exact h.revertObject hs (fun _ => rfl) (fun _ _ w => w.setNonce n) hr
  | storageChange b k v => exact h.revertObject hs (fun _ => rfl) (fun _ _ w => w.setState k v) hr
  | codeChange b c hash => exact h.revertObject hs (fun _ => rfl) (fun _ _ w => w.setCode hash c) hr
  | refundChange v =>
    cases hr
    exact ⟨_, rfl, { h with
      frame := congrArg (fun x : StateDB D => { x with refund := v }) h.frame
      loaded := h.loaded
      objects := h.objects }⟩
  | addLogChange th =>
    simp only [StateDB.revertEntry, h.logs, h.logSize] at hr ⊢
    split
    · rename_i hl; rw [if_pos hl] at hr; cases hr
    · rename_i hl
      rw [if_neg hl] at hr
      cases hr
      exact ⟨_, rfl, { h with
        frame := congrArg (fun x : StateDB D =>
          { x with logs := update s.logs th (s.logs th).dropLast, logSize := s.logSize - 1 }) h.frame
        loaded := h.loaded
        objects := h.objects }⟩
  | addPreimageChange hash =>
    cases hr
    exact ⟨_, rfl, { h with
      frame := congrArg (fun x : StateDB D =>
        { x with preimages := update x.preimages hash none }) h.frame
      loaded := h.loaded
      objects := h.objects }⟩
  | touchChange b => cases hr; exact ⟨_, rfl, h⟩

/-! ## The journal while entries are undone -/

/-- The journal and the revisions. -/
def marks (s : StateDB D) : Journal D × List Revision × Nat := (s.journal, s.validRevisions, s.nextRevisionId)

theorem getDeletedStateObject_marks (s : StateDB D) (a : Address) :
    (s.getDeletedStateObject a).2.marks = s.marks := by
  unfold getDeletedStateObject
  split
  · rfl
  · split <;> rfl

theorem revertObject_marks {f : StateObject D → StateObject D} (h : s.revertObject a f = some s') :
    s'.marks = s.marks := by
  unfold revertObject at h
  have hj := getDeletedStateObject_marks s a
  split at h
  · cases h
  · rename_i o u hg
    cases h
    exact (congrArg (fun p => p.2.marks) hg).symm.trans hj

theorem revertEntry_marks {e : JournalEntry D} (h : s.revertEntry e = some s') : s'.marks = s.marks := by
  cases e with
  | createObjectChange b => cases h; rfl
  | resetObjectChange prev pd =>
    simp only [StateDB.revertEntry] at h
    split at h <;> cases h <;> rfl
  | suicideChange b prev v =>
    have hj := getDeletedStateObject_marks s b
    simp only [StateDB.revertEntry] at h
    split at h
    · rename_i u hg
      cases h
      exact (congrArg (fun p => p.2.marks) hg).symm.trans hj
    · rename_i o u hg
      cases h
      exact (congrArg (fun p => p.2.marks) hg).symm.trans hj
  | balanceChange b v | nonceChange b n | storageChange b k v | codeChange b c hash => exact revertObject_marks h
  | refundChange v => cases h; rfl
  | addLogChange th =>
    simp only [StateDB.revertEntry] at h
    split at h
    · cases h
    · cases h; rfl
  | addPreimageChange hash => cases h; rfl
  | touchChange b => cases h; rfl

theorem revertEntry_journal {e : JournalEntry D} (h : s.revertEntry e = some s') : s'.journal = s.journal :=
  congrArg Prod.fst (revertEntry_marks h)

theorem undo_of_revertEntry {e : JournalEntry D} {es : List (JournalEntry D)} (hj : s.journal.entries = e :: es)
    (hr : s.revertEntry e = some s') : s.undo = some { s' with journal := s'.journal.drop e } := by
  simp only [undo, hj, hr, Option.map_some]

theorem undo_cases (h : s.undo = some s') :
    ∃ e es u, s.journal.entries = e :: es ∧ s.revertEntry e = some u ∧ s' = { u with journal := u.journal.drop e } := by
  unfold undo at h
  split at h
  · cases h
  · rename_i e es hj
    obtain ⟨u, hu, rfl⟩ := Option.map_eq_some_iff.1 h
    exact ⟨e, es, u, hj, hu, rfl⟩

theorem undo_entries (h : s.undo = some s') : s'.journal.entries = s.journal.entries.tail := by
  obtain ⟨e, es, u, -, hu, rfl⟩ := undo_cases h
  show u.journal.entries.tail = _
  rw [revertEntry_journal hu]

theorem undoN_entries {n : Nat} (h : undoN n s = some s') : s'.journal.entries = s.journal.entries.drop n := by
  induction n generalizing s with
  | zero => cases h; rfl
  | succ n ih =>
    obtain ⟨u, hu, hn⟩ := Option.bind_eq_some_iff.1 h
    rw [ih hn, undo_entries hu, List.drop_tail]

theorem undoN_revs {n : Nat} (h : undoN n s = some s') :
    s'.validRevisions = s.validRevisions ∧ s'.nextRevisionId = s.nextRevisionId := by
  induction n generalizing s with
  | zero => cases h; exact ⟨rfl, rfl⟩
  | succ n ih =>
    obtain ⟨u, hu, hn⟩ := Option.bind_eq_some_iff.1 h
    obtain ⟨e, es, v, -, hv, rfl⟩ := undo_cases hu
    have hm := congrArg Prod.snd (revertEntry_marks hv)
    obtain ⟨h1, h2⟩ := ih hn
    exact ⟨h1.trans (congrArg Prod.fst hm), h2.trans (congrArg Prod.snd hm)⟩

theorem undoN_add (m n : Nat) (s : StateDB D) : undoN (m + n) s = (undoN m s).bind (undoN n) := by
  induction m generalizing s with
  | zero => simp [undoN]
  | succ m ih =>
    rw [Nat.succ_add, undoN, undoN, Option.bind_assoc]
    exact congrArg _ (funext fun u => ih u)

/-! ## Undoing does not depend on what is cached -/

theorem Warm.drop (h : Warm db A t s) (e : JournalEntry D) :
    Warm db A { t with journal := t.journal.drop e } { s with journal := s.journal.drop e } where
  frame := congrArg (fun x : StateDB D =>
    { x with journal := ⟨x.journal.entries.tail, x.journal.dirties⟩ }) h.frame
  dirties a ha := by
    simp only [Journal.drop]
    cases e.dirtied with
    | none => exact h.dirties a ha
    | some b =>
      simp only [Option.elim_some, update_apply]
      split
      · rename_i hab; subst hab; rw [h.dirties a ha]
      · exact h.dirties a ha
  ripemd := by
    have := h.ripemd
    simp only [Journal.drop]
    cases e.dirtied with
    | none => exact this
    | some b =>
      simp only [Option.elim_some, update_apply]
      split
      · rename_i hab; subst hab; omega
      · exact this
  loaded := h.loaded
  objects := h.objects

theorem Warm.undo (h : Warm db A t s) (hs : s.WF db) (hu : s.undo = some s') :
    ∃ t', t.undo = some t' ∧ Warm db A t' s' := by
  obtain ⟨e, es, u, hj, hr, rfl⟩ := undo_cases hu
  obtain ⟨v, hv, hw⟩ := h.revertEntry hs hr
  exact ⟨_, undo_of_revertEntry (h.entries.trans hj) hv, hw.drop e⟩

/-- Every state that undoing the journal leads through keeps the invariant. -/
def Inv (db : Database D) (s : StateDB D) : Prop :=
  ∀ n ≤ s.journal.entries.length, ∃ u, undoN n s = some u ∧ u.WF db

theorem Inv.wf (h : Inv db s) : s.WF db := by
  obtain ⟨u, hu, hw⟩ := h 0 (Nat.zero_le _)
  cases hu
  exact hw

theorem Inv.undo (h : Inv db s) (hu : s.undo = some s') : Inv db s' := by
  intro n hn
  have hlen : s.journal.entries.length = s'.journal.entries.length + 1 := by
    obtain ⟨e, es, u, hj, -, -⟩ := undo_cases hu
    rw [undo_entries hu, hj]
    rfl
  obtain ⟨u, hun, hw⟩ := h (n + 1) (by omega)
  rw [undoN, hu] at hun
  exact ⟨u, hun, hw⟩

theorem Inv.undoN {n : Nat} (h : Inv db s) (hu : undoN n s = some s') : Inv db s' := by
  induction n generalizing s with
  | zero => cases hu; exact h
  | succ n ih =>
    obtain ⟨u, hu, hn⟩ := Option.bind_eq_some_iff.1 hu
    exact ih (h.undo hu) hn

theorem Warm.undoN {n : Nat} (h : Warm db A t s) (hs : Inv db s) (hu : undoN n s = some s') :
    ∃ t', StateDB.undoN n t = some t' ∧ Warm db A t' s' := by
  induction n generalizing s t with
  | zero => cases hu; exact ⟨t, rfl, h⟩
  | succ n ih =>
    obtain ⟨u, hu, hn⟩ := Option.bind_eq_some_iff.1 hu
    obtain ⟨v, hv, hw⟩ := h.undo hs.wf hu
    obtain ⟨t', ht', hw'⟩ := ih hw (hs.undo hu) hn
    exact ⟨t', by rw [StateDB.undoN, hv]; exact ht', hw'⟩

theorem Warm.inv (h : Warm db A t s) (hs : Inv db s) : Inv db t := by
  intro n hn
  obtain ⟨u, hu, hw⟩ := hs n (h.entries ▸ hn)
  obtain ⟨v, hv, hwv⟩ := h.undoN hs hu
  exact ⟨v, hv, hwv.wf hw⟩

/-! ## Changes -/

/-- A change of an object, with its entry and the object after it. -/
inductive ObjChange (db : Database D) (o : StateObject D) : JournalEntry D → StateObject D → Prop
  | balance (v : Int) : ObjChange db o (.balanceChange o.address o.data.balance) (o.setBalance v)
  | nonce (n : BitVec 64) : ObjChange db o (.nonceChange o.address o.data.nonce) (o.setNonce n)
  | code (c : Bytes) :
    ObjChange db o (.codeChange o.address (o.code.or (o.storedCode db)) o.data.codeHash)
      (o.setCode (D.code c) (some c))
  | storage (key : Slot) (v : Value) (hk : o.originStorage key = none → o.base db key = 0) :
    ObjChange db o (.storageChange o.address key (o.current db key)) (o.setState key v)
  | suicide : ObjChange db o (.suicideChange o.address o.suicided o.data.balance) (o.setSuicided true 0)

/-- A change that goes through the journal. -/
inductive Change (db : Database D) : StateDB D → StateDB D → Prop
  | create {s : StateDB D} {a : Address} (h : s.peek a = none) :
    Change db s ((s.append (.createObjectChange a)).setStateObject (newObject a (.fresh D 0)))
  | reset {s : StateDB D} {a : Address} {prev : StateObject D} (h : s.stateObjects a = some prev) (v : Int) :
    Change db s (((s.destruct a).append (.resetObjectChange prev (s.snap.isSome && s.snapDestructs a))).setStateObject
      (newObject a (.fresh D v)))
  | object {s : StateDB D} {o o' : StateObject D} {e : JournalEntry D} (h : s.stateObjects o.address = some o)
    (hd : o.deleted = false) (c : ObjChange db o e o') : Change db s ((s.append e).setStateObject o')
  | touch {s : StateDB D} {o : StateObject D} (h : s.stateObjects o.address = some o) (hd : o.deleted = false) :
    Change db s (s.touch o)
  | log {s : StateDB D} (l : Log) : Change db s (s.addLog l)
  | preimage {s : StateDB D} {hash : Hash} (h : s.preimages hash = none) (p : Bytes) :
    Change db s { s.append (.addPreimageChange hash) with
      preimages := update s.preimages hash (some p) }
  | refund {s : StateDB D} (v : BitVec 64) : Change db s { s.append (.refundChange s.refund) with refund := v }

theorem fresh_base (a : Address) (v : Int) : (newObject a (.fresh D v)).base db = fun _ => 0 := by
  simp [StateObject.base, newObject, Account.fresh, Database.openStorageTrie]

theorem fresh_cached (a : Address) (v : Int) : (newObject a (.fresh D v)).Cached db :=
  StateObject.newObject_cached a (by simp [Account.fresh, Database.openStorageTrie])

namespace ObjChange

variable {e : JournalEntry D} {o' : StateObject D}

variable (c : ObjChange db o e o')
include c

theorem address : o'.address = o.address := by cases c <;> rfl
theorem deleted : o'.deleted = o.deleted := by cases c <;> rfl
theorem base : o'.base db = o.base db := by cases c <;> rfl
theorem pending : o'.pendingStorage = o.pendingStorage := by cases c <;> rfl
theorem origin : o'.originStorage = o.originStorage := by cases c <;> rfl
theorem trie : o'.trie = o.trie := by cases c <;> rfl
theorem root : o'.data.root = o.data.root := by cases c <;> rfl

theorem cached (h : o.Cached db) : o'.Cached db where
  opened := by rw [c.trie, c.root]; exact h.opened
  origin := by rw [c.origin, c.base]; exact h.origin
  known key ho hw := by
    rw [c.base]
    rw [c.origin] at ho
    rw [c.pending] at hw
    cases c with
    | storage k v hk =>
      by_cases hkk : key = k
      · subst hkk; exact hk ho
      · exact h.known key ho (by simpa [StateObject.setState, update_of_ne hkk] using hw)
    | balance | nonce | code | suicide => exact h.known key ho hw
  code x hx := by
    cases c with
    | code y => cases hx; rfl
    | storage | balance | nonce | suicide => exact h.code x hx

theorem snapOk {snap : Option (Snap D)} {d : Bool} (h : o.SnapOk db snap d) :
    o'.SnapOk db snap d := by
  intro sn hsn key ho
  rw [c.address, c.base]
  exact h sn hsn key (c.origin ▸ ho)

theorem revert (hs : s.WF db) (ho : s.live o.address = some o') (fake : Prop) :
    ∃ back, s.revertEntry e = some (s.setStateObject back) ∧ back.Warmer db fake o := by
  cases c with
  | balance v => exact ⟨o, hs.revertObject_some ho rfl, .refl o⟩
  | nonce n => exact ⟨o, hs.revertObject_some ho rfl, .refl o⟩
  | code code =>
    refine ⟨_, hs.revertObject_some ho rfl, { (StateObject.Warmer.refl o : o.Warmer db fake o) with
      base := rfl
      origin := fun _ => .inl rfl
      dirty := fun _ => .inl rfl
      code := ?_
      dirtyCode := fun _ => rfl }⟩
    cases hc : o.code with
    | some x => left; simp [StateObject.setCode]
    | none => right; exact ⟨rfl, by simp [StateObject.setCode]⟩
  | storage key v hk =>
    refine ⟨_, hs.revertObject_some ho rfl, { (StateObject.Warmer.refl o : o.Warmer db fake o) with
      base := rfl
      origin := fun _ => .inl rfl
      code := .inl rfl
      dirty := fun k => ?_ }⟩
    by_cases hkk : k = key
    · subst hkk
      simp only [StateObject.setState, update_self]
      cases hd : o.dirtyStorage k with
      | some w => left; simp [StateObject.current, hd]
      | none => right; exact ⟨rfl, by simp [StateObject.current, hd], hk⟩
    · left; simp [StateObject.setState, update_of_ne hkk]
  | suicide =>
    refine ⟨o, ?_, .refl o⟩
    simp only [StateDB.revertEntry, hs.getStateObject, ho]
    exact congrArg some (load_setStateObject s o)

end ObjChange

/-! ## The entry of a change undoes it -/

theorem append_entries (j : Journal D) (e : JournalEntry D) : (j.append e).entries = e :: j.entries := by
  unfold Journal.append
  cases e.dirtied <;> rfl

theorem append_drop (j : Journal D) (e : JournalEntry D) : (j.append e).drop e = j := by
  unfold Journal.append Journal.drop
  cases e.dirtied with
  | none => rfl
  | some a => simp [Journal.dirty]

theorem WF.of_journal (h : s.WF db) (j : Journal D) : WF db { s with journal := j } :=
  { h with }

theorem WF.append (h : s.WF db) (e : JournalEntry D) : (s.append e).WF db := h.of_journal _

theorem fresh_snapOk {snap : Option (Snap D)} {d : Bool} (v : Int)
    (h : ∀ sn, snap = some sn → d = false → ∀ key, sn.storage a key = 0) :
    (newObject a (.fresh D v)).SnapOk db snap d := by
  intro sn hsn key _
  rw [fresh_base]
  cases d with
  | true => rfl
  | false => exact h sn hsn rfl key

theorem destruct_eq (s : StateDB D) (a : Address) :
    s.destruct a = { s with snapDestructs := fun b => s.snapDestructs b || (s.snap.isSome && decide (b = a)) } := by
  unfold StateDB.destruct
  split
  · rename_i h
    congr 1
    funext b
    by_cases hb : b = a
    · subst hb; simp [h]
    · simp [hb]
  · rename_i h
    simp [h]

theorem peek_eq_none (h : s.peek a = none) : s.stateObjects a = none ∧ s.trie a = none := by
  obtain ⟨h1, h2⟩ := Option.or_eq_none_iff.1 h
  exact ⟨h1, Option.map_eq_none_iff.1 h2⟩

namespace Change

theorem wf (c : Change db s s') (h : s.WF db) : s'.WF db := by
  cases c with
  | @create a hn =>
    obtain ⟨hs, ht⟩ := peek_eq_none hn
    refine (h.append _).setStateObject (fresh_cached a 0) fun _ => fresh_snapOk 0 fun sn hsn _ key => ?_
    rw [(h.unloaded a sn hsn hs).2.2, ht]
    rfl
  | @reset a prev hs v =>
    rw [destruct_eq]
    refine WF.of_journal (h.replace (o := newObject a (.fresh D v)) (fun b hb => ?_) (fresh_cached a v)
      fun _ => fresh_snapOk v fun sn hsn hd => ?_) _
    · have hba : b ≠ a := hb
      simp [hba]
    · simp [hsn, newObject] at hd
  | object hs hd c =>
    refine (h.append _).setStateObject (c.cached (h.cached _ _ hs)) fun _ => ?_
    rw [c.address]
    exact c.snapOk (h.snapOk _ _ hs hd)
  | touch hs hd =>
    unfold StateDB.touch
    split
    · exact h.of_journal _
    · exact h.of_journal _
  | log l => exact { h with }
  | preimage hp p => exact { h with }
  | refund v => exact { h with }

theorem undo (c : Change db s s') (h : s.WF db) : ∃ t, s'.undo = some t ∧ Warm db A t s := by
  have hwf := c.wf h
  cases c with
  | @create a hn =>
    obtain ⟨hs, ht⟩ := peek_eq_none hn
    have hdirty : s.stateObjectsDirty a = false := by
      by_contra hne
      exact h.loaded a (.inr (by simpa using hne)) hs
    refine ⟨s, ?_, .refl s⟩
    rw [undo_of_revertEntry (append_entries _ _) rfl]
    simp only [StateDB.append, StateDB.setStateObject, newObject, append_drop, update_idem]
    rw [update_eq_self_iff.2 hs.symm, update_eq_self_iff.2 hdirty.symm]
  | @reset a prev hs v =>
    have ha : prev.address = a := h.address a prev hs
    refine ⟨s, ?_, .refl s⟩
    subst ha
    have hobj : update s.stateObjects prev.address (some prev) = s.stateObjects :=
      update_eq_self_iff.2 hs.symm
    simp only [StateDB.undo, StateDB.append, StateDB.setStateObject, append_entries, StateDB.revertEntry, newObject,
      update_idem]
    unfold StateDB.destruct
    cases hsn : s.snap.isSome with
    | false =>
      simp only [Bool.false_and, Bool.not_false, Bool.true_and, Bool.false_eq_true, if_false, hsn, Option.map_some,
        append_drop, hobj]
    | true =>
      have hdes : update s.snapDestructs prev.address (s.snapDestructs prev.address) = s.snapDestructs :=
        update_eq_self _ _
      simp only [Bool.true_and, Bool.and_true, if_true, hsn]
      cases hd : s.snapDestructs prev.address with
      | false =>
        rw [hd] at hdes
        simp only [Bool.not_false, if_true, Option.map_some, append_drop, hobj, update_idem, hdes]
      | true =>
        rw [hd] at hdes
        simp only [Bool.not_true, Bool.false_eq_true, if_false, Option.map_some, append_drop, hobj, hdes]
  | @object o o' e hs hd c =>
    have hlive : ((s.append e).setStateObject o').live o.address = some o' := by
      rw [live_eq_some, peek_setStateObject, if_pos c.address.symm]
      exact ⟨rfl, c.deleted.trans hd⟩
    obtain ⟨back, hr, hw⟩ := c.revert hwf hlive (A o.address)
    refine ⟨_, undo_of_revertEntry (append_entries _ _) hr, ?_⟩
    have heq : ((s.append e).setStateObject o').setStateObject back = (s.append e).setStateObject back := by
      simp only [StateDB.setStateObject, c.address, hw.address, update_idem]
    rw [heq]
    simp only [StateDB.append, StateDB.setStateObject, append_drop]
    exact Warm.setStateObject (peek_of_loaded hs) hw
  | @touch o hs hd =>
    unfold StateDB.touch
    split
    · rename_i hr
      refine ⟨_, undo_of_revertEntry (append_entries _ _) rfl, { Warm.refl s with
        frame := rfl
        dirties := fun b hb => ?_
        ripemd := ?_ }⟩
      · have hbo : b ≠ o.address := by rw [hr]; exact hb
        simp [StateDB.append, Journal.append, Journal.dirty, Journal.drop, JournalEntry.dirtied,
          update_of_ne hbo]
      · simp [StateDB.append, Journal.append, Journal.dirty, Journal.drop, JournalEntry.dirtied, hr]
    · refine ⟨_, undo_of_revertEntry (append_entries _ _) rfl, ?_⟩
      simp only [StateDB.append, append_drop]
      exact .refl s
  | log l =>
    refine ⟨s, ?_, .refl s⟩
    simp only [StateDB.undo, StateDB.addLog, StateDB.append, append_entries, StateDB.revertEntry]
    simp [append_drop]
  | @preimage hash hp p =>
    refine ⟨s, ?_, .refl s⟩
    have hpre : update s.preimages hash none = s.preimages := update_eq_self_iff.2 hp.symm
    rw [undo_of_revertEntry (append_entries _ _) rfl]
    simp only [StateDB.append, append_drop, update_idem, hpre]
  | refund v =>
    refine ⟨s, ?_, .refl s⟩
    rw [undo_of_revertEntry (append_entries _ _) rfl]
    simp only [StateDB.append, append_drop]

end Change

end StateDB

end NdnGeth.State
