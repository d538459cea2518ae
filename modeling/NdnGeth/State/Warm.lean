/-
States of the database up to what they have cached.

`peek` is the object of an address, whether it is loaded or not. `WF` is the
invariant that makes reading it independent of what is cached and of the
snapshot. `Warm db A t s`: `t` is `s` with more of it cached, as it is after
reads and after changes that were undone; storage may have been set for
debugging on the addresses of `A`.

Undoing a journal entry keeps the relation (`Warm.undoN`).
-/
import NdnGeth.State.Views

namespace NdnGeth.State

open Function
open NdnGeth.Core (Hash)
open NdnGeth.Types (Address)

variable {D : Digests} {db : Database D}

/-- The contents of a snapshot layer, without what of it can be read. -/
def Snap.bare (sn : Snap D) : Snap D :=
  { sn with coversAccount := fun _ => true, coversSlot := fun _ _ => true }

theorem StateObject.SnapOk.of_bare {snap snap' : Option (Snap D)} {d : Bool} {o : StateObject D}
    (hb : snap'.map Snap.bare = snap.map Snap.bare) (h : o.SnapOk db snap d) : o.SnapOk db snap' d := by
  intro sn' hsn' key ho
  rw [hsn', Option.map_some] at hb
  obtain ⟨sn, hsn, hbare⟩ := Option.map_eq_some_iff.1 hb.symm
  have hst : sn.bare.storage = sn'.bare.storage := by rw [hbare]
  show (if d then 0 else sn'.bare.storage o.address key) = _
  rw [← hst]
  exact h sn hsn key ho

namespace StateDB

/-- The object of an address, loaded or not. -/
def peek (s : StateDB D) (a : Address) : Option (StateObject D) :=
  (s.stateObjects a).or ((s.trie a).map (newObject a))

/-- The object of an account that exists. -/
def live (s : StateDB D) (a : Address) : Option (StateObject D) :=
  (s.peek a).filter fun o => !o.deleted

/-- The state with the object of an address loaded. -/
def load (s : StateDB D) (a : Address) : StateDB D :=
  if (s.stateObjects a).isSome then s
  else ((s.trie a).map (newObject a)).elim s s.setStateObject

/-- What is the same in a warmer state. -/
def bare (s : StateDB D) : StateDB D :=
  { s with
    snap := s.snap.map Snap.bare
    stateObjects := fun _ => none
    thash := 0
    bhash := 0
    txIndex := 0
    journal := ⟨s.journal.entries, fun _ => 0⟩
    validRevisions := []
    nextRevisionId := 0 }

/-- The storage trie of an account that is not loaded. -/
def storageOf (db : Database D) (acc : Option D.Account) : StorageTrie :=
  acc.elim (fun _ => 0) fun acc => (db.openStorageTrie acc.root).getD fun _ => 0

structure WF (db : Database D) (s : StateDB D) : Prop where
  sound : db.Sound
  address : ∀ a o, s.stateObjects a = some o → o.address = a
  cached : ∀ a o, s.stateObjects a = some o → o.Cached db
  snapOk : ∀ a o, s.stateObjects a = some o → o.deleted = false → o.SnapOk db s.snap (s.snapDestructs a)
  opened : ∀ a acc, s.stateObjects a = none → s.trie a = some acc → (db.openStorageTrie acc.root).isSome
  loaded : ∀ a, s.stateObjectsPending a = true ∨ s.stateObjectsDirty a = true → s.stateObjects a ≠ none
  /-- An account that is not loaded is the same in the snapshot. -/
  unloaded : ∀ a sn, s.snap = some sn → s.stateObjects a = none →
    (sn.account a).map SlimAccount.full = s.trie a ∧ s.snapDestructs a = false ∧
      sn.storage a = storageOf db (s.trie a)

/-! ## Objects, loaded or not -/

variable {s t u : StateDB D} {a : Address} {o : StateObject D}

theorem peek_of_loaded (h : s.stateObjects a = some o) : s.peek a = some o := by rw [peek, h]; rfl

theorem peek_of_unloaded (h : s.stateObjects a = none) : s.peek a = (s.trie a).map (newObject a) := by
  rw [peek, h, Option.none_or]

theorem peek_cases (h : s.peek a = some o) :
    s.stateObjects a = some o ∨ (s.stateObjects a = none ∧ ∃ acc, s.trie a = some acc ∧ o = newObject a acc) := by
  cases hs : s.stateObjects a with
  | some o' => rw [peek_of_loaded hs] at h; exact .inl h
  | none =>
    rw [peek_of_unloaded hs] at h
    obtain ⟨acc, hacc, rfl⟩ := Option.map_eq_some_iff.1 h
    exact .inr ⟨rfl, acc, hacc, rfl⟩

theorem live_eq_some : s.live a = some o ↔ s.peek a = some o ∧ o.deleted = false := by
  rw [live, Option.filter_eq_some_iff]
  simp

@[simp] theorem setStateObject_self (s : StateDB D) (o : StateObject D) :
    (s.setStateObject o).stateObjects o.address = some o := update_self ..

theorem setStateObject_of_ne (s : StateDB D) (h : a ≠ o.address) :
    (s.setStateObject o).stateObjects a = s.stateObjects a := update_of_ne h ..

theorem setStateObject_cases {o' : StateObject D} (h : (s.setStateObject o).stateObjects a = some o') :
    (a = o.address ∧ o' = o) ∨ s.stateObjects a = some o' := by
  by_cases ha : a = o.address
  · subst ha
    rw [setStateObject_self] at h
    exact .inl ⟨rfl, (Option.some.inj h).symm⟩
  · rw [setStateObject_of_ne s ha] at h
    exact .inr h

theorem peek_setStateObject (s : StateDB D) (o : StateObject D) (a : Address) :
    (s.setStateObject o).peek a = if a = o.address then some o else s.peek a := by
  unfold peek setStateObject
  by_cases h : a = o.address
  · subst h; simp
  · simp [h]

theorem WF.peek_address (h : s.WF db) (ho : s.peek a = some o) : o.address = a := by
  rcases peek_cases ho with hs | ⟨-, acc, -, rfl⟩
  · exact h.address a o hs
  · rfl

theorem WF.peek_cached (h : s.WF db) (ho : s.peek a = some o) : o.Cached db := by
  rcases peek_cases ho with hs | ⟨hs, acc, hacc, rfl⟩
  · exact h.cached a o hs
  · exact StateObject.newObject_cached a (h.opened a acc hs hacc)

theorem WF.peek_snapOk (h : s.WF db) (ho : s.peek a = some o) (hd : o.deleted = false) :
    o.SnapOk db s.snap (s.snapDestructs a) := by
  rcases peek_cases ho with hs | ⟨hs, acc, hacc, rfl⟩
  · exact h.snapOk a o hs hd
  · intro sn hsn key _
    obtain ⟨-, hdes, hst⟩ := h.unloaded a sn hsn hs
    rw [hdes, if_neg Bool.false_ne_true]
    show sn.storage a key = _
    rw [hst, hacc]
    rfl

theorem WF.replace (h : s.WF db) {d : Address → Bool} (hdes : ∀ b, b ≠ o.address → d b = s.snapDestructs b)
    (hc : o.Cached db) (hs : o.deleted = false → o.SnapOk db s.snap (d o.address)) :
    WF db ({ s with snapDestructs := d }.setStateObject o) where
  sound := h.sound
  address a o' ho' := by
    rcases setStateObject_cases ho' with ⟨rfl, rfl⟩ | ho'
    · rfl
    · exact h.address a o' ho'
  cached a o' ho' := by
    rcases setStateObject_cases ho' with ⟨rfl, rfl⟩ | ho'
    · exact hc
    · exact h.cached a o' ho'
  snapOk a o' ho' hd := by
    by_cases ha : a = o.address
    · subst ha
      rw [setStateObject_self] at ho'
      cases ho'
      exact hs hd
    · rw [setStateObject_of_ne _ ha] at ho'
      show o'.SnapOk db s.snap (d a)
      rw [hdes a ha]
      exact h.snapOk a o' ho' hd
  opened a acc ho' hacc := by
    by_cases ha : a = o.address
    · subst ha; simp at ho'
    · rw [setStateObject_of_ne _ ha] at ho'
      exact h.opened a acc ho' hacc
  loaded a hp := by
    by_cases ha : a = o.address
    · subst ha; simp
    · rw [setStateObject_of_ne _ ha]
      exact h.loaded a hp
  unloaded a sn hsn ho' := by
    by_cases ha : a = o.address
    · subst ha; simp at ho'
    · rw [setStateObject_of_ne _ ha] at ho'
      show _ ∧ d a = false ∧ _
      rw [hdes a ha]
      exact h.unloaded a sn hsn ho'

theorem WF.setStateObject (h : s.WF db) (hc : o.Cached db)
    (hs : o.deleted = false → o.SnapOk db s.snap (s.snapDestructs o.address)) : (s.setStateObject o).WF db :=
  h.replace (fun _ _ => rfl) hc hs

/-! ## Loading -/

theorem WF.readAccount (h : s.WF db) (hs : s.stateObjects a = none) : s.readAccount a = s.trie a := by
  unfold StateDB.readAccount
  cases hsn : s.snap with
  | none => rfl
  | some sn =>
    simp only
    split
    · exact (h.unloaded a sn hsn hs).1
    · rfl

theorem WF.getDeletedStateObject (h : s.WF db) (a : Address) :
    s.getDeletedStateObject a = (s.peek a, s.load a) := by
  unfold StateDB.getDeletedStateObject load
  cases hs : s.stateObjects a with
  | some o => simp [peek_of_loaded hs]
  | none =>
    rw [h.readAccount hs, peek_of_unloaded hs]
    cases s.trie a <;> rfl

theorem WF.getStateObject (h : s.WF db) (a : Address) : s.getStateObject a = (s.live a, s.load a) := by
  rw [StateDB.getStateObject, h.getDeletedStateObject]
  rfl

theorem load_setStateObject (s : StateDB D) (o : StateObject D) :
    (s.load o.address).setStateObject o = s.setStateObject o := by
  unfold load
  split
  · rfl
  · cases s.trie o.address with
    | none => rfl
    | some acc =>
      simp only [Option.map_some, Option.elim_some, StateDB.setStateObject, newObject, update_idem]

@[simp] theorem bare_load (s : StateDB D) (a : Address) : (s.load a).bare = s.bare := by
  unfold load
  split
  · rfl
  · cases s.trie a <;> rfl

@[simp] theorem load_journal (s : StateDB D) (a : Address) : (s.load a).journal = s.journal := by
  unfold load
  split
  · rfl
  · cases s.trie a <;> rfl

theorem peek_load (s : StateDB D) (a b : Address) : (s.load a).peek b = s.peek b := by
  unfold load
  split
  · rfl
  · rename_i hs
    rw [Bool.not_eq_true, Option.isSome_eq_false_iff, Option.isNone_iff_eq_none] at hs
    cases hacc : s.trie a with
    | none => rfl
    | some acc =>
      simp only [Option.map_some, Option.elim_some, peek_setStateObject]
      split
      · rename_i hb
        have hb : b = a := hb
        rw [hb, peek_of_unloaded hs, hacc]; rfl
      · rfl

theorem load_loaded (s : StateDB D) (a : Address) : (s.load a).stateObjects a = s.peek a := by
  unfold load
  cases hs : s.stateObjects a with
  | some o => simp [hs, peek_of_loaded hs]
  | none =>
    rw [peek_of_unloaded hs]
    cases s.trie a with
    | none => simpa using hs
    | some acc => simp [StateDB.setStateObject, newObject]

theorem load_stateObjects_of_ne {b : Address} (s : StateDB D) (h : b ≠ a) :
    (s.load a).stateObjects b = s.stateObjects b := by
  unfold load
  split
  · rfl
  · cases s.trie a with
    | none => rfl
    | some acc => exact update_of_ne h _ _

/-! ## Warmer states -/

/-- `t` is `s` with more of it cached. -/
structure Warm (db : Database D) (A : Address → Prop) (t s : StateDB D) : Prop where
  frame : t.bare = s.bare
  dirties : ∀ a, a ≠ ripemd → t.journal.dirties a = s.journal.dirties a
  ripemd : s.journal.dirties ripemd ≤ t.journal.dirties ripemd
  loaded : ∀ a, s.stateObjects a ≠ none → t.stateObjects a ≠ none
  objects : ∀ a, Option.Rel (StateObject.Warmer db (A a)) (t.peek a) (s.peek a)

namespace Warm

variable {A : Address → Prop}

theorem refl (s : StateDB D) : Warm db A s s where
  frame := rfl
  dirties _ _ := rfl
  ripemd := le_refl _
  loaded _ := id
  objects a := by
    cases s.peek a with
    | none => exact .none
    | some o => exact .some (.refl o)

theorem trans (h₁ : Warm db A u t) (h₂ : Warm db A t s) : Warm db A u s where
  frame := h₁.frame.trans h₂.frame
  dirties a ha := (h₁.dirties a ha).trans (h₂.dirties a ha)
  ripemd := h₂.ripemd.trans h₁.ripemd
  loaded a ha := h₁.loaded a (h₂.loaded a ha)
  objects a := by
    have r₁ := h₁.objects a
    have r₂ := h₂.objects a
    generalize t.peek a = p at r₁ r₂
    generalize s.peek a = q at r₂ ⊢
    cases r₂ with
    | none => exact r₁
    | some w₂ =>
      generalize u.peek a = q at r₁ ⊢
      cases r₁ with
      | some w₁ => exact .some (w₁.trans w₂)

section

variable (h : Warm db A t s)
include h

theorem snap : t.snap.map Snap.bare = s.snap.map Snap.bare := (congrArg StateDB.snap h.frame :)

theorem entries : t.journal.entries = s.journal.entries :=
  (congrArg (fun s => s.journal.entries) h.frame :)

theorem trie : t.trie = s.trie := (congrArg StateDB.trie h.frame :)
theorem snapDestructs : t.snapDestructs = s.snapDestructs := (congrArg StateDB.snapDestructs h.frame :)
theorem refund : t.refund = s.refund := (congrArg StateDB.refund h.frame :)
theorem logs : t.logs = s.logs := (congrArg StateDB.logs h.frame :)
theorem logSize : t.logSize = s.logSize := (congrArg StateDB.logSize h.frame :)
theorem preimages : t.preimages = s.preimages := (congrArg StateDB.preimages h.frame :)
theorem stateObjectsPending : t.stateObjectsPending = s.stateObjectsPending := (congrArg StateDB.stateObjectsPending h.frame :)
theorem stateObjectsDirty : t.stateObjectsDirty = s.stateObjectsDirty := (congrArg StateDB.stateObjectsDirty h.frame :)

theorem snap_isSome : t.snap.isSome = s.snap.isSome := by
  have := congrArg Option.isSome h.snap
  simpa using this

theorem of_some (ho : s.peek a = some o) :
    ∃ o', t.peek a = some o' ∧ o'.Warmer db (A a) o := by
  have r := h.objects a
  rw [ho] at r
  cases ht : t.peek a with
  | none => rw [ht] at r; cases r
  | some o' =>
    rw [ht] at r
    cases r with
    | some w => exact ⟨o', rfl, w⟩

theorem of_none (ho : s.peek a = none) : t.peek a = none := by
  have r := h.objects a
  rw [ho] at r
  cases ht : t.peek a with
  | none => rfl
  | some o' => rw [ht] at r; cases r

theorem of_live (ho : s.live a = some o) :
    ∃ o', t.live a = some o' ∧ o'.Warmer db (A a) o := by
  obtain ⟨hp, hd⟩ := live_eq_some.1 ho
  obtain ⟨o', ho', w⟩ := h.of_some hp
  exact ⟨o', live_eq_some.2 ⟨ho', w.deleted.trans hd⟩, w⟩

theorem of_live_none (ho : s.live a = none) : t.live a = none := by
  rw [live, Option.filter_eq_none_iff] at ho ⊢
  intro o' ho'
  cases hs : s.peek a with
  | none => rw [h.of_none hs] at ho'; cases ho'
  | some o =>
    obtain ⟨o'', ho'', w⟩ := h.of_some hs
    cases ho'.symm.trans ho''
    rw [w.deleted]
    exact ho o hs

theorem unloaded (ho : t.stateObjects a = none) : s.stateObjects a = none := by
  by_contra hne
  exact h.loaded a hne ho

end

theorem wf (h : Warm db A t s) (hs : s.WF db) : t.WF db where
  sound := hs.sound
  address a o' ho' := by
    have r := h.objects a
    rw [peek_of_loaded ho'] at r
    generalize hp : s.peek a = p at r
    cases r with
    | some w => exact w.address.trans (hs.peek_address hp)
  cached a o' ho' := by
    have r := h.objects a
    rw [peek_of_loaded ho'] at r
    generalize hp : s.peek a = p at r
    cases r with
    | some w => exact w.cached hs.sound (hs.peek_cached hp)
  snapOk a o' ho' hd := by
    have r := h.objects a
    rw [peek_of_loaded ho'] at r
    generalize hp : s.peek a = p at r
    cases r with
    | some w =>
      rw [h.snapDestructs]
      exact (w.snapOk (hs.peek_snapOk hp (w.deleted ▸ hd))).of_bare h.snap
  opened a acc ho hacc := hs.opened a acc (h.unloaded ho) (h.trie ▸ hacc)
  loaded a hp := by
    rw [h.stateObjectsPending, h.stateObjectsDirty] at hp
    exact h.loaded a (hs.loaded a hp)
  unloaded a sn hsn ho := by
    have hs' := h.unloaded ho
    have hb := h.snap
    rw [hsn, Option.map_some] at hb
    obtain ⟨sn', hsn', hbare⟩ := Option.map_eq_some_iff.1 hb.symm
    have hacc : sn'.account = sn.account := show sn'.bare.account = sn.bare.account by rw [hbare]
    have hst : sn'.storage = sn.storage := show sn'.bare.storage = sn.bare.storage by rw [hbare]
    rw [h.trie, h.snapDestructs, ← hacc, ← hst]
    exact hs.unloaded a sn' hsn' hs'

theorem setStateObject {o' : StateObject D} (ho : s.peek o.address = some o) (w : o'.Warmer db (A o.address) o) :
    Warm db A (s.setStateObject o') s where
  frame := rfl
  dirties _ _ := rfl
  ripemd := le_refl _
  loaded a ha := by
    by_cases hao : a = o'.address
    · subst hao; simp
    · rwa [setStateObject_of_ne s hao]
  objects a := by
    rw [peek_setStateObject]
    split
    · rename_i ha
      rw [w.address] at ha
      subst ha
      rw [ho]
      exact .some w
    · exact (Warm.refl s).objects a

theorem setStateObject_both {o' : StateObject D} (h : Warm db A t s) (w : o'.Warmer db (A o.address) o) :
    Warm db A (t.setStateObject o') (s.setStateObject o) where
  frame := h.frame
  dirties := h.dirties
  ripemd := h.ripemd
  loaded a ha := by
    by_cases hao : a = o.address
    · have hao' : a = o'.address := hao.trans w.address.symm
      subst hao'; simp
    · rw [setStateObject_of_ne s hao] at ha
      rw [setStateObject_of_ne t (w.address ▸ hao)]
      exact h.loaded a ha
  objects a := by
    rw [peek_setStateObject, peek_setStateObject, w.address]
    split
    · rename_i ha; subst ha; exact .some w
    · exact h.objects a

theorem load (s : StateDB D) (a : Address) : Warm db A (s.load a) s where
  frame := bare_load s a
  dirties _ _ := by rw [load_journal]
  ripemd := by rw [load_journal]
  loaded b hb := by
    by_cases hba : b = a
    · subst hba
      rw [load_loaded]
      cases hs : s.stateObjects b with
      | none => exact absurd hs hb
      | some o => rw [peek_of_loaded hs]; nofun
    · rwa [load_stateObjects_of_ne s hba]
  objects b := by rw [peek_load]; exact (Warm.refl s).objects b

theorem load_both (h : Warm db A t s) (a : Address) : Warm db A (t.load a) (s.load a) where
  frame := by simpa using h.frame
  dirties := by simpa using h.dirties
  ripemd := by simpa using h.ripemd
  loaded b hb := by
    by_cases hba : b = a
    · subst hba
      rw [load_loaded] at hb ⊢
      obtain ⟨o, ho⟩ := Option.ne_none_iff_exists'.1 hb
      obtain ⟨o', ho', -⟩ := h.of_some ho
      rw [ho']
      nofun
    · rw [load_stateObjects_of_ne _ hba] at hb ⊢
      exact h.loaded b hb
  objects b := by rw [peek_load, peek_load]; exact h.objects b

end Warm

end StateDB

end NdnGeth.State
