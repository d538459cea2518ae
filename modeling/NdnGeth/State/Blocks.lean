/-
The end of a transaction and of a block: `Finalise`, `IntermediateRoot` and
`Commit`, address by address.

A `Cell` is all the state database has for one address. The loops of the
three methods change one cell in each round, whatever order they take
(`finalise_cell`, `flush_cell`, `commitObjects_spec`), and the invariant of
the database is one of its cells (`WF.iff_cell`).
-/
import NdnGeth.State.Flush

namespace NdnGeth.State

open Function
open Lib (Enumerates foldl_view foldlM_view foldlM_invariant)
open Types (Address)

variable {D : Digests} {db db' : Database D}

/-! ## The database grows -/

/-- What a database has, the other has too. -/
structure Database.Le (db db' : Database D) : Prop where
  code : ∀ hash c, db.code hash = some c → db'.code hash = some c
  storage : ∀ root t, db.storage root = some t → db'.storage root = some t
  state : ∀ root t, db.state root = some t → db'.state root = some t

namespace Database

theorem Le.refl (db : Database D) : db.Le db := ⟨fun _ _ => id, fun _ _ => id, fun _ _ => id⟩

theorem Le.trans {db₁ db₂ db₃ : Database D} (h : db₁.Le db₂) (h' : db₂.Le db₃) : db₁.Le db₃ :=
  ⟨fun k v hv => h'.code k v (h.code k v hv), fun k v hv => h'.storage k v (h.storage k v hv),
    fun k v hv => h'.state k v (h.state k v hv)⟩

theorem put_of_some {K V : Type} [DecidableEq K] {m : K → Option V} {k k' : K} {v v' : V} (h : m k' = some v') :
    put m k v k' = some v' := by
  unfold put
  by_cases hk : k' = k
  · subst hk; rw [update_self, h]; rfl
  · rw [update_of_ne hk]; exact h

theorem le_insertBlob (db : Database D) (hash : D.Code) (c : Lib.Rlp.Bytes) : db.Le (db.insertBlob hash c) :=
  ⟨fun _ _ => put_of_some, fun _ _ => id, fun _ _ => id⟩

theorem le_commitStorage (db : Database D) (t : StorageTrie) : db.Le (db.commitStorage t) :=
  ⟨fun _ _ => id, fun _ _ => put_of_some, fun _ _ => id⟩

theorem le_commitState (db : Database D) (t : D.AccountTrie) : db.Le (db.commitState t) :=
  ⟨fun _ _ => id, fun _ _ => id, fun _ _ => put_of_some⟩

theorem put_cases {K V : Type} [DecidableEq K] {m : K → Option V} {k k' : K} {v v' : V}
    (h : put m k v k' = some v') : m k' = some v' ∨ (k' = k ∧ v' = v) := by
  unfold put at h
  by_cases hk : k' = k
  · subst hk
    rw [update_self] at h
    cases hm : m k' with
    | none => rw [hm] at h; exact .inr ⟨rfl, (Option.some.inj h).symm⟩
    | some w => rw [hm] at h; exact .inl h
  · rw [update_of_ne hk] at h; exact .inl h

theorem put_self_isSome {K V : Type} [DecidableEq K] (m : K → Option V) (k : K) (v : V) : (put m k v k).isSome := by
  simp [put]

theorem Sound.insertBlob {hash : D.Code} {c : Lib.Rlp.Bytes} (h : db.Sound) (hc : D.code c = hash) :
    (db.insertBlob hash c).Sound :=
  { h with
    code := fun k v hv => by
      rcases put_cases hv with hv | ⟨rfl, rfl⟩
      · exact h.code k v hv
      · exact hc }

theorem Sound.commitStorage (h : db.Sound) (t : StorageTrie) : (db.commitStorage t).Sound :=
  { h with
    storage := fun k v hv => by
      rcases put_cases hv with hv | ⟨rfl, rfl⟩
      · exact h.storage k v hv
      · rfl }

theorem Sound.commitState (h : db.Sound) (t : D.AccountTrie) : (db.commitState t).Sound :=
  { h with
    state := fun k v hv => by
      rcases put_cases hv with hv | ⟨rfl, rfl⟩
      · exact h.state k v hv
      · rfl }

theorem Le.openStorageTrie (h : db.Le db') {root : D.Root} {t : StorageTrie} (ht : db.openStorageTrie root = some t) :
    db'.openStorageTrie root = some t := by
  unfold Database.openStorageTrie at ht ⊢
  split
  · rename_i hr; rwa [if_pos hr] at ht
  · rename_i hr; rw [if_neg hr] at ht; exact h.storage root t ht

theorem Le.openStorageTrie_eq (h : db.Le db') {root : D.Root} (ht : (db.openStorageTrie root).isSome) :
    db'.openStorageTrie root = db.openStorageTrie root := by
  obtain ⟨t, ht⟩ := Option.isSome_iff_exists.1 ht
  rw [ht, h.openStorageTrie ht]

end Database

namespace StateObject

variable {o : StateObject D}

theorem base_mono (h : db.Le db') (hc : o.Cached db) : o.base db' = o.base db := by
  unfold base
  cases ht : o.trie with
  | some t => rfl
  | none => rw [h.openStorageTrie_eq (hc.opened ht)]

theorem Cached.mono (h : db.Le db') (hc : o.Cached db) : o.Cached db' where
  opened ht := by rw [h.openStorageTrie_eq (hc.opened ht)]; exact hc.opened ht
  origin key v hv := by rw [base_mono h hc]; exact hc.origin key v hv
  known key ho hw := by rw [base_mono h hc]; exact hc.known key ho hw
  code := hc.code

theorem Written.of_dirtyCode {o' : StateObject D} {b : Bool}
    (h : ({ o with dirtyCode := b } : StateObject D).Written db o') : o.Written db o' :=
  { h with }

theorem SnapOk.mono {snap : Option (Snap D)} {d : Bool} (h : db.Le db') (hc : o.Cached db)
    (hs : o.SnapOk db snap d) : o.SnapOk db' snap d := by
  intro sn hsn key ho
  rw [base_mono h hc]
  exact hs sn hsn key ho

theorem committed_mono (h : db.Le db') (hc : o.Cached db) : o.committed db' = o.committed db := by
  funext key
  unfold committed
  rw [base_mono h hc]

theorem current_mono (h : db.Le db') (hc : o.Cached db) : o.current db' = o.current db := by
  funext key
  unfold current
  rw [committed_mono h hc]

theorem Written.mono {o' : StateObject D} (h : db.Le db') (hc : o.Cached db) (hw : Written db o o') :
    Written db' o o' :=
  { hw with
    root := by rw [base_mono h hw.cached]; exact hw.root
    base := by rw [base_mono h hw.cached, current_mono h hc]; exact hw.base
    current := by rw [current_mono h hw.cached, current_mono h hc]; exact hw.current
    cached := hw.cached.mono h
    snapOk := fun snap d hs => (hw.snapOk snap d fun sn hsn key ho => by
      rw [← base_mono h hc]; exact hs sn hsn key ho).mono h hw.cached }

end StateObject

namespace StateDB

variable {s s' t : StateDB D} {a b : Address} {o : StateObject D}

/-! ## Cells -/

/-- What the state database has for one address. -/
structure Cell (D : Digests) where
  object : Option (StateObject D)
  trie : Option D.Account
  pending : Bool
  dirty : Bool
  destructed : Bool
  snapAccount : Option (SlimAccount D)
  snapStorage : Storage

def cell (s : StateDB D) (a : Address) : Cell D where
  object := s.stateObjects a
  trie := s.trie a
  pending := s.stateObjectsPending a
  dirty := s.stateObjectsDirty a
  destructed := s.snapDestructs a
  snapAccount := s.snapAccounts a
  snapStorage := s.snapStorage a

/-- What the state database has beside the cells. -/
def core (s : StateDB D) : StateDB D :=
  { s with
    trie := fun _ => none
    snapDestructs := fun _ => false
    snapAccounts := fun _ => none
    snapStorage := fun _ _ => none
    stateObjects := fun _ => none
    stateObjectsPending := fun _ => false
    stateObjectsDirty := fun _ => false }

theorem snap_of_core (h : t.core = s.core) : t.snap = s.snap := show t.core.snap = s.core.snap by rw [h]

/-- The state database's invariant, for one address. -/
structure Cell.WF (db : Database D) (snap : Option (Snap D)) (a : Address) (c : Cell D) : Prop where
  address : ∀ o, c.object = some o → o.address = a
  cached : ∀ o, c.object = some o → o.Cached db
  snapOk : ∀ o, c.object = some o → o.deleted = false → o.SnapOk db snap c.destructed
  opened : ∀ acc, c.object = none → c.trie = some acc → (db.openStorageTrie acc.root).isSome
  loaded : c.pending = true ∨ c.dirty = true → c.object ≠ none
  unloaded : ∀ sn, snap = some sn → c.object = none →
    (sn.account a).map SlimAccount.full = c.trie ∧ c.destructed = false ∧ sn.storage a = storageOf db c.trie

theorem WF.iff_cell : s.WF db ↔ db.Sound ∧ ∀ a, (s.cell a).WF db s.snap a :=
  ⟨fun h => ⟨h.sound, fun a => ⟨h.address a, h.cached a, h.snapOk a, h.opened a, h.loaded a, h.unloaded a⟩⟩,
    fun ⟨hdb, h⟩ => ⟨hdb, fun a => (h a).address, fun a => (h a).cached, fun a => (h a).snapOk, fun a => (h a).opened,
      fun a => (h a).loaded, fun a => (h a).unloaded⟩⟩

variable {slots : Address → List Slot} {snap : Option (Snap D)} {de : Bool} {ord : Orders} {c : Cell D}

theorem Cell.WF.of_object (ho : c.object = some o) (ha : o.address = a)
    (hc : o.Cached db) (hs : o.deleted = false → o.SnapOk db snap c.destructed) : c.WF db snap a where
  address o' ho' := by cases ho.symm.trans ho'; exact ha
  cached o' ho' := by cases ho.symm.trans ho'; exact hc
  snapOk o' ho' hd := by cases ho.symm.trans ho'; exact hs hd
  opened _ hn := by rw [ho] at hn; cases hn
  loaded _ hn := by rw [ho] at hn; cases hn
  unloaded _ _ hn := by rw [ho] at hn; cases hn

theorem Cell.WF.mono (hle : db.Le db') (h : c.WF db snap a) :
    c.WF db' snap a where
  address := h.address
  cached o ho := (h.cached o ho).mono hle
  snapOk o ho hd := (h.snapOk o ho hd).mono hle (h.cached o ho)
  opened acc ho hacc := by rw [hle.openStorageTrie_eq (h.opened acc ho hacc)]; exact h.opened acc ho hacc
  loaded := h.loaded
  unloaded sn hsn ho := by
    obtain ⟨h1, h2, h3⟩ := h.unloaded sn hsn ho
    refine ⟨h1, h2, h3.trans ?_⟩
    cases hacc : c.trie with
    | none => rfl
    | some acc =>
      show (db.openStorageTrie acc.root).getD _ = (db'.openStorageTrie acc.root).getD _
      rw [hle.openStorageTrie_eq (h.opened acc ho hacc)]

/-! ## `Finalise` -/

theorem finaliseObject_core (de : Bool) (s : StateDB D) (a : Address) :
    (finaliseObject de s a).core = s.core := by
  unfold finaliseObject
  split
  · rfl
  · simp only; split <;> [split; skip] <;> rfl

theorem finaliseObject_of_ne (de : Bool) (s : StateDB D) (h : b ≠ a) : (finaliseObject de s a).cell b = s.cell b := by
  unfold finaliseObject
  split
  · rfl
  · simp only
    split
    · split <;> simp only [cell, update_of_ne h]
    · simp only [cell, update_of_ne h]

theorem finaliseObject_kept (ho : s.stateObjects a = some o) (hd : (o.suicided || de && o.empty) = false) :
    (finaliseObject de s a).cell a =
      { s.cell a with object := some o.finalise, pending := true, dirty := true } := by
  simp [finaliseObject, ho, hd, cell]

theorem finaliseObject_deleted (ho : s.stateObjects a = some o) (hd : (o.suicided || de && o.empty) = true) :
    (finaliseObject de s a).cell a =
      { s.cell a with
        object := some { o with deleted := true }
        pending := true
        dirty := true
        destructed := s.snap.isSome || s.snapDestructs a
        snapAccount := if s.snap.isSome then none else s.snapAccounts a
        snapStorage := if s.snap.isSome then fun _ => none else s.snapStorage a } := by
  cases hsn : s.snap.isSome <;> simp [finaliseObject, ho, hd, cell, hsn]

theorem finaliseObject_none (ho : s.stateObjects a = none) : finaliseObject de s a = s := by
  simp [finaliseObject, ho]

theorem clearJournalAndRefund_cell (s : StateDB D) (a : Address) : s.clearJournalAndRefund.cell a = s.cell a := by
  unfold clearJournalAndRefund
  split <;> rfl

theorem foldl_finaliseObject_core (de : Bool) (l : List Address) (s : StateDB D) :
    (l.foldl (finaliseObject de) s).core = s.core := by
  induction l generalizing s with
  | nil => rfl
  | cons a l ih => rw [List.foldl_cons, ih, finaliseObject_core]

theorem clearJournalAndRefund_core (h : t.core = s.core) :
    t.clearJournalAndRefund.core = s.clearJournalAndRefund.core := by
  have hj : t.journal = s.journal := show t.core.journal = s.core.journal by rw [h]
  unfold clearJournalAndRefund
  rw [hj]
  split
  · exact congrArg (fun x : StateDB D => { x with validRevisions := [] }) h
  · exact congrArg (fun x : StateDB D => { x with journal := .new, refund := 0, validRevisions := [] }) h

theorem finalise_core (de : Bool) (ord : Orders) (s : StateDB D) :
    (s.finalise de ord).core = s.clearJournalAndRefund.core :=
  clearJournalAndRefund_core (foldl_finaliseObject_core de ord.dirties s)

theorem finalise_snap (de : Bool) (ord : Orders) (s : StateDB D) : (s.finalise de ord).snap = s.snap := by
  rw [snap_of_core (finalise_core de ord s)]
  unfold clearJournalAndRefund
  split <;> rfl

theorem finalise_cell (h : ord.dirties.Nodup) (s : StateDB D) (a : Address) :
    (s.finalise de ord).cell a = if a ∈ ord.dirties then (finaliseObject de s a).cell a else s.cell a := by
  rw [finalise, clearJournalAndRefund_cell]
  have hview := foldl_view (fun (s : StateDB D) a => (s.snap.isSome, s.cell a)) (finaliseObject de)
    (fun s a b hb => by rw [snap_of_core (finaliseObject_core de s a), finaliseObject_of_ne de s hb])
    (fun s t a hst => by
      obtain ⟨hsn, hcell⟩ := Prod.mk.inj hst
      have hobj : s.stateObjects a = t.stateObjects a := congrArg Cell.object hcell
      rw [snap_of_core (finaliseObject_core de s a), snap_of_core (finaliseObject_core de t a), hsn]
      refine congrArg (Prod.mk _) ?_
      cases ho : s.stateObjects a with
      | none => rw [finaliseObject_none ho, finaliseObject_none (hobj ▸ ho), hcell]
      | some o =>
        cases hd : (o.suicided || de && o.empty) with
        | false => rw [finaliseObject_kept ho hd, finaliseObject_kept (hobj ▸ ho) hd, hcell]
        | true =>
          rw [finaliseObject_deleted ho hd, finaliseObject_deleted (hobj ▸ ho) hd, hcell, hsn,
            show s.snapDestructs a = t.snapDestructs a from congrArg Cell.destructed hcell,
            show s.snapAccounts a = t.snapAccounts a from congrArg Cell.snapAccount hcell,
            show s.snapStorage a = t.snapStorage a from congrArg Cell.snapStorage hcell])
    a ord.dirties s h
  have := congrArg Prod.snd hview
  simp only at this
  rw [this]
  split <;> rfl

theorem finaliseObject_wf (de : Bool) (h : s.WF db) (a : Address) :
    ((finaliseObject de s a).cell a).WF db s.snap a := by
  have hc := (WF.iff_cell.1 h).2 a
  cases ho : s.stateObjects a with
  | none => rw [finaliseObject_none ho]; exact hc
  | some o =>
    have hcached := h.cached a o ho
    have haddr := h.address a o ho
    cases hd : (o.suicided || de && o.empty) with
    | false =>
      rw [finaliseObject_kept ho hd]
      refine .of_object rfl haddr (StateObject.finalise_cached hcached) fun hdel => ?_
      exact h.snapOk a o ho hdel
    | true =>
      rw [finaliseObject_deleted ho hd]
      exact .of_object rfl haddr ⟨hcached.opened, hcached.origin, hcached.known, hcached.code⟩ nofun

theorem WF.finalise (de : Bool) (hn : ord.dirties.Nodup) (h : s.WF db) :
    (s.finalise de ord).WF db := by
  rw [WF.iff_cell]
  refine ⟨h.sound, fun a => ?_⟩
  rw [finalise_snap, finalise_cell hn]
  split
  · exact finaliseObject_wf de h a
  · exact (WF.iff_cell.1 h).2 a

/-! ## `IntermediateRoot` -/

theorem flushObject_cases (h : flushObject db slots s a = some s') :
    s'.core = s.core ∧ (∀ b, b ≠ a → s'.cell b = s.cell b) ∧ ∃ o, s.stateObjects a = some o ∧
      ((o.deleted = true ∧ s'.cell a = { s.cell a with trie := none }) ∨
       (o.deleted = false ∧ 0 ≤ (o.updateRoot db (slots a) (s.snapStorage a)).1.data.balance ∧
        s'.cell a = { s.cell a with
          object := some (o.updateRoot db (slots a) (s.snapStorage a)).1
          trie := some (o.updateRoot db (slots a) (s.snapStorage a)).1.data
          snapAccount := if s.snap.isSome then some (slimAccount (o.updateRoot db (slots a) (s.snapStorage a)).1.data)
            else s.snapAccounts a
          snapStorage := if s.snap.isSome then (o.updateRoot db (slots a) (s.snapStorage a)).2
            else s.snapStorage a })) := by
  unfold flushObject at h
  cases ho : s.stateObjects a with
  | none => rw [ho] at h; cases h
  | some o =>
    rw [ho] at h
    simp only at h
    split at h
    · rename_i hd
      cases h
      exact ⟨rfl, fun b hb => by simp only [cell, update_of_ne hb], o, rfl, .inl ⟨hd, by simp [cell]⟩⟩
    · rename_i hd
      have hd : o.deleted = false := by simpa using hd
      generalize hr : o.updateRoot db (slots a) (s.snapStorage a) = r at h
      unfold updateStateObject at h
      split at h
      · cases h
      · rename_i hneg
        cases h
        refine ⟨?_, fun b hb => ?_, o, rfl, .inr ⟨hd, not_lt.1 (hr ▸ hneg), ?_⟩⟩
        · cases hsn : s.snap.isSome <;> simp [setSnapStorage, hsn, core]
        · cases hsn : s.snap.isSome <;> simp [setSnapStorage, hsn, cell, update_of_ne hb]
        · cases hsn : s.snap.isSome <;> simp [setSnapStorage, hsn, cell, hr]

theorem flushObject_congr (hsn : s.snap.isSome = t.snap.isSome)
    (hcell : s.cell a = t.cell a) (h : flushObject db slots s a = some s') :
    ∃ t', flushObject db slots t a = some t' ∧ t'.cell a = s'.cell a := by
  obtain ⟨-, -, o, ho, hcase⟩ := flushObject_cases h
  have hobj : t.stateObjects a = some o := by
    rw [← ho]; exact (congrArg Cell.object hcell).symm
  have hst : s.snapStorage a = t.snapStorage a := congrArg Cell.snapStorage hcell
  cases ht : flushObject db slots t a with
  | some t' =>
    refine ⟨t', rfl, ?_⟩
    obtain ⟨-, -, o', ho', hcase'⟩ := flushObject_cases ht
    cases hobj.symm.trans ho'
    rcases hcase with ⟨hd, hc⟩ | ⟨hd, -, hc⟩ <;> rcases hcase' with ⟨hd', hc'⟩ | ⟨hd', -, hc'⟩
    · rw [hc, hc', hcell]
    · rw [hd] at hd'; cases hd'
    · rw [hd] at hd'; cases hd'
    · rw [hc, hc', hcell, hsn, hst, show s.snapAccounts a = t.snapAccounts a from congrArg Cell.snapAccount hcell]
  | none =>
    exfalso
    rcases hcase with ⟨hd, -⟩ | ⟨hd, hb, -⟩
    · simp [flushObject, hobj, hd] at ht
    · rw [hst] at hb
      simp [flushObject, hobj, hd, updateStateObject, not_lt.2 hb] at ht

theorem intermediateRoot_cell {r : D.StateRoot} (hn : ord.pending.Nodup)
    (h : s.intermediateRoot db de ord = some (r, s')) :
    r = D.state s'.trie ∧ s'.core = (s.finalise de ord).core ∧ ∀ a,
      (a ∉ ord.pending → s'.cell a = { (s.finalise de ord).cell a with pending := false }) ∧
      (a ∈ ord.pending → ∃ t, flushObject db ord.slots (s.finalise de ord) a = some t ∧
        s'.cell a = { t.cell a with pending := false }) := by
  obtain ⟨u, hu, hres⟩ := Option.map_eq_some_iff.1 h
  cases hres
  have hcore : u.core = (s.finalise de ord).core :=
    foldlM_invariant (I := fun x : StateDB D => x.core = (s.finalise de ord).core)
      (fun x a y _ hx hy => (flushObject_cases hy).1.trans hx) rfl hu
  refine ⟨rfl, hcore, fun a => ?_⟩
  obtain ⟨hout, hin⟩ := foldlM_view (fun (x : StateDB D) a => (x.snap.isSome, x.cell a)) (flushObject db ord.slots)
    (fun x a y b hy hb => by
      obtain ⟨hc, hne, -⟩ := flushObject_cases hy
      rw [snap_of_core hc, hne b hb])
    (fun x y a x' hv hx => by
      obtain ⟨hsn, hcell⟩ := Prod.mk.inj hv
      obtain ⟨y', hy', hc'⟩ := flushObject_congr hsn hcell hx
      refine ⟨y', hy', ?_⟩
      rw [snap_of_core (flushObject_cases hy').1, snap_of_core (flushObject_cases hx).1, hsn, hc'])
    a ord.pending _ u hn hu
  refine ⟨fun ha => ?_, fun ha => ?_⟩
  · rw [← (Prod.mk.inj (hout ha)).2]; rfl
  · obtain ⟨t, ht, hv⟩ := hin ha
    exact ⟨t, ht, by rw [← (Prod.mk.inj hv).2]; rfl⟩

/-! ## Orders -/

/-- The lists of slots are those of the objects' pending storage. -/
def SlotsOk (slots : Address → List Slot) (s : StateDB D) : Prop :=
  ∀ a o, s.stateObjects a = some o → Enumerates (slots a) fun key => o.finalise.pendingStorage key ≠ none

/-- Orders in which `Finalise` can go through its map. -/
def FinaliseOrder (ord : Orders) (s : StateDB D) : Prop :=
  Enumerates ord.dirties fun a => s.journal.dirties a ≠ 0

/-- Orders in which `IntermediateRoot` can go through its maps. -/
structure RootOrder (de : Bool) (ord : Orders) (s : StateDB D) : Prop where
  dirties : FinaliseOrder ord s
  pending : Enumerates ord.pending fun a => (s.finalise de ord).stateObjectsPending a = true
  slots : SlotsOk ord.slots (s.finalise de ord)

/-- Orders in which `Commit` can go through its maps. -/
structure CommitOrder (db : Database D) (de : Bool) (ord : Orders) (s : StateDB D) : Prop
    extends RootOrder de ord s where
  dirty : ∀ r s', s.intermediateRoot db de ord = some (r, s') →
    Enumerates ord.dirty (fun a => s'.stateObjectsDirty a = true) ∧ SlotsOk ord.commitSlots s'

/-! ## The invariant -/

theorem flushObject_wf (h : s.WF db) (hs : SlotsOk slots s)
    (hf : flushObject db slots s a = some s') : (s'.cell a).WF db s.snap a := by
  obtain ⟨-, -, o, ho, hcase⟩ := flushObject_cases hf
  have hc := h.cached a o ho
  have haddr := h.address a o ho
  rcases hcase with ⟨hd, hcell⟩ | ⟨hd, -, hcell⟩
  · rw [hcell]
    exact .of_object ho haddr hc fun hd' => by rw [hd] at hd'; cases hd'
  · have hw := StateObject.updateRoot_written hc (hs a o ho) (s.snapStorage a)
    rw [hcell]
    exact .of_object rfl (hw.address.trans haddr) hw.cached fun _ => hw.snapOk _ _ (h.snapOk a o ho hd)

theorem Cell.WF.notPending (h : c.WF db snap a) :
    ({ c with pending := false } : Cell D).WF db snap a :=
  { h with loaded := fun hp => h.loaded (hp.imp_left fun hf => by cases hf) }

theorem WF.intermediateRoot {r : D.StateRoot} (h : s.WF db) (hord : RootOrder de ord s)
    (hi : s.intermediateRoot db de ord = some (r, s')) : s'.WF db := by
  have hf := h.finalise de hord.dirties.nodup
  obtain ⟨-, hcore, hcells⟩ := intermediateRoot_cell hord.pending.nodup hi
  rw [WF.iff_cell]
  refine ⟨h.sound, fun a => ?_⟩
  rw [snap_of_core hcore]
  by_cases ha : a ∈ ord.pending
  · obtain ⟨t, ht, hcell⟩ := (hcells a).2 ha
    rw [hcell]
    exact (flushObject_wf hf hord.slots ht).notPending
  · rw [(hcells a).1 ha]
    exact ((WF.iff_cell.1 hf).2 a).notPending

/-! ## `Commit` -/

/-- What a round of `Commit` does, where it does not fail: the object is
written, and its storage trie and code are in the database. -/
structure Saved (db : Database D) (o o' : StateObject D) : Prop where
  written : o.Written db o'
  storage : ∀ t, o'.trie = some t → (db.storage (D.storage t)).isSome
  code : ∀ c, o.code = some c → o.dirtyCode = true → (db.code o.data.codeHash).isSome

theorem Saved.mono {o' : StateObject D} (hle : db.Le db') (hc : o.Cached db) (h : Saved db o o') : Saved db' o o' where
  written := h.written.mono hle hc
  storage t ht := by
    obtain ⟨t', ht'⟩ := Option.isSome_iff_exists.1 (h.storage t ht)
    rw [hle.storage _ _ ht']
    rfl
  code c hc hd := by
    obtain ⟨c', hc'⟩ := Option.isSome_iff_exists.1 (h.code c hc hd)
    rw [hle.code _ _ hc']
    rfl

theorem setSnapStorage_cell (s : StateDB D) (slots : Storage) :
    (s.setSnapStorage a slots).core = s.core ∧ (∀ b, b ≠ a → (s.setSnapStorage a slots).cell b = s.cell b) ∧
      ∃ ss, (s.setSnapStorage a slots).cell a = { s.cell a with snapStorage := ss } := by
  unfold setSnapStorage
  split
  · exact ⟨rfl, fun b hb => by simp only [cell, update_of_ne hb], slots, by simp [cell]⟩
  · exact ⟨rfl, fun _ _ => rfl, s.snapStorage a, rfl⟩

theorem commitCode_spec (hdb : db.Sound) (hc : o.Cached db) :
    let write := o.code.isSome && o.dirtyCode
    let db₁ := if write then db.insertBlob o.data.codeHash (o.code.getD []) else db
    ∃ b, (if write then { o with dirtyCode := false } else o) = { o with dirtyCode := b } ∧ db.Le db₁ ∧ db₁.Sound ∧
      ({ o with dirtyCode := b } : StateObject D).Cached db₁ ∧
      (∀ c, o.code = some c → o.dirtyCode = true → (db₁.code o.data.codeHash).isSome) := by
  intro write db₁
  have hc' (b : Bool) (db' : Database D) (hle : db.Le db') : ({ o with dirtyCode := b } : StateObject D).Cached db' :=
    ⟨(hc.mono hle).opened, (hc.mono hle).origin, (hc.mono hle).known, hc.code⟩
  by_cases hw : write = true
  · obtain ⟨hsome, hdirty⟩ := Bool.and_eq_true_iff.1 hw
    obtain ⟨c, hcode⟩ := Option.isSome_iff_exists.1 hsome
    have hdb₁ : db₁ = db.insertBlob o.data.codeHash c := by simp only [db₁, hw, hcode, if_true, Option.getD_some]
    have hle : db.Le db₁ := by rw [hdb₁]; exact Database.le_insertBlob db _ _
    refine ⟨false, by rw [if_pos hw], hle, ?_, hc' false db₁ hle, fun _ _ _ => ?_⟩
    · rw [hdb₁]; exact hdb.insertBlob (hc.code c hcode)
    · rw [hdb₁]; exact Database.put_self_isSome _ _ _
  · have hdb₁ : db₁ = db := by simp only [db₁, hw]; rfl
    have hle : db.Le db₁ := by rw [hdb₁]; exact .refl db
    refine ⟨o.dirtyCode, by rw [if_neg hw], hle, by rw [hdb₁]; exact hdb, hc' _ db₁ hle, fun c' hc₁ hdirty => ?_⟩
    exact absurd (by simp [write, hc₁, hdirty]) hw

theorem commitObject_spec {w w' : Writing D} (hfail : w.failed = false) (hwf : w.state.WF w.db)
    (hs : ∀ o, w.state.stateObjects a = some o → Enumerates (slots a) fun key => o.finalise.pendingStorage key ≠ none)
    (h : commitObject slots w a = some w') :
    w'.state.core = w.state.core ∧ w.db.Le w'.db ∧ (∀ b, b ≠ a → w'.state.cell b = w.state.cell b) ∧
      w'.db.Sound ∧ (w'.state.cell a).WF w'.db w.state.snap a ∧
      ∃ o, w.state.stateObjects a = some o ∧ (w'.failed = false →
        (o.deleted = true ∧ w'.state.cell a = w.state.cell a) ∨
        (o.deleted = false ∧ ∃ o' ss, Saved w'.db o o' ∧
          w'.state.cell a = { w.state.cell a with object := some o', snapStorage := ss })) := by
  unfold commitObject at h
  rw [hfail] at h
  simp only [Bool.false_eq_true, if_false] at h
  cases ho : w.state.stateObjects a with
  | none => rw [ho] at h; cases h
  | some o =>
    rw [ho] at h
    simp only at h
    split at h
    · rename_i hd
      cases h
      exact ⟨rfl, .refl _, fun _ _ => rfl, hwf.sound, (WF.iff_cell.1 hwf).2 a, o, rfl, fun _ => .inl ⟨hd, rfl⟩⟩
    · rename_i hd
      have hd : o.deleted = false := by simpa using hd
      have hc := hwf.cached a o ho
      have haddr := hwf.address a o ho
      have hsnap := hwf.snapOk a o ho hd
      have hslots := hs o ho
      obtain ⟨b, ho₁, hle₁, hdb₁, hc₁, hcode⟩ := commitCode_spec hwf.sound hc
      simp only [ho₁] at h
      generalize (if (o.code.isSome && o.dirtyCode) = true then w.db.insertBlob o.data.codeHash (o.code.getD [])
        else w.db) = db₁ at h hle₁ hdb₁ hc₁ hcode
      have hcase := StateObject.commitTrie_cases hc₁ hslots (w.state.snapStorage a)
      generalize ({ o with dirtyCode := b } : StateObject D).commitTrie db₁ (slots a) (w.state.snapStorage a) = r
        at h hcase
      obtain ⟨failed, db₂, o₂, ss⟩ := r
      cases h
      obtain ⟨hcore, hother, ss', hown⟩ := setSnapStorage_cell (a := a)
        { w.state with stateObjects := update w.state.stateObjects a (some o₂) } ss
      have hother' (b : Address) (hb : b ≠ a) :
          (({ w.state with stateObjects := update w.state.stateObjects a (some o₂) } :
            StateDB D).setSnapStorage a ss).cell b = w.state.cell b := by
        rw [hother b hb]
        simp only [cell, update_of_ne hb]
      have hown' : (({ w.state with stateObjects := update w.state.stateObjects a (some o₂) } :
          StateDB D).setSnapStorage a ss).cell a = { w.state.cell a with object := some o₂, snapStorage := ss' } := by
        rw [hown]
        simp [cell]
      have hsnap₁ : ({ o with dirtyCode := b } : StateObject D).SnapOk db₁ w.state.snap (w.state.snapDestructs a) :=
        fun sn hsn key hk => (hsnap.mono hle₁ hc) sn hsn key hk
      rcases hcase with ⟨hf, hdb, hfl⟩ | ⟨hf, hw, hdb⟩
      · simp only at hf hdb hfl
        subst hf hdb
        refine ⟨hcore, hle₁, hother', hdb₁, ?_, o, rfl, nofun⟩
        rw [hown']
        exact .of_object rfl (hfl.address.trans haddr) hfl.cached fun _ => hfl.snapOk hsnap₁
      · simp only at hf hw hdb
        subst hf
        have hle₂ : db₁.Le db₂ := by
          rcases hdb with ⟨-, rfl⟩ | ⟨-, rfl⟩
          · exact .refl _
          · exact Database.le_commitStorage _ _
        have hdb₂ : db₂.Sound := by
          rcases hdb with ⟨-, rfl⟩ | ⟨-, rfl⟩
          · exact hdb₁
          · exact hdb₁.commitStorage _
        have hw₂ := hw.mono hle₂ hc₁
        refine ⟨hcore, hle₁.trans hle₂, hother', hdb₂, ?_, o, rfl, fun _ => .inr ⟨hd, o₂, ss', ?_, hown'⟩⟩
        · rw [hown']
          exact .of_object rfl (hw.address.trans haddr) hw₂.cached fun _ =>
            (hw.snapOk _ _ hsnap₁).mono hle₂ hw.cached
        · refine ⟨.of_dirtyCode hw₂, fun t ht => ?_, fun c hc' hd' => ?_⟩
          · rcases hdb with ⟨hn, -⟩ | ⟨hs, rfl⟩
            · rw [hn] at ht; cases ht
            · cases hs.symm.trans ht
              exact Database.put_self_isSome _ _ _
          · obtain ⟨c', h1⟩ := Option.isSome_iff_exists.1 (hcode c hc' hd')
            rw [hle₂.code _ _ h1]
            rfl

theorem WF.of_cells (hcore : s'.core = s.core) (h : s.WF db) (hle : db.Le db') (hdb : db'.Sound)
    (hother : ∀ b, b ≠ a → s'.cell b = s.cell b) (hown : (s'.cell a).WF db' s.snap a) : s'.WF db' := by
  rw [WF.iff_cell, snap_of_core hcore]
  refine ⟨hdb, fun b => ?_⟩
  by_cases hb : b = a
  · subst hb; exact hown
  · rw [hother b hb]
    exact ((WF.iff_cell.1 h).2 b).mono hle

theorem foldlM_commitObject_failed {w w' : Writing D} (hfail : w.failed = true) :
    ∀ {l : List Address}, l.foldlM (commitObject slots) w = some w' → w' = w
  | [], h => (Option.some.inj h).symm
  | a :: l, h => by
    rw [List.foldlM_cons] at h
    obtain ⟨w₁, h₁, hrest⟩ := Option.bind_eq_some_iff.1 h
    have : w₁ = w := by simpa [commitObject, hfail] using h₁.symm
    subst this
    exact foldlM_commitObject_failed hfail hrest

theorem commitObjects_spec :
    ∀ (l : List Address) (w w' : Writing D), l.Nodup → w.failed = false → w.state.WF w.db →
      (∀ a ∈ l, ∀ o, w.state.stateObjects a = some o →
        Enumerates (slots a) fun key => o.finalise.pendingStorage key ≠ none) →
      l.foldlM (commitObject slots) w = some w' →
      w'.state.core = w.state.core ∧ w.db.Le w'.db ∧ (∀ b, b ∉ l → w'.state.cell b = w.state.cell b) ∧
        w'.state.WF w'.db ∧ (w'.failed = false → ∀ a ∈ l, ∃ o, w.state.stateObjects a = some o ∧
          ((o.deleted = true ∧ w'.state.cell a = w.state.cell a) ∨
           (o.deleted = false ∧ ∃ o' ss, Saved w'.db o o' ∧
            w'.state.cell a = { w.state.cell a with object := some o', snapStorage := ss }))) := by
  intro l
  induction l with
  | nil =>
    intro w w' _ _ hwf _ h
    cases h
    exact ⟨rfl, .refl _, fun _ _ => rfl, hwf, fun _ => nofun⟩
  | cons a l ih =>
    intro w w' hnd hfail hwf hs h
    obtain ⟨ha, hnd⟩ := List.nodup_cons.1 hnd
    rw [List.foldlM_cons] at h
    obtain ⟨w₁, h₁, hrest⟩ := Option.bind_eq_some_iff.1 h
    obtain ⟨hcore, hle, hother, hdb, hcell, o, ho, hsaved⟩ :=
      commitObject_spec hfail hwf (hs a List.mem_cons_self) h₁
    have hwf₁ := WF.of_cells hcore hwf hle hdb hother hcell
    cases hf₁ : w₁.failed with
    | true =>
      cases foldlM_commitObject_failed hf₁ hrest
      refine ⟨hcore, hle, fun b hb => hother b (by rintro rfl; exact hb List.mem_cons_self), hwf₁, ?_⟩
      rw [hf₁]
      nofun
    | false =>
      have hobj (b : Address) (hb : b ≠ a) : w₁.state.stateObjects b = w.state.stateObjects b :=
        congrArg Cell.object (hother b hb)
      obtain ⟨hcore', hle', hother', hwf', hsaved'⟩ := ih w₁ w' hnd hf₁ hwf₁
        (fun b hb o hbo => hs b (List.mem_cons_of_mem a hb) o
          (hobj b (by rintro rfl; exact ha hb) ▸ hbo)) hrest
      refine ⟨hcore'.trans hcore, hle.trans hle', fun b hb => ?_, hwf', fun hf' b hb => ?_⟩
      · have hba : b ≠ a := by rintro rfl; exact hb List.mem_cons_self
        rw [hother' b fun hbl => hb (List.mem_cons_of_mem a hbl), hother b hba]
      · rcases List.mem_cons.1 hb with rfl | hbl
        · refine ⟨o, ho, ?_⟩
          rw [hother' b ha]
          rcases hsaved hf₁ with hdel | ⟨hd, o', ss, hsav, hc⟩
          · exact .inl hdel
          · exact .inr ⟨hd, o', ss, hsav.mono hle' ((hwf.cached b o ho).mono hle), hc⟩
        · have hba : b ≠ a := by rintro rfl; exact ha hbl
          obtain ⟨o₂, ho₂, hc₂⟩ := hsaved' hf' b hbl
          rw [hother b hba] at hc₂
          exact ⟨o₂, hobj b hba ▸ ho₂, hc₂⟩

theorem commit_cases {c : Committed D} (h : s.commit db de ord = some c) :
    ∃ r s₁ w, s.intermediateRoot db de ord = some (r, s₁) ∧
      ord.dirty.foldlM (commitObject ord.commitSlots) ⟨false, db, s₁⟩ = some w ∧
      ((w.failed = true ∧ c.root = none ∧ c.db = w.db ∧ c.state = w.state) ∨
       (w.failed = false ∧ c.root = some (D.state w.state.trie) ∧ c.db = w.db.commitState w.state.trie ∧
        c.state = dropSnap { w.state with stateObjectsDirty := fun _ => false })) := by
  obtain ⟨⟨r, s₁⟩, hi, hrest⟩ := Option.bind_eq_some_iff.1 h
  obtain ⟨w, hw, rfl⟩ := Option.map_eq_some_iff.1 hrest
  refine ⟨r, s₁, w, hi, hw, ?_⟩
  cases w.failed with
  | true => exact .inl ⟨rfl, rfl, rfl, rfl⟩
  | false => exact .inr ⟨rfl, rfl, rfl, rfl⟩

theorem Cell.WF.committed (h : c.WF db snap a) :
    ({ c with dirty := false, destructed := false, snapAccount := none, snapStorage := fun _ => none } :
      Cell D).WF db none a :=
  { h with
    snapOk := fun _ _ _ => nofun
    loaded := fun hp => h.loaded (hp.imp_right fun hf => by cases hf)
    unloaded := nofun }

theorem WF.commit {c : Committed D} (h : s.WF db) (hord : CommitOrder db de ord s)
    (hc : s.commit db de ord = some c) : c.state.WF c.db ∧ db.Le c.db := by
  obtain ⟨r, s₁, w, hi, hw, hcase⟩ := commit_cases hc
  obtain ⟨hdirty, hslots⟩ := hord.dirty r s₁ hi
  obtain ⟨-, hle, -, hwf, -⟩ := commitObjects_spec ord.dirty ⟨false, db, s₁⟩ w hdirty.nodup rfl
    (h.intermediateRoot hord.toRootOrder hi) (fun a _ => hslots a) hw
  rcases hcase with ⟨-, -, hdb, hst⟩ | ⟨-, -, hdb, hst⟩
  · rw [hdb, hst]
    exact ⟨hwf, hle⟩
  · rw [hdb, hst]
    have hle' := Database.le_commitState w.db w.state.trie
    refine ⟨WF.iff_cell.2 ⟨hwf.sound.commitState _, fun a => ?_⟩, hle.trans hle'⟩
    exact (((WF.iff_cell.1 hwf).2 a).mono hle').committed

end StateDB

end NdnGeth.State
