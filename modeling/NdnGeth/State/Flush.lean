/-
Writing storage into the tries: what the loop over the pending slots does to
each slot, whatever order it takes, and that the object then stands for the
same storage.
-/
import NdnGeth.Lib.Loop
import NdnGeth.State.Mutations

namespace NdnGeth.State

open Lib (Enumerates foldl_view foldlM_view foldlM_invariant)
open Types (Address)

variable {D : Digests} {db db' : Database D}

namespace StateObject

variable {o o' : StateObject D} {order : List Slot}

/-! ## The loop over the slots -/

/-- What a flush has for a slot. -/
def Flush.slot (f : Flush) (key : Slot) : Option Value × Value × Option Value :=
  (f.origin key, f.trie key, f.snap key)

theorem Flush.of_slot {f g : Flush} {key : Slot} (h : f.slot key = g.slot key) :
    f.origin key = g.origin key ∧ f.trie key = g.trie key :=
  ⟨congrArg (fun v => v.1) h, congrArg (fun v => v.2.1) h⟩

theorem foldl_flushSlot (pending : Storage) (key : Slot) (order : List Slot) (f : Flush) (h : order.Nodup) :
    (order.foldl (flushSlot pending) f).slot key =
      if key ∈ order then (flushSlot pending f key).slot key else f.slot key := by
  refine foldl_view Flush.slot (flushSlot pending) (fun f k k' hk => ?_) (fun f g k hv => ?_) key order f h
  · unfold flushSlot
    split
    · rfl
    · split
      · rfl
      · simp only [Flush.slot, Function.update_of_ne hk]
  · obtain ⟨ho, ht, hs⟩ : f.origin k = g.origin k ∧ f.trie k = g.trie k ∧ f.snap k = g.snap k := by
      simpa [Flush.slot] using hv
    unfold flushSlot
    rw [ho]
    split
    · exact hv
    · split
      · exact hv
      · simp [Flush.slot]

/-! ## `updateTrie` -/

/-- `o'` is `o` with its storage written to the trie. -/
structure Flushed (db : Database D) (o o' : StateObject D) : Prop where
  address : o'.address = o.address
  data : o'.data = o.data
  code : o'.code = o.code
  dirtyCode : o'.dirtyCode = o.dirtyCode
  suicided : o'.suicided = o.suicided
  deleted : o'.deleted = o.deleted
  fake : o'.fakeStorage = o.fakeStorage
  pending : ∀ key, o'.pendingStorage key = none
  dirty : ∀ key, o'.dirtyStorage key = none
  base : o'.base db = o.current db
  origin : ∀ key, o'.originStorage key = none → o.originStorage key = none ∧ o'.base db key = o.base db key
  cached : o'.Cached db

theorem finalise_base (o : StateObject D) : o.finalise.base db = o.base db := rfl

theorem finalise_current (o : StateObject D) : o.finalise.committed db = o.current db := by
  funext key
  show (((o.dirtyStorage key).or (o.pendingStorage key)).or (o.originStorage key)).getD (o.base db key) =
    (o.dirtyStorage key).getD (((o.pendingStorage key).or (o.originStorage key)).getD (o.base db key))
  cases o.dirtyStorage key <;> rfl

theorem finalise_cached (h : o.Cached db) : o.finalise.Cached db where
  opened := h.opened
  origin := h.origin
  known key hk hw := by
    refine h.known key hk ?_
    simp only [finalise, ne_eq, Option.or_eq_none_iff, not_and, not_true_eq_false, or_false] at hw
    by_cases hd : o.dirtyStorage key = none
    · exact .inl (hw hd)
    · exact .inr hd
  code := h.code

theorem flushed_of_nil (hc : o.Cached db) (hp : ∀ key, o.finalise.pendingStorage key = none) :
    Flushed db o o.finalise where
  address := rfl
  data := rfl
  code := rfl
  dirtyCode := rfl
  suicided := rfl
  deleted := rfl
  fake := rfl
  pending := hp
  dirty _ := rfl
  base := by
    rw [← finalise_current]
    funext key
    rw [committed, hp key, Option.none_or]
    cases ho : o.finalise.originStorage key with
    | none => rfl
    | some v => exact ((finalise_cached hc).origin key v ho).symm
  origin _ h := ⟨h, rfl⟩
  cached := finalise_cached hc

theorem getTrie_fst (db : Database D) (o : StateObject D) : ∃ e t, (o.getTrie db).1 = { o with dbErr := e, trie := t } := by
  unfold getTrie
  split
  · exact ⟨o.dbErr, o.trie, rfl⟩
  · split
    · exact ⟨_, _, rfl⟩
    · exact ⟨_, _, rfl⟩

theorem updateTrie_of_ne_nil (db : Database D) (o : StateObject D) (snapSlots : Storage) (hnil : order ≠ []) :
    ∃ e, (o.updateTrie db order snapSlots).1 =
      let f := order.foldl (flushSlot o.finalise.pendingStorage) ⟨o.originStorage, o.base db, snapSlots⟩
      { o.finalise with
        dbErr := e, originStorage := f.origin, trie := some f.trie, pendingStorage := fun _ => none } := by
  obtain ⟨e, t, ht⟩ := getTrie_fst db o.finalise
  unfold updateTrie
  simp only [hnil, if_false]
  rw [getTrie_snd, finalise_base, ht]
  exact ⟨e, rfl⟩

theorem foldl_flushSlot_slot (hc : o.Cached db)
    (hord : Enumerates order fun key => o.finalise.pendingStorage key ≠ none) (snapSlots : Storage) (key : Slot) :
    let f := order.foldl (flushSlot o.finalise.pendingStorage) ⟨o.originStorage, o.base db, snapSlots⟩
    f.trie key = o.current db key ∧
      (f.origin key = none → o.originStorage key = none ∧ f.trie key = o.base db key) ∧
      (∀ v, f.origin key = some v → v = f.trie key) := by
  intro f
  have hloop := foldl_flushSlot o.finalise.pendingStorage key order ⟨o.originStorage, o.base db, snapSlots⟩ hord.nodup
  rw [← finalise_current, committed]
  have hmem := hord.mem key
  have horig := hc.origin key
  have hknown := (finalise_cached hc).known key
  rw [finalise_base] at hknown ⊢
  show _ = ((o.finalise.pendingStorage key).or (o.originStorage key)).getD (o.base db key) ∧ _
  cases hp : o.finalise.pendingStorage key with
  | none =>
    rw [if_neg (by rw [hmem, hp]; simp)] at hloop
    obtain ⟨h1, h2⟩ := Flush.of_slot hloop
    rw [h1, h2]
    cases ho : o.originStorage key with
    | none => simp [ho]
    | some v => simp [ho, horig v ho]
  | some v =>
    have hne : o.finalise.pendingStorage key ≠ none := by rw [hp]; exact Option.some_ne_none v
    rw [if_pos (hmem.2 hne)] at hloop
    obtain ⟨h1, h2⟩ := Flush.of_slot hloop
    rw [h1, h2]
    simp only [flushSlot, hp, Option.some_or, Option.getD_some]
    split
    · rename_i hv
      cases ho : o.originStorage key with
      | none =>
        have hb := hknown ho (.inl hne)
        rw [ho] at hv
        simp only [Option.getD_none] at hv
        simp [hb, hv, ho]
      | some w =>
        rw [ho] at hv
        simp only [Option.getD_some] at hv
        simp [← horig w ho, hv, ho]
    · simp

theorem updateTrie_flushed (hc : o.Cached db)
    (hord : Enumerates order fun key => o.finalise.pendingStorage key ≠ none) (snapSlots : Storage) :
    Flushed db o (o.updateTrie db order snapSlots).1 := by
  by_cases hnil : order = []
  · unfold updateTrie
    simp only [hnil, if_true]
    refine flushed_of_nil hc fun key => ?_
    by_contra hne
    have hmem := (hord.mem key).2 hne
    rw [hnil] at hmem
    cases hmem
  · have hslot := foldl_flushSlot_slot hc hord snapSlots
    obtain ⟨e, he⟩ := updateTrie_of_ne_nil db o snapSlots hnil
    rw [he]
    exact {
      address := rfl
      data := rfl
      code := rfl
      dirtyCode := rfl
      suicided := rfl
      deleted := rfl
      fake := rfl
      pending := fun _ => rfl
      dirty := fun _ => rfl
      base := funext fun key => (hslot key).1
      origin := fun key hk => (hslot key).2.1 hk
      cached := {
        opened := nofun
        code := hc.code
        origin := fun key v hv => (hslot key).2.2 v hv
        known := fun key _ hk => (hk.elim (· rfl) (· rfl)).elim } }

theorem Flushed.snapOk {snap : Option (Snap D)} {d : Bool} (h : Flushed db o o') (hs : o.SnapOk db snap d) :
    o'.SnapOk db snap d := by
  intro sn hsn key ho
  obtain ⟨hn, hb⟩ := h.origin key ho
  rw [h.address, hb]
  exact hs sn hsn key hn

theorem Flushed.current (h : Flushed db o o') : o'.current db = o.current db := by
  funext key
  rw [StateObject.current, h.dirty key, Option.getD_none, committed, h.pending key, Option.none_or]
  cases ho : o'.originStorage key with
  | none => rw [Option.getD_none, h.base]
  | some v => rw [Option.getD_some, h.cached.origin key v ho, h.base]

/-! ## The root of the storage -/

/-- `o'` is `o` with its storage written and the root of its storage trie
set, where the trie was used. -/
structure Written (db : Database D) (o o' : StateObject D) : Prop where
  address : o'.address = o.address
  nonce : o'.data.nonce = o.data.nonce
  balance : o'.data.balance = o.data.balance
  codeHash : o'.data.codeHash = o.data.codeHash
  root : (o'.trie = none ∧ o.trie = none ∧ o'.data.root = o.data.root) ∨
    (o'.trie = some (o'.base db) ∧ o'.data.root = D.storage (o'.base db))
  code : o'.code = o.code
  suicided : o'.suicided = o.suicided
  deleted : o'.deleted = o.deleted
  fake : o'.fakeStorage = o.fakeStorage
  pending : ∀ key, o'.pendingStorage key = none
  dirty : ∀ key, o'.dirtyStorage key = none
  base : o'.base db = o.current db
  current : o'.current db = o.current db
  cached : o'.Cached db
  snapOk : ∀ snap d, o.SnapOk db snap d → o'.SnapOk db snap d

theorem updateTrie_trie_none {snapSlots : Storage} (h : (o.updateTrie db order snapSlots).1.trie = none) :
    o.trie = none := by
  unfold updateTrie at h
  simp only at h
  split at h
  · exact h
  · cases h

theorem Flushed.setRoot {t : StorageTrie} (h : Flushed db o o') (ht : o'.trie = some t) :
    Written db o { o' with data := { o'.data with root := D.storage t } } := by
  have hbase : ({ o' with data := { o'.data with root := D.storage t } } : StateObject D).base db = o'.base db := by
    rw [base_of_trie ht]
    exact base_of_trie ht
  have hcur : ({ o' with data := { o'.data with root := D.storage t } } : StateObject D).current db =
      o'.current db := by
    funext key
    unfold StateObject.current committed
    rw [hbase]
  exact {
    address := h.address
    nonce := show o'.data.nonce = o.data.nonce by rw [h.data]
    balance := show o'.data.balance = o.data.balance by rw [h.data]
    codeHash := show o'.data.codeHash = o.data.codeHash by rw [h.data]
    root := .inr ⟨by rw [hbase, base_of_trie ht]; exact ht, by rw [hbase, base_of_trie ht]⟩
    code := h.code
    suicided := h.suicided
    deleted := h.deleted
    fake := h.fake
    pending := h.pending
    dirty := h.dirty
    base := hbase.trans h.base
    current := hcur.trans h.current
    cached := {
      opened := fun hn => by rw [show o'.trie = none from hn] at ht; cases ht
      code := h.cached.code
      origin := fun key v hv => by rw [hbase]; exact h.cached.origin key v hv
      known := fun key ho hw => by rw [hbase]; exact h.cached.known key ho hw }
    snapOk := fun snap d hs sn hsn key ho => by
      rw [hbase]
      exact h.snapOk hs sn hsn key ho }

theorem Flushed.written (h : Flushed db o o') (hn : o'.trie = none) (ho : o.trie = none) : Written db o o' where
  address := h.address
  nonce := congrArg Account.nonce h.data
  balance := congrArg Account.balance h.data
  codeHash := congrArg Account.codeHash h.data
  root := .inl ⟨hn, ho, congrArg Account.root h.data⟩
  code := h.code
  suicided := h.suicided
  deleted := h.deleted
  fake := h.fake
  pending := h.pending
  dirty := h.dirty
  base := h.base
  current := h.current
  cached := h.cached
  snapOk _ _ hs := h.snapOk hs

theorem updateRoot_written (hc : o.Cached db)
    (hord : Enumerates order fun key => o.finalise.pendingStorage key ≠ none) (snapSlots : Storage) :
    Written db o (o.updateRoot db order snapSlots).1 := by
  have h := updateTrie_flushed hc hord snapSlots
  unfold updateRoot
  simp only
  split
  · rename_i hn
    exact h.written hn (updateTrie_trie_none hn)
  · rename_i t ht
    exact h.setRoot ht

theorem commitTrie_cases (hc : o.Cached db)
    (hord : Enumerates order fun key => o.finalise.pendingStorage key ≠ none) (snapSlots : Storage) :
    let r := o.commitTrie db order snapSlots
    (r.1 = true ∧ r.2.1 = db ∧ Flushed db o r.2.2.1) ∨
    (r.1 = false ∧ Written db o r.2.2.1 ∧
      ((r.2.2.1.trie = none ∧ r.2.1 = db) ∨
       (r.2.2.1.trie = some (r.2.2.1.base db) ∧ r.2.1 = db.commitStorage (r.2.2.1.base db)))) := by
  have h := updateTrie_flushed hc hord snapSlots
  unfold commitTrie
  simp only
  split
  · rename_i hn
    exact .inr ⟨rfl, h.written hn (updateTrie_trie_none hn), .inl ⟨hn, rfl⟩⟩
  · rename_i t ht
    split
    · exact .inl ⟨rfl, rfl, h⟩
    · have hbase : ({ (o.updateTrie db order snapSlots).1 with
          data := { (o.updateTrie db order snapSlots).1.data with root := D.storage t } } : StateObject D).base db = t :=
        base_of_trie ht
      exact .inr ⟨rfl, h.setRoot ht, .inr ⟨by rw [hbase]; exact ht, by rw [hbase]⟩⟩

end StateObject

end NdnGeth.State
