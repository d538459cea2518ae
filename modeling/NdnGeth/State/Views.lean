/-
What a state object stands for, whatever of it is cached.

The storage of an object is spread over its dirty, pending and original
values and its trie; its code is in the object or in the database. `current`,
`committed` and `codeBytes` read the whole. `Cached` says that the caches
agree with what they cache, `SnapOk` that the snapshot does. `Warmer o' o`:
`o'` is `o` with more of it cached, as it is after reads and after changes
that were undone.
-/
import NdnGeth.State.Statedb

namespace NdnGeth.State

open Lib.Rlp (Bytes)
open Core (Hash)
open Types (Address)

variable {D : Digests} {db : Database D}

/-- Everything in the database is stored under its own hash. -/
structure Database.Sound (db : Database D) : Prop where
  code : ∀ hash c, db.code hash = some c → D.code c = hash
  storage : ∀ root t, db.storage root = some t → D.storage t = root
  state : ∀ root t, db.state root = some t → D.state t = root

/-! ## Objects -/

namespace StateObject

/-- The contents of the storage trie, loaded or not. -/
def base (db : Database D) (o : StateObject D) : StorageTrie :=
  o.trie.getD ((db.openStorageTrie o.data.root).getD fun _ => 0)

def committed (db : Database D) (o : StateObject D) (key : Slot) : Value :=
  ((o.pendingStorage key).or (o.originStorage key)).getD (o.base db key)

def current (db : Database D) (o : StateObject D) (key : Slot) : Value :=
  (o.dirtyStorage key).getD (o.committed db key)

/-- The code the database has for the object's code hash. -/
def storedCode (db : Database D) (o : StateObject D) : Option Bytes :=
  if o.data.codeHash = D.emptyCodeHash then none else db.code o.data.codeHash

def codeBytes (db : Database D) (o : StateObject D) : Bytes :=
  (o.code.or (o.storedCode db)).getD []

/-- The storage trie can be opened and the caches agree with it; cached code
is that of the code hash. A slot that was written has its original value
cached, or it was empty: `updateTrie` relies on it. -/
structure Cached (db : Database D) (o : StateObject D) : Prop where
  opened : o.trie = none → (db.openStorageTrie o.data.root).isSome
  origin : ∀ key value, o.originStorage key = some value → value = o.base db key
  known : ∀ key, o.originStorage key = none →
    o.pendingStorage key ≠ none ∨ o.dirtyStorage key ≠ none → o.base db key = 0
  code : ∀ c, o.code = some c → D.code c = o.data.codeHash

/-- Where no original value is cached, the snapshot has that of the storage
trie. -/
def SnapOk (db : Database D) (snap : Option (Snap D)) (destructed : Bool) (o : StateObject D) : Prop :=
  ∀ sn, snap = some sn → ∀ key, o.originStorage key = none →
    (if destructed then 0 else sn.storage o.address key) = o.base db key

/-- `o'` is `o` with more of it cached. `fake` allows storage to be set for
debugging. -/
structure Warmer (db : Database D) (fake : Prop) (o' o : StateObject D) : Prop where
  address : o'.address = o.address
  data : o'.data = o.data
  suicided : o'.suicided = o.suicided
  deleted : o'.deleted = o.deleted
  pending : o'.pendingStorage = o.pendingStorage
  base : o'.base db = o.base db
  trie : o'.trie = none → o.trie = none
  origin : ∀ key, o'.originStorage key = o.originStorage key ∨
    (o.originStorage key = none ∧ o'.originStorage key = some (o.base db key))
  dirty : ∀ key, o'.dirtyStorage key = o.dirtyStorage key ∨
    (o.dirtyStorage key = none ∧ o'.dirtyStorage key = some (o.committed db key) ∧
      (o'.originStorage key = none → o.base db key = 0))
  code : o'.code = o.code ∨ (o.code = none ∧ o'.code = o.storedCode db)
  dirtyCode : o.dirtyCode = true → o'.dirtyCode = true
  fake : ¬ fake → o.fakeStorage = none → o'.fakeStorage = none

theorem newObject_cached (a : Address) {acc : D.Account} (h : (db.openStorageTrie acc.root).isSome) :
    (newObject a acc).Cached db where
  opened _ := h
  origin := nofun
  known _ _ h := absurd h (by simp [newObject])
  code := nofun

namespace Warmer

variable {fake : Prop} {o o' o'' : StateObject D}

theorem refl (o : StateObject D) : Warmer db fake o o where
  address := rfl
  data := rfl
  suicided := rfl
  deleted := rfl
  pending := rfl
  base := rfl
  trie := id
  origin _ := .inl rfl
  dirty _ := .inl rfl
  code := .inl rfl
  dirtyCode := id
  fake _ h := h

section

variable (h : Warmer db fake o' o)
include h

theorem origin_none {key : Slot} (hk : o'.originStorage key = none) :
    o.originStorage key = none := by
  rcases h.origin key with h1 | ⟨h1, -⟩
  · rw [← h1, hk]
  · exact h1

theorem committed : o'.committed db = o.committed db := by
  funext key
  rw [StateObject.committed, StateObject.committed, h.pending, h.base]
  rcases h.origin key with h1 | ⟨h1, h2⟩
  · rw [h1]
  · cases o.pendingStorage key <;> simp [h1, h2]

theorem current : o'.current db = o.current db := by
  funext key
  rw [StateObject.current, StateObject.current, h.committed]
  rcases h.dirty key with h1 | ⟨h1, h2, -⟩
  · rw [h1]
  · rw [h1, h2]; rfl

theorem storedCode : o'.storedCode db = o.storedCode db := by
  rw [StateObject.storedCode, StateObject.storedCode, h.data]

theorem codeBytes : o'.codeBytes db = o.codeBytes db := by
  rw [StateObject.codeBytes, StateObject.codeBytes, h.storedCode]
  rcases h.code with h1 | ⟨h1, h2⟩
  · rw [h1]
  · rw [h1, h2]; cases o.storedCode db <;> rfl

end

theorem trans (h₁ : Warmer db fake o'' o') (h₂ : Warmer db fake o' o) : Warmer db fake o'' o where
  address := h₁.address.trans h₂.address
  data := h₁.data.trans h₂.data
  suicided := h₁.suicided.trans h₂.suicided
  deleted := h₁.deleted.trans h₂.deleted
  pending := h₁.pending.trans h₂.pending
  base := h₁.base.trans h₂.base
  trie h := h₂.trie (h₁.trie h)
  origin key := by
    rcases h₁.origin key with h | ⟨h, h'⟩
    · rw [h]; exact h₂.origin key
    · exact .inr ⟨h₂.origin_none h, by rw [h', h₂.base]⟩
  dirty key := by
    rcases h₁.dirty key with h | ⟨h, h', hbase⟩
    · rcases h₂.dirty key with k | ⟨k, k', kbase⟩
      · exact .inl (h.trans k)
      · exact .inr ⟨k, h.trans k', fun ho => kbase (h₁.origin_none ho)⟩
    · refine .inr ⟨?_, by rw [h', h₂.committed], fun ho => by rw [← h₂.base]; exact hbase ho⟩
      rcases h₂.dirty key with k | ⟨k, -⟩
      · rw [← k, h]
      · exact k
  code := by
    rcases h₁.code with h | ⟨h, h'⟩
    · rw [h]; exact h₂.code
    · rcases h₂.code with k | ⟨k, -⟩
      · exact .inr ⟨k ▸ h, by rw [h', h₂.storedCode]⟩
      · exact .inr ⟨k, by rw [h', h₂.storedCode]⟩
  dirtyCode hd := h₁.dirtyCode (h₂.dirtyCode hd)
  fake hf ho := h₁.fake hf (h₂.fake hf ho)

variable (h : Warmer db fake o' o)
include h

theorem cached (hdb : db.Sound) (hc : o.Cached db) : o'.Cached db where
  code c hcode := by
    rw [h.data]
    rcases h.code with h1 | ⟨-, h2⟩
    · exact hc.code c (h1 ▸ hcode)
    · rw [hcode, StateObject.storedCode] at h2
      split at h2
      · cases h2
      · exact hdb.code _ c h2.symm
  opened ht := by rw [h.data]; exact hc.opened (h.trie ht)
  origin key value hv := by
    rw [h.base]
    rcases h.origin key with h1 | ⟨-, h2⟩
    · exact hc.origin key value (h1 ▸ hv)
    · exact Option.some.inj (hv.symm.trans h2)
  known key hk hw := by
    rw [h.base]
    rcases hw with hp | hd
    · exact hc.known key (h.origin_none hk) (.inl (h.pending ▸ hp))
    · rcases h.dirty key with h1 | ⟨-, -, h3⟩
      · exact hc.known key (h.origin_none hk) (.inr (h1 ▸ hd))
      · exact h3 hk

theorem snapOk {snap : Option (Snap D)} {destructed : Bool}
    (hs : o.SnapOk db snap destructed) : o'.SnapOk db snap destructed := by
  intro sn hsn key ho
  rw [h.address, h.base]
  exact hs sn hsn key (h.origin_none ho)

/-! Changes keep the relation. -/

theorem setBalance (v : Int) : Warmer db fake (o'.setBalance v) (o.setBalance v) :=
  { h with
    data := by simp only [StateObject.setBalance, h.data]
    base := h.base
    origin := h.origin
    dirty := h.dirty
    code := h.code }

theorem setNonce (n : BitVec 64) : Warmer db fake (o'.setNonce n) (o.setNonce n) :=
  { h with
    data := by simp only [StateObject.setNonce, h.data]
    base := h.base
    origin := h.origin
    dirty := h.dirty
    code := h.code }

theorem setSuicided (b : Bool) (v : Int) :
    Warmer db fake (o'.setSuicided b v) (o.setSuicided b v) :=
  { h.setBalance v with
    suicided := rfl
    base := h.base
    origin := h.origin
    dirty := h.dirty
    code := h.code }

theorem setCode (hash : D.Code) (code : Option Bytes) :
    Warmer db fake (o'.setCode hash code) (o.setCode hash code) :=
  { h with
    data := by simp only [StateObject.setCode, h.data]
    base := h.base
    origin := h.origin
    dirty := h.dirty
    code := .inl rfl
    dirtyCode := fun _ => rfl }

theorem setState (key : Slot) (v : Value) :
    Warmer db fake (o'.setState key v) (o.setState key v) :=
  { h with
    base := h.base
    origin := h.origin
    code := h.code
    dirty := fun k => by
      by_cases hk : k = key
      · subst hk; left; simp [StateObject.setState]
      · have hne (p : StateObject D) : (p.setState key v).dirtyStorage k = p.dirtyStorage k :=
          Function.update_of_ne hk _ _
        rw [hne, hne]
        exact h.dirty k }

end Warmer

/-! ## Reading an object -/

variable {o : StateObject D}

theorem base_of_trie {t : StorageTrie} (h : o.trie = some t) : o.base db = t := by
  rw [base, h]; rfl

theorem getTrie_snd (o : StateObject D) : (o.getTrie db).2 = o.base db := by
  unfold getTrie base
  cases o.trie with
  | some t => rfl
  | none => cases h : db.openStorageTrie o.data.root <;> rfl

theorem loadTrie_warmer {t : StorageTrie} (ht : o.base db = t) (e : Bool) (fake : Prop) :
    Warmer db fake { o with trie := some t, dbErr := e } o :=
  { (Warmer.refl o : Warmer db fake o o) with
    base := ht.symm
    trie := nofun
    origin := fun _ => .inl rfl
    dirty := fun _ => .inl rfl
    code := .inl rfl }

theorem getTrie_warmer (db : Database D) (o : StateObject D) (fake : Prop) :
    Warmer db fake (o.getTrie db).1 o := by
  unfold getTrie
  cases ht : o.trie with
  | some t => exact .refl o
  | none =>
    cases h : db.openStorageTrie o.data.root with
    | some t => exact loadTrie_warmer (by rw [base, ht, h]; rfl) _ fake
    | none => exact loadTrie_warmer (by rw [base, ht, h]; rfl) _ fake

theorem cacheOrigin_warmer {key : Slot} (fake : Prop) (hk : o.originStorage key = none) :
    Warmer db fake (o.cacheOrigin key (o.base db key)) o :=
  { (Warmer.refl o : Warmer db fake o o) with
    base := rfl
    dirty := fun _ => .inl rfl
    code := .inl rfl
    origin := fun k => by
      by_cases h : k = key
      · subst h; right; exact ⟨hk, by simp [cacheOrigin]⟩
      · left; simp [cacheOrigin, Function.update_of_ne h] }

/-- A value of an object's storage, where none is set for debugging. -/
def shown (o : StateObject D) (key : Slot) (value : Value) : Value :=
  o.fakeStorage.elim value fun fake => fake key

theorem getCommittedState_spec {snap : Option (Snap D)} {destructed : Bool}
    (hs : o.SnapOk db snap destructed) (key : Slot) (fake : Prop) :
    Warmer db fake (o.getCommittedState db snap destructed key).1 o ∧
      (o.getCommittedState db snap destructed key).2 = o.shown key (o.committed db key) := by
  unfold getCommittedState shown
  cases hf : o.fakeStorage with
  | some f => exact ⟨.refl o, rfl⟩
  | none =>
    simp only [Option.elim_none, committed]
    cases hv : (o.pendingStorage key).or (o.originStorage key) with
    | some v => exact ⟨.refl o, rfl⟩
    | none =>
      obtain ⟨-, ho⟩ := Option.or_eq_none_iff.1 hv
      simp only [Option.getD_none]
      -- nothing cached: the snapshot's value is the trie's
      by_cases hd : (snap.isSome && destructed) = true
      · rw [if_pos hd]
        obtain ⟨hsome, hdes⟩ := Bool.and_eq_true_iff.1 hd
        obtain ⟨sn, hsn⟩ := Option.isSome_iff_exists.1 hsome
        have := hs sn hsn key ho
        rw [if_pos hdes] at this
        exact ⟨.refl o, this⟩
      · rw [if_neg hd]
        cases hsl : snapSlot snap o.address key with
        | some v =>
          obtain ⟨sn, hsn, hcov⟩ := Option.bind_eq_some_iff.1 hsl
          have hb := hs sn hsn key ho
          have hdes : destructed = false := by simpa [hsn] using hd
          have hv : sn.storage o.address key = v := by
            by_contra hne
            split at hcov
            · exact hne (Option.some.inj hcov)
            · cases hcov
          rw [hdes, if_neg Bool.false_ne_true, hv] at hb
          exact ⟨hb ▸ cacheOrigin_warmer fake ho, hb⟩
        | none =>
          simp only [getTrie_snd, and_true]
          have hw := getTrie_warmer db o fake
          have hg : (o.getTrie db).1.originStorage key = none := by
            unfold getTrie
            split
            · exact ho
            · split <;> exact ho
          exact (hw.base ▸ cacheOrigin_warmer fake hg).trans hw

theorem getState_spec {snap : Option (Snap D)} {destructed : Bool}
    (hs : o.SnapOk db snap destructed) (key : Slot) (fake : Prop) :
    Warmer db fake (o.getState db snap destructed key).1 o ∧
      (o.getState db snap destructed key).2 = o.shown key (o.current db key) := by
  have h := getCommittedState_spec hs key fake
  unfold getState shown at *
  cases hf : o.fakeStorage with
  | some f => exact ⟨.refl o, rfl⟩
  | none =>
    cases hd : o.dirtyStorage key with
    | some v => exact ⟨.refl o, by simp [current, hd]⟩
    | none =>
      rw [hf] at h
      exact ⟨h.1, by rw [current, hd]; exact h.2⟩

theorem getCode_spec (db : Database D) (o : StateObject D) (fake : Prop) :
    Warmer db fake (o.getCode db).1 o ∧ (o.getCode db).2 = o.code.or (o.storedCode db) := by
  unfold getCode storedCode
  cases hc : o.code with
  | some c => exact ⟨.refl o, rfl⟩
  | none =>
    simp only [Option.none_or]
    split
    · exact ⟨.refl o, rfl⟩
    · rename_i hne
      cases hs : db.code o.data.codeHash with
      | some c =>
        refine ⟨{ (Warmer.refl o : Warmer db fake o o) with base := rfl, origin := fun _ => .inl rfl, dirty := fun _ => .inl rfl, code := ?_ }, rfl⟩
        exact .inr ⟨hc, by rw [storedCode, if_neg hne, hs]⟩
      | none =>
        refine ⟨{ (Warmer.refl o : Warmer db fake o o) with base := rfl, origin := fun _ => .inl rfl, dirty := fun _ => .inl rfl, code := .inl hc.symm }, rfl⟩

theorem codeSize_spec (db : Database D) (o : StateObject D) (fake : Prop) :
    Warmer db fake (o.codeSize db).1 o ∧ (o.codeSize db).2 = (o.codeBytes db).length := by
  unfold codeSize codeBytes storedCode
  cases hc : o.code with
  | some c => exact ⟨.refl o, rfl⟩
  | none =>
    simp only [Option.none_or]
    split
    · exact ⟨.refl o, rfl⟩
    · cases db.code o.data.codeHash with
      | some c => exact ⟨.refl o, rfl⟩
      | none =>
        refine ⟨{ (Warmer.refl o : Warmer db fake o o) with base := rfl, origin := fun _ => .inl rfl, dirty := fun _ => .inl rfl, code := .inl hc.symm }, rfl⟩

end StateObject

end NdnGeth.State
