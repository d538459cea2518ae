/-
The header chain (`core/headerchain.go`): headers and their total
difficulties by number and hash, the canonical hash of each height, and the
head. `WriteHeader` stores a header and makes it the head where its total
difficulty is higher, moving the markers of the canonical chain along;
`SetHead` takes headers off the head.

The head's markers and the stored total difficulties are right after every
run. What a run can do is leave a header on a side branch whose ancestors
`SetHead` has removed. Writing on top of that branch is accepted, since the
total difficulty of its last header is known, and where it overtakes the
head the walk back to the canonical chain dereferences a header that is not
there. This is the only way in which a step fails.

The caches hold what the database holds and are purged by `SetHead`, so
reads go to the database here. A header and its total difficulty are written
in one batch and deleted in one batch, so they are one entry. The head's hash
in the database, the callbacks and the metrics are left out. Numbers of
headers are below `2^64`, where `Number.Uint64()` is the number.
-/
import Mathlib.Logic.Function.Basic
import Mathlib.Data.Nat.Basic
import NdnGeth.Lib.Result
import NdnGeth.Lib.Run
import NdnGeth.Core.Types

namespace NdnGeth.Core

open Lib Function

structure HeaderChain where
  entries : Nat × Hash → Option (Header × Nat)
  canonical : Nat → Option Hash
  currentHeader : Header
  currentHeaderHash : Hash
  genesisHeader : Header

/-- `types.WriteStatus`; the first comes with `ErrUnknownAncestor`. -/
inductive WriteStatus
  | nonStatTy
  | canonStatTy
  | sideStatTy

/-- `number - 1`, of a `uint64`. -/
def before (number : Nat) : Nat := (number + (2 ^ 64 - 1)) % 2 ^ 64

theorem before_of_ne_zero {n : Nat} (hn : n ≠ 0) (hb : n < 2 ^ 64) : before n + 1 = n := by
  unfold before
  omega

namespace HeaderChain

def getHeader (s : HeaderChain) (hash : Hash) (number : Nat) : Option Header := (s.entries (number, hash)).map (·.1)

def getTd (s : HeaderChain) (hash : Hash) (number : Nat) : Option Nat := (s.entries (number, hash)).map (·.2)

/-- `rawdb.WriteTd` and `rawdb.WriteHeader`. -/
def store (s : HeaderChain) (header : Header) (td : Nat) : HeaderChain :=
  { s with entries := update s.entries (header.number, header.hash) (some (header, td)) }

def new (genesis : Header) : HeaderChain where
  entries := update (fun _ => none) (genesis.number, genesis.hash) (some (genesis, genesis.difficulty))
  canonical := update (fun _ => none) genesis.number (some genesis.hash)
  currentHeader := genesis
  currentHeaderHash := genesis.hash
  genesisHeader := genesis

/-- Whether the header becomes the head; `coin` is `mrand.Float64() < 0.5`. -/
def reorg (s : HeaderChain) (coin : Bool) (header : Header) (externTd localTd : Nat) : Bool :=
  localTd < externTd ||
    (externTd == localTd &&
      (header.number < s.currentHeader.number || (header.number == s.currentHeader.number && coin)))

/-- The markers without those above `number`: the source deletes upwards, to
the first height that has none. -/
def deleteAbove (s : HeaderChain) (number i : Nat) : Option Hash :=
  if number < i ∧ ∀ j < i + 1, number < j → (s.canonical j).isSome then none else s.canonical i

/-- The loop that overwrites stale markers, from a header down to the first
one that is canonical already. Markers are read from the database and
written to the batch. -/
def overwrite (s : HeaderChain) : Nat → Hash → Nat → (Nat → Option Hash) → Result Unit (Nat → Option Hash)
  | 0, _, _, _ => .unfinished
  | fuel + 1, headHash, headNumber, batch =>
    if s.canonical headNumber = some headHash then .ok batch
    else
      match s.getHeader headHash headNumber with
      -- `headHeader.ParentHash`, of no header
      | none => .fault ()
      | some headHeader =>
        overwrite s fuel headHeader.parentHash (before headHeader.number)
          (update batch headNumber (some headHash))

/-- The header as the head of the canonical chain. -/
def extend (s : HeaderChain) (header : Header) (batch : Nat → Option Hash) : HeaderChain :=
  { s with
    canonical := update batch header.number (some header.hash)
    currentHeader := header
    currentHeaderHash := header.hash }

def writeHeader (s : HeaderChain) (coin : Bool) (header : Header) : Result Unit (HeaderChain × WriteStatus) :=
  match s.getTd header.parentHash (before header.number) with
  | none => .ok (s, .nonStatTy)
  | some ptd =>
    match s.getTd s.currentHeaderHash s.currentHeader.number with
    -- `externTd.Cmp(localTd)`, with no local total difficulty
    | none => .fault ()
    | some localTd =>
      let t := s.store header (header.difficulty + ptd)
      if s.reorg coin header (header.difficulty + ptd) localTd then
        match t.overwrite (header.number + 1) header.parentHash (before header.number)
            (t.deleteAbove header.number) with
        | .ok batch => .ok (t.extend header batch, .canonStatTy)
        | .fault e => .fault e
        | .unfinished => .unfinished
      else .ok (t, .sideStatTy)

/-- One round of `SetHead`. The parent is read from the database as it was
before the call (`s`): the deletions are flushed at the end. -/
def dropHead (s t : HeaderChain) : HeaderChain :=
  let hdr := t.currentHeader
  { t with
    entries := update t.entries (hdr.number, hdr.hash) none
    canonical := update t.canonical hdr.number none
    currentHeader := (s.getHeader hdr.parentHash (before hdr.number)).getD t.genesisHeader
    currentHeaderHash := hdr.parentHash }

def rewind (s : HeaderChain) (head : Nat) : Nat → HeaderChain → Result Unit HeaderChain
  | 0, _ => .unfinished
  | fuel + 1, t => if head < t.currentHeader.number then rewind s head fuel (s.dropHead t) else .ok t

def setHead (s : HeaderChain) (head : Nat) : Result Unit HeaderChain :=
  s.rewind head (s.currentHeader.number + 1) s

inductive Call
  | writeHeader (header : Header) (coin : Bool)
  | setHead (head : Nat)

def step (s : HeaderChain) : Call → Option HeaderChain
  | .writeHeader header coin =>
    match s.writeHeader coin header with
    | .ok r => some r.1
    | _ => none
  | .setHead head =>
    match s.setHead head with
    | .ok t => some t
    | _ => none

end HeaderChain

/-! ## Trees of headers -/

/-- The headers there are, by hash: one has number zero, and each other one
has a parent. -/
structure HeaderTree (tree : Hash → Option Header) (genesis : Header) : Prop where
  hash : ∀ h hd, tree h = some hd → hd.hash = h
  bound : ∀ h hd, tree h = some hd → hd.number < 2 ^ 64
  root : tree genesis.hash = some genesis
  zero : ∀ h hd, tree h = some hd → (hd.number = 0 ↔ hd = genesis)
  parent : ∀ h hd, tree h = some hd → hd.number ≠ 0 → ∃ p, tree hd.parentHash = some p ∧ p.number + 1 = hd.number

/-- `Ancestor tree hd a`: going up from `hd`, by no step or more, leads to `a`. -/
inductive Ancestor (tree : Hash → Option Header) : Header → Header → Prop
  | refl {hd} : Ancestor tree hd hd
  | up {hd p a} : tree hd.parentHash = some p → p.number + 1 = hd.number → Ancestor tree p a → Ancestor tree hd a

/-- `Total tree genesis hd td`: the difficulties of `hd` and its ancestors
add up to `td`. -/
inductive Total (tree : Hash → Option Header) (genesis : Header) : Header → Nat → Prop
  | genesis : Total tree genesis genesis genesis.difficulty
  | child {hd p td} : tree hd.parentHash = some p → p.number + 1 = hd.number → Total tree genesis p td →
      Total tree genesis hd (hd.difficulty + td)

/-- The calls write headers of the tree. -/
def HeaderChain.Call.Of (tree : Hash → Option Header) (_ : HeaderChain) : HeaderChain.Call → Prop
  | .writeHeader header _ => tree header.hash = some header ∧ header.number ≠ 0
  | .setHead _ => True

instance (tree : Hash → Option Header) (s : HeaderChain) (c : HeaderChain.Call) : Decidable (c.Of tree s) :=
  match c with
  | .writeHeader header _ => inferInstanceAs (Decidable (tree header.hash = some header ∧ header.number ≠ 0))
  | .setHead _ => .isTrue trivial

section Tree

variable {tree : Hash → Option Header} {genesis hd a b c : Header} {n : Nat}

namespace Ancestor

theorem number_le (h : Ancestor tree hd a) : a.number ≤ hd.number := by
  induction h with
  | refl => exact Nat.le_refl _
  | up _ hn _ ih => omega

theorem of_parent {p : Header} (h : Ancestor tree hd a) (hp : tree hd.parentHash = some p) : a = hd ∨ Ancestor tree p a := by
  cases h with
  | refl => exact .inl rfl
  | up hq _ hqa =>
    rw [hp] at hq
    cases hq
    exact .inr hqa

theorem eq_of_number (h : Ancestor tree hd a) (hn : a.number = hd.number) : a = hd := by
  cases h with
  | refl => rfl
  | up _ hp hpa =>
    have hle := hpa.number_le
    omega

theorem trans (h₁ : Ancestor tree hd a) (h₂ : Ancestor tree a b) : Ancestor tree hd b := by
  induction h₁ with
  | refl => exact h₂
  | up hp hn _ ih => exact .up hp hn (ih h₂)

theorem mem (ht : HeaderTree tree genesis) (h : Ancestor tree hd a) (hhd : tree hd.hash = some hd) :
    tree a.hash = some a := by
  induction h with
  | refl => exact hhd
  | @up hd p a hp _ _ ih =>
    have hh := ht.hash _ _ hp
    exact ih (by rw [hh]; exact hp)

end Ancestor

theorem HeaderTree.parent_mem (ht : HeaderTree tree genesis) (hhd : tree hd.hash = some hd) (hn : hd.number ≠ 0) :
    ∃ p, tree hd.parentHash = some p ∧ p.hash = hd.parentHash ∧ tree p.hash = some p ∧
      p.number = before hd.number ∧ p.number + 1 = hd.number := by
  obtain ⟨p, hp, hpn⟩ := ht.parent _ _ hhd hn
  have hh := ht.hash _ _ hp
  have hb := before_of_ne_zero hn (ht.bound _ _ hhd)
  exact ⟨p, hp, hh, by rw [hh]; exact hp, by omega, hpn⟩

theorem HeaderTree.ancestor_at (ht : HeaderTree tree genesis) (hhd : tree hd.hash = some hd) (hn : n ≤ hd.number) :
    ∃ a, Ancestor tree hd a ∧ a.number = n := by
  induction hk : hd.number - n generalizing hd with
  | zero => exact ⟨hd, .refl, by omega⟩
  | succ k ih =>
    obtain ⟨p, hp, -, hpm, -, hpn⟩ := ht.parent_mem hhd (by omega)
    obtain ⟨a, ha, han⟩ := ih hpm (by omega) (by omega)
    exact ⟨a, .up hp hpn ha, han⟩

end Tree

namespace HeaderChain

variable {tree : Hash → Option Header} {genesis hd header a : Header} {s t : HeaderChain} {td : Nat}

def Stored (s : HeaderChain) (hd : Header) : Prop := s.getHeader hd.hash hd.number = some hd

/-- What every call keeps. What is stored is of the tree, with the right
total difficulty. The markers are the hashes of the head's ancestors, all of
which are stored. -/
structure Inv (tree : Hash → Option Header) (genesis : Header) (s : HeaderChain) : Prop where
  entries : ∀ n h e, s.entries (n, h) = some e → tree h = some e.1 ∧ e.1.number = n ∧ Total tree genesis e.1 e.2
  head : tree s.currentHeader.hash = some s.currentHeader
  headHash : s.currentHeaderHash = s.currentHeader.hash
  stored : ∀ a, Ancestor tree s.currentHeader a → s.Stored a
  canonical : ∀ n h, s.canonical n = some h ↔ ∃ a, Ancestor tree s.currentHeader a ∧ a.number = n ∧ a.hash = h

theorem Inv.new (ht : HeaderTree tree genesis) : Inv tree genesis (new genesis) := by
  have hself : ∀ a, Ancestor tree genesis a → a = genesis := by
    intro a ha
    have hzero := (ht.zero _ _ ht.root).2 rfl
    have hle := ha.number_le
    exact ha.eq_of_number (by omega)
  refine ⟨?_, ht.root, rfl, ?_, ?_⟩
  · intro n h e hs
    simp only [HeaderChain.new, update_apply, Option.ite_none_right_eq_some] at hs
    obtain ⟨hk, hs⟩ := hs
    cases hk
    cases hs
    exact ⟨ht.root, rfl, .genesis⟩
  · intro a ha
    rw [hself a ha]
    simp [Stored, getHeader, HeaderChain.new]
  · intro n h
    simp only [HeaderChain.new, update_apply, Option.ite_none_right_eq_some]
    constructor
    · rintro ⟨hk, hs⟩
      cases hs
      exact ⟨genesis, .refl, hk.symm, rfl⟩
    · rintro ⟨a, ha, rfl, rfl⟩
      rw [hself a ha]
      exact ⟨rfl, rfl⟩

theorem Inv.getHeader (hI : Inv tree genesis s) {h : Hash} {n : Nat} (hs : s.getHeader h n = some hd) :
    tree h = some hd ∧ hd.number = n := by
  obtain ⟨e, he, rfl⟩ := Option.map_eq_some_iff.1 hs
  exact ⟨(hI.entries _ _ _ he).1, (hI.entries _ _ _ he).2.1⟩

theorem Inv.getTd (hI : Inv tree genesis s) {h : Hash} {n : Nat} (hs : s.getTd h n = some td) :
    s.getHeader h n = tree h ∧ ∃ hd, tree h = some hd ∧ hd.number = n ∧ Total tree genesis hd td := by
  obtain ⟨e, he, rfl⟩ := Option.map_eq_some_iff.1 hs
  obtain ⟨hm, hn, htot⟩ := hI.entries _ _ _ he
  exact ⟨by rw [HeaderChain.getHeader, he, hm]; rfl, e.1, hm, hn, htot⟩

/-! ## The walk back to the canonical chain -/

section Walk

variable (ht : HeaderTree tree genesis) (hI : Inv tree genesis s)

include ht hI

theorem Inv.ancestor_of_canonical (hhd : tree hd.hash = some hd) (hc : s.canonical hd.number = some hd.hash) :
    Ancestor tree s.currentHeader hd := by
  obtain ⟨a, ha, -, hah⟩ := (hI.canonical _ _).1 hc
  have hm := ha.mem ht hI.head
  rw [hah, hhd] at hm
  cases hm
  exact ha

theorem Inv.genesis_canonical : s.canonical genesis.number = some genesis.hash := by
  have hzero : genesis.number = 0 := (ht.zero _ _ ht.root).2 rfl
  obtain ⟨a, ha, hn⟩ := ht.ancestor_at hI.head (Nat.zero_le _)
  have hag := (ht.zero _ _ (ha.mem ht hI.head)).1 hn
  subst hag
  exact (hI.canonical _ _).2 ⟨a, ha, rfl, rfl⟩

theorem Inv.ne_zero_of_not_canonical (hhd : tree hd.hash = some hd) (hc : s.canonical hd.number ≠ some hd.hash) :
    hd.number ≠ 0 := by
  intro hz
  have hg := (ht.zero _ _ hhd).1 hz
  subst hg
  exact hc (hI.genesis_canonical ht)

theorem Inv.overwrite_ok : ∀ {fuel : Nat} {hd : Header} {batch : Nat → Option Hash}, tree hd.hash = some hd →
    hd.number < fuel → (∀ a, Ancestor tree hd a → s.Stored a) → (∀ n ≤ hd.number, batch n = s.canonical n) →
    ∃ b, s.overwrite fuel hd.hash hd.number batch = .ok b ∧
      (∀ a, Ancestor tree hd a → b a.number = some a.hash) ∧ ∀ n, hd.number < n → b n = batch n := by
  intro fuel
  induction fuel with
  | zero =>
    intro hd batch _ hf
    omega
  | succ fuel ih =>
    intro hd batch hhd hf hst hb
    unfold overwrite
    by_cases hc : s.canonical hd.number = some hd.hash
    · rw [if_pos hc]
      refine ⟨batch, rfl, ?_, fun _ _ => rfl⟩
      intro a ha
      have hca := hI.ancestor_of_canonical ht hhd hc
      rw [hb a.number ha.number_le]
      exact (hI.canonical _ _).2 ⟨a, hca.trans ha, rfl, rfl⟩
    · rw [if_neg hc]
      obtain ⟨p, hp, hph, hpm, hpb, hpn⟩ := ht.parent_mem hhd (hI.ne_zero_of_not_canonical ht hhd hc)
      have hhere : s.getHeader hd.hash hd.number = some hd := hst hd .refl
      simp only [hhere, ← hph, ← hpb]
      obtain ⟨b, hr, hset, hrest⟩ := @ih p (update batch hd.number (some hd.hash)) hpm (by omega)
        (fun a ha => hst a (.up hp hpn ha))
        (fun n hn => by rw [update_of_ne (by omega)]; exact hb n (by omega))
      refine ⟨b, hr, ?_, ?_⟩
      · intro a ha
        rcases ha.of_parent hp with rfl | hpa
        · rw [hrest _ (by omega), update_self]
        · exact hset a hpa
      · intro n hn
        rw [hrest n (by omega), update_of_ne (by omega)]

theorem Inv.overwrite_fault : ∀ {fuel : Nat} {hd : Header} {batch : Nat → Option Hash}, tree hd.hash = some hd →
    hd.number < fuel → (∃ a, Ancestor tree hd a ∧ s.getHeader a.hash a.number = none) →
    s.overwrite fuel hd.hash hd.number batch = .fault () := by
  intro fuel
  induction fuel with
  | zero =>
    intro hd batch _ hf
    omega
  | succ fuel ih =>
    intro hd batch hhd hf ⟨a, ha, hmiss⟩
    unfold overwrite
    have hc : s.canonical hd.number ≠ some hd.hash := by
      intro hc
      have hst := hI.stored a ((hI.ancestor_of_canonical ht hhd hc).trans ha)
      rw [Stored, hmiss] at hst
      cases hst
    rw [if_neg hc]
    obtain ⟨p, hp, hph, hpm, hpb, hpn⟩ := ht.parent_mem hhd (hI.ne_zero_of_not_canonical ht hhd hc)
    cases hs : s.getHeader hd.hash hd.number with
    | none => rfl
    | some hd' =>
      obtain ⟨hd'm, -⟩ := hI.getHeader hs
      rw [hhd] at hd'm
      cases hd'm
      simp only [← hph, ← hpb]
      rcases ha.of_parent hp with rfl | hpa
      · rw [hs] at hmiss
        cases hmiss
      · exact ih hpm (by omega) ⟨a, hpa, hmiss⟩

end Walk

/-! ## Writing a header -/

theorem deleteAbove_le (s : HeaderChain) {number i : Nat} (hi : i ≤ number) :
    s.deleteAbove number i = s.canonical i := by
  unfold deleteAbove
  rw [if_neg]
  intro h
  omega

theorem Inv.deleteAbove_gt (ht : HeaderTree tree genesis) (hI : Inv tree genesis s) {number i : Nat}
    (hi : number < i) : s.deleteAbove number i = none := by
  unfold deleteAbove
  split
  · rfl
  · next h =>
    cases hc : s.canonical i with
    | none => rfl
    | some x =>
      obtain ⟨a, ha, han, -⟩ := (hI.canonical _ _).1 hc
      have hle := ha.number_le
      refine absurd ⟨hi, fun j hj _ => ?_⟩ h
      obtain ⟨b, hb, hbn⟩ := ht.ancestor_at hI.head (show j ≤ s.currentHeader.number by omega)
      rw [(hI.canonical j b.hash).2 ⟨b, hb, hbn, rfl⟩]
      rfl

theorem stored_store (td : Nat) (hI : Inv tree genesis s) (hh : tree header.hash = some header) (hst : s.Stored hd) :
    (s.store header td).Stored hd := by
  simp only [Stored, HeaderChain.getHeader, store, update_apply]
  split
  · next hk =>
    simp only [Prod.mk.injEq] at hk
    have hm := (hI.getHeader hst).1
    rw [hk.2, hh] at hm
    exact hm
  · exact hst

theorem Inv.store (hI : Inv tree genesis s) (hh : tree header.hash = some header)
    (htd : Total tree genesis header td) : Inv tree genesis (s.store header td) := by
  refine ⟨?_, hI.head, hI.headHash, fun a ha => stored_store td hI hh (hI.stored a ha), hI.canonical⟩
  intro n h e hs
  simp only [HeaderChain.store, update_apply] at hs
  split at hs
  · next hk =>
    cases hk
    cases hs
    exact ⟨hh, rfl, htd⟩
  · exact hI.entries n h e hs

theorem Inv.extend (ht : HeaderTree tree genesis) (hI : Inv tree genesis s) (hh : tree header.hash = some header)
    (hst : ∀ a, Ancestor tree header a → s.Stored a) {b : Nat → Option Hash}
    (hset : ∀ a, Ancestor tree header a → a ≠ header → b a.number = some a.hash)
    (habove : ∀ n, header.number < n → b n = none) : Inv tree genesis (s.extend header b) := by
  refine ⟨hI.entries, hh, rfl, hst, ?_⟩
  have hmark : ∀ a, Ancestor tree header a → (s.extend header b).canonical a.number = some a.hash := by
    intro a ha
    simp only [HeaderChain.extend, update_apply]
    split
    · next hn => rw [ha.eq_of_number hn]
    · next hn => exact hset a ha (fun h => hn (by rw [h]))
  intro n h
  constructor
  · intro hc
    have hn : n ≤ header.number := by
      by_contra hn
      simp only [HeaderChain.extend] at hc
      rw [update_of_ne (by omega), habove n (by omega)] at hc
      cases hc
    obtain ⟨a, ha, han⟩ := ht.ancestor_at hh hn
    have hca := hmark a ha
    rw [han, hc] at hca
    cases hca
    exact ⟨a, ha, han, rfl⟩
  · rintro ⟨a, ha, rfl, rfl⟩
    exact hmark a ha

/-- The header has a known parent and overtakes the head. -/
def Overtakes (s : HeaderChain) (coin : Bool) (header : Header) : Prop :=
  ∃ ptd localTd, s.getTd header.parentHash (before header.number) = some ptd ∧
    s.getTd s.currentHeaderHash s.currentHeader.number = some localTd ∧
    s.reorg coin header (header.difficulty + ptd) localTd = true

/-- An ancestor of the header is not stored. -/
def Cut (tree : Hash → Option Header) (s : HeaderChain) (header : Header) : Prop :=
  ∃ a, Ancestor tree header a ∧ a ≠ header ∧ s.getHeader a.hash a.number = none

theorem Inv.local_td (hI : Inv tree genesis s) : ∃ td, s.getTd s.currentHeaderHash s.currentHeader.number = some td := by
  obtain ⟨e, he, -⟩ := Option.map_eq_some_iff.1 (hI.stored _ .refl)
  rw [hI.headHash]
  exact ⟨e.2, by rw [HeaderChain.getTd, he]; rfl⟩

section Write

variable (ht : HeaderTree tree genesis) (hI : Inv tree genesis s) (hh : tree header.hash = some header)

include ht hI hh

theorem Inv.stored_of_not_cut (hcut : ¬Cut tree s header) (ha : Ancestor tree header a) (hne : a ≠ header) :
    s.Stored a := by
  have hm := ha.mem ht hh
  cases hs : s.getHeader a.hash a.number with
  | none => exact absurd ⟨a, ha, hne, hs⟩ hcut
  | some a' =>
    obtain ⟨hm', -⟩ := hI.getHeader hs
    rw [hm] at hm'
    cases hm'
    exact hs

variable (hn : header.number ≠ 0)

include hn

/-- What `WriteHeader` does: it refuses a header of unknown parent, and fails
exactly where the header overtakes the head with an ancestor missing. -/
theorem Inv.writeHeader (coin : Bool) :
    (Overtakes s coin header ∧ Cut tree s header ∧ s.writeHeader coin header = .fault ()) ∨
    (¬(Overtakes s coin header ∧ Cut tree s header) ∧
      ∃ s' status, s.writeHeader coin header = .ok (s', status) ∧ Inv tree genesis s' ∧
        (s'.entries = s.entries ∨ ∃ p td, s.Stored p ∧ tree header.parentHash = some p ∧
          s'.entries = (s.store header td).entries)) := by
  obtain ⟨p, hp, hph, hpm, hpb, hpn⟩ := ht.parent_mem hh hn
  obtain ⟨localTd, hlocal⟩ := hI.local_td
  unfold HeaderChain.writeHeader
  rw [← hpb, hlocal]
  cases hptd : s.getTd header.parentHash p.number with
  | none =>
    refine .inr ⟨?_, s, .nonStatTy, rfl, hI, .inl rfl⟩
    rintro ⟨⟨ptd, _, h, -⟩, -⟩
    rw [← hpb, hptd] at h
    cases h
  | some ptd =>
    obtain ⟨hpst, p', hp', -, htot⟩ := hI.getTd hptd
    rw [hp] at hp' hpst
    cases hp'
    rw [← hph] at hpst
    have hIt := hI.store hh (Total.child hp hpn htot)
    -- the walk's database differs from the chain's at the header itself only
    have hsame : ∀ a, a ≠ header → Ancestor tree header a →
        (s.store header (header.difficulty + ptd)).getHeader a.hash a.number = s.getHeader a.hash a.number := by
      intro a hne ha
      simp only [HeaderChain.getHeader, HeaderChain.store]
      rw [update_of_ne]
      intro hk
      exact hne (ha.eq_of_number (Prod.mk.inj hk).1)
    have hup : ∀ a, Ancestor tree header a → a ≠ header → Ancestor tree p a := fun a ha hne =>
      (ha.of_parent hp).resolve_left hne
    have hbelow : ∀ a, Ancestor tree p a → a ≠ header := by
      intro a ha h
      have hle := ha.number_le
      rw [h] at hle
      omega
    simp only
    split
    · next hr =>
      have hover : Overtakes s coin header := ⟨ptd, localTd, by rw [← hpb]; exact hptd, hlocal, hr⟩
      by_cases hcut : Cut tree s header
      · obtain ⟨a, ha, hne, hmiss⟩ := hcut
        rw [← hph]
        refine .inl ⟨hover, ⟨a, ha, hne, hmiss⟩, ?_⟩
        rw [hIt.overwrite_fault ht hpm (by omega) ⟨a, hup a ha hne, by rw [hsame a hne ha]; exact hmiss⟩]
      · have hst : ∀ a, Ancestor tree p a → (s.store header (header.difficulty + ptd)).Stored a := by
          intro a ha
          rw [Stored, hsame a (hbelow a ha) (.up hp hpn ha)]
          exact hI.stored_of_not_cut ht hh hcut (.up hp hpn ha) (hbelow a ha)
        obtain ⟨b, hb, hset, hrest⟩ := hIt.overwrite_ok ht hpm (show p.number < header.number + 1 by omega) hst
          fun n hn => deleteAbove_le _ (show n ≤ header.number by omega)
        rw [hph] at hb
        refine .inr ⟨fun h => hcut h.2, (s.store header _).extend header b, .canonStatTy, by rw [hb], ?_,
          .inr ⟨p, _, hpst, hp, rfl⟩⟩
        refine hIt.extend ht hh ?_ (fun a ha hne => hset a (hup a ha hne)) ?_
        · intro a ha
          rcases ha.of_parent hp with rfl | hpa
          · simp [Stored, HeaderChain.getHeader, HeaderChain.store]
          · exact hst a hpa
        · intro n hn
          rw [hrest n (by omega)]
          exact hIt.deleteAbove_gt ht hn
    · next hr =>
      refine .inr ⟨?_, _, .sideStatTy, rfl, hIt, .inr ⟨p, _, hpst, hp, rfl⟩⟩
      rintro ⟨⟨ptd', localTd', h1, h2, h3⟩, -⟩
      rw [← hpb, hptd] at h1
      rw [hlocal] at h2
      cases h1
      cases h2
      exact hr h3

end Write

/-! ## Rewinding -/

section

variable (ht : HeaderTree tree genesis)
include ht

theorem Inv.dropHead (hI : Inv tree genesis t)
    (hread : ∀ n h, n < t.currentHeader.number → s.entries (n, h) = t.entries (n, h)) (hn : t.currentHeader.number ≠ 0) :
    Inv tree genesis (s.dropHead t) ∧ (s.dropHead t).currentHeader.number + 1 = t.currentHeader.number := by
  obtain ⟨p, hp, hph, hpm, hpb, hpn⟩ := ht.parent_mem hI.head hn
  have hanc : ∀ a, Ancestor tree p a → Ancestor tree t.currentHeader a := fun a ha => .up hp hpn ha
  have hcur : (s.dropHead t).currentHeader = p := by
    have hst : t.getHeader p.hash p.number = some p := hI.stored p (hanc p .refl)
    simp only [HeaderChain.dropHead, HeaderChain.getHeader] at hst ⊢
    rw [← hpb, ← hph, hread _ _ (by omega), hst]
    rfl
  refine ⟨⟨?_, by rw [hcur]; exact hpm, by rw [hcur, hph]; rfl, ?_, ?_⟩, by rw [hcur]; exact hpn⟩
  · intro n h e hs
    simp only [HeaderChain.dropHead, update_apply] at hs
    split at hs
    · cases hs
    · exact hI.entries n h e hs
  · intro a ha
    rw [hcur] at ha
    have hle := ha.number_le
    simp only [Stored, HeaderChain.getHeader, HeaderChain.dropHead]
    rw [update_of_ne]
    · exact hI.stored a (hanc a ha)
    · intro hk
      have := (Prod.mk.inj hk).1
      omega
  · intro n h
    rw [hcur]
    simp only [HeaderChain.dropHead, update_apply]
    split
    · next hk =>
      constructor
      · intro hc
        cases hc
      · rintro ⟨a, ha, hn, -⟩
        have hle := ha.number_le
        omega
    · next hk =>
      rw [hI.canonical n h]
      constructor
      · rintro ⟨a, ha, han, hah⟩
        rcases ha.of_parent hp with rfl | hpa
        · exact absurd han.symm hk
        · exact ⟨a, hpa, han, hah⟩
      · rintro ⟨a, ha, han, hah⟩
        exact ⟨a, hanc a ha, han, hah⟩

theorem Inv.rewind {head : Nat} : ∀ {fuel : Nat} {t : HeaderChain},
    Inv tree genesis t → (∀ n h, n ≤ t.currentHeader.number → s.entries (n, h) = t.entries (n, h)) →
    t.currentHeader.number < fuel → ∃ s', s.rewind head fuel t = .ok s' ∧ Inv tree genesis s' := by
  intro fuel
  induction fuel with
  | zero =>
    intro t _ _ hf
    omega
  | succ fuel ih =>
    intro t hI hread hf
    unfold HeaderChain.rewind
    split
    · next hlt =>
      obtain ⟨hI', hn⟩ := hI.dropHead ht (s := s) (fun n h hn => hread n h (by omega)) (by omega)
      refine ih hI' ?_ (by omega)
      intro n h hle
      rw [hread n h (by omega)]
      simp only [HeaderChain.dropHead]
      rw [update_of_ne]
      intro hk
      have := (Prod.mk.inj hk).1
      omega
    · exact ⟨t, rfl, hI⟩

theorem Inv.setHead (hI : Inv tree genesis s) (head : Nat) :
    ∃ s', s.setHead head = .ok s' ∧ Inv tree genesis s' :=
  hI.rewind ht (fun _ _ _ => rfl) (Nat.lt_succ_self _)

/-! ## Runs -/

theorem Inv.step (hI : Inv tree genesis s) {c : Call} (hc : c.Of tree s)
    (hs : s.step c = some t) : Inv tree genesis t := by
  cases c with
  | writeHeader header coin =>
    simp only [HeaderChain.step] at hs
    obtain ⟨-, -, hf⟩ | ⟨-, s', status, hw, hI', -⟩ := hI.writeHeader ht hc.1 hc.2 coin
    · rw [hf] at hs
      cases hs
    · rw [hw] at hs
      cases hs
      exact hI'
  | setHead head =>
    obtain ⟨s', hw, hI'⟩ := hI.setHead ht head
    simp only [HeaderChain.step, hw] at hs
    cases hs
    exact hI'

/-- The ancestors of what is stored are stored. -/
def Closed (tree : Hash → Option Header) (s : HeaderChain) : Prop :=
  ∀ hd, s.Stored hd → ∀ a, Ancestor tree hd a → s.Stored a

def Call.isWrite : Call → Bool
  | .writeHeader _ _ => true
  | .setHead _ => false

theorem Closed.new : Closed tree (new genesis) := by
  intro hd hs a ha
  obtain ⟨e, he, rfl⟩ := Option.map_eq_some_iff.1 hs
  simp only [HeaderChain.new, update_apply, Option.ite_none_right_eq_some, Option.some.injEq] at he
  obtain ⟨-, rfl⟩ := he
  exact (Inv.new ht).stored a ha

theorem Closed.step (hI : Inv tree genesis s) (hcl : Closed tree s) {c : Call}
    (hc : c.Of tree s) (hw : c.isWrite = true) (hs : s.step c = some t) : Closed tree t := by
  cases c with
  | setHead head => cases hw
  | writeHeader header coin =>
    simp only [HeaderChain.step] at hs
    obtain ⟨-, -, hf⟩ | ⟨-, s', status, hw, hI', hheaders⟩ := hI.writeHeader ht hc.1 hc.2 coin
    · rw [hf] at hs
      cases hs
    · rw [hw] at hs
      cases hs
      obtain heq | ⟨p, td, hpst, hp, heq⟩ := hheaders
      · intro hd hst a ha
        simp only [Stored, HeaderChain.getHeader, heq] at hst ⊢
        exact hcl hd hst a ha
      · have hsame : ∀ a, s'.Stored a ↔ (s.store header td).Stored a := by
          intro a
          rw [Stored, Stored, HeaderChain.getHeader, heq]
          rfl
        have hkeep : ∀ a, s.Stored a → s'.Stored a := fun a ha => (hsame a).2 (stored_store td hI hc.1 ha)
        intro hd hst a ha
        have hst' := (hsame hd).1 hst
        simp only [Stored, HeaderChain.getHeader, HeaderChain.store, update_apply] at hst'
        split at hst'
        · cases hst'
          rcases ha.of_parent hp with rfl | hpa
          · exact hst
          · exact hkeep a (hcl p hpst a hpa)
        · exact hkeep a (hcl hd hst' a ha)

variable {calls : List Call}

theorem closed_of_writes (hrun : Run step (fun s c => c.Of tree s) (new genesis) calls s)
    (hall : ∀ c ∈ calls, c.isWrite = true) : Closed tree s := by
  have h : Inv tree genesis s ∧ Closed tree s := by
    refine (hrun.with_mem fun _ h => h).invariant (I := fun s => Inv tree genesis s ∧ Closed tree s) ?_
      ⟨Inv.new ht, Closed.new ht⟩
    intro s c t h hc hs
    exact ⟨h.1.step ht hc.1 hs, h.2.step ht h.1 hc.1 (hall c hc.2) hs⟩
  exact h.2

/-- After every run the markers are those of the head's ancestors, with none
above, and each stored total difficulty is the sum along the ancestors.
`SetHead` always returns, and `WriteHeader` fails exactly where the header
overtakes the head and an ancestor of it is not stored: never, without
`SetHead`. -/
theorem markers_follow_head (hrun : Run step (fun s c => c.Of tree s) (new genesis) calls s) :
    (∀ n ≤ s.currentHeader.number,
      ∃ a, Ancestor tree s.currentHeader a ∧ a.number = n ∧ s.canonical n = some a.hash) ∧
    (∀ n, s.currentHeader.number < n → s.canonical n = none) ∧
    (∀ n h td, s.getTd h n = some td → ∃ hd, tree h = some hd ∧ hd.number = n ∧ Total tree genesis hd td) ∧
    (∀ head, ∃ s', s.setHead head = .ok s') ∧
    ∀ coin header, tree header.hash = some header → header.number ≠ 0 →
      (s.writeHeader coin header = .fault () ↔ Overtakes s coin header ∧ Cut tree s header) ∧
      s.writeHeader coin header ≠ .unfinished ∧
      ((∀ c ∈ calls, c.isWrite = true) → ∃ r, s.writeHeader coin header = .ok r) := by
  have hI : Inv tree genesis s := hrun.invariant (fun _ _ _ h hc hs => h.step ht hc hs) (Inv.new ht)
  refine ⟨?_, ?_, ?_, ?_, ?_⟩
  · intro n hn
    obtain ⟨a, ha, han⟩ := ht.ancestor_at hI.head hn
    exact ⟨a, ha, han, (hI.canonical _ _).2 ⟨a, ha, han, rfl⟩⟩
  · intro n hn
    cases hc : s.canonical n with
    | none => rfl
    | some h =>
      obtain ⟨a, ha, han, -⟩ := (hI.canonical _ _).1 hc
      have hle := ha.number_le
      omega
  · intro n h td hs
    exact (hI.getTd hs).2
  · intro head
    obtain ⟨s', hs, -⟩ := hI.setHead ht head
    exact ⟨s', hs⟩
  · intro coin header hh hn
    obtain ⟨hover, hcut, hf⟩ | ⟨hno, s', status, hw, -⟩ := hI.writeHeader ht hh hn coin
    · refine ⟨⟨fun _ => ⟨hover, hcut⟩, fun _ => hf⟩, by simp [hf], ?_⟩
      intro hall
      exfalso
      have hcl := closed_of_writes ht hrun hall
      obtain ⟨ptd, _, hptd, -⟩ := hover
      obtain ⟨p, hp, hph, -, hpb, -⟩ := ht.parent_mem hh hn
      have hpst := (hI.getTd hptd).1
      rw [← hpb, hp, ← hph] at hpst
      obtain ⟨a, ha, hne, hmiss⟩ := hcut
      have hst := hcl _ hpst a ((ha.of_parent hp).resolve_left hne)
      rw [Stored, hmiss] at hst
      cases hst
    · exact ⟨⟨fun h => (by rw [hw] at h; cases h), fun h => absurd h hno⟩, by simp [hw], fun _ => ⟨_, hw⟩⟩

end

/-- The headers of a tree with a fork: `side` has `first` as its parent too. -/
def genesis₀ : Header := ⟨1, 0, 0, 10, 0⟩
def first : Header := ⟨2, 1, 1, 10, 0⟩
def second : Header := ⟨3, 2, 2, 10, 0⟩
def side : Header := ⟨4, 2, 2, 5, 0⟩
def third : Header := ⟨5, 4, 3, 10, 0⟩

def fork (h : Hash) : Option Header := [genesis₀, first, second, side, third].find? fun hd => hd.hash == h

theorem fork_tree : HeaderTree fork genesis₀ := by
  have hmem : ∀ h hd, fork h = some hd → hd ∈ [genesis₀, first, second, side, third] := fun _ _ h => List.mem_of_find?_eq_some h
  have hparent : ∀ hd ∈ [genesis₀, first, second, side, third], hd.number ≠ 0 →
      (fork hd.parentHash).any (fun p => p.number + 1 == hd.number) = true := by decide
  refine ⟨fun h hd hf => by simpa using List.find?_some hf, fun h hd hf => ?_, by decide, fun h hd hf => ?_, fun h hd hf hn => ?_⟩
  · exact (by decide : ∀ hd ∈ [genesis₀, first, second, side, third], hd.number < 2 ^ 64) hd (hmem h hd hf)
  · exact (by decide : ∀ hd ∈ [genesis₀, first, second, side, third], hd.number = 0 ↔ hd = genesis₀) hd (hmem h hd hf)
  · simpa [Option.any_eq_true] using hparent hd (hmem h hd hf) hn

/-- With the side header's parent rewound, its child overtakes the head and
the walk to the canonical chain finds no header. -/
theorem writeHeader_dereferences_missing : ∃ s, Run step (fun s c => c.Of fork s) (new genesis₀)
    [.writeHeader first false, .writeHeader second false, .writeHeader side false, .setHead 0] s ∧
    s.getTd side.hash 2 = some 25 ∧ s.writeHeader false third = .fault () :=
  ⟨_, Run.of_exec rfl, by decide, rfl⟩

theorem markers_follow_head_fork : ∃ s, Run step (fun s c => c.Of fork s) (new genesis₀)
    [.writeHeader first false, .writeHeader side false, .writeHeader second false] s ∧
    s.currentHeader.number = 2 ∧ s.canonical 2 = some second.hash ∧ s.canonical 3 = none := by
  have hrun : Run step (fun s c => c.Of fork s) (new genesis₀)
      [.writeHeader first false, .writeHeader side false, .writeHeader second false] _ := Run.of_exec rfl
  exact ⟨_, hrun, by decide, by decide, (markers_follow_head fork_tree hrun).2.1 3 (by decide)⟩

/-! ## The heaviest header -/

theorem total_unique (ht : HeaderTree tree genesis) (h : Total tree genesis hd td) : ∀ {td'}, Total tree genesis hd td' → td = td' := by
  have hzero : genesis.number = 0 := (ht.zero _ _ ht.root).2 rfl
  induction h with
  | genesis =>
    intro td' h'
    cases h' with
    | genesis => rfl
    | child _ hn _ => omega
  | @child hd p td hp hn _ ih =>
    intro td' h'
    cases h' with
    | genesis => omega
    | child hp' _ h' =>
      cases hp.symm.trans hp'
      rw [ih h']

/-- Nothing that is stored is heavier than the head. -/
def Heaviest (s : HeaderChain) : Prop :=
  ∀ n h td l, s.getTd h n = some td → s.getTd s.currentHeaderHash s.currentHeader.number = some l → td ≤ l

/-- Whether the header becomes the head is up to the total difficulties. -/
theorem writeHeader_head {coin : Bool} {status : WriteStatus} (h : s.writeHeader coin header = .ok (t, status)) :
    t = s ∨ ∃ td l, s.getTd s.currentHeaderHash s.currentHeader.number = some l ∧ t.entries = (s.store header td).entries ∧
      (t.currentHeader = header ∧ t.currentHeaderHash = header.hash ∧ l ≤ td ∨
        t.currentHeader = s.currentHeader ∧ t.currentHeaderHash = s.currentHeaderHash ∧ td ≤ l) := by
  unfold writeHeader at h
  split at h
  · cases h
    exact .inl rfl
  · next ptd _ =>
    split at h
    · cases h
    · next l hl =>
      simp only at h
      refine .inr ⟨header.difficulty + ptd, l, hl, ?_⟩
      split at h
      · next hr =>
        split at h
        · cases h
          refine ⟨rfl, .inl ⟨rfl, rfl, ?_⟩⟩
          simp only [reorg, Bool.or_eq_true, Bool.and_eq_true, decide_eq_true_eq, beq_iff_eq] at hr
          omega
        · cases h
        · cases h
      · next hr =>
        cases h
        refine ⟨rfl, .inr ⟨rfl, rfl, ?_⟩⟩
        simp only [reorg, Bool.or_eq_true, decide_eq_true_eq, not_or] at hr
        omega

theorem getTd_of_store {h : Hash} {n td' : Nat} (he : t.entries = (s.store header td).entries) (hs : t.getTd h n = some td') :
    td' = td ∨ s.getTd h n = some td' := by
  simp only [getTd, he, store, update_apply] at hs
  split at hs
  · exact .inl (Option.some.inj hs).symm
  · exact .inr hs

theorem Heaviest.step (ht : HeaderTree tree genesis) (hI : Inv tree genesis s) (hs : s.Heaviest) {c : Call} (hc : c.Of tree s)
    (hw : c.isWrite = true) (hstep : s.step c = some t) : t.Heaviest := by
  have hI' := hI.step ht hc hstep
  cases c with
  | setHead head => cases hw
  | writeHeader header coin =>
    simp only [HeaderChain.step] at hstep
    split at hstep
    · next r hr =>
      cases hstep
      rcases writeHeader_head hr with heq | ⟨td, l, hl, he, ⟨hcur, hhash, hle⟩ | ⟨hcur, hhash, hle⟩⟩
      · rwa [heq]
      · intro n h td' l' htd' hl'
        have hlnew : l' = td := by
          rw [hcur, hhash, getTd, he] at hl'
          simpa [store] using hl'.symm
        rcases getTd_of_store he htd' with rfl | htd'
        · exact hlnew.ge
        · exact (hs n h td' l htd' hl).trans (hle.trans hlnew.ge)
      · -- the head may have been written again, with the difficulty it has
        intro n h td' l' htd' hl'
        have hlold : l' = l := by
          obtain ⟨hd, hhd, -, htot⟩ := (hI'.getTd hl').2
          obtain ⟨hd', hhd', -, htot'⟩ := (hI.getTd hl).2
          rw [hhash] at hhd
          cases hhd.symm.trans hhd'
          exact total_unique ht htot htot'
        rw [hlold]
        rcases getTd_of_store he htd' with rfl | htd'
        · exact hle
        · exact hs n h td' l htd' hl
    · cases hstep

/-- **The head is a heaviest header**: after any writes, in any order and with any
coins, no stored header has a higher total difficulty than is recorded for the
head, and that is its total. -/
theorem head_is_heaviest (ht : HeaderTree tree genesis)
    (hrun : Run step (fun s c => c.Of tree s) (new genesis) calls s) (hall : ∀ c ∈ calls, c.isWrite = true) :
    ∃ l, s.getTd s.currentHeaderHash s.currentHeader.number = some l ∧ Total tree genesis s.currentHeader l ∧
      ∀ n h td, s.getTd h n = some td → td ≤ l := by
  have hnew : (new genesis).Heaviest := by
    intro n h td l htd hl
    simp only [getTd, new, update_apply] at htd hl
    split at htd
    · simp at htd hl
      omega
    · cases htd
  have hinv : Inv tree genesis s ∧ s.Heaviest := by
    refine (hrun.with_mem fun _ h => h).invariant (I := fun s => Inv tree genesis s ∧ s.Heaviest) ?_ ⟨.new ht, hnew⟩
    intro s c t h hc hs
    exact ⟨h.1.step ht hc.1 hs, h.2.step ht h.1 hc.1 (hall c hc.2) hs⟩
  obtain ⟨l, hl⟩ := hinv.1.local_td
  obtain ⟨-, hd, hhd, -, htot⟩ := hinv.1.getTd hl
  rw [hinv.1.headHash, hinv.1.head] at hhd
  cases hhd
  exact ⟨l, hl, htot, fun n h td htd => hinv.2 n h td l htd hl⟩

/-- Of two children of one header, the lighter one is written last. -/
theorem head_is_heaviest_fork : ∃ s, Run step (fun s c => c.Of fork s) (new genesis₀)
    [.writeHeader first false, .writeHeader second false, .writeHeader side false] s ∧
    ∃ l, s.getTd s.currentHeaderHash s.currentHeader.number = some l ∧ Total fork genesis₀ s.currentHeader l ∧
      ∀ n h td, s.getTd h n = some td → td ≤ l := by
  have hrun : Run step (fun s c => c.Of fork s) (new genesis₀)
      [.writeHeader first false, .writeHeader second false, .writeHeader side false] _ := Run.of_exec rfl
  exact ⟨_, hrun, head_is_heaviest fork_tree hrun (by simp [Call.isWrite])⟩

end HeaderChain

end NdnGeth.Core
