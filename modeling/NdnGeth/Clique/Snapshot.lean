/-
The voting snapshots of the proof-of-authority engine (`consensus/clique`):
who may sign, who signed lately, and the votes that are open, as a chain of
headers leads from one snapshot to the next (`Snapshot.apply`).

A block number is a `uint64` in the source. Numbers only grow by one and a
chain of `2 ^ 64` blocks does not exist, so they are natural numbers here;
the one subtraction that wraps (`number-limit`) is written with the wrap.
The public key recovered from a seal is a parameter (`Crypto.recover`), with
the cache of recovered addresses left out. The order in which Go walks a map
makes no difference in this file, and the set of signers is a set.
-/
import Mathlib.Data.Finset.Sort
import NdnGeth.Core.Encoding

namespace NdnGeth.Clique

open Function
open Lib.Rlp (Bytes)
open Core (Hash)
open Types (Address Header)

inductive Error
  | errUnknownBlock
  | errInvalidCheckpointBeneficiary
  | errInvalidVote
  | errInvalidCheckpointVote
  | errMissingVanity
  | errMissingSignature
  | errExtraSigners
  | errInvalidCheckpointSigners
  | errMismatchingCheckpointSigners
  | errInvalidMixDigest
  | errInvalidUncleHash
  | errInvalidDifficulty
  | errWrongDifficulty
  | errInvalidTimestamp
  | errInvalidVotingChain
  | errUnauthorizedSigner
  | errRecentlySigned
  /- Those of other packages: `consensus`, `misc`, `crypto` and the wallet. -/
  | errFutureBlock
  | errUnknownAncestor
  | forkHash
  | recover
  | sign
  deriving DecidableEq, Repr

/-- `params.CliqueConfig`; `New` puts `epochLength` for an epoch of zero. -/
structure CliqueConfig where
  period : BitVec 64
  epoch : Nat
  epoch_pos : 0 < epoch

def epochLength : Nat := 30000

def CliqueConfig.new (period : BitVec 64) (epoch : Nat) : CliqueConfig where
  period := period
  epoch := if epoch = 0 then epochLength else epoch
  epoch_pos := by
    unfold epochLength
    split <;> omega

/-- The hash function, and the address behind a signature of a hash. -/
structure Crypto where
  keccak256 : Bytes → Hash
  recover : Hash → Bytes → Option Address

def extraVanity : Nat := 32
def extraSeal : Nat := 65
def nonceAuthVote : BitVec 64 := 0xffffffffffffffff
def nonceDropVote : BitVec 64 := 0

/-- `SealHash`: the header without the seal at the end of its extra data. -/
def sealHash (c : Crypto) (h : Header) : Hash :=
  c.keccak256 (Header.codec.encode { h with extra := h.extra.take (h.extra.length - extraSeal) })

def ecrecover (c : Crypto) (h : Header) : Except Error Address :=
  if h.extra.length < extraSeal then .error .errMissingSignature
  else
    match c.recover (sealHash c h) (h.extra.drop (h.extra.length - extraSeal)) with
    | none => .error .recover
    | some signer => .ok signer

structure Vote where
  signer : Address
  block : Nat
  address : Address
  authorize : Bool
  deriving DecidableEq, Repr

structure Tally where
  authorize : Bool
  votes : Nat
  deriving DecidableEq, Repr

/-- The fields of `Snapshot` that a header changes by what it says. -/
structure VotingState where
  signers : Finset Address
  /-- The signer of each recent block, by its number. -/
  recents : List (Nat × Address)
  votes : List Vote
  tally : Address → Option Tally

structure Snapshot extends VotingState where
  number : Nat
  hash : Hash

def Snapshot.new (number : Nat) (hash : Hash) (signers : List Address) : Snapshot where
  number := number
  hash := hash
  signers := signers.toFinset
  recents := []
  votes := []
  tally := fun _ => none

namespace VotingState

def validVote (s : VotingState) (address : Address) (authorize : Bool) : Bool :=
  let signer := decide (address ∈ s.signers)
  (signer && !authorize) || (!signer && authorize)

/-- `cast`; `none` where the source returns false. -/
def cast (s : VotingState) (address : Address) (authorize : Bool) : Option VotingState :=
  if s.validVote address authorize then
    match s.tally address with
    | some old => some { s with tally := update s.tally address (some { old with votes := old.votes + 1 }) }
    | none => some { s with tally := update s.tally address (some ⟨authorize, 1⟩) }
  else none

/-- `uncast`; nobody looks at whether it did anything. -/
def uncast (s : VotingState) (address : Address) (authorize : Bool) : VotingState :=
  match s.tally address with
  | none => s
  | some tally =>
    if tally.authorize ≠ authorize then s
    else if 1 < tally.votes then
      { s with tally := update s.tally address (some { tally with votes := tally.votes - 1 }) }
    else { s with tally := update s.tally address none }

/-- How many blocks in a row have different signers. -/
def limit (s : VotingState) : Nat := s.signers.card / 2 + 1

/-- Delete the signer that the window leaves behind at this block. -/
def expire (s : VotingState) (number : Nat) : VotingState :=
  if s.limit ≤ number then { s with recents := s.recents.filter fun e => e.1 ≠ number - s.limit } else s

/-- Checkpoint blocks remove all votes. -/
def checkpoint (cfg : CliqueConfig) (s : VotingState) (number : Nat) : VotingState :=
  if number % cfg.epoch = 0 then { s with votes := [], tally := fun _ => none } else s

/-- `snap.Recents[number] = signer`. -/
def record (s : VotingState) (number : Nat) (signer : Address) : VotingState :=
  { s with recents := (number, signer) :: s.recents.filter fun e => e.1 ≠ number }

/-- Discard the previous vote of the signer on the account; there is only one. -/
def discardVote (s : VotingState) (signer address : Address) : VotingState :=
  match s.votes.find? fun v => v.signer = signer ∧ v.address = address with
  | none => s
  | some v =>
    { s.uncast v.address v.authorize with votes := s.votes.eraseP fun v => v.signer = signer ∧ v.address = address }

/-- Tally up the new vote from the signer. -/
def vote (s : VotingState) (number : Nat) (signer address : Address) (authorize : Bool) : VotingState :=
  match s.cast address authorize with
  | none => s
  | some s' => { s' with votes := s'.votes ++ [⟨signer, number, address, authorize⟩] }

/-- Discard the votes that a signer cast, when it may sign no more. -/
def discardVotesOf (s : VotingState) (signer : Address) : VotingState :=
  let s' := (s.votes.filter fun v => v.signer = signer).foldl (fun s v => s.uncast v.address v.authorize) s
  { s' with votes := s.votes.filter fun v => v.signer ≠ signer }

/-- Discard the votes around an account, and its tally. -/
def discardVotesOn (s : VotingState) (address : Address) : VotingState :=
  { s with votes := s.votes.filter fun v => v.address ≠ address, tally := update s.tally address none }

/-- If the vote passed, update the set of signers. -/
def resolve (s : VotingState) (number : Nat) (address : Address) : VotingState :=
  match s.tally address with
  | none => s
  | some tally =>
    if s.signers.card / 2 < tally.votes then
      if tally.authorize then discardVotesOn { s with signers := insert address s.signers } address
      else
        -- the set shrank, and with it the window: one more signer is left behind
        discardVotesOn (discardVotesOf (expire { s with signers := s.signers.erase address } number) address) address
    else s

/-- Whether the vote in a header is for or against the account. -/
def authorizes (nonce : BitVec 64) : Except Error Bool :=
  if nonce = nonceAuthVote then .ok true else if nonce = nonceDropVote then .ok false else .error .errInvalidVote

/-- One round of the loop of `apply`. -/
def applyHeader (c : Crypto) (cfg : CliqueConfig) (s : VotingState) (h : Header) : Except Error VotingState :=
  let number := h.numberU64
  let s := (s.checkpoint cfg number).expire number
  match ecrecover c h with
  | .error e => .error e
  | .ok signer =>
    if signer ∉ s.signers then .error .errUnauthorizedSigner
    else if s.recents.any fun e => e.2 = signer then .error .errRecentlySigned
    else
      let s := (s.record number signer).discardVote signer h.coinbase
      match authorizes h.nonce with
      | .error e => .error e
      | .ok authorize => .ok ((s.vote number signer h.coinbase authorize).resolve number h.coinbase)

def applyHeaders (c : Crypto) (cfg : CliqueConfig) (s : VotingState) : List Header → Except Error VotingState
  | [] => .ok s
  | h :: hs =>
    match s.applyHeader c cfg h with
    | .error e => .error e
    | .ok s' => s'.applyHeaders c cfg hs

/-- The numbers go up by one from each header to the next. -/
def contiguous : List Header → Bool
  | h :: h' :: hs => h'.numberU64 = h.numberU64 + 1 && contiguous (h' :: hs)
  | _ => true

/-! ## What each operation leaves alone -/

variable (s : VotingState) (number : Nat) (signer address : Address) (authorize : Bool)

section Frame

@[simp] theorem uncast_signers : (s.uncast address authorize).signers = s.signers := by
  unfold uncast
  repeat' split
  all_goals rfl

@[simp] theorem uncast_recents : (s.uncast address authorize).recents = s.recents := by
  unfold uncast
  repeat' split
  all_goals rfl

@[simp] theorem expire_signers : (s.expire number).signers = s.signers := by
  unfold expire
  split <;> rfl

@[simp] theorem checkpoint_signers (cfg : CliqueConfig) : (s.checkpoint cfg number).signers = s.signers := by
  unfold checkpoint
  split <;> rfl

@[simp] theorem checkpoint_recents (cfg : CliqueConfig) : (s.checkpoint cfg number).recents = s.recents := by
  unfold checkpoint
  split <;> rfl

@[simp] theorem discardVote_signers : (s.discardVote signer address).signers = s.signers := by
  unfold discardVote
  split
  · rfl
  · exact uncast_signers ..

@[simp] theorem discardVote_recents : (s.discardVote signer address).recents = s.recents := by
  unfold discardVote
  split
  · rfl
  · exact uncast_recents ..

theorem cast_eq_some {s s' : VotingState} {address : Address} {authorize : Bool} (h : s.cast address authorize = some s') :
    s'.signers = s.signers ∧ s'.recents = s.recents ∧ s'.votes = s.votes := by
  unfold cast at h
  split at h
  · split at h <;> cases h <;> exact ⟨rfl, rfl, rfl⟩
  · cases h

@[simp] theorem vote_signers : (s.vote number signer address authorize).signers = s.signers := by
  unfold vote
  split
  · rfl
  · next h => exact (cast_eq_some h).1

@[simp] theorem vote_recents : (s.vote number signer address authorize).recents = s.recents := by
  unfold vote
  split
  · rfl
  · next h => exact (cast_eq_some h).2.1

theorem foldl_uncast (vs : List Vote) :
    (vs.foldl (fun s v => s.uncast v.address v.authorize) s).signers = s.signers ∧
      (vs.foldl (fun s v => s.uncast v.address v.authorize) s).recents = s.recents := by
  induction vs generalizing s with
  | nil => exact ⟨rfl, rfl⟩
  | cons v vs ih =>
    rw [List.foldl_cons]
    exact ⟨(ih _).1.trans (uncast_signers ..), (ih _).2.trans (uncast_recents ..)⟩

@[simp] theorem discardVotesOf_signers : (s.discardVotesOf signer).signers = s.signers := (foldl_uncast ..).1

@[simp] theorem discardVotesOf_recents : (s.discardVotesOf signer).recents = s.recents := (foldl_uncast ..).2

theorem mem_expire {s : VotingState} {number : Nat} {e : Nat × Address} :
    e ∈ (s.expire number).recents ↔ e ∈ s.recents ∧ (s.limit ≤ number → e.1 ≠ number - s.limit) := by
  unfold expire
  split
  · next h => simp [h]
  · next h => simp [h]

theorem resolve_cases :
    (s.resolve number address).signers = s.signers ∧ (s.resolve number address).recents = s.recents ∨
    (s.resolve number address).signers = insert address s.signers ∧ (s.resolve number address).recents = s.recents ∨
    (∃ t, s.tally address = some t ∧ s.signers.card / 2 < t.votes ∧ t.authorize = false) ∧
      (s.resolve number address).signers = s.signers.erase address ∧
      (s.resolve number address).recents = (expire { s with signers := s.signers.erase address } number).recents := by
  unfold resolve
  split
  · exact .inl ⟨rfl, rfl⟩
  · next t ht =>
    split
    · next hvotes =>
      split
      · exact .inr (.inl ⟨rfl, rfl⟩)
      · next hauth =>
        refine .inr (.inr ⟨⟨t, ht, hvotes, by simpa using hauth⟩, ?_, ?_⟩)
        · unfold discardVotesOn
          rw [discardVotesOf_signers, expire_signers]
        · unfold discardVotesOn
          rw [discardVotesOf_recents]
    · exact .inl ⟨rfl, rfl⟩

end Frame

/-! ## Going through a header -/

variable {c : Crypto} {cfg : CliqueConfig}

/-- Whether the signer of a block may be this one. -/
def Admits (s : VotingState) (number : Nat) (signer : Address) : Prop :=
  signer ∈ s.signers ∧ ∀ e ∈ (s.expire number).recents, e.2 ≠ signer

/-- The state after a block of this signer with this vote. -/
def advance (cfg : CliqueConfig) (s : VotingState) (h : Header) (signer : Address) (authorize : Bool) : VotingState :=
  let number := h.numberU64
  let s := ((s.checkpoint cfg number).expire number).record number signer
  ((s.discardVote signer h.coinbase).vote number signer h.coinbase authorize).resolve number h.coinbase

theorem expire_checkpoint_recents : ((s.checkpoint cfg number).expire number).recents = (s.expire number).recents := by
  unfold expire limit
  rw [checkpoint_signers]
  split
  · rw [checkpoint_recents]
  · exact checkpoint_recents ..

theorem applyHeader_eq_ok {s s' : VotingState} {h : Header} :
    s.applyHeader c cfg h = .ok s' ↔ ∃ signer authorize, ecrecover c h = .ok signer ∧ s.Admits h.numberU64 signer ∧
      authorizes h.nonce = .ok authorize ∧ s' = s.advance cfg h signer authorize := by
  unfold applyHeader Admits
  cases hrec : ecrecover c h with
  | error e => simp
  | ok signer =>
    simp only [expire_signers, checkpoint_signers, expire_checkpoint_recents, List.any_eq_true, decide_eq_true_eq,
      Except.ok.injEq]
    by_cases hmem : signer ∈ s.signers
    · by_cases hany : ∃ e ∈ (s.expire h.numberU64).recents, e.2 = signer
      · rw [if_neg (not_not.2 hmem), if_pos hany]
        obtain ⟨e, he, heq⟩ := hany
        constructor
        · intro h
          cases h
        · rintro ⟨_, _, rfl, hadm, _⟩
          exact absurd heq (hadm.2 e he)
      · rw [if_neg (not_not.2 hmem), if_neg hany]
        push Not at hany
        cases hauth : authorizes h.nonce with
        | error e => simp
        | ok authorize =>
          simp only [Except.ok.injEq]
          constructor
          · intro heq
            exact ⟨signer, authorize, rfl, ⟨hmem, hany⟩, rfl, heq.symm⟩
          · rintro ⟨_, _, rfl, _, rfl, rfl⟩
            rfl
    · rw [if_pos hmem]
      constructor
      · intro h
        cases h
      · rintro ⟨_, _, rfl, hadm, _⟩
        exact absurd hadm.1 hmem

end VotingState

namespace Snapshot

variable {c : Crypto} {cfg : CliqueConfig}

def apply (c : Crypto) (cfg : CliqueConfig) (s : Snapshot) : List Header → Except Error Snapshot
  | [] => .ok s
  | h :: hs =>
    if ¬VotingState.contiguous (h :: hs) then .error .errInvalidVotingChain
    else if h.numberU64 ≠ s.number + 1 then .error .errInvalidVotingChain
    else
      match s.toVotingState.applyHeaders c cfg (h :: hs) with
      | .error e => .error e
      | .ok s' =>
        .ok {
          toVotingState := s'
          number := s.number + (h :: hs).length
          hash := ((h :: hs).getLast (List.cons_ne_nil h hs)).hash c.keccak256 }

theorem apply_singleton {s s' : Snapshot} {h : Header} :
    s.apply c cfg [h] = .ok s' ↔ h.numberU64 = s.number + 1 ∧
      ∃ v, s.applyHeader c cfg h = .ok v ∧ s' = { toVotingState := v, number := s.number + 1, hash := h.hash c.keccak256 } := by
  by_cases hnum : h.numberU64 = s.number + 1
  · cases hv : s.applyHeader c cfg h with
    | error e => simp [apply, VotingState.contiguous, VotingState.applyHeaders, hnum, hv]
    | ok v => simp [apply, VotingState.contiguous, VotingState.applyHeaders, hnum, hv, eq_comm]
  · simp [apply, VotingState.contiguous, hnum]

theorem apply_cons {s s' : Snapshot} {h : Header} {hs : List Header} :
    s.apply c cfg (h :: hs) = .ok s' ↔ ∃ t, s.apply c cfg [h] = .ok t ∧ t.apply c cfg hs = .ok s' := by
  cases hs with
  | nil => simp [apply]
  | cons h' hs =>
    simp only [apply_singleton]
    by_cases hnum : h.numberU64 = s.number + 1
    · cases hv : s.applyHeader c cfg h with
      | error e =>
        simp only [apply, VotingState.applyHeaders, hv]
        split <;> simp [hnum]
      | ok v =>
        by_cases hnext : h'.numberU64 = s.number + 1 + 1
        · by_cases hcont : VotingState.contiguous (h' :: hs) = true
          · have hlen : s.number + (hs.length + 1 + 1) = s.number + 1 + (hs.length + 1) := by omega
            simp [apply, VotingState.contiguous, VotingState.applyHeaders, hnum, hv, hnext, hcont, hlen]
          · simp [apply, VotingState.contiguous, hnum, hnext, hcont]
        · simp [apply, VotingState.contiguous, hnum, hnext]
    · simp [apply, hnum]

end Snapshot

/-! A seal that names its signer in its first byte, for examples. -/

def plainCrypto : Crypto where
  keccak256 b := BitVec.ofNat 256 (b.foldl (fun n d => 257 * n + d.toNat) 1)
  recover _ sig := sig.head?.map fun b => BitVec.ofNat 160 b.toNat

/-- A header with the seal of this signer, which votes on nobody. -/
def plainHeader (number : Nat) (signer : UInt8) : Header :=
  { (default : Header) with number := number, extra := List.replicate extraVanity 0 ++ signer :: List.replicate 64 0 }

theorem eq_ok_of_toOption {ε α : Type} {x : Except ε α} {a : α} (h : x.toOption = some a) : x = .ok a := by
  cases x with
  | error e => cases h
  | ok b => exact congrArg Except.ok (Option.some.inj h)

end NdnGeth.Clique
