/-
How the proof-of-authority engine finds the snapshot of a block again
(`Clique.snapshot`): it goes back from the block to the first one whose
snapshot is in memory, on disk, or that is the genesis, and applies the
headers it came by.

The headers of a batch that is being checked are not in the database yet and
come as `parents`, the newest last; they are used up from the end before the
database is asked. A snapshot is on disk as JSON, in which an address or a
hash is the text of its bytes (`common/hexutil`); of `encoding/json` only a law
is known: it reads back what it wrote if the texts do. The cache in memory may forget anything; writes to disk succeed. A snapshot is a value
here: `apply` works on a deep copy, and nothing else in the package writes to
one.
-/
import NdnGeth.Clique.Snapshot
import NdnGeth.Lib.Hex

namespace NdnGeth.Clique

open Function
open Lib.Hex
open Lib.Rlp (Bytes ofBytes)
open Core (Hash)
open Types (Address Header)

inductive Failure
  | error (e : Error)
  | panic
  deriving DecidableEq, Repr

def checkpointInterval : Nat := 1024

def immutabilityThreshold : Nat := 90000

def addressLength : Nat := 20

/-- `consensus.ChainReader`. The canonical headers are found by number, from
the genesis on without a hole; every stored header is found by hash. -/
structure ChainReader where
  genesis : Header
  getHeaderByNumber : Nat → Option Header
  getHeader : Hash → Nat → Option Header
  byNumber_zero : getHeaderByNumber 0 = some genesis
  byNumber_succ : ∀ n, getHeaderByNumber n = none → getHeaderByNumber (n + 1) = none

/-! ## Texts of addresses and hashes -/

/-- `MarshalText`: `0x` and the digits. -/
def marshalText (b : Bytes) : Bytes := 48 :: 120 :: hexEncode b

/-- `checkText`, with a prefix wanted. -/
def checkText : Bytes → Option Bytes
  | [] => some []
  | 48 :: x :: raw => if (x = 120 ∨ x = 88) ∧ raw.length % 2 = 0 then some raw else none
  | _ => none

/-- `UnmarshalFixedText`, into `n` bytes. -/
def unmarshalFixedText (n : Nat) (input : Bytes) : Option Bytes :=
  match checkText input with
  | none => none
  | some raw => if raw.length / 2 ≠ n ∨ ∃ c ∈ raw, fromHexChar c = none then none else hexDecode raw

theorem unmarshalFixedText_marshalText (b : Bytes) : unmarshalFixedText b.length (marshalText b) = some b := by
  have hcheck : checkText (marshalText b) = some (hexEncode b) :=
    if_pos ⟨.inl rfl, by rw [hexEncode_length, Nat.mul_mod_right]⟩
  have hgood : ¬((hexEncode b).length / 2 ≠ b.length ∨ ∃ c ∈ hexEncode b, fromHexChar c = none) := by
    rintro (hne | ⟨c, hc, hnone⟩)
    · exact hne (by rw [hexEncode_length, Nat.mul_div_cancel_left _ Nat.two_pos])
    · obtain ⟨d, hd, rfl⟩ := mem_hexEncode hc
      rw [fromHexChar_hexDigit d hd] at hnone
      cases hnone
  unfold unmarshalFixedText
  rw [hcheck]
  exact (if_neg hgood).trans (hexDecode_hexEncode b)

/-! ## The engine -/

/-- What an engine is set up with, and the stored form of a snapshot, by the
texts of its addresses and hashes. -/
structure Env (Blob : Type) where
  crypto : Crypto
  config : CliqueConfig
  marshal : (Bytes → Bytes) → Snapshot → Blob
  unmarshal : (Nat → Bytes → Option Bytes) → Blob → Option Snapshot
  unmarshal_marshal : ∀ text untext, (∀ b, untext b.length (text b) = some b) → ∀ s, unmarshal untext (marshal text s) = some s

/-- The parts of `Clique` that `snapshot` uses. -/
structure Engine (Blob : Type) where
  recents : Hash → Option Snapshot
  db : Hash → Option Blob

/-- The list of signers in the extra data of a checkpoint; `make` panics on a
negative length. -/
def checkpointSigners (extra : Bytes) : Option (List Address) :=
  if extra.length + addressLength ≤ extraVanity + extraSeal then none
  else
    some <| (List.range ((extra.length - extraVanity - extraSeal) / addressLength)).map fun i =>
      BitVec.ofNat 160 (ofBytes ((extra.drop (extraVanity + i * addressLength)).take addressLength))

variable {Blob : Type} (env : Env Blob)

def Env.hash (h : Header) : Hash := h.hash env.crypto.keccak256

namespace Engine

def loadSnapshot (e : Engine Blob) (hash : Hash) : Option Snapshot := (e.db hash).bind (env.unmarshal unmarshalFixedText)

def store (e : Engine Blob) (s : Snapshot) : Engine Blob :=
  { e with db := update e.db s.hash (some (env.marshal marshalText s)) }

/-- `c.recents.Add(snap.Hash, snap)`. -/
def remember (e : Engine Blob) (s : Snapshot) : Engine Blob :=
  { e with recents := update e.recents s.hash (some s) }

/-- The checkpoint to start from, if there is one: the genesis, or one that
has no parent here or too many headers on top of it. -/
def trusted (chain : ChainReader) (number : Nat) (headers : List Header) : Option Header :=
  if number = 0 ∨ number % env.config.epoch = 0 ∧
      (immutabilityThreshold < headers.length ∨ chain.getHeaderByNumber (number - 1) = none) then
    chain.getHeaderByNumber number
  else none

/-- What `snapshot` finds for a block without going further back. -/
def find (e : Engine Blob) (chain : ChainReader) (number : Nat) (hash : Hash) (headers : List Header) :
    Option (Except Failure Snapshot × Engine Blob) :=
  match e.recents hash with
  | some s => some (.ok s, e)
  | none =>
    match if number % checkpointInterval = 0 then e.loadSnapshot env hash else none with
    | some s => some (.ok s, e)
    | none =>
      match trusted env chain number headers with
      | none => none
      | some checkpoint =>
        match checkpointSigners checkpoint.extra with
        | none => some (.error .panic, e)
        | some signers =>
          let s := Snapshot.new number (env.hash checkpoint) signers
          some (.ok s, e.store env s)

/-- The header of a block: the last of the parents, or else from the chain. -/
def headerAt (chain : ChainReader) (number : Nat) (hash : Hash) (parents : List Header) : Option Header :=
  match parents.getLast? with
  | some header => if env.hash header ≠ hash ∨ header.numberU64 ≠ number then none else some header
  | none => chain.getHeader hash number

/-- The loop of `snapshot`: go back from a block until a snapshot is found,
with the headers after it gathered (`headers`, the oldest first). The genesis
is always found, so that it never goes back from there. -/
def gather (e : Engine Blob) (chain : ChainReader) : (number : Nat) → Hash → (parents headers : List Header) →
    Except Failure (Snapshot × List Header) × Engine Blob
  | 0, hash, _, headers =>
    match e.find env chain 0 hash headers with
    | some (.ok s, e') => (.ok (s, headers), e')
    | some (.error f, e') => (.error f, e')
    | none => (.error (.error .errUnknownAncestor), e)
  | number + 1, hash, parents, headers =>
    match e.find env chain (number + 1) hash headers with
    | some (.ok s, e') => (.ok (s, headers), e')
    | some (.error f, e') => (.error f, e')
    | none =>
      match headerAt env chain (number + 1) hash parents with
      | none => (.error (.error .errUnknownAncestor), e)
      | some header => e.gather chain number header.parentHash parents.dropLast (header :: headers)

def snapshot (e : Engine Blob) (chain : ChainReader) (number : Nat) (hash : Hash) (parents : List Header) :
    Except Failure Snapshot × Engine Blob :=
  match e.gather env chain number hash parents [] with
  | (.error f, e') => (.error f, e')
  | (.ok (s, headers), e') =>
    match s.apply env.crypto env.config headers with
    | .error err => (.error (.error err), e')
    | .ok s' =>
      -- a new checkpoint snapshot is saved to disk as well
      (.ok s', if s'.number % checkpointInterval = 0 ∧ headers ≠ [] then (e'.remember s').store env s' else e'.remember s')

end Engine

/-! ## Applying in parts -/

namespace Snapshot

variable {c : Crypto} {cfg : CliqueConfig}

theorem apply_append {h₁ h₂ : List Header} :
    ∀ {s s' : Snapshot}, s.apply c cfg (h₁ ++ h₂) = .ok s' ↔ ∃ t, s.apply c cfg h₁ = .ok t ∧ t.apply c cfg h₂ = .ok s' := by
  induction h₁ with
  | nil =>
    intro s s'
    simp [apply]
  | cons h h₁ ih =>
    intro s s'
    rw [List.cons_append, apply_cons]
    constructor
    · rintro ⟨u, hu, hrest⟩
      obtain ⟨t, ht, hlast⟩ := ih.1 hrest
      exact ⟨t, apply_cons.2 ⟨u, hu, ht⟩, hlast⟩
    · rintro ⟨t, ht, hlast⟩
      obtain ⟨u, hu, hrest⟩ := apply_cons.1 ht
      exact ⟨u, hu, ih.2 ⟨t, hrest, hlast⟩⟩

theorem apply_number_hash {s s' : Snapshot} {hs : List Header} (h : s.apply c cfg hs = .ok s') :
    s'.number = s.number + hs.length ∧ s'.hash = (hs.getLast?.map (·.hash c.keccak256)).getD s.hash := by
  cases hs with
  | nil =>
    cases h
    simp
  | cons h' hs =>
    simp only [apply] at h
    split at h
    · cases h
    · split at h
      · cases h
      · split at h
        · cases h
        · cases h
          simp [List.getLast?_eq_some_getLast]

end Snapshot

/-! ## A valid chain -/

/-- Headers that are linked from the genesis on and that `apply` takes. -/
structure ValidChain (chain : ChainReader) where
  headers : List Header
  signers : List Address
  last : Snapshot
  signers_eq : checkpointSigners chain.genesis.extra = some signers
  linked : (chain.genesis :: headers).IsChain fun h h' => h'.parentHash = env.hash h
  applies : (Snapshot.new 0 (env.hash chain.genesis) signers).apply env.crypto env.config headers = .ok last

namespace ValidChain

variable {env} {chain : ChainReader} (v : ValidChain env chain)

/-- The snapshot that some headers lead to from the genesis. -/
def Leads (hs : List Header) (s : Snapshot) : Prop :=
  (Snapshot.new 0 (env.hash chain.genesis) v.signers).apply env.crypto env.config hs = .ok s

def headHash (_ : ValidChain env chain) (hs : List Header) : Hash := env.hash (hs.getLast?.getD chain.genesis)

/-- What is cached for the blocks of the chain is right. -/
structure Caches (e : Engine Blob) : Prop where
  recents : ∀ hs s, hs <+: v.headers → e.recents (v.headHash hs) = some s → v.Leads hs s
  db : ∀ hs s, hs <+: v.headers → e.loadSnapshot env (v.headHash hs) = some s → v.Leads hs s

def Distinct : Prop := ∀ hs hs', hs <+: v.headers → hs' <+: v.headers → v.headHash hs = v.headHash hs' → hs = hs'

variable {v} {hs : List Header} {s : Snapshot} {e : Engine Blob}

theorem Leads.number (h : v.Leads hs s) : s.number = hs.length := by
  simpa [Snapshot.new] using (Snapshot.apply_number_hash h).1

theorem Leads.hash (h : v.Leads hs s) : s.hash = v.headHash hs := by
  rw [(Snapshot.apply_number_hash h).2, headHash]
  cases hs.getLast? with
  | none => rfl
  | some last => rfl

theorem exists_leads (h : hs <+: v.headers) : ∃ s, v.Leads hs s := by
  obtain ⟨rest, hrest⟩ := h
  have happ := v.applies
  rw [← hrest] at happ
  obtain ⟨t, ht, _⟩ := Snapshot.apply_append.1 happ
  exact ⟨t, ht⟩

theorem numberU64_eq {h : Header} (hpre : hs ++ [h] <+: v.headers) : h.numberU64 = hs.length + 1 := by
  obtain ⟨s, hs'⟩ := exists_leads hpre
  obtain ⟨t, ht, hone⟩ := Snapshot.apply_append.1 hs'
  have hnum : t.number = hs.length := Leads.number ht
  rw [← hnum]
  exact (Snapshot.apply_singleton.1 hone).1

theorem parentHash_eq {h : Header} (hpre : hs ++ [h] <+: v.headers) : h.parentHash = v.headHash hs := by
  obtain ⟨rest, hrest⟩ := hpre
  have hlink := v.linked
  rw [← hrest, List.append_assoc, ← List.cons_append, List.isChain_append] at hlink
  obtain ⟨_, _, hmid⟩ := hlink
  exact hmid (hs.getLast?.getD chain.genesis) (by simp [List.getLast?_cons]) h (by simp)

theorem Caches.remember (hc : v.Caches e) (hd : v.Distinct) (hpre : hs <+: v.headers) (h : v.Leads hs s) : v.Caches (e.remember s) where
  db := hc.db
  recents := by
    intro hs' s' hpre' hget
    by_cases heq : v.headHash hs' = s.hash
    · obtain rfl := hd _ _ hpre' hpre (heq.trans h.hash)
      simp only [Engine.remember, heq, update_self, Option.some.injEq] at hget
      exact hget ▸ h
    · simp only [Engine.remember, update_of_ne heq] at hget
      exact hc.recents hs' s' hpre' hget

theorem Caches.store (hc : v.Caches e) (hd : v.Distinct) (hpre : hs <+: v.headers) (h : v.Leads hs s) : v.Caches (e.store env s) where
  recents := hc.recents
  db := by
    intro hs' s' hpre' hget
    unfold Engine.loadSnapshot at hget
    by_cases heq : v.headHash hs' = s.hash
    · obtain rfl := hd _ _ hpre' hpre (heq.trans h.hash)
      simp only [Engine.store, heq, update_self, Option.bind_some, Option.some.injEq,
        env.unmarshal_marshal _ _ unmarshalFixedText_marshalText] at hget
      exact hget ▸ h
    · simp only [Engine.store, update_of_ne heq] at hget
      exact hc.db hs' s' hpre' hget

/-! ## The way back -/

theorem trusted_eq_none {n : Nat} {headers : List Header} (hlen : headers.length ≤ immutabilityThreshold) :
    Engine.trusted env chain (n + 1) headers = none := by
  unfold Engine.trusted
  split
  · next h =>
    obtain h | ⟨_, h | h⟩ := h
    · omega
    · omega
    · exact chain.byNumber_succ n h
  · rfl

theorem find_spec (hc : v.Caches e) (hpre : hs <+: v.headers) {headers : List Header} (hlen : headers.length ≤ immutabilityThreshold) :
    (e.find env chain hs.length (v.headHash hs) headers = none ∧ hs ≠ []) ∨
      ∃ s e', e.find env chain hs.length (v.headHash hs) headers = some (.ok s, e') ∧ v.Leads hs s ∧
        (v.Distinct → v.Caches e') := by
  unfold Engine.find
  cases hrec : e.recents (v.headHash hs) with
  | some s => exact .inr ⟨s, e, rfl, hc.recents hs s hpre hrec, fun _ => hc⟩
  | none =>
    cases hdb : if hs.length % checkpointInterval = 0 then e.loadSnapshot env (v.headHash hs) else none with
    | some s =>
      refine .inr ⟨s, e, rfl, hc.db hs s hpre ?_, fun _ => hc⟩
      split at hdb
      · exact hdb
      · cases hdb
    | none =>
      cases hs with
      | cons h hs =>
        refine .inl ⟨?_, List.cons_ne_nil h hs⟩
        simp only [List.length_cons, trusted_eq_none hlen]
      | nil =>
        have htrust : Engine.trusted env chain 0 headers = some chain.genesis := by
          simp [Engine.trusted, chain.byNumber_zero]
        simp only [List.length_nil, htrust, v.signers_eq]
        exact .inr ⟨_, _, rfl, rfl, fun hd => hc.store hd List.nil_prefix rfl⟩

variable {stored parents : List Header}

theorem headerAt_spec {h : Header} (hpre : hs ++ [h] <+: v.headers)
    (hdiv : chain.genesis :: (hs ++ [h]) = stored ++ parents)
    (hstored : ∀ x ∈ stored, chain.getHeader (env.hash x) x.numberU64 = some x) :
    Engine.headerAt env chain (hs.length + 1) (v.headHash (hs ++ [h])) parents = some h ∧
      ∃ stored', chain.genesis :: hs = stored' ++ parents.dropLast ∧
        ∀ x ∈ stored', chain.getHeader (env.hash x) x.numberU64 = some x := by
  have hhash : v.headHash (hs ++ [h]) = env.hash h := by simp [headHash]
  have hnum := numberU64_eq hpre
  unfold Engine.headerAt
  cases parents using List.reverseRecOn with
  | nil =>
    rw [List.append_nil, ← List.cons_append] at hdiv
    subst hdiv
    refine ⟨?_, chain.genesis :: hs, by simp, fun x hx => hstored x (List.mem_append_left _ hx)⟩
    simp only [List.getLast?_nil]
    rw [hhash, ← hnum]
    exact hstored h (by simp)
  | append_singleton parents x _ =>
    rw [← List.append_assoc, ← List.cons_append] at hdiv
    obtain ⟨hinit, hlast⟩ := List.append_inj' hdiv rfl
    cases hlast
    refine ⟨?_, stored, by simpa using hinit, hstored⟩
    simp [hhash, hnum]

theorem gather_spec (hc : v.Caches e) :
    ∀ {hs rest stored parents : List Header}, v.headers = hs ++ rest → rest.length + hs.length ≤ immutabilityThreshold →
      chain.genesis :: hs = stored ++ parents → (∀ x ∈ stored, chain.getHeader (env.hash x) x.numberU64 = some x) →
      ∃ s pre post e', e.gather env chain hs.length (v.headHash hs) parents rest = (.ok (s, post), e') ∧
        v.headers = pre ++ post ∧ v.Leads pre s ∧ (v.Distinct → v.Caches e') := by
  intro hs
  induction hs using List.reverseRecOn with
  | nil =>
    intro rest stored parents hall hlen _ _
    have hrest : rest.length ≤ immutabilityThreshold := by simpa using hlen
    obtain ⟨_, hne⟩ | ⟨s, e', hfind, hlead, hc'⟩ := find_spec hc List.nil_prefix hrest
    · exact absurd rfl hne
    · refine ⟨s, [], rest, e', ?_, hall, hlead, hc'⟩
      rw [List.length_nil] at hfind ⊢
      unfold Engine.gather
      rw [hfind]
  | append_singleton hs h ih =>
    intro rest stored parents hall hlen hdiv hstored
    have hpre : hs ++ [h] <+: v.headers := ⟨rest, hall.symm⟩
    rw [List.length_append, List.length_singleton] at hlen ⊢
    have hrest : rest.length ≤ immutabilityThreshold := by omega
    obtain ⟨hfind, _⟩ | ⟨s, e', hfind, hlead, hc'⟩ := find_spec hc hpre hrest
    · obtain ⟨hat, stored', hdiv', hstored'⟩ := headerAt_spec hpre hdiv hstored
      rw [List.length_append, List.length_singleton] at hfind
      unfold Engine.gather
      rw [hfind]
      simp only [hat, parentHash_eq hpre]
      refine ih ?_ ?_ hdiv' hstored'
      · rw [hall, List.append_assoc]
        rfl
      · rw [List.length_cons]
        omega
    · refine ⟨s, hs ++ [h], rest, e', ?_, hall, hlead, hc'⟩
      rw [List.length_append, List.length_singleton] at hfind
      unfold Engine.gather
      rw [hfind]

theorem snapshot_spec (hc : v.Caches e) (hlen : v.headers.length ≤ immutabilityThreshold)
    (hdiv : chain.genesis :: v.headers = stored ++ parents)
    (hstored : ∀ h ∈ stored, chain.getHeader (env.hash h) h.numberU64 = some h) :
    ∃ e', e.snapshot env chain v.headers.length (v.headHash v.headers) parents = (.ok v.last, e') ∧ (v.Distinct → v.Caches e') := by
  obtain ⟨s, pre, post, e', hgather, hall, hlead, hc'⟩ :=
    gather_spec hc (List.append_nil _).symm (by simpa using hlen) hdiv hstored
  have happly : s.apply env.crypto env.config post = .ok v.last := by
    have happ := v.applies
    rw [hall] at happ
    obtain ⟨t, ht, hlast⟩ := Snapshot.apply_append.1 happ
    cases ht.symm.trans hlead
    exact hlast
  have hself : v.headers <+: v.headers := List.prefix_rfl
  unfold Engine.snapshot
  rw [hgather]
  simp only [happly]
  refine ⟨_, rfl, fun hd => ?_⟩
  have hmem := (hc' hd).remember hd hself v.applies
  split
  · exact hmem.store hd hself v.applies
  · exact hmem

end ValidChain

/-- **A snapshot does not depend on how it is computed.** Headers may be
applied in two parts. And on a valid chain, not longer than what may still be
reorganised, `Clique.snapshot` gives what all its headers lead to from the
genesis: with any right snapshots cached, and with the headers divided in any
way between the parents and the database. What is cached stays right. -/
theorem snapshot_independent {chain : ChainReader} (v : ValidChain env chain) (e : Engine Blob) (hc : v.Caches e)
    (hlen : v.headers.length ≤ immutabilityThreshold) {stored parents : List Header}
    (hdiv : chain.genesis :: v.headers = stored ++ parents)
    (hstored : ∀ h ∈ stored, chain.getHeader (env.hash h) h.numberU64 = some h) :
    (∀ (s s' : Snapshot) (h₁ h₂ : List Header), s.apply env.crypto env.config (h₁ ++ h₂) = .ok s' ↔
      ∃ t, s.apply env.crypto env.config h₁ = .ok t ∧ t.apply env.crypto env.config h₂ = .ok s') ∧
    ∃ e', e.snapshot env chain v.headers.length (v.headHash v.headers) parents = (.ok v.last, e') ∧
      (v.Distinct → v.Caches e') :=
  ⟨fun _ _ _ _ => Snapshot.apply_append, ValidChain.snapshot_spec hc hlen hdiv hstored⟩

/-- A genesis with one signer, and three blocks on it. -/
def plainGenesis : Header :=
  { (default : Header) with extra := List.replicate extraVanity 0 ++ List.replicate 19 0 ++ 1 :: List.replicate extraSeal 0 }

def plainEnv : Env Snapshot where
  crypto := plainCrypto
  config := .new 15 0
  marshal _ := id
  unmarshal _ := some
  unmarshal_marshal _ _ _ _ := rfl

def plainOn (number : Nat) (parent : Header) : Header := { plainHeader number 1 with parentHash := plainEnv.hash parent }

def plainFirst : Header := plainOn 1 plainGenesis
def plainSecond : Header := plainOn 2 plainFirst
def plainThird : Header := plainOn 3 plainSecond

def plainChain : ChainReader where
  genesis := plainGenesis
  getHeaderByNumber n := if n = 0 then some plainGenesis else none
  getHeader hash _ := [plainGenesis, plainFirst, plainSecond].find? fun h => plainEnv.hash h = hash
  byNumber_zero := rfl
  byNumber_succ _ _ := rfl

/-- The snapshot of the genesis is on disk and that of the second block in memory,
and the third block comes as the parent of a fourth. -/
theorem snapshot_independent_third : ∃ (s₀ s₂ s₃ : Snapshot) (e' : Engine Snapshot),
    s₀.apply plainCrypto (.new 15 0) [plainFirst, plainSecond] = .ok s₂ ∧ s₂.apply plainCrypto (.new 15 0) [plainThird] = .ok s₃ ∧
    Engine.snapshot plainEnv ((Engine.store plainEnv ⟨fun _ => none, fun _ => none⟩ s₀).remember s₂) plainChain 3
      (plainEnv.hash plainThird) [plainThird] = (.ok s₃, e') := by
  have hrun : ((Snapshot.new 0 (plainEnv.hash plainGenesis) [1]).apply plainCrypto (.new 15 0)
      ([plainFirst, plainSecond] ++ [plainThird])).toOption.isSome := by decide +kernel
  obtain ⟨s₃, hs₃⟩ := Option.isSome_iff_exists.1 hrun
  obtain ⟨s₂, hs₂, hlast⟩ := Snapshot.apply_append.1 (eq_ok_of_toOption hs₃)
  let v : ValidChain plainEnv plainChain := {
    headers := [plainFirst, plainSecond, plainThird]
    signers := [1]
    last := s₃
    signers_eq := by decide +kernel
    linked := by simp [plainFirst, plainSecond, plainThird, plainOn, plainChain]
    applies := eq_ok_of_toOption hs₃ }
  have hd : v.Distinct := by
    have hall : ∀ hs ∈ [plainFirst, plainSecond, plainThird].inits, ∀ hs' ∈ [plainFirst, plainSecond, plainThird].inits,
        plainEnv.hash (hs.getLast?.getD plainGenesis) = plainEnv.hash (hs'.getLast?.getD plainGenesis) → hs = hs' := by
      decide +kernel
    exact fun hs hs' h h' => hall hs ((List.mem_inits ..).2 h) hs' ((List.mem_inits ..).2 h')
  have hnone : v.Caches ⟨fun _ => none, fun _ => none⟩ := by constructor <;> simp [Engine.loadSnapshot]
  have hc := (hnone.store hd List.nil_prefix (s := .new 0 (plainEnv.hash plainGenesis) [1]) rfl).remember hd ⟨[plainThird], rfl⟩ hs₂
  have hdiv : plainChain.genesis :: v.headers = [plainGenesis, plainFirst, plainSecond] ++ [plainThird] := rfl
  obtain ⟨_, e', he', _⟩ := snapshot_independent plainEnv v _ hc (by simp [v, immutabilityThreshold]) hdiv (by decide +kernel)
  exact ⟨_, s₂, s₃, e', hs₂, hlast, he'⟩

end NdnGeth.Clique
