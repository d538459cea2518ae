/-
Blocks of one's own and the checks of any header: `Prepare`,
`FinalizeAndAssemble`, `Seal` and `verifyHeader` (`consensus/clique/clique.go`).

The snapshot of the parent, and the parent itself, are inputs here; how the
snapshot is found is in `Clique.Engine`. What is left out of `Seal` is the time
a sealed block waits before it is handed on, except that the wait of an
out-of-turn signer is drawn by a function that panics on an empty range.

A block that was prepared and sealed passes every check that is made of it; only
the hash that a configuration may ask for at one number is beyond the signer
(`sealed_accepted`).
-/
import NdnGeth.Clique.Engine
import NdnGeth.Clique.Recents

namespace NdnGeth.Clique

open Lib.Rlp (Bytes toBytesN length_toBytesN)
open Core (Hash)
open Types (Address Header)

def diffInTurn : Nat := 2
def diffNoTurn : Nat := 1

/-- In nanoseconds. -/
def wiggleTime : Nat := 500000000

/-- The engine's configuration, the hash that the chain's one may ask for, and
the wallet. -/
structure Setup where
  crypto : Crypto
  config : CliqueConfig
  eip150Block : Option Nat
  eip150Hash : Hash
  signFn : Address → Bytes → Option Bytes

/-- `types.CalcUncleHash(nil)`, of the empty list. -/
def uncleHash (c : Crypto) : Hash := c.keccak256 [0xC0]

namespace VotingState

/-- `signers`, in ascending order. -/
def signersAscending (s : VotingState) : List Address := s.signers.sort (· ≤ ·)

/-- `inturn`; without signers the modulus panics. -/
def inturn (s : VotingState) (number : Nat) (signer : Address) : Except Failure Bool :=
  let signers := s.signersAscending
  let offset := signers.idxOf signer
  if signers.length = 0 then .error .panic else .ok (number % signers.length = offset)

end VotingState

def signerBytes (s : Snapshot) : Bytes := s.signersAscending.flatMap fun a => toBytesN addressLength a.toNat

/-! ## Checks -/

section Checks

variable (env : Setup) (parent : Option Header) (s : Snapshot) (h : Header)

def verifyForkHashes : Except Error Unit :=
  if env.eip150Block = some h.number ∧ env.eip150Hash ≠ 0 ∧ env.eip150Hash ≠ h.hash env.crypto.keccak256 then .error .forkHash
  else .ok ()

def verifySeal : Except Failure Unit :=
  if h.numberU64 = 0 then .error (.error .errUnknownBlock)
  else
    match sealSigner env.crypto s h with
    | .error e => .error (.error e)
    | .ok signer => do
      let inturn ← s.inturn h.numberU64 signer
      if h.difficulty ≠ (if inturn then diffInTurn else diffNoTurn) then .error (.error .errWrongDifficulty) else .ok ()

/-- The signer list of a checkpoint, in `verifyCascadingFields`; the slice is out
of range where the extra data is too short. -/
def checkSignerList : Except Failure Unit :=
  if h.numberU64 % env.config.epoch = 0 then
    if h.extra.length < extraVanity + extraSeal then .error .panic
    else if (h.extra.take (h.extra.length - extraSeal)).drop extraVanity ≠ signerBytes s then
      .error (.error .errMismatchingCheckpointSigners)
    else .ok ()
  else .ok ()

def verifyCascadingFields : Except Failure Unit :=
  if h.numberU64 = 0 then .ok ()
  else
    match parent with
    | none => .error (.error .errUnknownAncestor)
    | some parent =>
      if parent.numberU64 ≠ h.numberU64 - 1 ∨ parent.hash env.crypto.keccak256 ≠ h.parentHash then
        .error (.error .errUnknownAncestor)
      else if h.time < parent.time + env.config.period then .error (.error .errInvalidTimestamp)
      else do
        checkSignerList env s h
        verifySeal env s h

/-- The checks of `verifyHeader` that need nothing but the header. -/
def checkFields (now : BitVec 64) : Except Error Unit :=
  let checkpoint := h.numberU64 % env.config.epoch = 0
  let signersBytes := h.extra.length - extraVanity - extraSeal
  if now < h.time then .error .errFutureBlock
  else if checkpoint ∧ h.coinbase ≠ 0 then .error .errInvalidCheckpointBeneficiary
  else if h.nonce ≠ nonceAuthVote ∧ h.nonce ≠ nonceDropVote then .error .errInvalidVote
  else if checkpoint ∧ h.nonce ≠ nonceDropVote then .error .errInvalidCheckpointVote
  else if h.extra.length < extraVanity then .error .errMissingVanity
  else if h.extra.length < extraVanity + extraSeal then .error .errMissingSignature
  else if ¬checkpoint ∧ signersBytes ≠ 0 then .error .errExtraSigners
  else if checkpoint ∧ signersBytes % addressLength ≠ 0 then .error .errInvalidCheckpointSigners
  else if h.mixDigest ≠ 0 then .error .errInvalidMixDigest
  else if h.uncleHash ≠ uncleHash env.crypto then .error .errInvalidUncleHash
  else if 0 < h.numberU64 ∧ h.difficulty ≠ diffInTurn ∧ h.difficulty ≠ diffNoTurn then .error .errInvalidDifficulty
  else verifyForkHashes env h

def verifyHeader (now : BitVec 64) : Except Failure Unit :=
  match checkFields env h now with
  | .error e => .error (.error e)
  | .ok () => verifyCascadingFields env parent s h

end Checks

/-! ## Blocks of one's own -/

def calcDifficulty (s : Snapshot) (signer : Address) : Except Failure Nat := do
  let inturn ← s.inturn (s.number + 1) signer
  .ok (if inturn then diffInTurn else diffNoTurn)

/-- The vote that `Prepare` puts into a header: any of the proposals that make
sense, and none at a checkpoint. -/
def proposal (cfg : CliqueConfig) (s : Snapshot) (proposals : List (Address × Bool)) (number random : Nat) : Address × BitVec 64 :=
  let valid := proposals.filter fun p => s.validVote p.1 p.2
  if number % cfg.epoch = 0 then (0, 0)
  else
    match valid[random % valid.length]? with
    | none => (0, 0)
    | some (address, authorize) => (address, if authorize then nonceAuthVote else nonceDropVote)

/-- The extra data that `Prepare` leaves, up to the room for the seal: a vanity,
and the signers at a checkpoint. -/
def prepareExtra (cfg : CliqueConfig) (s : Snapshot) (number : Nat) (extra : Bytes) : Bytes :=
  (extra ++ List.replicate (extraVanity - extra.length) 0).take extraVanity ++ if number % cfg.epoch = 0 then signerBytes s else []

/-- `Prepare` for this signer. -/
def prepare (env : Setup) (parent : Option Header) (s : Snapshot) (signer : Address) (proposals : List (Address × Bool)) (random : Nat)
    (now : BitVec 64) (h : Header) : Except Failure Header := do
  let vote := proposal env.config s proposals h.numberU64 random
  let difficulty ← calcDifficulty s signer
  match parent with
  | none => .error (.error .errUnknownAncestor)
  | some parent =>
    let time := parent.time + env.config.period
    .ok { h with
      coinbase := vote.1
      nonce := vote.2
      difficulty := difficulty
      extra := prepareExtra env.config s h.numberU64 h.extra ++ List.replicate extraSeal 0
      mixDigest := 0
      time := if time < now then now else time }

/-- What a block gets when its transactions have run. -/
structure Executed where
  root : Hash
  txHash : Hash
  receiptHash : Hash
  bloom : BitVec 2048
  gasUsed : BitVec 64

def finalizeAndAssemble (c : Crypto) (x : Executed) (h : Header) : Header :=
  { h with
    root := x.root
    uncleHash := uncleHash c
    txHash := x.txHash
    receiptHash := x.receiptHash
    bloom := x.bloom
    gasUsed := x.gasUsed }

/-- Whether a signer signed recently and must wait for others, in `Seal`. -/
def mustWait (s : Snapshot) (number : Nat) (signer : Address) : Bool :=
  s.recents.any fun e => e.2 = signer && (number < s.limit || sub64 number s.limit < e.1)

/-- `int64(wiggle)`, the range an out-of-turn signer's wait is drawn from. -/
def wiggle (s : Snapshot) : Int := Int.bmod ((s.signers.card / 2 + 1) * wiggleTime : Nat) (2 ^ 64)

/-- `Seal` of a block with this header, empty or not; nothing where it returns
without a block to come. -/
def sealBlock (env : Setup) (s : Snapshot) (signer : Address) (empty : Bool) (h : Header) : Except Failure (Option Header) :=
  if h.numberU64 = 0 then .error (.error .errUnknownBlock)
  else if env.config.period = 0 ∧ empty then .ok none
  else if signer ∉ s.signers then .error (.error .errUnauthorizedSigner)
  else if mustWait s h.numberU64 signer then .ok none
  else if h.difficulty = diffNoTurn ∧ wiggle s ≤ 0 then .error .panic
  else if h.extra.length < extraSeal then .error .panic
  else
    let unsealed := h.extra.take (h.extra.length - extraSeal)
    match env.signFn signer (Header.codec.encode { h with extra := unsealed }) with
    | none => .error (.error .sign)
    | some sighash =>
      -- `copy` takes as many bytes as there is room for
      .ok (some { h with extra := unsealed ++ (sighash.take extraSeal ++ (h.extra.drop unsealed.length).drop sighash.length) })

/-! ## Honest blocks -/

variable {env : Setup} {s : Snapshot} {signer : Address}

theorem inturn_isOk (h : s.signers.Nonempty) (number : Nat) (signer : Address) : ∃ b, s.inturn number signer = .ok b := by
  have hlen : s.signersAscending.length ≠ 0 := by
    unfold VotingState.signersAscending
    rw [Finset.length_sort]
    exact Finset.card_ne_zero.2 h
  unfold VotingState.inturn
  simp only [if_neg hlen]
  exact ⟨_, rfl⟩

theorem length_signerBytes (s : Snapshot) : (signerBytes s).length = addressLength * s.signers.card := by
  have hone : ∀ a : Address, (toBytesN addressLength a.toNat).length = addressLength := by
    intro a
    have := a.isLt
    exact length_toBytesN (by unfold addressLength; omega)
  unfold signerBytes
  rw [List.length_flatMap, List.map_congr_left (fun a _ => hone a), List.map_const', List.sum_replicate_nat, Nat.mul_comm]
  unfold VotingState.signersAscending
  rw [Finset.length_sort]

theorem ecrecover_sealed {c : Crypto} {h : Header} {extra sig : Bytes} (hsig : sig.length = extraSeal)
    (hrec : c.recover (c.keccak256 (Header.codec.encode { h with extra })) sig = some signer) :
    ecrecover c { h with extra := extra ++ sig } = .ok signer := by
  unfold ecrecover sealHash
  simp only [List.length_append, hsig, Nat.add_sub_cancel, List.take_left, List.drop_left]
  rw [if_neg (by omega), hrec]

theorem admits_of_not_mustWait {n : Nat} (hw : s.Window n) (hsigner : signer ∈ s.signers) (hwait : mustWait s n signer = false) :
    s.Admits n signer ∧ ∀ e ∈ s.recents, e.2 = signer → e.1 ≤ sub64 n s.limit := by
  have hall : ∀ e ∈ s.recents, e.2 = signer → s.limit ≤ n ∧ e.1 ≤ sub64 n s.limit := by
    intro e he heq
    simpa [heq] using List.any_eq_false.1 hwait e he
  refine ⟨⟨hsigner, fun e he heq => ?_⟩, fun e he heq => (hall e he heq).2⟩
  obtain ⟨hmem, hne⟩ := VotingState.mem_expire.1 he
  obtain ⟨hlimit, hle⟩ := hall e hmem heq
  have := hw e hmem
  have := hne hlimit
  rw [sub64_of_le hlimit] at hle
  omega

theorem sealSigner_eq {c : Crypto} {h : Header} (hrec : ecrecover c h = .ok signer) (hsigner : signer ∈ s.signers)
    (hrecent : ∀ e ∈ s.recents, e.2 = signer → e.1 ≤ sub64 h.numberU64 s.limit) : sealSigner c s h = .ok signer := by
  have hany : (s.recents.any fun e => e.2 = signer && sub64 h.numberU64 s.limit < e.1) = false := by simpa using hrecent
  simp [sealSigner, hrec, hsigner, hany]

theorem proposal_vote (cfg : CliqueConfig) (s : Snapshot) (proposals : List (Address × Bool)) (number random : Nat) :
    ((proposal cfg s proposals number random).2 = nonceAuthVote ∨ (proposal cfg s proposals number random).2 = nonceDropVote) ∧
      (number % cfg.epoch = 0 → proposal cfg s proposals number random = (0, nonceDropVote)) := by
  simp only [proposal]
  split
  · exact ⟨.inr rfl, fun _ => rfl⟩
  · next hcheckpoint =>
    refine ⟨?_, fun h => absurd h hcheckpoint⟩
    split
    · exact .inr rfl
    · next authorize _ => cases authorize <;> simp

theorem prepareExtra_spec (cfg : CliqueConfig) (s : Snapshot) (number : Nat) (extra : Bytes) :
    extraVanity ≤ (prepareExtra cfg s number extra).length ∧
      (prepareExtra cfg s number extra).drop extraVanity = if number % cfg.epoch = 0 then signerBytes s else [] := by
  have hvanity : ((extra ++ List.replicate (extraVanity - extra.length) 0).take extraVanity).length = extraVanity := by
    rw [List.length_take, List.length_append, List.length_replicate]
    omega
  unfold prepareExtra
  rw [List.length_append, hvanity]
  exact ⟨Nat.le_add_right .., List.drop_left' hvanity⟩

/-- A header on top of a parent as `Prepare` and `FinalizeAndAssemble` leave it;
its extra data ends with the seal, or the room for it. -/
structure Prepared (env : Setup) (p : Header) (s : Snapshot) (signer : Address) (h : Header) (body tail : Bytes) : Prop where
  number : h.numberU64 = s.number + 1
  parent : p.numberU64 = s.number ∧ p.hash env.crypto.keccak256 = h.parentHash
  time : p.time + env.config.period ≤ h.time
  nonce : h.nonce = nonceAuthVote ∨ h.nonce = nonceDropVote
  checkpoint : h.numberU64 % env.config.epoch = 0 → h.coinbase = 0 ∧ h.nonce = nonceDropVote
  extra : h.extra = body ++ tail
  room : tail.length = extraSeal
  vanity : extraVanity ≤ body.length
  list : body.drop extraVanity = if h.numberU64 % env.config.epoch = 0 then signerBytes s else []
  mixDigest : h.mixDigest = 0
  uncleHash : h.uncleHash = uncleHash env.crypto
  difficulty : ∃ b, s.inturn h.numberU64 signer = .ok b ∧ h.difficulty = if b then diffInTurn else diffNoTurn

variable {p h : Header} {body tail sig : Bytes}

theorem Prepared.seal (hp : Prepared env p s signer h body tail) (hsig : sig.length = extraSeal) :
    Prepared env p s signer { h with extra := body ++ sig } body sig :=
  ⟨hp.number, hp.parent, hp.time, hp.nonce, hp.checkpoint, rfl, hsig, hp.vanity, hp.list, hp.mixDigest, hp.uncleHash, hp.difficulty⟩

theorem Prepared.length (hp : Prepared env p s signer h body tail) : h.extra.length = body.length + extraSeal := by
  rw [hp.extra, List.length_append, hp.room]

theorem Prepared.take (hp : Prepared env p s signer h body tail) : h.extra.take (h.extra.length - extraSeal) = body := by
  rw [hp.length, Nat.add_sub_cancel, hp.extra, List.take_left]

theorem sealBlock_eq (hp : Prepared env p s signer h body tail) {empty : Bool} (hempty : ¬(env.config.period = 0 ∧ empty))
    (hsigner : signer ∈ s.signers) (hwait : mustWait s h.numberU64 signer = false) (hwiggle : 0 < wiggle s)
    (hsign : env.signFn signer (Header.codec.encode { h with extra := body }) = some sig) (hsig : sig.length = extraSeal) :
    sealBlock env s signer empty h = .ok (some { h with extra := body ++ sig }) := by
  have hnumber := hp.number
  have hroom := hp.length
  unfold sealBlock
  rw [if_neg (by omega), if_neg hempty, if_neg (not_not.2 hsigner), hwait, if_neg Bool.false_ne_true, if_neg (by omega), if_neg (by omega)]
  simp only [hp.take, hsign]
  rw [hp.extra, List.drop_left, List.take_of_length_le (Nat.le_of_eq hsig), List.drop_eq_nil_of_le (by rw [hp.room, hsig]), List.append_nil]

theorem checkFields_eq (hp : Prepared env p s signer h body tail) {now : BitVec 64} (hnow : h.time ≤ now) :
    checkFields env h now = verifyForkHashes env h := by
  have hvanity := hp.vanity
  have hroom := hp.length
  have hrest : h.extra.length - extraVanity - extraSeal = (body.drop extraVanity).length := by
    rw [List.length_drop]
    omega
  have hnone : ¬h.numberU64 % env.config.epoch = 0 → h.extra.length - extraVanity - extraSeal = 0 := by
    intro hc
    rw [hrest, hp.list, if_neg hc]
    rfl
  have hsigners : h.numberU64 % env.config.epoch = 0 → (h.extra.length - extraVanity - extraSeal) % addressLength = 0 := by
    intro hc
    rw [hrest, hp.list, if_pos hc, length_signerBytes, Nat.mul_mod_right]
  have hdifficulty : ¬(0 < h.numberU64 ∧ h.difficulty ≠ diffInTurn ∧ h.difficulty ≠ diffNoTurn) := by
    obtain ⟨b, -, hd⟩ := hp.difficulty
    rw [hd]
    cases b <;> simp
  simp only [checkFields]
  rw [if_neg (BitVec.not_lt.2 hnow), if_neg fun hc => hc.2 (hp.checkpoint hc.1).1, if_neg fun hc => hp.nonce.elim hc.1 hc.2,
    if_neg fun hc => hc.2 (hp.checkpoint hc.1).2, if_neg (by omega), if_neg (by omega), if_neg fun hc => hc.2 (hnone hc.1),
    if_neg fun hc => hc.2 (hsigners hc.1), if_neg (not_not.2 hp.mixDigest), if_neg (not_not.2 hp.uncleHash), if_neg hdifficulty]

theorem verifyCascadingFields_eq (hp : Prepared env p s signer h body tail) (hseal : sealSigner env.crypto s h = .ok signer) :
    verifyCascadingFields env (some p) s h = .ok () := by
  have hnumber := hp.number
  have hvanity := hp.vanity
  have hroom := hp.length
  obtain ⟨b, hb, hdifficulty⟩ := hp.difficulty
  have hlist : checkSignerList env s h = .ok () := by
    unfold checkSignerList
    split
    · next hc => rw [if_neg (by omega), hp.take, hp.list, if_pos hc, if_neg (not_not.2 rfl)]
    · rfl
  have hverify : verifySeal env s h = .ok () := by
    unfold verifySeal
    rw [if_neg (by omega), hseal]
    simp only [hb, hdifficulty]
    exact if_neg (not_not.2 rfl)
  unfold verifyCascadingFields
  have hparent : ¬(p.numberU64 ≠ h.numberU64 - 1 ∨ p.hash env.crypto.keccak256 ≠ h.parentHash) := by
    rw [hp.parent.1, hp.parent.2, hnumber]
    simp
  simp only [if_neg (show h.numberU64 ≠ 0 by omega), if_neg hparent, if_neg (BitVec.not_lt.2 hp.time), hlist, hverify]
  rfl

theorem prepare_spec (hsigner : signer ∈ s.signers) (hparent : p.numberU64 = s.number ∧ p.hash env.crypto.keccak256 = s.hash)
    (hnumber : h.numberU64 = s.number + 1) (hhash : h.parentHash = s.hash) (proposals : List (Address × Bool)) (random : Nat)
    (now : BitVec 64) (x : Executed) :
    ∃ h', prepare env (some p) s signer proposals random now h = .ok h' ∧
      ∃ body tail, Prepared env p s signer (finalizeAndAssemble env.crypto x h') body tail := by
  obtain ⟨b, hb⟩ := inturn_isOk ⟨signer, hsigner⟩ (s.number + 1) signer
  obtain ⟨hvote, hnovote⟩ := proposal_vote env.config s proposals h.numberU64 random
  obtain ⟨hvanity, hlist⟩ := prepareExtra_spec env.config s h.numberU64 h.extra
  unfold prepare calcDifficulty
  rw [hb]
  refine ⟨_, rfl, _, _, ⟨hnumber, hhash ▸ hparent, ?_, hvote, fun hc => ?_, rfl, List.length_replicate, hvanity, hlist, rfl, rfl,
    b, hnumber ▸ hb, rfl⟩⟩
  · show _ ≤ if _ then _ else _
    split
    · next hlt => exact BitVec.le_of_lt hlt
    · exact BitVec.le_refl _
  · exact ⟨congrArg Prod.fst (hnovote hc), congrArg Prod.snd (hnovote hc)⟩

/-- **An honest block is accepted**: on every snapshot that `apply` reaches from a
genesis and for every signer that need not wait, what is prepared and sealed is
accepted by `apply`; and it passes `verifyHeader` at every node whose clock has
come to its time, exactly if the configuration does not ask for a block of
another hash. -/
theorem sealed_accepted {hash : Hash} {signers : List Address} {chain : List Header}
    (happly : (Snapshot.new 0 hash signers).apply env.crypto env.config chain = .ok s)
    (hparent : p.numberU64 = s.number ∧ p.hash env.crypto.keccak256 = s.hash)
    (hnumber : h.numberU64 = s.number + 1) (hhash : h.parentHash = s.hash)
    (hsigner : signer ∈ s.signers) (hwait : mustWait s (s.number + 1) signer = false) (hwiggle : 0 < wiggle s)
    (hsign : ∀ rlp, ∃ sig, env.signFn signer rlp = some sig ∧ sig.length = extraSeal ∧
      env.crypto.recover (env.crypto.keccak256 rlp) sig = some signer)
    (proposals : List (Address × Bool)) (random : Nat) (now : BitVec 64) (x : Executed) {empty : Bool}
    (hempty : ¬(env.config.period = 0 ∧ empty)) :
    ∃ prepared sealed, prepare env (some p) s signer proposals random now h = .ok prepared ∧
      sealBlock env s signer empty (finalizeAndAssemble env.crypto x prepared) = .ok (some sealed) ∧
      (∃ s', s.apply env.crypto env.config [sealed] = .ok s') ∧
      ∀ now', sealed.time ≤ now' → (verifyHeader env (some p) s sealed now' = .ok () ↔ verifyForkHashes env sealed = .ok ()) := by
  obtain ⟨hadmits, hrecent⟩ := admits_of_not_mustWait (Snapshot.window_reachable happly) hsigner hwait
  obtain ⟨prepared, heq, body, tail, hp⟩ := prepare_spec hsigner hparent hnumber hhash proposals random now x
  obtain ⟨sig, hsig, hlen, hrec⟩ := hsign (Header.codec.encode { finalizeAndAssemble env.crypto x prepared with extra := body })
  have hsealed := hp.seal hlen
  have hrecover := ecrecover_sealed hlen hrec
  refine ⟨prepared, _, heq, sealBlock_eq hp hempty hsigner (hp.number ▸ hwait) hwiggle hsig hlen, ?_, fun now' hnow => ?_⟩
  · exact (apply_isOk_iff hsealed.number hsealed.nonce).2 ⟨signer, hrecover, hsealed.number ▸ hadmits⟩
  · have hseal := sealSigner_eq hrecover hsigner (hsealed.number ▸ hrecent)
    unfold verifyHeader
    rw [checkFields_eq hsealed hnow, verifyCascadingFields_eq hsealed hseal]
    cases verifyForkHashes env _ with
    | ok u => simp
    | error e => simp

/-- A wallet whose signatures `plainCrypto` understands; a hash may be asked for
at block 1. -/
def plainSetup (eip150Hash : Hash) : Setup where
  crypto := plainCrypto
  config := .new 15 0
  eip150Block := some 1
  eip150Hash := eip150Hash
  signFn signer _ := some (UInt8.ofNat signer.toNat :: List.replicate 64 0)

/-- The header of a block on top of this one. -/
def plainNext (parent : Header) : Header :=
  { (default : Header) with number := parent.number + 1, parentHash := parent.hash plainCrypto.keccak256 }

def plainSnapshot : Snapshot := .new 0 (plainGenesis.hash plainCrypto.keccak256) [1]

/-- The third block of three signers, which proposes a fourth. -/
theorem sealed_accepted_third : ∃ s prepared sealed,
    (Snapshot.new 0 0 [1, 2, 3]).apply plainCrypto (.new 15 0) [plainHeader 1 1, plainHeader 2 2] = .ok s ∧
    prepare (plainSetup 0) (some (plainHeader 2 2)) s 3 [(4, true)] 0 0 (plainNext (plainHeader 2 2)) = .ok prepared ∧
    sealBlock (plainSetup 0) s 3 false (finalizeAndAssemble plainCrypto ⟨0, 0, 0, 0, 0⟩ prepared) = .ok (some sealed) ∧
    verifyHeader (plainSetup 0) (some (plainHeader 2 2)) s sealed sealed.time = .ok () := by
  have hrun : ((Snapshot.new 0 0 [1, 2, 3]).apply plainCrypto (.new 15 0) [plainHeader 1 1, plainHeader 2 2]).toOption.map
      (fun s => (s.number, s.hash, s.signers, mustWait s 3 3)) =
      some (2, (plainHeader 2 2).hash plainCrypto.keccak256, {1, 2, 3}, false) := by decide +kernel
  obtain ⟨s, hs, hval⟩ := Option.map_eq_some_iff.1 hrun
  simp only [Prod.mk.injEq] at hval
  obtain ⟨hnumber, hhash, hsigners, hwait⟩ := hval
  have hsigner : (3 : Address) ∈ s.signers := by rw [hsigners]; decide
  have hwiggle : 0 < wiggle s := by unfold wiggle; rw [hsigners]; decide
  have hempty : ¬((plainSetup 0).config.period = 0 ∧ false) := fun h => Bool.false_ne_true h.2
  have happly : (Snapshot.new 0 0 [1, 2, 3]).apply (plainSetup 0).crypto (plainSetup 0).config [plainHeader 1 1, plainHeader 2 2] =
      .ok s := eq_ok_of_toOption hs
  obtain ⟨prepared, sealed, hprepare, hseal, -, hverify⟩ := sealed_accepted (p := plainHeader 2 2) (h := plainNext (plainHeader 2 2)) happly
    ⟨hnumber.symm, hhash.symm⟩ (by rw [hnumber]; rfl) hhash.symm hsigner (by rw [hnumber]; exact hwait) hwiggle
    (fun rlp => ⟨_, rfl, rfl, rfl⟩) [(4, true)] 0 0 ⟨0, 0, 0, 0, 0⟩ hempty
  refine ⟨s, prepared, sealed, eq_ok_of_toOption hs, hprepare, hseal, (hverify sealed.time (BitVec.le_refl _)).2 ?_⟩
  exact if_neg fun h => h.2.1 rfl

/-- The configuration asks for a block of hash 5 at number 1. -/
theorem refused_for_its_hash : ∃ prepared sealed,
    prepare (plainSetup 5) (some plainGenesis) plainSnapshot 1 [] 0 0 (plainNext plainGenesis) = .ok prepared ∧
    sealBlock (plainSetup 5) plainSnapshot 1 false (finalizeAndAssemble plainCrypto ⟨0, 0, 0, 0, 0⟩ prepared) = .ok (some sealed) ∧
    verifyHeader (plainSetup 5) (some plainGenesis) plainSnapshot sealed sealed.time = .error (.error .forkHash) := by
  let prepared : Header := { plainNext plainGenesis with difficulty := 2, time := 15, extra := List.replicate 97 0 }
  let sealed : Header :=
    { finalizeAndAssemble plainCrypto ⟨0, 0, 0, 0, 0⟩ prepared with extra := List.replicate 32 0 ++ 1 :: List.replicate 64 0 }
  exact ⟨prepared, sealed, eq_ok_of_toOption (by decide +kernel), eq_ok_of_toOption (by decide +kernel),
    eq_error_of_errorOf (by decide +kernel)⟩

end NdnGeth.Clique
