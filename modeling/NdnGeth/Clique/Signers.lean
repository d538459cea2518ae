/-
A chain never runs out of signers, unless its last signer drops itself.

Each vote counts once and a set of one has a majority of one, so the vote that
empties the set is that of its only member on itself. Then nobody may sign, and
`inturn` divides by zero wherever it is asked.
-/
import NdnGeth.Clique.Sealing
import NdnGeth.Clique.Voting

namespace NdnGeth.Clique

open Core (Hash)
open Types (Address Header)

variable {signer : Address} {h : Header}

/-- The header does not vote to drop the only signer. -/
def Spares (s : VotingState) (h : Header) : Prop := ¬(s.signers = {h.coinbase} ∧ h.nonce = nonceDropVote)

namespace VotingState

theorem authorizes_eq_false {nonce : BitVec 64} : authorizes nonce = .ok false ↔ nonce = nonceDropVote := by
  unfold authorizes
  split
  · next h =>
    rw [h]
    decide
  · split
    · next h => simp [h]
    · next h => simp [h]

theorem mem_votes_vote {s : VotingState} {number : Nat} {signer address : Address} {authorize : Bool} {v : Vote}
    (hv : v ∈ (s.vote number signer address authorize).votes) : v ∈ s.votes ∨ authorize = s.direction address := by
  unfold VotingState.vote at hv
  split at hv
  · exact .inl hv
  · next s' hcast =>
    refine .inr ?_
    unfold VotingState.cast at hcast
    split at hcast
    · next hvalid => exact validVote_iff.1 hvalid
    · cases hcast

/-- A header that spares the last signer leaves one: the signer of the header is
the only one to vote on it, and has no other vote. -/
theorem advance_nonempty {cfg : CliqueConfig} {s : VotingState} {authorize : Bool} (hv : s.Voting) (hsigner : signer ∈ s.signers)
    (hauth : authorizes h.nonce = .ok authorize) (hspares : Spares s h) : (s.advance cfg h signer authorize).signers.Nonempty := by
  rcases (hv.ballot hsigner).resolve_signers h.numberU64 h.coinbase with hsame | ⟨hnew, hmajority⟩
  · rw [show (s.advance cfg h signer authorize).signers = _ from hsame, ballot_signers]
    exact ⟨signer, hsigner⟩
  · rw [show (s.advance cfg h signer authorize).signers = _ from hnew, ballot_signers]
    split
    · next hmem =>
      rw [Finset.nonempty_iff_ne_empty]
      intro hempty
      have hone : s.signers = {h.coinbase} :=
        ((Finset.erase_eq_empty_iff ..).1 hempty).resolve_left (Finset.ne_empty_of_mem hsigner)
      have hself : ∀ {x : Address}, x ∈ s.signers → x = h.coinbase := fun hx => Finset.mem_singleton.1 (hone ▸ hx)
      obtain ⟨x, hx⟩ : ((s.ballot cfg h signer authorize).backers h.coinbase).Nonempty := Finset.card_pos.1 (by omega)
      obtain ⟨hxs, v, hvote, rfl, haddress, -⟩ := Finset.mem_filter.1 hx
      rw [ballot_signers] at hxs
      have hrec : (((s.checkpoint cfg h.numberU64).expire h.numberU64).record h.numberU64 signer).Voting :=
        ((hv.checkpoint cfg h.numberU64).expire h.numberU64).congr rfl rfl rfl
      rcases mem_votes_vote hvote with hold | hcast
      · exact (hrec.discardVote signer h.coinbase).2 v hold ⟨(hself hxs).trans (hself hsigner).symm, haddress⟩
      · have hdrop : authorize = false := by
          rw [hcast]
          simp [direction, record, hone]
        exact hspares ⟨hone, authorizes_eq_false.1 (hdrop ▸ hauth)⟩
    · exact Finset.insert_nonempty ..

end VotingState

/-- Every header of a chain spares the last signer of the snapshot before it. -/
def AllSpare (c : Crypto) (cfg : CliqueConfig) (s : Snapshot) (hs : List Header) : Prop :=
  ∀ k t h, s.apply c cfg (hs.take k) = .ok t → hs[k]? = some h → Spares t.toVotingState h

theorem nonempty_apply {c : Crypto} {cfg : CliqueConfig} {hs : List Header} : ∀ {s s' : Snapshot}, s.Voting → s.signers.Nonempty →
    AllSpare c cfg s hs → s.apply c cfg hs = .ok s' → s'.signers.Nonempty := by
  induction hs with
  | nil =>
    intro s s' _ hne _ ha
    cases ha
    exact hne
  | cons h hs ih =>
    intro s s' hv hne hspare ha
    obtain ⟨t, ht, ha⟩ := Snapshot.apply_cons.1 ha
    obtain ⟨_, v, happly, rfl⟩ := Snapshot.apply_singleton.1 ht
    obtain ⟨signer, authorize, _, hadm, hauth, rfl⟩ := VotingState.applyHeader_eq_ok.1 happly
    refine ih ((hv.ballot hadm.1).resolve ..) (VotingState.advance_nonempty hv hadm.1 hauth (hspare 0 s h rfl rfl)) ?_ ha
    intro k t' h' ht' hget
    exact hspare (k + 1) t' h' (Snapshot.apply_cons.2 ⟨_, ht, ht'⟩) hget

section Panics

variable {env : Setup} {s : Snapshot}

theorem inturn_bind_ne_panic {α : Type} (hs : s.signers.Nonempty) (number : Nat) (signer : Address) {f : Bool → Except Failure α}
    (hf : ∀ b, f b ≠ .error .panic) : (s.inturn number signer >>= f) ≠ .error .panic := by
  obtain ⟨b, hb⟩ := inturn_isOk hs number signer
  rw [hb]
  exact hf b

theorem verifySeal_ne_panic (hs : s.signers.Nonempty) (h : Header) : verifySeal env s h ≠ .error .panic := by
  unfold verifySeal
  split
  · simp
  · split
    · simp
    · refine inturn_bind_ne_panic hs _ _ fun b => ?_
      by_cases hd : h.difficulty = if b then diffInTurn else diffNoTurn
      · rw [if_neg (not_not.2 hd)]
        simp
      · rw [if_pos hd]
        simp

theorem ite_error_eq_ok {p : Prop} [Decidable p] {e : Error} {r : Except Error Unit} {u : Unit} :
    (if p then .error e else r) = .ok u ↔ ¬p ∧ r = .ok u := by
  by_cases hp : p
  · simp [hp]
  · simp [hp]

theorem length_of_checkFields {h : Header} {now : BitVec 64} {u : Unit} (hc : checkFields env h now = .ok u) :
    extraVanity + extraSeal ≤ h.extra.length := by
  simp only [checkFields, ite_error_eq_ok] at hc
  obtain ⟨_, _, _, _, _, hlen, _⟩ := hc
  exact Nat.le_of_not_lt hlen

theorem verifyHeader_ne_panic (hs : s.signers.Nonempty) (parent : Option Header) (h : Header) (now : BitVec 64) :
    verifyHeader env parent s h now ≠ .error .panic := by
  unfold verifyHeader
  split
  · simp
  · next hc =>
    have hlen := length_of_checkFields hc
    have hseal : verifySeal env s h ≠ .error .panic := verifySeal_ne_panic hs h
    have hlist : checkSignerList env s h ≠ .error .panic := by
      unfold checkSignerList
      repeat' split
      all_goals first | omega | simp
    unfold verifyCascadingFields
    repeat' split
    · simp
    · simp
    · simp
    · simp
    · cases hl : checkSignerList env s h with
      | ok u => exact hseal
      | error e =>
        rw [hl] at hlist
        exact hlist

theorem prepare_ne_panic (hs : s.signers.Nonempty) (parent : Option Header) (signer : Address) (proposals : List (Address × Bool))
    (random : Nat) (now : BitVec 64) (h : Header) : prepare env parent s signer proposals random now h ≠ .error .panic := by
  obtain ⟨b, hb⟩ := inturn_isOk hs (s.number + 1) signer
  unfold prepare calcDifficulty
  rw [hb]
  intro hpanic
  cases parent <;> cases hpanic

theorem sealBlock_ne_panic (hwiggle : 0 < wiggle s) {h : Header} (hlen : extraSeal ≤ h.extra.length) (signer : Address) (empty : Bool) :
    sealBlock env s signer empty h ≠ .error .panic := by
  simp only [sealBlock]
  repeat' split
  all_goals first | omega | simp

end Panics

/-- **No chain runs out of signers** whose headers spare the last one, and nothing
that the engine is asked on top of it panics; `Seal` needs room for the seal, and
a wait that fits an `int64`. -/
theorem never_out_of_signers (env : Setup) {hash : Hash} {signers : List Address} (hne : signers ≠ []) {hs : List Header} {s : Snapshot}
    (happly : (Snapshot.new 0 hash signers).apply env.crypto env.config hs = .ok s)
    (hspare : AllSpare env.crypto env.config (.new 0 hash signers) hs) :
    s.signers.Nonempty ∧ (∀ signer, calcDifficulty s signer ≠ .error .panic) ∧
      (∀ parent signer proposals random now h, prepare env parent s signer proposals random now h ≠ .error .panic) ∧
      (∀ parent h now, verifyHeader env parent s h now ≠ .error .panic) ∧
      ∀ h signer empty, 0 < wiggle s → extraSeal ≤ h.extra.length → sealBlock env s signer empty h ≠ .error .panic := by
  have hs := nonempty_apply (.empty ..) ((List.toFinset_nonempty_iff signers).2 hne) hspare happly
  exact ⟨hs, fun signer => inturn_bind_ne_panic hs _ signer (by simp), prepare_ne_panic hs, verifyHeader_ne_panic hs,
    fun _ signer empty hwiggle hlen => sealBlock_ne_panic hwiggle hlen signer empty⟩

/-- A vote to drop a signer. -/
def dropHeader (number : Nat) (signer : UInt8) (address : Address) : Header := { plainHeader number signer with coinbase := address }

/-- Two of three signers drop the third. -/
theorem never_out_of_signers_three : ∃ s, (Snapshot.new 0 0 [1, 2, 3]).apply plainCrypto (.new 15 0) [dropHeader 1 1 3, dropHeader 2 2 3] =
    .ok s ∧ s.signers = {1, 2} ∧ ∀ signer, calcDifficulty s signer ≠ .error .panic := by
  have hrun : ((Snapshot.new 0 0 [1, 2, 3]).apply plainCrypto (.new 15 0) [dropHeader 1 1 3, dropHeader 2 2 3]).toOption.map
      (·.signers) = some {1, 2} := by decide +kernel
  have hone : ((Snapshot.new 0 0 [1, 2, 3]).apply plainCrypto (.new 15 0) [dropHeader 1 1 3]).toOption.map (·.signers) =
      some {1, 2, 3} := by decide +kernel
  obtain ⟨s, hs, hsigners⟩ := Option.map_eq_some_iff.1 hrun
  have hspare : AllSpare plainCrypto (.new 15 0) (.new 0 0 [1, 2, 3]) [dropHeader 1 1 3, dropHeader 2 2 3] := by
    intro k t h ht hget hlast
    rcases k with _ | _ | k
    · cases ht
      cases hget
      exact absurd hlast.1 (by decide)
    · cases hget
      rw [show Snapshot.apply _ _ _ [dropHeader 1 1 3] = .ok t from ht] at hone
      exact absurd ((Option.some.inj hone).symm.trans hlast.1) (by decide)
    · simp at hget
  exact ⟨s, eq_ok_of_toOption hs, hsigners,
    (never_out_of_signers (plainSetup 0) (List.cons_ne_nil _ _) (eq_ok_of_toOption hs) hspare).2.1⟩

/-- The only signer drops itself: the block passes every check, and the next
`Prepare` divides by zero. -/
theorem last_signer_drops_itself : ∃ (h : Header) (s : Snapshot), verifyHeader (plainSetup 0) (some plainGenesis) plainSnapshot h 100 = .ok () ∧
    plainSnapshot.apply plainCrypto (plainSetup 0).config [h] = .ok s ∧ s.signers = ∅ ∧
    prepare (plainSetup 0) (some h) s 1 [] 0 100 { (default : Header) with number := 2 } = .error .panic := by
  let h : Header := { plainNext plainGenesis with
    coinbase := 1, difficulty := 2, time := 15, uncleHash := uncleHash plainCrypto, extra := List.replicate 32 0 ++ 1 :: List.replicate 64 0 }
  have hrun : (plainSnapshot.apply plainCrypto (plainSetup 0).config [h]).toOption.map (fun s => (s.signers,
      errorOf (prepare (plainSetup 0) (some h) s 1 [] 0 100 { (default : Header) with number := 2 }))) = some (∅, some .panic) := by
    decide +kernel
  obtain ⟨s, hs, hval⟩ := Option.map_eq_some_iff.1 hrun
  simp only [Prod.mk.injEq] at hval
  exact ⟨h, s, eq_ok_of_toOption (by decide +kernel), eq_ok_of_toOption hs, hval.1, eq_error_of_errorOf hval.2⟩

end NdnGeth.Clique
