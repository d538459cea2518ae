/-
What the open votes of a snapshot are, at every point of every chain: each
is by one who may sign, for or against an account as it makes sense, there is
one at most from each signer on each account, and the tally of an account is
the number of votes on it (`Voting`).

The tally is kept beside the votes by `cast` and `uncast`, and `uncast` drops
what it finds no tally for. While the invariant holds it always finds one, so
that the two stay in step (`standing`). From that it follows what a header
does to the set of signers: the vote that is in it decides on the account it
names and on no other, and only with more than half of the signers behind it.
-/
import NdnGeth.Clique.Snapshot

namespace NdnGeth.Clique

open Function
open Types (Address Header)

def votesOn (vs : List Vote) (a : Address) : Nat := vs.countP fun v => v.address = a

/-- The tallies of this many votes, each in the direction of its account. -/
def standing (dir : Address → Bool) (n : Address → Nat) (a : Address) : Option Tally :=
  if n a = 0 then none else some ⟨dir a, n a⟩

theorem standing_update (dir : Address → Bool) (n : Address → Nat) (a : Address) (k : Nat) :
    update (standing dir n) a (if k = 0 then none else some ⟨dir a, k⟩) = standing dir (update n a k) := by
  funext b
  by_cases hb : b = a
  · subst hb
    simp [standing]
  · simp [standing, hb]

namespace VotingState

variable {dir : Address → Bool} {n : Address → Nat}

variable {s : VotingState} {authorize : Bool} {a : Address}

theorem uncast_standing (h : s.tally = standing dir n) (hpos : 0 < n a)
    (hdir : authorize = dir a) : (s.uncast a authorize).tally = standing dir (update n a (n a - 1)) := by
  have hat : s.tally a = some ⟨dir a, n a⟩ := by
    rw [h]
    exact if_neg (by omega)
  rw [← standing_update, ← h]
  unfold uncast
  simp only [hat, hdir, ne_eq, not_true_eq_false, if_false]
  by_cases hone : 1 < n a
  · rw [if_pos hone, if_neg (by omega)]
  · rw [if_neg hone, if_pos (by omega)]

theorem cast_standing {s s' : VotingState} (hcast : s.cast a authorize = some s')
    (h : s.tally = standing dir n) (hdir : authorize = dir a) : s'.tally = standing dir (update n a (n a + 1)) := by
  rw [← standing_update, if_neg (by omega), ← h]
  unfold cast at hcast
  split at hcast
  · split at hcast
    · next old hold =>
      cases hcast
      rw [h, standing] at hold
      split at hold
      · cases hold
      · cases hold
        rfl
    · next hnone =>
      cases hcast
      rw [h, standing] at hnone
      split at hnone
      · next hzero => rw [hzero, hdir]
      · cases hnone
  · cases hcast

theorem foldl_uncast_standing {vs : List Vote} :
    ∀ {s : VotingState} {n : Address → Nat}, s.tally = standing dir n → (∀ v ∈ vs, v.authorize = dir v.address) →
      (∀ a, votesOn vs a ≤ n a) →
      (vs.foldl (fun s v => s.uncast v.address v.authorize) s).tally = standing dir fun a => n a - votesOn vs a := by
  induction vs with
  | nil =>
    intro s n h _ _
    exact h
  | cons v vs ih =>
    intro s n h hdir hle
    have hcount : ∀ a, votesOn (v :: vs) a = votesOn vs a + if v.address = a then 1 else 0 := by
      intro a
      simp [votesOn, List.countP_cons]
    have hpos : 0 < n v.address := by
      have := hle v.address
      rw [hcount, if_pos rfl] at this
      omega
    rw [List.foldl_cons, ih (uncast_standing h hpos (hdir v List.mem_cons_self)) (fun w hw => hdir w (List.mem_cons_of_mem _ hw))]
    · congr 1
      funext a
      rw [hcount]
      by_cases ha : a = v.address
      · subst ha
        rw [update_self, if_pos rfl]
        omega
      · rw [update_of_ne ha, if_neg (Ne.symm ha)]
        omega
    · intro a
      have := hle a
      rw [hcount] at this
      by_cases ha : a = v.address
      · subst ha
        rw [update_self]
        rw [if_pos rfl] at this
        omega
      · rw [update_of_ne ha]
        omega

/-! ## The open votes -/

/-- A vote is against a signer and for anybody else. -/
def direction (s : VotingState) (a : Address) : Bool := decide (a ∉ s.signers)

def SameVote (v w : Vote) : Prop := v.signer = w.signer ∧ v.address = w.address

/-- What the votes and the tallies are; the parts are kept together because
a tally is right only while the votes under it are. -/
structure Voting (s : VotingState) : Prop where
  voter : ∀ v ∈ s.votes, v.signer ∈ s.signers
  dir : ∀ v ∈ s.votes, v.authorize = s.direction v.address
  once : s.votes.Pairwise fun v w => ¬SameVote v w
  tally : s.tally = standing s.direction (votesOn s.votes)

theorem Voting.empty (signers : Finset Address) (recents : List (Nat × Address)) :
    Voting { signers := signers, recents := recents, votes := [], tally := fun _ => none } where
  voter _ hv := absurd hv List.not_mem_nil
  dir _ hv := absurd hv List.not_mem_nil
  once := .nil
  tally := rfl

theorem Voting.congr {s s' : VotingState} (h : s.Voting) (hs : s'.signers = s.signers) (hv : s'.votes = s.votes)
    (ht : s'.tally = s.tally) : s'.Voting := by
  have hdir : s'.direction = s.direction := by
    funext a
    simp [direction, hs]
  constructor
  · rw [hv, hs]
    exact h.voter
  · rw [hv, hdir]
    exact h.dir
  · rw [hv]
    exact h.once
  · rw [ht, hdir, hv]
    exact h.tally

theorem expire_votes (s : VotingState) (number : Nat) : (s.expire number).votes = s.votes := by
  unfold expire
  split <;> rfl

theorem expire_tally (s : VotingState) (number : Nat) : (s.expire number).tally = s.tally := by
  unfold expire
  split <;> rfl

theorem Voting.checkpoint (h : s.Voting) (cfg : CliqueConfig) (number : Nat) : (s.checkpoint cfg number).Voting := by
  unfold VotingState.checkpoint
  split
  · exact .empty ..
  · exact h

theorem Voting.expire (h : s.Voting) (number : Nat) : (s.expire number).Voting :=
  h.congr (expire_signers ..) (expire_votes ..) (expire_tally ..)

theorem Voting.discardVote (h : s.Voting) (signer address : Address) :
    (s.discardVote signer address).Voting ∧
      ∀ v ∈ (s.discardVote signer address).votes, ¬(v.signer = signer ∧ v.address = address) := by
  unfold VotingState.discardVote
  split
  · next hnone =>
    refine ⟨h, fun v hv => ?_⟩
    simpa using List.find?_eq_none.1 hnone v hv
  · next v hfind =>
    obtain ⟨hkey, as, bs, hvotes, has⟩ := List.find?_eq_some_iff_append.1 hfind
    simp only [decide_eq_true_eq] at hkey
    have hskip : ∀ b ∈ as, ¬decide (b.signer = signer ∧ b.address = address) = true := by
      intro b hb htrue
      have hfalse := has b hb
      rw [htrue] at hfalse
      cases hfalse
    rw [hvotes, List.eraseP_append_right _ hskip, List.eraseP_cons_of_pos (by simpa using hkey)]
    have hsub : (as ++ bs).Sublist s.votes := by
      rw [hvotes]
      exact (List.Sublist.refl as).append (List.sublist_cons_self v bs)
    have hmem : v ∈ s.votes := by simp [hvotes]
    have hcount : ∀ a, votesOn s.votes a = votesOn (as ++ bs) a + if v.address = a then 1 else 0 := by
      intro a
      simp only [votesOn, hvotes, List.countP_append, List.countP_cons, decide_eq_true_eq]
      omega
    have hpos : 0 < votesOn s.votes v.address := by
      rw [hcount, if_pos rfl]
      omega
    refine ⟨⟨fun w hw => ?_, fun w hw => ?_, h.once.sublist hsub, ?_⟩, fun w hw hsame => ?_⟩
    · show w.signer ∈ (s.uncast v.address v.authorize).signers
      rw [uncast_signers]
      exact h.voter w (hsub.subset hw)
    · rw [h.dir w (hsub.subset hw)]
      simp [direction]
    · have hdir : direction { s.uncast v.address v.authorize with votes := as ++ bs } = s.direction := by
        funext a
        simp [direction]
      rw [hdir]
      show (s.uncast v.address v.authorize).tally = standing s.direction (votesOn (as ++ bs))
      rw [uncast_standing h.tally hpos (h.dir v hmem)]
      congr 1
      funext a
      by_cases ha : a = v.address
      · subst ha
        rw [update_self, hcount, if_pos rfl]
        omega
      · rw [update_of_ne ha, hcount, if_neg (Ne.symm ha)]
        omega
    · have honce := h.once
      rw [hvotes] at honce
      obtain ⟨_, hbs, hcross⟩ := List.pairwise_append.1 honce
      rcases List.mem_append.1 hw with hw | hw
      · exact hcross w hw v List.mem_cons_self ⟨hsame.1.trans hkey.1.symm, hsame.2.trans hkey.2.symm⟩
      · exact (List.pairwise_cons.1 hbs).1 w hw ⟨hkey.1.trans hsame.1.symm, hkey.2.trans hsame.2.symm⟩

theorem validVote_iff :
    s.validVote a authorize = true ↔ authorize = s.direction a := by
  unfold validVote direction
  by_cases ha : a ∈ s.signers <;> cases authorize <;> simp [ha]

theorem Voting.vote (h : s.Voting) {signer address : Address} (hsigner : signer ∈ s.signers)
    (hnew : ∀ v ∈ s.votes, ¬(v.signer = signer ∧ v.address = address)) (number : Nat) (authorize : Bool) :
    (s.vote number signer address authorize).Voting := by
  unfold VotingState.vote
  split
  · exact h
  · next s' hcast =>
    obtain ⟨hsigners, _, hvotes⟩ := cast_eq_some hcast
    have hvalid : authorize = s.direction address := by
      unfold VotingState.cast at hcast
      split at hcast
      · next hv => exact validVote_iff.1 hv
      · cases hcast
    have hdir : direction { s' with votes := s'.votes ++ [⟨signer, number, address, authorize⟩] } = s.direction := by
      funext a
      simp [direction, hsigners]
    refine ⟨?_, ?_, ?_, ?_⟩
    · intro v hv
      show v.signer ∈ s'.signers
      rw [hsigners]
      rcases List.mem_append.1 hv with hv | hv
      · exact h.voter v (hvotes ▸ hv)
      · rw [List.mem_singleton.1 hv]
        exact hsigner
    · intro v hv
      rw [hdir]
      rcases List.mem_append.1 hv with hv | hv
      · exact h.dir v (hvotes ▸ hv)
      · rw [List.mem_singleton.1 hv]
        exact hvalid
    · rw [hvotes]
      refine List.pairwise_append.2 ⟨h.once, List.pairwise_singleton .., fun v hv w hw => ?_⟩
      rw [List.mem_singleton.1 hw]
      exact hnew v hv
    · rw [hdir]
      show s'.tally = _
      rw [cast_standing hcast h.tally hvalid, hvotes]
      congr 1
      funext a
      simp only [votesOn, List.countP_append, List.countP_singleton, decide_eq_true_eq]
      by_cases ha : a = address
      · subst ha
        rw [update_self, if_pos rfl]
      · rw [update_of_ne ha, if_neg (Ne.symm ha)]
        rfl

theorem Voting.discardVotesOn {s t : VotingState} {n : Address → Nat}
    (hdir : ∀ b, b ≠ a → t.direction b = s.direction b) (ht : t.tally = standing s.direction n)
    (hn : n = votesOn t.votes) (hvoter : ∀ v ∈ t.votes, v.signer ∈ t.signers)
    (hd : ∀ v ∈ t.votes, v.authorize = s.direction v.address) (honce : t.votes.Pairwise fun v w => ¬SameVote v w) :
    (t.discardVotesOn a).Voting := by
  have hmem : ∀ v ∈ (t.discardVotesOn a).votes, v ∈ t.votes ∧ v.address ≠ a := by
    intro v hv
    simpa [VotingState.discardVotesOn] using hv
  refine ⟨fun v hv => hvoter v (hmem v hv).1, fun v hv => ?_, honce.sublist List.filter_sublist, ?_⟩
  · rw [hd v (hmem v hv).1]
    exact (hdir _ (hmem v hv).2).symm
  · funext b
    have hcount : votesOn (t.discardVotesOn a).votes b = if b = a then 0 else votesOn t.votes b := by
      unfold votesOn VotingState.discardVotesOn
      rw [List.countP_filter]
      by_cases hb : b = a
      · subst hb
        rw [if_pos rfl, List.countP_eq_zero]
        simp
      · rw [if_neg hb]
        refine List.countP_congr fun v _ => ?_
        simp only [Bool.and_eq_true, decide_eq_true_eq]
        exact ⟨fun h => h.1, fun h => ⟨h, h ▸ hb⟩⟩
    show update t.tally a none b = _
    by_cases hb : b = a
    · subst hb
      simp [standing, hcount]
    · rw [update_of_ne hb, ht, hn]
      simp only [standing, hcount, if_neg hb]
      have : (t.discardVotesOn a).direction b = s.direction b := hdir b hb
      rw [this]

theorem Voting.resolve (h : s.Voting) (number : Nat) (a : Address) : (s.resolve number a).Voting := by
  unfold VotingState.resolve
  split
  · exact h
  · split
    · split
      · refine Voting.discardVotesOn (s := s) (fun b hb => ?_) h.tally rfl (fun v hv => ?_) h.dir h.once
        · simp [direction, hb]
        · exact Finset.mem_insert_of_mem (h.voter v hv)
      · -- what the one who leaves had voted is taken out of the tallies first
        have hsplit : ∀ b, votesOn s.votes b =
            votesOn (s.votes.filter fun v => v.signer = a) b + votesOn (s.votes.filter fun v => v.signer ≠ a) b := by
          intro b
          unfold votesOn
          rw [List.countP_eq_countP_filter_add _ _ fun v => v.signer = a]
          simp
        set t := VotingState.expire { s with signers := s.signers.erase a } number with ht
        have hvotes : t.votes = s.votes := expire_votes ..
        have htally : t.tally = standing s.direction (votesOn s.votes) := (expire_tally ..).trans h.tally
        have hsigners : (t.discardVotesOf a).signers = s.signers.erase a := by
          rw [discardVotesOf_signers]
          exact expire_signers ..
        have hleft : (t.discardVotesOf a).votes = s.votes.filter fun v => v.signer ≠ a := by
          show t.votes.filter _ = _
          rw [hvotes]
        have hmem : ∀ v ∈ (t.discardVotesOf a).votes, v ∈ s.votes ∧ v.signer ≠ a := by
          intro v hv
          rw [hleft] at hv
          simpa using hv
        refine Voting.discardVotesOn (s := s) (n := fun b => votesOn s.votes b - votesOn (s.votes.filter fun v => v.signer = a) b)
          (fun b hb => ?_) ?_ ?_ (fun v hv => ?_) (fun v hv => h.dir v (hmem v hv).1) ?_
        · unfold direction
          rw [hsigners]
          simp [hb]
        · show (List.foldl _ t (t.votes.filter _)).tally = _
          rw [hvotes]
          refine foldl_uncast_standing htally (fun v hv => h.dir v (List.mem_of_mem_filter hv)) fun b => ?_
          have := hsplit b
          omega
        · funext b
          rw [hleft]
          have := hsplit b
          omega
        · rw [hsigners]
          exact Finset.mem_erase.2 ⟨(hmem v hv).2, h.voter v (hmem v hv).1⟩
        · rw [hleft]
          exact h.once.sublist List.filter_sublist
    · exact h

/-! ## A header -/

/-- The votes as they are when the one in a header is counted. -/
def ballot (cfg : CliqueConfig) (s : VotingState) (h : Header) (signer : Address) (authorize : Bool) : VotingState :=
  let s := ((s.checkpoint cfg h.numberU64).expire h.numberU64).record h.numberU64 signer
  (s.discardVote signer h.coinbase).vote h.numberU64 signer h.coinbase authorize

variable {cfg : CliqueConfig} {s : VotingState} {h : Header} {signer : Address} {authorize : Bool}

@[simp] theorem ballot_signers : (s.ballot cfg h signer authorize).signers = s.signers := by
  unfold ballot
  rw [vote_signers, discardVote_signers]
  show ((s.checkpoint cfg h.numberU64).expire h.numberU64).signers = s.signers
  rw [expire_signers, checkpoint_signers]

theorem Voting.ballot (hs : s.Voting) (hsigner : signer ∈ s.signers) : (s.ballot cfg h signer authorize).Voting := by
  have hrec : (((s.checkpoint cfg h.numberU64).expire h.numberU64).record h.numberU64 signer).Voting :=
    ((hs.checkpoint cfg h.numberU64).expire h.numberU64).congr rfl rfl rfl
  obtain ⟨hdiscard, hnew⟩ := hrec.discardVote signer h.coinbase
  refine hdiscard.vote ?_ hnew h.numberU64 authorize
  rw [discardVote_signers]
  show signer ∈ ((s.checkpoint cfg h.numberU64).expire h.numberU64).signers
  rwa [expire_signers, checkpoint_signers]

/-- The signers who hold a vote that would change whether an account may sign. -/
def backers (s : VotingState) (a : Address) : Finset Address :=
  s.signers.filter fun x => ∃ v ∈ s.votes, v.signer = x ∧ v.address = a ∧ v.authorize = s.direction a

theorem Voting.card_backers (hs : s.Voting) (a : Address) : (s.backers a).card = votesOn s.votes a := by
  have hnodup : ((s.votes.filter fun v => v.address = a).map (·.signer)).Nodup := by
    refine (List.pairwise_map.2 ?_ : List.Pairwise _ _)
    refine (hs.once.filter _).imp_of_mem ?_
    intro v w hv hw hne hsame
    have hva : v.address = a := by simpa using (List.mem_filter.1 hv).2
    have hwa : w.address = a := by simpa using (List.mem_filter.1 hw).2
    exact hne ⟨hsame, hva.trans hwa.symm⟩
  have heq : s.backers a = ((s.votes.filter fun v => v.address = a).map (·.signer)).toFinset := by
    ext x
    simp only [backers, Finset.mem_filter, List.mem_toFinset, List.mem_map, List.mem_filter, decide_eq_true_eq]
    constructor
    · rintro ⟨_, v, hv, rfl, ha, _⟩
      exact ⟨v, ⟨hv, ha⟩, rfl⟩
    · rintro ⟨v, ⟨hv, rfl⟩, rfl⟩
      exact ⟨hs.voter v hv, v, hv, rfl, rfl, hs.dir v hv⟩
  rw [heq, List.toFinset_card_of_nodup hnodup, List.length_map, ← List.countP_eq_length_filter]
  rfl

/-- The vote in a header passes with a majority behind it, and then the account
changes sides. -/
theorem Voting.resolve_signers (hs : s.Voting) (number : Nat) (a : Address) :
    (s.resolve number a).signers = s.signers ∨
      (s.resolve number a).signers = (if a ∈ s.signers then s.signers.erase a else insert a s.signers) ∧
        s.signers.card < 2 * (s.backers a).card := by
  cases ht : s.tally a with
  | none =>
    left
    unfold VotingState.resolve
    rw [ht]
  | some t =>
    obtain rfl : t = ⟨s.direction a, votesOn s.votes a⟩ := by
      rw [hs.tally, standing] at ht
      split at ht
      · cases ht
      · cases ht
        rfl
    by_cases hvotes : s.signers.card / 2 < votesOn s.votes a
    · right
      refine ⟨?_, ?_⟩
      · unfold VotingState.resolve
        simp only [ht, hvotes, if_true, direction]
        by_cases ha : a ∈ s.signers
        · simp [ha, VotingState.discardVotesOn]
        · simp [ha, VotingState.discardVotesOn]
      · rw [hs.card_backers]
        omega
    · left
      unfold VotingState.resolve
      simp only [ht, if_neg hvotes]

end VotingState

/-- A header in which this signer votes for an account. -/
def voteHeader (number : Nat) (signer : UInt8) (address : Address) : Header :=
  { plainHeader number signer with coinbase := address, nonce := nonceAuthVote }

namespace Snapshot

variable {c : Crypto} {cfg : CliqueConfig}

theorem voting_apply {hs : List Header} :
    ∀ {s s' : Snapshot}, s.Voting → s.apply c cfg hs = .ok s' → s'.Voting := by
  induction hs with
  | nil =>
    intro s s' hv ha
    cases ha
    exact hv
  | cons h hs ih =>
    intro s s' hv ha
    obtain ⟨t, hone, hrest⟩ := apply_cons.1 ha
    obtain ⟨_, v, happ, rfl⟩ := apply_singleton.1 hone
    obtain ⟨signer, authorize, _, hadm, _, rfl⟩ := VotingState.applyHeader_eq_ok.1 happ
    exact ih ((hv.ballot hadm.1).resolve ..) hrest

/-- **The tally is exact.** After any chain that `apply` takes from a genesis,
the votes are by signers, one at most of each on an account, and the tally of
an account is their number and their common direction, which is the one that
makes sense. The next header leaves the signers as they are, or adds or
removes the account it names, with more than half of them behind that. -/
theorem tally_exact {hash : Core.Hash} {signers : List Address} {hs : List Header} {s : Snapshot}
    (happly : (Snapshot.new 0 hash signers).apply c cfg hs = .ok s) :
    (s.votes.Pairwise fun v w => ¬(v.signer = w.signer ∧ v.address = w.address)) ∧
    (∀ v ∈ s.votes, v.signer ∈ s.signers) ∧
    (∀ a, s.tally a = none ↔ ∀ v ∈ s.votes, v.address ≠ a) ∧
    (∀ a t, s.tally a = some t → t.votes = votesOn s.votes a ∧ (∀ v ∈ s.votes, v.address = a → v.authorize = t.authorize) ∧
      (t.authorize = true ↔ a ∉ s.signers)) ∧
    (∀ h s', s.apply c cfg [h] = .ok s' → ∃ signer authorize, ecrecover c h = .ok signer ∧
      VotingState.authorizes h.nonce = .ok authorize ∧
      (s'.signers = s.signers ∨
        s'.signers = (if h.coinbase ∈ s.signers then s.signers.erase h.coinbase else insert h.coinbase s.signers) ∧
          s.signers.card < 2 * ((s.ballot cfg h signer authorize).backers h.coinbase).card)) := by
  have hv : s.Voting := voting_apply (VotingState.Voting.empty ..) happly
  refine ⟨hv.once, hv.voter, ?_, ?_, ?_⟩
  · intro a
    rw [hv.tally]
    simp [standing, votesOn, List.countP_eq_zero]
  · intro a t ht
    rw [hv.tally, standing] at ht
    split at ht
    · cases ht
    · cases ht
      refine ⟨rfl, ?_, by simp [VotingState.direction]⟩
      rintro v hmem rfl
      exact hv.dir v hmem
  · intro h s' hone
    obtain ⟨_, v, happ, rfl⟩ := apply_singleton.1 hone
    obtain ⟨signer, authorize, hrec, hadm, hauth, rfl⟩ := VotingState.applyHeader_eq_ok.1 happ
    refine ⟨signer, authorize, hrec, hauth, ?_⟩
    have hb : (s.ballot cfg h signer authorize).Voting := hv.ballot hadm.1
    have hsides := hb.resolve_signers h.numberU64 h.coinbase
    rwa [VotingState.ballot_signers] at hsides

/-- Of three signers one has voted for a fourth, and a second one does so. -/
theorem tally_exact_second_vote :
    ∃ s s', (Snapshot.new 0 0 [1, 2, 3]).apply plainCrypto (.new 15 0) [voteHeader 1 1 4] = .ok s ∧
      s.apply plainCrypto (.new 15 0) [voteHeader 2 2 4] = .ok s' ∧ s.tally 4 = some ⟨true, 1⟩ ∧ votesOn s.votes 4 = 1 ∧
      s'.signers = insert 4 s.signers ∧ ∃ signer authorize,
        s.signers.card < 2 * ((s.ballot (.new 15 0) (voteHeader 2 2 4) signer authorize).backers 4).card := by
  have hrun : ((Snapshot.new 0 0 [1, 2, 3]).apply plainCrypto (.new 15 0) [voteHeader 1 1 4]).toOption.map (fun s =>
      (s.tally 4, s.signers, (s.apply plainCrypto (.new 15 0) [voteHeader 2 2 4]).toOption.map (·.signers))) =
        some (some ⟨true, 1⟩, {1, 2, 3}, some {4, 1, 2, 3}) := by
    decide +kernel
  obtain ⟨s, hs, hval⟩ := Option.map_eq_some_iff.1 hrun
  simp only [Prod.mk.injEq] at hval
  obtain ⟨htally, hsigners, hnext⟩ := hval
  obtain ⟨s', hs', hsigners'⟩ := Option.map_eq_some_iff.1 hnext
  obtain ⟨_, _, _, hcount, hchange⟩ := tally_exact (eq_ok_of_toOption hs)
  obtain ⟨signer, authorize, _, _, hsame | ⟨_, hmajority⟩⟩ := hchange _ _ (eq_ok_of_toOption hs')
  · rw [hsigners, hsigners'] at hsame
    exact absurd hsame (by decide +kernel)
  · refine ⟨s, s', eq_ok_of_toOption hs, eq_ok_of_toOption hs', htally, (hcount 4 _ htally).1.symm, ?_, signer, authorize, hmajority⟩
    rw [hsigners, hsigners']

end Snapshot

end NdnGeth.Clique
