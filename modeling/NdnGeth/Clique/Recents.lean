/-
The rule that a signer waits for others is written twice: a header is put
into the voting history by `Snapshot.apply`, and its seal is checked by
`verifySeal`. `apply` forgets the block that the window leaves behind and
then refuses every signer it still knows; `verifySeal` compares block
numbers.

The window moves by one at every block, while a vote may make it one wider
or one narrower; a narrower one is caught up with at once, so that nothing
older than the window is ever known (`Window`). Up to there the two
agree. In the first blocks after the genesis the window reaches below block
zero, and `number-limit` of `verifySeal` wraps: nothing is above it, and a
signer is let through that `apply` refuses.
-/
import NdnGeth.Clique.Snapshot

namespace NdnGeth.Clique

open Core (Hash)
open Types (Address Header)

variable {c : Crypto} {cfg : CliqueConfig}

/-- The subtraction of two `uint64` numbers. -/
def sub64 (a b : Nat) : Nat := if b ≤ a then a - b else 2 ^ 64 - (b - a)

/-- "Resolve the authorization key and check against signers" in `verifySeal`. -/
def sealSigner (c : Crypto) (s : Snapshot) (h : Header) : Except Error Address :=
  match ecrecover c h with
  | .error e => .error e
  | .ok signer =>
    if signer ∉ s.signers then .error .errUnauthorizedSigner
    else if s.recents.any fun e => e.2 = signer && sub64 h.numberU64 s.limit < e.1 then .error .errRecentlySigned
    else .ok signer

theorem sub64_of_le {a b : Nat} (hle : b ≤ a) : sub64 a b = a - b := if_pos hle

namespace VotingState

theorem limit_pos (s : VotingState) : 0 < s.limit := Nat.succ_pos _

theorem limit_le_insert (s : VotingState) (a : Address) : s.limit ≤ limit { s with signers := insert a s.signers } := by
  have := Finset.card_le_card (Finset.subset_insert a s.signers)
  unfold limit
  simp only
  omega

theorem limit_le_erase (s : VotingState) (a : Address) : s.limit ≤ limit { s with signers := s.signers.erase a } + 1 := by
  have := Finset.pred_card_le_card_erase (s := s.signers) (a := a)
  unfold limit
  simp only
  omega

/-! ## Nothing older than the window is known -/

/-- The window of the next block has every block that is known. -/
def Window (s : VotingState) (next : Nat) : Prop := ∀ e ∈ s.recents, next ≤ e.1 + s.limit

variable {s : VotingState} {n : Nat}

theorem Window.expire (h : s.Window n) : (s.expire n).Window (n + 1) := by
  intro e he
  obtain ⟨hmem, hne⟩ := mem_expire.1 he
  have hle := h e hmem
  have hlimit : (s.expire n).limit = s.limit := by
    unfold limit
    rw [expire_signers]
  rw [hlimit]
  by_cases hn : s.limit ≤ n
  · have := hne hn
    omega
  · omega

theorem Window.record (h : s.Window (n + 1)) (signer : Address) : (s.record n signer).Window (n + 1) := by
  intro e he
  show n + 1 ≤ e.1 + s.limit
  have := s.limit_pos
  rcases List.mem_cons.1 he with rfl | he
  · show n + 1 ≤ n + s.limit
    omega
  · exact h e (List.mem_of_mem_filter he)

theorem Window.congr {s s' : VotingState} (h : s.Window n) (hr : s'.recents = s.recents) (hl : s.limit ≤ s'.limit) :
    s'.Window n := by
  intro e he
  rw [hr] at he
  have := h e he
  omega

theorem Window.resolve (h : s.Window (n + 1)) (a : Address) : (s.resolve n a).Window (n + 1) := by
  rcases resolve_cases s n a with ⟨hs, hr⟩ | ⟨hs, hr⟩ | ⟨_, hs, hr⟩
  · refine h.congr hr ?_
    unfold limit
    rw [hs]
  · refine h.congr hr ((s.limit_le_insert a).trans ?_)
    unfold limit
    rw [hs]
  · -- one signer less: the window that it leaves is caught up with
    have hlimit := s.limit_le_erase a
    have hshrunk : Window { s with signers := s.signers.erase a } n := by
      intro e he
      have := h e he
      omega
    refine hshrunk.expire.congr hr ?_
    unfold limit
    rw [hs, expire_signers]

theorem Window.advance {h : Header} (hw : s.Window h.numberU64) (signer : Address) (authorize : Bool) :
    (s.advance cfg h signer authorize).Window (h.numberU64 + 1) := by
  unfold VotingState.advance
  have hw' : (s.checkpoint cfg h.numberU64).Window h.numberU64 := by
    refine hw.congr (checkpoint_recents ..) ?_
    unfold limit
    rw [checkpoint_signers]
  refine Window.resolve (Window.congr (hw'.expire.record signer) ?_ ?_) _
  · rw [vote_recents, discardVote_recents]
  · unfold limit
    rw [vote_signers, discardVote_signers]

theorem mem_resolve {a : Address} {e : Nat × Address} (he : e ∈ s.recents)
    (hlt : n < e.1 + (s.resolve n a).limit) : e ∈ (s.resolve n a).recents := by
  rcases resolve_cases s n a with ⟨_, hr⟩ | ⟨_, hr⟩ | ⟨_, hs, hr⟩
  · rwa [hr]
  · rwa [hr]
  · have hlimit : (s.resolve n a).limit = limit { s with signers := s.signers.erase a } := by
      unfold limit
      rw [hs]
    rw [hlimit] at hlt
    rw [hr]
    exact mem_expire.2 ⟨he, fun hle => by omega⟩

theorem mem_advance {h : Header} {signer : Address} {authorize : Bool} {e : Nat × Address}
    (he : e ∈ (((s.checkpoint cfg h.numberU64).expire h.numberU64).record h.numberU64 signer).recents)
    (hlt : h.numberU64 < e.1 + (s.advance cfg h signer authorize).limit) : e ∈ (s.advance cfg h signer authorize).recents := by
  refine mem_resolve ?_ hlt
  rwa [vote_recents, discardVote_recents]

end VotingState

namespace Snapshot

theorem apply_one {s s' : Snapshot} {h : Header} (ha : s.apply c cfg [h] = .ok s') :
    h.numberU64 = s.number + 1 ∧ s'.number = s.number + 1 ∧ ∃ signer authorize, ecrecover c h = .ok signer ∧
      s.Admits (s.number + 1) signer ∧ s'.toVotingState = s.advance cfg h signer authorize := by
  obtain ⟨hnum, v, hv, rfl⟩ := apply_singleton.1 ha
  obtain ⟨signer, authorize, hrec, hadm, _, rfl⟩ := VotingState.applyHeader_eq_ok.1 hv
  exact ⟨hnum, rfl, signer, authorize, hrec, hnum ▸ hadm, rfl⟩

theorem window_apply {hs : List Header} :
    ∀ {s s' : Snapshot}, s.Window (s.number + 1) → s.apply c cfg hs = .ok s' → s'.Window (s'.number + 1) := by
  induction hs with
  | nil =>
    intro s s' hw ha
    cases ha
    exact hw
  | cons h hs ih =>
    intro s s' hw ha
    obtain ⟨t, ht, ha⟩ := apply_cons.1 ha
    refine ih ?_ ha
    obtain ⟨hnum, hnext, signer, authorize, _, _, hadv⟩ := apply_one ht
    rw [hadv, hnext, ← hnum]
    exact VotingState.Window.advance (hnum ▸ hw) signer authorize

theorem window_reachable {number : Nat} {hash : Hash} {signers : List Address} {chain : List Header} {s : Snapshot}
    (ha : (Snapshot.new number hash signers).apply c cfg chain = .ok s) : s.Window (s.number + 1) :=
  window_apply (fun _ he => absurd he List.not_mem_nil) ha

end Snapshot

/-! ## The numbers of the blocks that are known -/

namespace VotingState

/-- The recent blocks have different numbers, after zero and up to this one. -/
structure Dated (s : VotingState) (number : Nat) : Prop where
  nodup : (s.recents.map Prod.fst).Nodup
  bounds : ∀ e ∈ s.recents, 0 < e.1 ∧ e.1 ≤ number

theorem expire_sublist (s : VotingState) (number : Nat) : (s.expire number).recents.Sublist s.recents := by
  unfold expire
  split
  · exact List.filter_sublist
  · exact .refl _

variable {s : VotingState} {n : Nat}

theorem Dated.sublist {s s' : VotingState} (h : s.Dated n) (hsub : s'.recents.Sublist s.recents) : s'.Dated n :=
  ⟨h.nodup.sublist (hsub.map _), fun e he => h.bounds e (hsub.subset he)⟩

theorem Dated.record (h : s.Dated n) (signer : Address) : (s.record (n + 1) signer).Dated (n + 1) where
  nodup := by
    refine List.nodup_cons.2 ⟨?_, h.nodup.sublist (List.filter_sublist.map _)⟩
    simp
  bounds e he := by
    rcases List.mem_cons.1 he with rfl | he
    · exact ⟨Nat.succ_pos n, Nat.le_refl _⟩
    · have hbounds := h.bounds e (List.mem_of_mem_filter he)
      exact ⟨hbounds.1, by omega⟩

theorem Dated.advance {h : Header} (hs : s.Dated n) (hn : h.numberU64 = n + 1) (signer : Address)
    (authorize : Bool) : (s.advance cfg h signer authorize).Dated (n + 1) := by
  have hrec : (((s.checkpoint cfg (n + 1)).expire (n + 1)).record (n + 1) signer).Dated (n + 1) := by
    refine Dated.record (hs.sublist ?_) signer
    rw [expire_checkpoint_recents]
    exact s.expire_sublist _
  unfold VotingState.advance
  rw [hn]
  refine hrec.sublist ?_
  rcases resolve_cases _ _ _ with ⟨-, hr⟩ | ⟨-, hr⟩ | ⟨-, -, hr⟩
  · rw [hr, vote_recents, discardVote_recents]
  · rw [hr, vote_recents, discardVote_recents]
  · rw [hr]
    refine (expire_sublist ..).trans ?_
    show List.Sublist (VotingState.recents _) _
    rw [vote_recents, discardVote_recents]

/-- The window of the next block has fewer blocks before it than it is wide. -/
theorem Dated.length_expire (h : s.Dated n) (hw : s.Window (n + 1)) :
    (s.expire (n + 1)).recents.length < s.limit := by
  have hkeys : ((s.expire (n + 1)).recents.map Prod.fst).toFinset ⊆ Finset.Ioo (n + 1 - s.limit) (n + 1) := by
    intro k hk
    obtain ⟨e, he, rfl⟩ := List.mem_map.1 (List.mem_toFinset.1 hk)
    obtain ⟨hmem, hne⟩ := mem_expire.1 he
    have hbounds := h.bounds e hmem
    have hle := hw e hmem
    rw [Finset.mem_Ioo]
    by_cases hlimit : s.limit ≤ n + 1
    · have := hne hlimit
      omega
    · omega
  have hcard := Finset.card_le_card hkeys
  rw [List.toFinset_card_of_nodup (h.nodup.sublist ((s.expire_sublist _).map _)), List.length_map, Nat.card_Ioo] at hcard
  have := s.limit_pos
  omega

end VotingState

variable {s : Snapshot} {h : Header} {hs : List Header} {signers : List Address} {chain : List Header}

theorem dated_apply :
    ∀ {s s' : Snapshot}, s.Dated s.number → s.apply c cfg hs = .ok s' → s'.Dated s'.number := by
  induction hs with
  | nil =>
    intro s s' hd ha
    cases ha
    exact hd
  | cons h hs ih =>
    intro s s' hd ha
    obtain ⟨t, ht, ha⟩ := Snapshot.apply_cons.1 ha
    refine ih ?_ ha
    obtain ⟨hnum, hnext, signer, authorize, _, _, hadv⟩ := Snapshot.apply_one ht
    rw [hadv, hnext]
    exact hd.advance hnum signer authorize

theorem dated_reachable {hash : Hash}
    (ha : (Snapshot.new 0 hash signers).apply c cfg chain = .ok s) : s.Dated s.number :=
  dated_apply (s := .new 0 hash signers) ⟨List.nodup_nil, fun _ he => absurd he List.not_mem_nil⟩ ha

/-! ## The two rules -/

theorem apply_isOk_iff (hnum : h.numberU64 = s.number + 1)
    (hnonce : h.nonce = nonceAuthVote ∨ h.nonce = nonceDropVote) :
    (∃ s', s.apply c cfg [h] = .ok s') ↔ ∃ signer, ecrecover c h = .ok signer ∧ s.Admits h.numberU64 signer := by
  have hauth : ∃ authorize, VotingState.authorizes h.nonce = .ok authorize := by
    rcases hnonce with hn | hn <;> rw [hn]
    · exact ⟨true, rfl⟩
    · exact ⟨false, rfl⟩
  obtain ⟨authorize, hauth⟩ := hauth
  simp only [Snapshot.apply_singleton, VotingState.applyHeader_eq_ok]
  constructor
  · rintro ⟨_, _, _, ⟨signer, _, hrec, hadm, _⟩, _⟩
    exact ⟨signer, hrec, hadm⟩
  · rintro ⟨signer, hrec, hadm⟩
    exact ⟨_, hnum, _, ⟨signer, authorize, hrec, hadm, hauth, rfl⟩, rfl⟩

theorem sealSigner_isOk_iff :
    (∃ signer, sealSigner c s h = .ok signer) ↔ ∃ signer, ecrecover c h = .ok signer ∧ signer ∈ s.signers ∧
      ∀ e ∈ s.recents, e.2 = signer → e.1 ≤ sub64 h.numberU64 s.limit := by
  unfold sealSigner
  cases ecrecover c h with
  | error e => simp
  | ok signer =>
    by_cases hmem : signer ∈ s.signers
    · simp only [hmem, not_true_eq_false, if_false, List.any_eq_true, Bool.and_eq_true, decide_eq_true_eq]
      split
      · next hany =>
        obtain ⟨e, he, heq, hlt⟩ := hany
        constructor
        · rintro ⟨_, h⟩
          cases h
        · rintro ⟨_, hsigner, _, hall⟩
          exact absurd (hall e he (heq.trans (Except.ok.inj hsigner))) (by omega)
      · next hany =>
        push Not at hany
        exact ⟨fun _ => ⟨signer, rfl, hmem, hany⟩, fun _ => ⟨signer, rfl⟩⟩
    · simp [hmem]

theorem admits_iff {n : Nat} (hw : s.Window n) (hlimit : s.limit ≤ n) (signer : Address) :
    s.Admits n signer ↔ signer ∈ s.signers ∧ ∀ e ∈ s.recents, e.2 = signer → e.1 ≤ sub64 n s.limit := by
  unfold VotingState.Admits
  refine and_congr_right fun _ => ?_
  simp only [VotingState.mem_expire, sub64_of_le hlimit]
  constructor
  · intro h e he heq
    by_contra hgt
    exact h e ⟨he, fun _ => by omega⟩ heq
  · rintro h e ⟨he, hne⟩ heq
    have h1 := h e he heq
    have h2 := hw e he
    have h3 := hne hlimit
    omega

/-- The window is behind the genesis, or the header is not of a signer that is
known as a recent one. -/
def WindowOrNew (c : Crypto) (s : Snapshot) (h : Header) : Prop :=
  s.limit ≤ h.numberU64 ∨ ∀ e ∈ s.recents, e.2 ∈ s.signers → ecrecover c h ≠ .ok e.2

theorem sealSigner_iff_apply (hw : s.Window (s.number + 1)) (hnum : h.numberU64 = s.number + 1)
    (hnonce : h.nonce = nonceAuthVote ∨ h.nonce = nonceDropVote) (hcond : WindowOrNew c s h) :
    (∃ signer, sealSigner c s h = .ok signer) ↔ ∃ s', s.apply c cfg [h] = .ok s' := by
  rw [apply_isOk_iff hnum hnonce, sealSigner_isOk_iff]
  refine exists_congr fun signer => and_congr_right fun hrec => ?_
  rcases hcond with hlimit | hnew
  · exact (admits_iff (hnum ▸ hw) hlimit signer).symm
  · unfold VotingState.Admits
    refine and_congr_right fun hmem => ?_
    have hne : ∀ e ∈ s.recents, e.2 ≠ signer := fun e he heq => hnew e he (heq ▸ hmem) (heq ▸ hrec)
    exact ⟨fun _ e he => hne e (VotingState.mem_expire.1 he).1, fun _ e he heq => absurd heq (hne e he)⟩

/-- Before the window is behind the genesis `number-limit` wraps, and is above
every block. -/
theorem windowOrNew_of_agrees (hd : s.Dated s.number) (hnum : h.numberU64 = s.number + 1)
    (hnonce : h.nonce = nonceAuthVote ∨ h.nonce = nonceDropVote) (hlimit : s.limit < 2 ^ 64)
    (hagree : (∃ signer, sealSigner c s h = .ok signer) → ∃ s', s.apply c cfg [h] = .ok s') : WindowOrNew c s h := by
  rw [apply_isOk_iff hnum hnonce, sealSigner_isOk_iff] at hagree
  refine or_iff_not_imp_left.2 fun hwide e he hmem hrec => ?_
  have hseen : ∀ e' ∈ s.recents, e'.2 = e.2 → e'.1 ≤ sub64 h.numberU64 s.limit := by
    intro e' he' _
    have := (hd.bounds e' he').2
    rw [sub64, if_neg hwide]
    omega
  obtain ⟨signer, hrec', hadm⟩ := hagree ⟨e.2, hrec, hmem, hseen⟩
  cases hrec.symm.trans hrec'
  exact hadm.2 e (VotingState.mem_expire.2 ⟨he, fun hle => absurd hle hwide⟩) rfl

/-! ## Blocks in a row -/

theorem mem_recents_apply {s s' : Snapshot} (ha : s.apply c cfg [h] = .ok s') (hsame : s'.signers = s.signers)
    {e : Nat × Address} (he : e ∈ s.recents) (hle : e.1 ≤ s.number) (hlt : s.number + 1 < e.1 + s.limit) : e ∈ s'.recents := by
  obtain ⟨hnum, _, signer, authorize, _, _, hadv⟩ := Snapshot.apply_one ha
  have hlimit : s'.limit = s.limit := by
    unfold VotingState.limit
    rw [hsame]
  rw [hadv] at hlimit ⊢
  refine VotingState.mem_advance (List.mem_cons_of_mem _ (List.mem_filter.2 ⟨?_, ?_⟩)) (by omega)
  · rw [VotingState.expire_checkpoint_recents]
    exact VotingState.mem_expire.2 ⟨he, fun _ => by omega⟩
  · have hne : e.1 ≠ h.numberU64 := by omega
    simpa using hne

theorem mem_recents_self {s s' : Snapshot} (ha : s.apply c cfg [h] = .ok s') {signer : Address}
    (hrec : ecrecover c h = .ok signer) : (s'.number, signer) ∈ s'.recents := by
  obtain ⟨hnum, hnext, signer', authorize, hrec', _, hadv⟩ := Snapshot.apply_one ha
  cases hrec.symm.trans hrec'
  have := s'.limit_pos
  rw [hnext, ← hnum]
  rw [hadv] at this ⊢
  exact VotingState.mem_advance List.mem_cons_self (by omega)

def Unchanged (c : Crypto) (cfg : CliqueConfig) (s : Snapshot) (hs : List Header) : Prop :=
  ∀ k t, s.apply c cfg (hs.take k) = .ok t → t.signers = s.signers

theorem Unchanged.head {s t : Snapshot} (hu : Unchanged c cfg s (h :: hs))
    (ht : s.apply c cfg [h] = .ok t) : t.signers = s.signers := hu 1 t (by simpa using ht)

theorem Unchanged.tail {s t : Snapshot} (hu : Unchanged c cfg s (h :: hs))
    (ht : s.apply c cfg [h] = .ok t) : Unchanged c cfg t hs := by
  intro k t' ht'
  have happly : s.apply c cfg ((h :: hs).take (k + 1)) = .ok t' := by
    rw [List.take_succ_cons]
    exact Snapshot.apply_cons.2 ⟨t, ht, ht'⟩
  rw [hu (k + 1) t' happly, hu.head ht]

theorem ecrecover_ne_of_mem_recents :
    ∀ {s s' : Snapshot}, s.apply c cfg hs = .ok s' → Unchanged c cfg s hs → ∀ {e : Nat × Address}, e ∈ s.recents →
      e.1 ≤ s.number → s.number + hs.length < e.1 + s.limit → ∀ h ∈ hs, ecrecover c h ≠ .ok e.2 := by
  induction hs with
  | nil =>
    intro _ _ _ _ _ _ _ _ h hh
    cases hh
  | cons h hs ih =>
    intro s s' ha hu e he hle hlt
    obtain ⟨t, ht, ha⟩ := Snapshot.apply_cons.1 ha
    have hsame := hu.head ht
    rw [List.length_cons] at hlt
    obtain ⟨_, hnext, signer, _, hrec, hadm, _⟩ := Snapshot.apply_one ht
    rintro h' (_ | ⟨_, hh'⟩)
    · intro heq
      have hexp : e ∈ (s.expire (s.number + 1)).recents := VotingState.mem_expire.2 ⟨he, fun _ => by omega⟩
      exact hadm.2 e hexp (Except.ok.inj (heq.symm.trans hrec))
    · have hlimit : t.limit = s.limit := by
        unfold VotingState.limit
        rw [hsame]
      exact ih ha (hu.tail ht) (mem_recents_apply ht hsame he hle (by omega)) (by omega) (by omega) h' hh'

theorem ecrecover_nodup :
    ∀ {s s' : Snapshot}, s.apply c cfg hs = .ok s' → Unchanged c cfg s hs → hs.length ≤ s.limit →
      (hs.map (ecrecover c)).Nodup := by
  induction hs with
  | nil =>
    intro _ _ _ _ _
    exact List.nodup_nil
  | cons h hs ih =>
    intro s s' ha hu hlen
    obtain ⟨t, ht, ha⟩ := Snapshot.apply_cons.1 ha
    obtain ⟨_, _, signer, _, hrec, _⟩ := Snapshot.apply_one ht
    have hlimit : t.limit = s.limit := by
      unfold VotingState.limit
      rw [hu.head ht]
    rw [List.length_cons] at hlen
    rw [List.map_cons, List.nodup_cons]
    refine ⟨fun hmem => ?_, ih ha (hu.tail ht) (by omega)⟩
    obtain ⟨h', hh', heq⟩ := List.mem_map.1 hmem
    -- the block just signed is in the window of all the others
    have hself := mem_recents_self ht hrec
    exact ecrecover_ne_of_mem_recents ha (hu.tail ht) hself (Nat.le_refl _) (by show t.number + hs.length < t.number + _; omega)
      h' hh' (heq.trans hrec)

/-- On every snapshot that `apply` reaches from a genesis, `verifySeal` lets
the signer of a next header through exactly if `apply` does, where the window
does not reach below the genesis or the signer is new, and nowhere else (the
window is a `uint64`); and as many blocks in a row as the window has, with the
signers the same, have different ones. -/
theorem seal_agrees_with_apply {hash : Hash}
    (hreach : (Snapshot.new 0 hash signers).apply c cfg chain = .ok s) :
    (∀ h : Header, h.numberU64 = s.number + 1 → (h.nonce = nonceAuthVote ∨ h.nonce = nonceDropVote) →
      (WindowOrNew c s h → ((∃ signer, sealSigner c s h = .ok signer) ↔ ∃ s', s.apply c cfg [h] = .ok s')) ∧
      (s.limit < 2 ^ 64 → ((∃ signer, sealSigner c s h = .ok signer) ↔ ∃ s', s.apply c cfg [h] = .ok s') →
        WindowOrNew c s h)) ∧
    ∀ hs s', s.apply c cfg hs = .ok s' → Unchanged c cfg s hs → hs.length ≤ s.signers.card / 2 + 1 →
      (hs.map (ecrecover c)).Nodup :=
  ⟨fun _ hnum hnonce => ⟨sealSigner_iff_apply (Snapshot.window_reachable hreach) hnum hnonce,
      fun hlimit hagree => windowOrNew_of_agrees (dated_reachable hreach) hnum hnonce hlimit hagree.1⟩,
    fun _ _ ha hu hlen => ecrecover_nodup ha hu hlen⟩

def errorOf {ε α : Type} : Except ε α → Option ε
  | .error e => some e
  | .ok _ => none

theorem eq_error_of_errorOf {ε α : Type} {x : Except ε α} {e : ε} (h : errorOf x = some e) : x = .error e := by
  cases x with
  | error e' => exact congrArg Except.error (Option.some.inj h)
  | ok b => cases h

theorem seal_agrees_with_apply_three_signers :
    ∃ s, (Snapshot.new 0 0 [1, 2, 3]).apply plainCrypto (.new 15 0) [plainHeader 1 1, plainHeader 2 2] = .ok s ∧
      (plainHeader 3 1).numberU64 = s.number + 1 ∧ WindowOrNew plainCrypto s (plainHeader 3 1) ∧
      ((∃ signer, sealSigner plainCrypto s (plainHeader 3 1) = .ok signer) ↔
        ∃ s', s.apply plainCrypto (.new 15 0) [plainHeader 3 1] = .ok s') := by
  have hrun : ((Snapshot.new 0 0 [1, 2, 3]).apply plainCrypto (.new 15 0) [plainHeader 1 1, plainHeader 2 2]).toOption.map
      (fun s => (s.number, s.limit)) = some (2, 2) := by
    decide +kernel
  obtain ⟨s, hs, hval⟩ := Option.map_eq_some_iff.1 hrun
  have hnum : (plainHeader 3 1).numberU64 = s.number + 1 := by
    rw [(Prod.mk.inj hval).1]
    rfl
  have hcond : WindowOrNew plainCrypto s (plainHeader 3 1) := by
    refine .inl ?_
    rw [(Prod.mk.inj hval).2]
    decide
  exact ⟨s, eq_ok_of_toOption hs, hnum, hcond, ((seal_agrees_with_apply (eq_ok_of_toOption hs)).1 _ hnum (.inr rfl)).1 hcond⟩

/-- With four signers the window has three blocks. The first one signs block
one and then block two: its seal passes, and `apply` refuses the block as
recently signed, so that no block can follow it. -/
theorem seal_passes_that_apply_refuses :
    ∃ s, (Snapshot.new 0 0 [1, 2, 3, 4]).apply plainCrypto (.new 15 0) [plainHeader 1 1] = .ok s ∧
      (plainHeader 2 1).numberU64 = s.number + 1 ∧ (plainHeader 2 1).nonce = nonceDropVote ∧
      sealSigner plainCrypto s (plainHeader 2 1) = .ok 1 ∧
      s.apply plainCrypto (.new 15 0) [plainHeader 2 1] = .error .errRecentlySigned := by
  have hrun : ((Snapshot.new 0 0 [1, 2, 3, 4]).apply plainCrypto (.new 15 0) [plainHeader 1 1]).toOption.map
      (fun s => (s.number, (sealSigner plainCrypto s (plainHeader 2 1)).toOption,
        errorOf (s.apply plainCrypto (.new 15 0) [plainHeader 2 1]))) = some (1, some 1, some .errRecentlySigned) := by
    decide +kernel
  obtain ⟨s, hs, hval⟩ := Option.map_eq_some_iff.1 hrun
  simp only [Prod.mk.injEq] at hval
  obtain ⟨hnum, hseal, happly⟩ := hval
  refine ⟨s, eq_ok_of_toOption hs, ?_, rfl, eq_ok_of_toOption hseal, eq_error_of_errorOf happly⟩
  rw [hnum]
  rfl

/-! ## The next signer -/

/-- **A block can always follow**: on every chain from a genesis that has a signer
left, there is one whose next block `apply` accepts, whatever it votes. -/
theorem block_can_follow {hash : Hash}
    (hreach : (Snapshot.new 0 hash signers).apply c cfg chain = .ok s) (hne : s.signers.Nonempty) :
    ∃ signer ∈ s.signers, ∀ h : Header, h.numberU64 = s.number + 1 → (h.nonce = nonceAuthVote ∨ h.nonce = nonceDropVote) →
      ecrecover c h = .ok signer → ∃ s', s.apply c cfg [h] = .ok s' := by
  have hfew := (dated_reachable hreach).length_expire (Snapshot.window_reachable hreach)
  have hcard : ((s.expire (s.number + 1)).recents.map Prod.snd).toFinset.card < s.signers.card := by
    have hle := List.toFinset_card_le ((s.expire (s.number + 1)).recents.map Prod.snd)
    have hpos := hne.card_pos
    rw [List.length_map] at hle
    unfold VotingState.limit at hfew
    omega
  obtain ⟨signer, hmem, hnot⟩ := Finset.exists_mem_notMem_of_card_lt_card hcard
  refine ⟨signer, hmem, fun h hnum hnonce hrec => (apply_isOk_iff hnum hnonce).2 ⟨signer, hrec, hmem, ?_⟩⟩
  intro e he heq
  rw [hnum] at he
  exact hnot (List.mem_toFinset.2 (List.mem_map.2 ⟨e, he, heq⟩))

/-- After two blocks of three signers. -/
theorem block_can_follow_three :
    ∃ s, (Snapshot.new 0 0 [1, 2, 3]).apply plainCrypto (.new 15 0) [plainHeader 1 1, plainHeader 2 2] = .ok s ∧
      ∃ signer ∈ s.signers, ∀ h : Header, h.numberU64 = s.number + 1 → (h.nonce = nonceAuthVote ∨ h.nonce = nonceDropVote) →
        ecrecover plainCrypto h = .ok signer → ∃ s', s.apply plainCrypto (.new 15 0) [h] = .ok s' := by
  have hrun : ((Snapshot.new 0 0 [1, 2, 3]).apply plainCrypto (.new 15 0) [plainHeader 1 1, plainHeader 2 2]).toOption.map
      (fun s => s.signers) = some {1, 2, 3} := by
    decide +kernel
  obtain ⟨s, hs, hsigners⟩ := Option.map_eq_some_iff.1 hrun
  exact ⟨s, eq_ok_of_toOption hs, block_can_follow (eq_ok_of_toOption hs) (hsigners ▸ Finset.insert_nonempty ..)⟩

end NdnGeth.Clique
