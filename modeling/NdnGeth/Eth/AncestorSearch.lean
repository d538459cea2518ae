/-
The ancestor search against a master that may answer anything
(`ndn/eth/downloader.go`, `Downloader.findAncestor`).

The bounds of the interval are taken from the numbers of the master's headers,
and of a header it is only asked whether the local chain has it. A local chain
also has headers of side branches, above its head and outside of what was
asked for: such a header makes the start of the interval greater than its end.
-/
import NdnGeth.Eth.Downloader

namespace NdnGeth.Eth

open Core (Hash Header)

/-- What the master answers to the requests, one after the other. -/
abbrev Replies := Nat → Except FetchError (List Header)

/-- The surroundings of one round. -/
def roundEnv (known : Hash → UInt64 → Bool) (reply : Except FetchError (List Header)) : AncestorEnv := ⟨fun _ _ _ => reply, known⟩

/-- The loop from round `i` on, cut off after `fuel` rounds (`none`). -/
def searchLoop (known : Hash → UInt64 → Bool) (replies : Replies) : (fuel i : Nat) → UInt64 → UInt64 →
    Option (Except FetchError UInt64)
  | 0, _, _, _ => none
  | fuel + 1, i, startbnum, endbnum =>
    match findAncestorRound (roundEnv known (replies i)) startbnum endbnum with
    | .ancestor num => some (.ok num)
    | .fail e => some (.error e)
    | .again startbnum endbnum => searchLoop known replies fuel (i + 1) startbnum endbnum

/-- `Downloader.findAncestor` with these replies. -/
def searchAncestor (known : Hash → UInt64 → Bool) (replies : Replies) (fuel : Nat) (localh : UInt64) :
    Option (Except FetchError UInt64) :=
  if localh = 0 then some (.ok 0) else searchLoop known replies fuel 0 1 localh

/-- Round `i` is reached, with this interval. -/
inductive Visits (known : Hash → UInt64 → Bool) (replies : Replies) (localh : UInt64) : Nat → UInt64 → UInt64 → Prop
  | first : localh ≠ 0 → Visits known replies localh 0 1 localh
  | next {i : Nat} {s e s' e' : UInt64} : Visits known replies localh i s e →
    findAncestorRound (roundEnv known (replies i)) s e = .again s' e' → Visits known replies localh (i + 1) s' e'

/-- Neither `endbnum - startbnum` nor the subtraction in `from` underflows. -/
def NoUnderflow (startbnum endbnum : UInt64) : Prop :=
  startbnum ≤ endbnum ∧
    ((request startbnum endbnum).2.2.2 = false →
      ((request startbnum endbnum).2.2.1 + 1).toUInt64 * (MAX_HEADERS_COUNT - 1) ≤ endbnum)

instance (s e : UInt64) : Decidable (NoUnderflow s e) := inferInstanceAs (Decidable (_ ∧ (_ → _)))

/-- What is asked of the header that a round settles on: in the last round it is
not above the local head, in another one not above the end of the interval,
nor so high that the interval that begins there has no end. -/
def Within (localh s e : UInt64) (h : Header) : Prop :=
  if (request s e).2.2.2 then h.numberU64 ≤ localh
  else h.numberU64 ≤ e ∧ (h.numberU64 ≠ e → h.numberU64.toNat + (request s e).2.2.1.toNat < 2 ^ 64)

/-- In every round, the last header of the reply that the local chain has is one
that may be there. -/
def Tame (known : Hash → UInt64 → Bool) (replies : Replies) (localh : UInt64) : Prop :=
  ∀ i s e, Visits known replies localh i s e → ∀ headers h, replies i = .ok headers →
    commonHeader (roundEnv known (replies i)) headers = some h → Within localh s e h

structure Bounds (localh s e : UInt64) : Prop where
  le : s.toNat ≤ e.toNat
  total_lt : e.toNat - s.toNat + 1 < 2 ^ 64
  top : e.toNat ≤ localh.toNat

variable {known : Hash → UInt64 → Bool} {replies : Replies} {localh s e : UInt64} {i : Nat}

theorem Bounds.noUnderflow (hb : Bounds localh s e) : NoUnderflow s e := by
  refine ⟨UInt64.le_iff_toNat_le.2 hb.le, fun hlast => ?_⟩
  by_cases ht : e.toNat - s.toNat + 1 ≤ 15
  · obtain ⟨count, hreq, -⟩ := request_short hb.total_lt hb.le ht
    rw [hreq] at hlast
    cases hlast
  · obtain ⟨start, count, skip, hreq, -, -, -, hskip, -⟩ := request_long hb.total_lt (by omega)
    have he := e.toNat_lt
    rw [hreq]
    simp only [UInt64.le_iff_toNat_le, UInt64.toNat_mul, UInt16.toNat_toUInt64, UInt16.toNat_add, UInt16.toNat_one]
    have hmax : (MAX_HEADERS_COUNT - 1).toNat = 14 := rfl
    rw [hmax]
    have := Nat.mod_le (skip.toNat + 1) (2 ^ 16)
    have := Nat.mod_le ((skip.toNat + 1) % 2 ^ 16 * 14) (2 ^ 64)
    omega

inductive RoundDone (localh s e : UInt64) : Round → Prop
  | fail {err : FetchError} : RoundDone localh s e (.fail err)
  | ancestor {num : UInt64} : num ≤ localh → RoundDone localh s e (.ancestor num)
  | again {s' e' : UInt64} : Bounds localh s' e' → e'.toNat - s'.toNat < e.toNat - s.toNat →
    RoundDone localh s e (.again s' e')

theorem searchRound_eq (known : Hash → UInt64 → Bool) {start : UInt64} {count skip : UInt16} {last : Bool}
    (hreq : request s e = (start, count, skip, last)) (headers : List Header) :
    findAncestorRound (roundEnv known (.ok headers)) s e =
      shrink s e start skip last (commonHeader (roundEnv known (.ok headers)) headers) := by
  simp only [findAncestorRound, hreq]
  rfl

theorem round_done (hb : Bounds localh s e) (reply : Except FetchError (List Header))
    (hw : ∀ headers h, reply = .ok headers → commonHeader (roundEnv known reply) headers = some h → Within localh s e h) :
    RoundDone localh s e (findAncestorRound (roundEnv known reply) s e) := by
  have htop := hb.top
  have hle := hb.le
  have htotal := hb.total_lt
  cases reply with
  | error err => exact .fail
  | ok headers =>
    have hwithin := fun h => hw headers h rfl
    by_cases ht : e.toNat - s.toNat + 1 ≤ 15
    · obtain ⟨count, hreq, -⟩ := request_short hb.total_lt hb.le ht
      rw [searchRound_eq known hreq]
      cases hc : commonHeader (roundEnv known (.ok headers)) headers with
      | none => exact .ancestor (UInt64.le_iff_toNat_le.2 (by simp))
      | some h =>
        have := hwithin h hc
        rw [Within, hreq] at this
        exact .ancestor this
    · obtain ⟨start, count, skip, hreq, -, hlt, hstart, hskip, -⟩ := request_long hb.total_lt (by omega)
      rw [searchRound_eq known hreq]
      cases hc : commonHeader (roundEnv known (.ok headers)) headers with
      | none =>
        have hsub : (start - 1).toNat = start.toNat - 1 := by
          rw [UInt64.toNat_sub_of_le _ _ (by rw [UInt64.le_iff_toNat_le, UInt64.toNat_one]; omega), UInt64.toNat_one]
        exact .again ⟨by omega, by omega, by omega⟩ (by omega)
      | some h =>
        have hwithin := hwithin h hc
        rw [Within, hreq] at hwithin
        obtain ⟨hnum, hfits⟩ : h.numberU64 ≤ e ∧ (h.numberU64 ≠ e → h.numberU64.toNat + skip.toNat < 2 ^ 64) := hwithin
        rw [UInt64.le_iff_toNat_le] at hnum
        rw [shrink]
        split
        · exact .ancestor (UInt64.le_iff_toNat_le.2 (by omega))
        · rename_i hne
          have hsum : (h.numberU64 + skip.toUInt64).toNat = h.numberU64.toNat + skip.toNat := by
            have := hfits hne
            rw [UInt64.toNat_add, UInt16.toNat_toUInt64, Nat.mod_eq_of_lt this]
          split
          · rename_i hgt
            rw [gt_iff_lt, UInt64.lt_iff_toNat_lt, hsum] at hgt
            exact .again ⟨by omega, by omega, by omega⟩ (by omega)
          · rename_i hgt
            rw [gt_iff_lt, UInt64.lt_iff_toNat_lt, hsum] at hgt
            exact .again ⟨by omega, by omega, by omega⟩ (by omega)

theorem bounds_first (h : localh ≠ 0) : Bounds localh 1 localh := by
  have hpos : localh.toNat ≠ 0 := fun h0 => h (UInt64.toNat_inj.1 (by simpa using h0))
  have := localh.toNat_lt
  refine ⟨?_, ?_, le_rfl⟩
  · rw [UInt64.toNat_one]
    omega
  · rw [UInt64.toNat_one]
    omega

theorem Tame.bounds (ht : Tame known replies localh) (hv : Visits known replies localh i s e) : Bounds localh s e := by
  induction hv with
  | first h => exact bounds_first h
  | @next i s e s' e' hv hr ih =>
    have hdone := round_done ih (replies i) (ht i s e hv)
    rw [hr] at hdone
    cases hdone with
    | again hb _ => exact hb

theorem Tame.returns (ht : Tame known replies localh) {bound : Nat} (hv : Visits known replies localh i s e)
    (hlen : e.toNat - s.toNat < bound) :
    ∃ r, (∀ fuel, bound ≤ fuel → searchLoop known replies fuel i s e = some r) ∧ ∀ a, r = .ok a → a ≤ localh := by
  induction bound generalizing i s e with
  | zero => exact absurd hlen (Nat.not_lt_zero _)
  | succ bound ih =>
    have hdone := round_done (ht.bounds hv) (replies i) (ht i s e hv)
    cases hr : findAncestorRound (roundEnv known (replies i)) s e with
    | fail err =>
      refine ⟨.error err, fun fuel hf => ?_, nofun⟩
      obtain ⟨fuel, rfl⟩ : ∃ n, fuel = n + 1 := ⟨fuel - 1, by omega⟩
      rw [searchLoop, hr]
    | ancestor num =>
      rw [hr] at hdone
      refine ⟨.ok num, fun fuel hf => ?_, ?_⟩
      · obtain ⟨fuel, rfl⟩ : ∃ n, fuel = n + 1 := ⟨fuel - 1, by omega⟩
        rw [searchLoop, hr]
      · rintro a ⟨⟩
        cases hdone with
        | ancestor h => exact h
    | again s' e' =>
      rw [hr] at hdone
      cases hdone with
      | again hb hlt =>
        obtain ⟨r, hret, hok⟩ := ih (hv.next hr) (by omega)
        refine ⟨r, fun fuel hf => ?_, hok⟩
        obtain ⟨fuel, rfl⟩ : ∃ n, fuel = n + 1 := ⟨fuel - 1, by omega⟩
        rw [searchLoop, hr]
        exact hret fuel (by omega)

theorem Visits.loop (hv : Visits known replies localh i s e) (fuel : Nat) :
    searchAncestor known replies (fuel + i) localh = searchLoop known replies fuel i s e := by
  induction hv generalizing fuel with
  | first h =>
    rw [searchAncestor, if_neg h]
    rfl
  | @next i s e s' e' hv hr ih =>
    have hloop := ih (fuel + 1)
    rw [searchLoop, hr] at hloop
    rw [show fuel + (i + 1) = fuel + 1 + i by omega]
    exact hloop

/-- The ancestor search is robust as far as the headers the local chain has are
where they were asked for: this is when it makes finitely many requests, no
bound underflows and the ancestor is not above the local head. -/
theorem findAncestor_robust (known : Hash → UInt64 → Bool) (replies : Replies) (localh : UInt64) :
    ((∀ i s e, Visits known replies localh i s e → NoUnderflow s e) ∧
      ∃ r, (∃ n, ∀ fuel, n ≤ fuel → searchAncestor known replies fuel localh = some r) ∧ ∀ a, r = .ok a → a ≤ localh) ↔
    Tame known replies localh := by
  constructor
  · rintro ⟨hno, r, ⟨n, hr⟩, hok⟩ i s e hv headers h hreply hc
    have hnow := hno i s e hv
    obtain ⟨⟨start, count, skip, last⟩, hreq⟩ : ∃ q, request s e = q := ⟨_, rfl⟩
    have hround := searchRound_eq known hreq headers
    rw [← hreply, hc] at hround
    rw [Within, hreq]
    cases last with
    | true =>
      -- The search returns with the number of this header.
      have hloop := hv.loop (n + 1)
      rw [searchLoop, hround, hr _ (by omega)] at hloop
      cases hloop
      exact hok _ rfl
    | false =>
      rw [shrink] at hround
      refine (?_ : h.numberU64 ≤ e ∧ (h.numberU64 ≠ e → h.numberU64.toNat + skip.toNat < 2 ^ 64))
      by_cases hne : h.numberU64 = e
      · exact ⟨UInt64.le_iff_toNat_le.2 (by rw [hne]), fun h => absurd hne h⟩
      · -- The next round begins at this header.
        rw [if_neg hne] at hround
        have hsum : (h.numberU64 + skip.toUInt64).toNat = (h.numberU64.toNat + skip.toNat) % 2 ^ 64 := by
          rw [UInt64.toNat_add, UInt16.toNat_toUInt64]
        have hskip := skip.toNat_lt
        have hnum := h.numberU64.toNat_lt
        rw [UInt64.le_iff_toNat_le]
        split at hround
        · rename_i hgt
          have hnext := (hno _ _ _ (hv.next hround)).1
          rw [UInt64.le_iff_toNat_le, hsum] at hnext
          rw [gt_iff_lt, UInt64.lt_iff_toNat_lt, hsum] at hgt
          omega
        · rename_i hgt
          have hnext := (hno _ _ _ (hv.next hround)).1
          rw [UInt64.le_iff_toNat_le] at hnext
          rw [gt_iff_lt, UInt64.lt_iff_toNat_lt, hsum] at hgt
          omega
  · intro ht
    refine ⟨fun i s e hv => (ht.bounds hv).noUnderflow, ?_⟩
    by_cases h0 : localh = 0
    · exact ⟨.ok 0, ⟨0, fun fuel _ => by rw [searchAncestor, if_pos h0]⟩, fun a ha => by cases ha; exact UInt64.le_iff_toNat_le.2 (Nat.zero_le _)⟩
    · obtain ⟨r, hret, hok⟩ := ht.returns (.first h0) (Nat.lt_succ_self _)
      exact ⟨r, ⟨_, fun fuel hf => by rw [searchAncestor, if_neg h0]; exact hret fuel hf⟩, hok⟩

/-- A master that first has nothing in common, and then a header the local chain
has, but above what was asked for. -/
def strayReplies : Replies := fun i => if i = 0 then .ok [] else .ok [countingMaster.header 900]

/-- A local chain of 1000 blocks, and nothing else: the interval is turned
around, and the search does not end. -/
theorem findAncestor_stray_header :
    Visits (fun _ n => n ≤ 1000) strayReplies 1000 2 900 75 ∧ ¬ NoUnderflow 900 75 ∧
      ¬ ∃ fuel r, searchAncestor (fun _ n => n ≤ 1000) strayReplies fuel 1000 = some r := by
  have hfirst : Visits (fun _ n => n ≤ 1000) strayReplies 1000 1 1 75 := (Visits.first (by decide)).next (by decide)
  have hvisits : Visits (fun _ n => n ≤ 1000) strayReplies 1000 2 900 75 := hfirst.next (by decide)
  have hstay : findAncestorRound (roundEnv (fun _ n => n ≤ 1000) (.ok [countingMaster.header 900])) 900 75 = .again 900 75 := by
    decide
  have hloop : ∀ fuel i, i ≠ 0 → searchLoop (fun _ n => n ≤ 1000) strayReplies fuel i 900 75 = none := by
    intro fuel
    induction fuel with
    | zero => exact fun _ _ => rfl
    | succ fuel ih =>
      intro i hi
      rw [searchLoop, strayReplies, if_neg hi, hstay]
      exact ih (i + 1) (Nat.succ_ne_zero i)
  refine ⟨hvisits, by decide, ?_⟩
  rintro ⟨fuel, r, hr⟩
  match fuel with
  | 0 => cases hr
  | 1 => cases hr
  | fuel + 2 =>
    rw [hvisits.loop, hloop fuel 2 (by decide)] at hr
    cases hr

end NdnGeth.Eth
